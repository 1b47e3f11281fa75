/-
Rendering what was matched.

Between the texts of a key a renderer writes what the group of the key captured, piece by piece
where the key is repeated. So it gives back the part of a matched path that belongs to the tokens,
and nothing of the path is lost but a delimiter that was tolerated at the end.

* `Matcher.get?_bindings`: the parameters of a match are the values of the captures.
* `renderKey_of_reading` and `render_of_reading`: keys and tokens are rendered as they were read.
* `exists_render_of_run`: the path of a match is the rendered one.
-/

import PathTemplate.Proofs.Params
import PathTemplate.Proofs.Pieces
import PathTemplate.Proofs.Token.Names
import PathTemplate.Proofs.Route.Captures
import PathTemplate.Proofs.Route.Rendering

namespace PathTemplate

/-! ### Parameters of a match -/

namespace Matcher

variable {decode : String → Key → String} {group? : Nat → Option String} {number : Nat}
  {keys : List Key}

/-- Bindings are those of some of the keys, in their order. -/
theorem names_bindings :
    ((bindings decode group? number keys).map Prod.fst).Sublist (keys.map Key.name) := by
  induction keys generalizing number with
  | nil => exact .slnil
  | cons key keys ih =>
    rw [bindings, List.map_append, List.map_cons]
    cases group? number with
    | none => exact ih.cons _
    | some captured => exact ih.cons_cons _

/-- A binding is that of one of the keys to the value of its capture. -/
theorem exists_of_mem_bindings {name : Name} {value : Value}
    (member : (name, value) ∈ bindings decode group? number keys) :
    ∃ i key captured, keys[i]? = some key ∧ group? (number + i) = some captured ∧
      key.name = name ∧ key.value decode captured = value := by
  induction keys generalizing number with
  | nil => cases member
  | cons key keys ih =>
    rcases List.mem_append.1 member with here | member
    · obtain ⟨captured, filled, same⟩ := Option.map_eq_some_iff.1 (Option.mem_toList.1 here)
      cases same
      exact ⟨0, key, captured, rfl, filled, rfl, rfl⟩
    · obtain ⟨i, other, captured, place, filled, found⟩ := ih member
      rw [Nat.add_assoc, Nat.add_comm 1] at filled
      exact ⟨i + 1, other, captured, place, filled, found⟩

/-- Where all keys have different names, each has the value of its capture. -/
theorem get?_bindings (nodup : (keys.map Key.name).Nodup) {i : Nat} {key : Key}
    (here : keys[i]? = some key) :
    (Params.ofList (bindings decode group? number keys)).get? key.name =
      (group? (number + i)).map (key.value decode) := by
  rw [Params.get?_ofList (names_bindings.nodup nodup)]
  induction keys generalizing number i with
  | nil => cases here
  | cons first keys ih =>
    obtain ⟨fresh, nodup⟩ := List.nodup_cons.1 nodup
    rw [bindings]
    cases i with
    | zero =>
      obtain rfl : first = key := by simpa using here
      have others : (bindings decode group? (number + 1) keys).lookup first.name = none :=
        Params.lookup_eq_none_of_notMem fun member => fresh (names_bindings.subset member)
      cases captured : group? number with
      | none => simpa [captured] using others
      | some text => simp
    | succ i =>
      have later : key.name ∈ keys.map Key.name :=
        List.mem_map_of_mem (List.mem_of_getElem? (by simpa using here))
      have other : (key.name == first.name) = false := by
        refine beq_eq_false_iff_ne.2 fun same => fresh ?_
        exact same ▸ later
      have rest := @ih (number + 1) nodup i (by simpa using here)
      rw [Nat.add_assoc, Nat.add_comm 1] at rest
      cases group? number with
      | none => exact rest
      | some text => simpa [List.lookup_cons, other] using rest

end Matcher

/-! ### Rendering what groups captured -/

namespace Route

section Rendering

variable {options : Options} {language : Key → List Char → Prop} {key : Key}
  {encode : String → Key → String} (identity : ∀ text key, encode text key = text)

/-- Pieces between the texts of the key are the captured text between them. -/
theorem flatMap_segments {lead trail first : List Char} {others : List (List Char)} :
    (first :: others).flatMap (fun piece => lead ++ (piece ++ trail)) =
      lead ++ ((trail ++ lead).intercalate (first :: others) ++ trail) := by
  induction others generalizing first with
  | nil => simp [List.intercalate]
  | cons second others ih =>
    rw [List.flatMap_cons, ih, intercalate_cons (List.cons_ne_nil _ _)]
    simp only [List.append_assoc]

/-- The occurrences of a repeated key are not none, and between its texts they are the captured
text. -/
theorem flatMap_occurrences (captured : List Char) : key.occurrences (String.ofList captured) ≠ [] ∧
    (key.occurrences (String.ofList captured)).flatMap
      (fun value => key.lead.toList ++ (value.toList ++ key.trail.toList)) =
        key.lead.toList ++ (captured ++ key.trail.toList) := by
  refine ⟨key.occurrences_ne_nil _, ?_⟩
  obtain ⟨first, others, parts⟩ :=
    List.exists_cons_of_ne_nil (key.occurrences_ne_nil (String.ofList captured))
  have whole := congrArg String.toList (key.intercalate_occurrences (String.ofList captured))
  rw [parts, String.toList_intercalate, String.toList_ofList, Key.separator,
    String.toList_append, List.map_cons] at whole
  have segments := @flatMap_segments key.lead.toList key.trail.toList first.toList
    (others.map String.toList)
  rw [whole, ← List.map_cons, List.flatMap_map] at segments
  rw [parts]
  exact segments

include identity

theorem renderRepeated_eq (values : List String) :
    Renderer.renderRepeated encode key none values = .ok (String.ofList (values.flatMap
      fun value => key.lead.toList ++ (value.toList ++ key.trail.toList))) := by
  induction values with
  | nil => rfl
  | cons value values ih =>
    simp only [Renderer.renderRepeated, Renderer.passes, Option.all_none, if_true, ih, identity]
    refine congrArg Except.ok (String.toList_inj.1 ?_)
    simp [Renderer.segment]

/-- A key is rendered as it was read. -/
theorem renderKey_of_reading (sensitive : options.sensitive = true)
    (literal : options.encodeLiteral = id) {captured : Option (List Char)} {w : List Char}
    (reading : KeyReading options (language key) key captured w) :
    Renderer.renderKey encode key none
      ((captured.map String.ofList).map (key.value fun text _ => text)) =
        .ok (String.ofList w) := by
  cases reading with
  | absent optional => simp [Renderer.renderKey, optional]
  | @present lead c trail before _ after =>
    rw [textLanguage_sensitive sensitive, literal] at before after
    subst before after
    cases several : key.modifier.isRepeating with
    | false =>
      simp only [Option.map_some, Key.value, several, Bool.false_eq_true, if_false,
        Renderer.renderKey, Renderer.passes, Option.all_none, if_true, identity]
      refine congrArg Except.ok (String.toList_inj.1 ?_)
      simp [Renderer.segment]
    | true =>
      obtain ⟨some, whole⟩ := @flatMap_occurrences key c
      simp only [Option.map_some, Key.value, several, if_true, List.map_id', Renderer.renderKey,
        Bool.not_true, Bool.false_eq_true, if_false, List.isEmpty_eq_false_iff.2 some,
        Bool.false_and, renderRepeated_eq identity, whole]
      simp

/-- Tokens are rendered as they were read. -/
theorem render_of_reading (sensitive : options.sensitive = true)
    (literal : options.encodeLiteral = id) {slots : Slots} {number : Nat} {tokens : List Token}
    {params : Params} {w : List Char}
    (known : ∀ i key, (keysOf tokens)[i]? = some key → params.get? key.name =
      ((slots (number + i)).map String.ofList).map (key.value fun text _ => text))
    (reading : Reading options language slots number tokens w) :
    ∃ texts, (tokens.map fun token => (token, none)).mapM (Renderer.renderPart encode params) =
      .ok texts ∧ String.join texts = String.ofList w := by
  induction tokens generalizing number w with
  | nil =>
    obtain rfl : w = [] := reading
    exact ⟨[], rfl, rfl⟩
  | cons token rest ih =>
    cases token with
    | literal text =>
      obtain ⟨u, v, rfl, stands, reading⟩ := reading
      rw [textLanguage_sensitive sensitive, literal] at stands
      subst stands
      obtain ⟨texts, rendered, joined⟩ := ih known reading
      refine ⟨text :: texts, ?_, ?_⟩
      · rw [List.map_cons, List.mapM_cons, rendered]
        rfl
      · rw [String.join_cons, joined, String.ofList_append]
        simp
    | key key =>
      obtain ⟨u, v, rfl, here, reading⟩ := reading
      obtain ⟨texts, rendered, joined⟩ := @ih (number + 1) _ (fun i other member => by
        rw [known (i + 1) other (by simpa [keysOf, Token.key?] using member), Nat.add_assoc,
          Nat.add_comm 1]) reading
      have value := known 0 key (by simp [keysOf, Token.key?])
      refine ⟨String.ofList u :: texts, ?_, ?_⟩
      · rw [List.map_cons, List.mapM_cons, rendered, Renderer.renderPart, value, Nat.add_zero,
          renderKey_of_reading identity sensitive literal here]
        rfl
      · rw [String.join_cons, joined, String.ofList_append]

end Rendering

/-! ### Whole paths -/

section Whole

variable {options : Options} {pattern : String} {tokens : List Token} {matcher : Matcher}

theorem ofInput_pattern (parsed : tokensOf options pattern = .ok tokens)
    (made : Matcher.ofInput options (.pattern pattern) = .ok matcher) :
    ∃ route, ofTokens options tokens = .ok route ∧ matcher = .ofRoute options route := by
  cases check : options.check with
  | error error =>
    rw [Matcher.ofInput, ofInput_of_parsed parsed, check] at made
    cases made
  | ok =>
    rw [Matcher.ofInput, ofInput_of_parsed parsed, check] at made
    cases compiled : ofTokens options tokens with
    | error error =>
      simp only [compiled] at made
      cases made
    | ok route =>
      simp only [compiled] at made
      cases made
      exact ⟨route, rfl, rfl⟩

theorem ofInput_of_ofTokens {route : Route} (parsed : tokensOf options pattern = .ok tokens)
    (made : ofTokens options tokens = .ok route) :
    Matcher.ofInput options (.pattern pattern) = .ok (.ofRoute options route) := by
  have sound : options.check = .ok () :=
    Options.check_eq_ok_iff.2 (delimiter_of_ofTokens made).1
  rw [Matcher.ofInput, ofInput_of_parsed parsed, sound]
  exact congrArg (Except.map _) made

theorem ofPattern_of_parsed (parsed : tokensOf options pattern = .ok tokens) :
    Renderer.ofPattern options pattern = Renderer.ofTokens options tokens := by
  simp only [Renderer.ofPattern, parsed]
  rfl

theorem ofPattern_unvalidated (parsed : tokensOf options pattern = .ok tokens)
    (unvalidated : options.validate = false) :
    Renderer.ofPattern options pattern =
      .ok { parts := tokens.map fun token => (token, none), encode := options.encodeValue } := by
  have parts : tokens.mapM (Renderer.part options) =
      .ok (tokens.map fun token => (token, none)) := by
    clear parsed
    induction tokens with
    | nil => rfl
    | cons token tokens ih =>
      have first : Renderer.part options token = .ok (token, none) := by
        cases token <;> simp [Renderer.part, unvalidated]
      rw [List.mapM_cons, first, ih]
      rfl
  rw [ofPattern_of_parsed parsed, Renderer.ofTokens, parts]
  rfl

/-- What holds of a self-contained pattern that confines its flags is what a route relies on. -/
theorem flagsAfter_of_confinesFlags {key : Key} (sensitive : options.sensitive = true)
    (literal : options.encodeLiteral = id) (alone : isSelfContained key.pattern = true)
    (confined : key.ConfinesFlags) :
    FlagsAfter options (· = !options.sensitive) (Flags.IsCalm false) key
      (flagsAtEnd key.pattern) := by
  intro single
  have spaced : (flagsAtEnd key.pattern).spaced = false := by
    unfold isSelfContained at alone
    unfold flagsAtEnd
    split at alone
    · simp_all
    · cases alone
  obtain ⟨fold, lines⟩ := confined.resolve_left (Bool.eq_false_iff.1 single)
  rw [IsBare, literal, sensitive]
  constructor
  · rintro ⟨lead, trail⟩
    refine ⟨?_, ?_, spaced⟩
    · exact Bool.eq_false_iff.2 fun set => (fold set).1 lead
    · exact Bool.eq_false_iff.2 fun set => (lines set).elim (· lead) (· trail)
  · intro trail
    exact ⟨Bool.eq_false_iff.2 fun set => trail (fold set).2, spaced⟩

/-- Where every custom pattern confines its flags, a match and the parameters that it gives are
one thing: rendering them gives the matched path, but for a delimiter that is tolerated at the
end. -/
theorem exists_render_of_run (sensitive : options.sensitive = true)
    (start : options.fromStart = true) (closed : options.toEnd = true)
    (ends : options.endsWith = "") (unvalidated : options.validate = false)
    (literal : options.encodeLiteral = id)
    (encode : ∀ text key, options.encodeValue text key = text)
    (decode : ∀ text key, options.decodeValue text key = text)
    (parsed : tokensOf options pattern = .ok tokens)
    (capturing : ∀ key ∈ keysOf tokens, key.pattern ≠ "")
    (custom : ∀ key ∈ keysOf tokens, key.pattern ≠ defaultPattern options.delimiter →
      isSelfContained key.pattern = true ∧ key.ConfinesFlags)
    (made : Matcher.ofInput options (.pattern pattern) = .ok matcher) {path : String}
    {found : PathMatch} (run : matcher.run path = some found) :
    ∃ renderer rendered, Renderer.ofPattern options pattern = .ok renderer ∧
      renderer.render found.params = .ok rendered ∧
        (path = rendered ∨
          options.strict = false ∧ ∃ c ∈ options.delimiter.toList, path = rendered.push c) := by
  obtain ⟨route, compiled, rfl⟩ := ofInput_pattern parsed made
  obtain ⟨delimited, -⟩ := delimiter_of_ofTokens compiled
  have calm : ∀ f : Flags, f.IsCalm false →
      f.fold = (!options.sensitive) ∧ f.lines = false ∧ f.spaced = false := by
    rw [sensitive]
    exact fun _ calm => calm
  have reads : ∀ key ∈ keysOf tokens, key.pattern ≠ "" → PatternReads false (Flags.IsCalm false)
      (FlagsAfter options (· = !options.sensitive) (Flags.IsCalm false) key) (·.groups = [])
      (pinShorthands key.pattern).toList := by
    intro key member nonempty
    by_cases default : key.pattern = defaultPattern options.delimiter
    · refine (patternReads_default false default delimited fun f h => ⟨(calm f h).1, h.2.2⟩).mono ?_
      rintro _ ⟨greedy, rfl⟩
      rfl
    · obtain ⟨alone, confined⟩ := custom key member default
      exact patternReads_selfContained nonempty alone
        (flagsAfter_of_confinesFlags sensitive literal alone confined)
  obtain ⟨parts, shape, settled, keys⟩ :=
    @exists_shape _ _ _ _ (fun _ e => e.groups = []) calm ⟨by rw [sensitive]; rfl, rfl, rfl⟩ reads
      compiled
  have allKeys : capturingKeys tokens = keysOf tokens :=
    List.filter_eq_self.2 fun key member => by simp [Key.isCapturing, capturing key member]
  have nodup := nodup_names_of_tokensOf parsed
  rw [allKeys] at keys nodup
  obtain ⟨w, d, slots, split, trailing, reading, rfl⟩ :=
    @exists_reading_of_run _ _ (fun _ _ => True) _ _ _ _ _ start closed ends shape settled
      (fun key member y content => .free (content.groups fun _ => id)) capturing run
  have decoder : options.decodeValue = fun text _ => text := by
    funext text key
    exact decode text key
  have known (i : Nat) (key : Key) (here : (keysOf tokens)[i]? = some key) :=
    @Matcher.get?_bindings (fun text _ => text) (fun number => (slots number).map String.ofList) 1
      _ nodup i key here
  rw [decoder, keys]
  obtain ⟨texts, rendered, joined⟩ := render_of_reading encode sensitive literal known reading
  refine ⟨_, String.ofList w, ofPattern_unvalidated parsed unvalidated, ?_, ?_⟩
  · rw [Renderer.render, rendered]
    exact congrArg Except.ok joined
  · rcases trailing with rfl | ⟨lax, c, rfl, belongs⟩
    · exact .inl (String.toList_inj.1 (by simpa using split))
    · rw [delimiterSet, sensitive] at belongs
      refine .inr ⟨lax, c, contains_listed.1 belongs, String.toList_inj.1 ?_⟩
      simpa using split

/-- A digit after a text is rendered as it was matched. -/
theorem exists_render_of_digit :
    ∃ matcher found renderer rendered,
      Matcher.ofInput { sensitive := true, strict := true, validate := false }
        (.pattern "/a(\\d)") = .ok matcher ∧ matcher.run "/a7" = some found ∧
      Renderer.ofPattern { sensitive := true, strict := true, validate := false } "/a(\\d)" =
        .ok renderer ∧ renderer.render found.params = .ok rendered ∧ "/a7" = rendered := by
  let options : Options := { sensitive := true, strict := true, validate := false }
  have parsed : (tokensOf options "/a(\\d)").toOption =
      some [.literal "/a", .key { name := .ordinal 0, pattern := "\\d" }] := by decide +kernel
  have matches_ : ((Matcher.ofInput options (.pattern "/a(\\d)")).toOption.bind fun matcher =>
      matcher.run "/a7").isSome = true := by decide +kernel
  obtain ⟨found, matched⟩ := Option.isSome_iff_exists.1 matches_
  obtain ⟨matcher, made, run⟩ := Option.bind_eq_some_iff.1 matched
  rw [toOption_eq_some_iff] at parsed made
  obtain ⟨renderer, rendered, renders, path, same⟩ :=
    exists_render_of_run rfl rfl rfl rfl rfl rfl (fun _ _ => rfl) (fun _ _ => rfl) parsed
      (by decide) (by decide) made run
  refine ⟨matcher, found, renderer, rendered, made, run, renders, path, ?_⟩
  exact same.resolve_right fun ⟨lax, _⟩ => nomatch lax

/-- Without that condition letter case is lost: the flag of the first pattern is still in force at
the literal after it, which matches in either case and is rendered in the one that it was written
in. -/
theorem exists_run_not_restored :
    ∃ matcher found renderer, isSelfContained "(?i)a" = true ∧
      Matcher.ofInput { sensitive := true, strict := true, validate := false }
        (.pattern "((?i)a)b") = .ok matcher ∧ matcher.run "aB" = some found ∧
      Renderer.ofPattern { sensitive := true, strict := true, validate := false } "((?i)a)b" =
        .ok renderer ∧ renderer.render found.params = .ok "ab" := by
  let options : Options := { sensitive := true, strict := true, validate := false }
  have evaluated : ((Matcher.ofInput options (.pattern "((?i)a)b")).toOption.bind fun matcher =>
      (matcher.run "aB").bind fun found =>
        (Renderer.ofPattern options "((?i)a)b").toOption.bind fun renderer =>
          (renderer.render found.params).toOption) = some "ab" := by decide +kernel
  simp only [Option.bind_eq_some_iff, toOption_eq_some_iff] at evaluated
  obtain ⟨matcher, made, found, run, renderer, renders, path⟩ := evaluated
  exact ⟨matcher, found, renderer, by decide +kernel, made, run, renders, path⟩

end Whole

end Route

end PathTemplate
