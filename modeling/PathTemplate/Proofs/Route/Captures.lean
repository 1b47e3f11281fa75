/-
What the groups of a route capture.

A key is written as a group between its texts, perhaps once and perhaps not at all. `Reading` is
the division of a path that follows from this: every literal stands in the path, and so does every
key that took part, with what its group captured between its texts.

* `KeyShape.exists_content`: the four shapes of a capturing key are one.
* `TokensShape.traced`: the parts of tokens divide what they cover.
* `exists_reading_of_run`: where a matcher finds something, the path divides so, and the
  parameters are those of the captures.
-/

import PathTemplate.Matcher
import PathTemplate.Proofs.Expression.Tracing
import PathTemplate.Proofs.Route.Acceptance

namespace PathTemplate

namespace Expr

theorem groups_modified (e : Expr) (greedy : Bool) (modifier : Modifier) :
    (e.modified greedy modifier).groups = e.groups := by
  cases modifier <;> rfl

theorem isSimple_modified {e : Expr} (simple : e.isSimple = true) (greedy : Bool)
    (modifier : Modifier) : (e.modified greedy modifier).isSimple = true := by
  cases modifier <;> simp [modified, isSimple, simple]

theorem isSimple_join {parts : List Expr} (all : ∀ e ∈ parts, e.isSimple = true) :
    (join parts).isSimple = true :=
  @holds_join parts (·.isSimple = true) rfl (fun a b ha hb => by simp [isSimple, ha, hb]) all

theorem groups_spelling {fold : Bool} {text : String} :
    ∀ e ∈ spelling fold text, e.groups = [] := by
  intro e member
  obtain ⟨c, _, rfl⟩ := List.mem_map.1 member
  rfl

/-- An escaped text covers what it may stand for and captures nothing. -/
theorem traced_spelling (fold : Bool) (text : String) :
    Traced (spelling fold text) (.still (Language.spelled fold text.toList)) := by
  unfold spelling
  induction text.toList with
  | nil =>
    refine Traced.nil.mono ?_
    rintro p _ q ⟨rfl, rfl⟩
    exact ⟨.nil, rfl⟩
  | cons c text ih =>
    have one := @Traces.covers (spelled fold c) rfl rfl
    refine (one.single.append ih).mono ?_
    rintro p _ q ⟨_, v, m, rfl, ⟨⟨d, rfl, alike⟩, kept⟩, others, kept'⟩
    exact ⟨.cons alike others, kept'.trans kept⟩

end Expr

namespace Route

section Keys

variable {options : Options} {folds : Bool → Prop} {inner : Expr → Prop} {key : Key} {number : Nat}
  {e : Expr}

/-- What the group of a key holds. -/
inductive KeyContent (options : Options) (folds : Bool → Prop) (inner : Expr → Prop) (key : Key) :
    Expr → Prop where
  | single {x : Expr} : key.modifier.isRepeating = false → inner x →
      KeyContent options folds inner key x
  | bareRepeated (greedy : Bool) {x : Expr} : IsBare options key → key.modifier.isRepeating = true →
      inner x → KeyContent options folds inner key (x.modified greedy key.modifier)
  | affixedRepeated (further : Bool) {lead trail : List Expr} {x y : Expr} : ¬IsBare options key →
      key.modifier.isRepeating = true → Spells options folds key.trail trail →
      Spells options folds key.lead lead → inner x → inner y →
      KeyContent options folds inner key
        (.join ([x] ++ [(Expr.join (trail ++ (lead ++ [y]))).modified further .zeroOrMore]))

theorem Spells.groups {text : String} {parts : List Expr}
    (spells : Spells options folds text parts) :
    ∀ e ∈ parts, e.groups = [] := by
  obtain ⟨fold, -, rfl⟩ := spells
  exact Expr.groups_spelling

/-- Where the pattern has no groups, neither has what the group of the key holds. -/
theorem KeyContent.groups (free : ∀ x, inner x → x.groups = [])
    (content : KeyContent options folds inner key e) : e.groups = [] := by
  cases content with
  | single _ holds => exact free _ holds
  | bareRepeated greedy _ _ holds => rw [Expr.groups_modified, free _ holds]
  | affixedRepeated further _ _ trail lead holds holds' =>
    simp only [Expr.groups_join, Expr.groups_modified, List.flatMap_append, List.flatMap_cons,
      List.flatMap_nil, free _ holds, free _ holds', List.flatMap_eq_nil_iff.2 lead.groups,
      List.flatMap_eq_nil_iff.2 trail.groups, List.append_nil]

theorem Spells.isSimple {text : String} {parts : List Expr}
    (spells : Spells options folds text parts) :
    ∀ e ∈ parts, e.isSimple = true := by
  obtain ⟨fold, -, rfl⟩ := spells
  intro e member
  obtain ⟨c, _, rfl⟩ := List.mem_map.1 member
  rfl

theorem KeyContent.isSimple (simple : ∀ x, inner x → x.isSimple = true)
    (content : KeyContent options folds inner key e) : e.isSimple = true := by
  cases content with
  | single _ holds => exact simple _ holds
  | bareRepeated greedy _ _ holds => exact Expr.isSimple_modified (simple _ holds) _ _
  | @affixedRepeated further lead trail x y _ _ after before holds holds' =>
    have others : (Expr.join (trail ++ (lead ++ [y]))).isSimple = true :=
      Expr.isSimple_join (List.forall_mem_append.2 ⟨after.isSimple,
        List.forall_mem_append.2 ⟨before.isSimple, by simpa using simple _ holds'⟩⟩)
    refine Expr.isSimple_join (List.forall_mem_append.2 ⟨by simpa using simple _ holds, ?_⟩)
    simpa using Expr.isSimple_modified others further .zeroOrMore

/-- The group of a key stands between its texts, and all of that may be missing only if the key
may. -/
theorem KeyShape.exists_content (shape : KeyShape options folds inner key number e)
    (some : ∃ fold, folds fold) (pattern : key.pattern ≠ "") :
    ∃ lead trail content greedy modifier, Spells options folds key.lead lead ∧
      Spells options folds key.trail trail ∧ KeyContent options folds inner key content ∧
      (modifier = .once ∨ modifier = .optional ∧ key.modifier.isOptional = true) ∧
      e = (Expr.join (lead ++ ([.group number content] ++ trail))).modified greedy modifier := by
  have none (bare : IsBare options key) :
      Spells options folds key.lead [] ∧ Spells options folds key.trail [] := by
    obtain ⟨fold, may⟩ := some
    exact ⟨⟨fold, may, by rw [bare.1]; rfl⟩, fold, may, by rw [bare.2]; rfl⟩
  have atMostOnce (single : key.modifier.isRepeating = false) :
      key.modifier = .once ∨ key.modifier = .optional ∧ key.modifier.isOptional = true := by
    cases modifier : key.modifier <;> simp_all [Modifier.isRepeating, Modifier.isOptional]
  cases shape with
  | decoration greedy empty => exact absurd empty pattern
  | bare greedy _ bare single holds =>
    exact ⟨_, _, _, greedy, key.modifier, (none bare).1, (none bare).2, .single single holds,
      atMostOnce single, rfl⟩
  | bareRepeated greedy _ bare several holds =>
    exact ⟨_, _, _, greedy, .once, (none bare).1, (none bare).2,
      .bareRepeated greedy bare several holds, .inl rfl, rfl⟩
  | affixed greedy _ _ single lead trail holds =>
    exact ⟨_, _, _, greedy, key.modifier, lead, trail, .single single holds, atMostOnce single, rfl⟩
  | affixedRepeated greedy further _ affixed several lead trail trail' lead' holds holds' =>
    refine ⟨_, _, _, greedy, _, lead, trail,
      .affixedRepeated further affixed several trail' lead' holds holds', ?_, rfl⟩
    by_cases any : key.modifier = .zeroOrMore
    · rw [if_pos any]
      exact .inr ⟨rfl, by rw [any]; rfl⟩
    · rw [if_neg any]
      exact .inl rfl

/-- How the text of a key in a path divides, given what the group of the key captured. `language`
holds of what the group may capture. -/
inductive KeyReading (options : Options) (language : List Char → Prop) (key : Key) :
    Option (List Char) → List Char → Prop where
  | absent : key.modifier.isOptional = true → KeyReading options language key none []
  | present {lead c trail : List Char} :
      textLanguage options key.lead lead → language c → textLanguage options key.trail trail →
      KeyReading options language key (some c) (lead ++ (c ++ trail))

/-- A key leaves the captures of other keys alone and divides what it covers. -/
theorem KeyShape.traces {language : List Char → Prop}
    (contents : ∀ y, KeyContent options (· = !options.sensitive) inner key y →
      y.Traces (.still language))
    (shape : KeyShape options (· = !options.sensitive) inner key number e)
    (pattern : key.pattern ≠ "") :
    e.Traces fun p w q => (∀ k ≠ number, q.slots k = p.slots k) ∧
      (p.slots number = none → KeyReading options language key (q.slots number) w) := by
  obtain ⟨_, _, content, greedy, modifier, ⟨_, rfl, rfl⟩, ⟨_, rfl, rfl⟩, inside, times, rfl⟩ :=
    shape.exists_content ⟨_, rfl⟩ pattern
  have captured := ((contents content inside).group number).single
  have between := ((Expr.traced_spelling (!options.sensitive)
    (options.encodeLiteral key.lead)).append
    (captured.append
      (Expr.traced_spelling (!options.sensitive) (options.encodeLiteral key.trail)))).join
  have present : (Expr.join (spelling (!options.sensitive) (options.encodeLiteral key.lead) ++
      ([.group number content] ++
        spelling (!options.sensitive) (options.encodeLiteral key.trail)))).Traces fun p w q =>
          (∀ k ≠ number, q.slots k = p.slots k) ∧
            KeyReading options language key (q.slots number) w := by
    refine between.mono ?_
    rintro p _ q ⟨lead, _, m, rfl, ⟨before, kept⟩, c, trail, n, rfl, ⟨holds, filled⟩, after, kept'⟩
    rw [kept', filled, kept]
    refine ⟨fun k other => Function.update_of_ne other _ _, ?_⟩
    rw [Function.update_self]
    exact .present before holds after
  rcases times with rfl | ⟨rfl, optional⟩
  · exact present.mono fun p w q ⟨kept, reading⟩ => ⟨kept, fun _ => reading⟩
  · refine (present.optional greedy .refused).mono ?_
    rintro p w q (⟨rfl, rfl⟩ | ⟨kept, reading⟩)
    · exact ⟨fun _ _ => rfl, fun none => none ▸ .absent optional⟩
    · exact ⟨kept, fun _ => reading⟩

end Keys

/-- How the text of tokens in a path divides, given what the groups from `number` on captured. -/
def Reading (options : Options) (language : Key → List Char → Prop) (slots : Slots) :
    (number : Nat) → List Token → List Char → Prop
  | _, [], w => w = []
  | number, .literal text :: rest, w => ∃ u v, w = u ++ v ∧
      textLanguage options text u ∧ Reading options language slots number rest v
  | number, .key key :: rest, w => ∃ u v, w = u ++ v ∧
      KeyReading options (language key) key (slots number) u ∧
      Reading options language slots (number + 1) rest v

/-- The parts of tokens leave earlier captures alone and divide what they cover. -/
theorem TokensShape.traced {options : Options} {inner : Key → Expr → Prop}
    {language : Key → List Char → Prop} {opened : Nat} {tokens : List Token} {parts : List Expr}
    (contents : ∀ key ∈ keysOf tokens, ∀ y,
      KeyContent options (· = !options.sensitive) (inner key) key y →
        y.Traces (.still (language key)))
    (patterns : ∀ key ∈ keysOf tokens, key.pattern ≠ "")
    (shape : TokensShape options (· = !options.sensitive) inner opened tokens parts) :
    Expr.Traced parts fun p w q => (∀ k ≤ opened, q.slots k = p.slots k) ∧
      ((∀ k, opened < k → p.slots k = none) →
        Reading options language q.slots (opened + 1) tokens w) := by
  induction shape with
  | nil =>
    refine Expr.Traced.nil.mono ?_
    rintro p _ q ⟨rfl, rfl⟩
    exact ⟨fun _ _ => rfl, fun _ => rfl⟩
  | literal spelled _ ih =>
    obtain ⟨_, rfl, rfl⟩ := spelled
    refine ((Expr.traced_spelling _ _).append (ih contents patterns)).mono ?_
    rintro p _ q ⟨u, v, m, rfl, ⟨stands, kept⟩, kept', reading⟩
    rw [kept] at kept' reading
    exact ⟨kept', fun none => ⟨u, v, rfl, stands, reading none⟩⟩
  | @key opened key rest _ _ first _ ih =>
    obtain ⟨here, others⟩ := List.forall_mem_cons.1 contents
    obtain ⟨pattern, patterns⟩ := List.forall_mem_cons.1 patterns
    have capturing : key.isCapturing = true := by simp [Key.isCapturing, pattern]
    rw [if_pos capturing] at ih
    refine ((first.traces here pattern).single.append (ih others patterns)).mono ?_
    rintro p _ q ⟨u, v, m, rfl, ⟨kept, reading⟩, kept', reading'⟩
    constructor
    · intro k earlier
      rw [kept' k (by omega), kept k (by omega)]
    · intro none
      have mine : q.slots (opened + 1) = m.slots (opened + 1) := kept' _ (Nat.le_refl _)
      refine ⟨u, v, rfl, mine ▸ reading (none _ (by omega)), reading' fun k later => ?_⟩
      rw [kept k (by omega), none k (by omega)]

/-! ### Whole routes -/

section Whole

variable {options : Options} {inner : Key → Expr → Prop} {language : Key → List Char → Prop}
  {tokens : List Token} {parts : List Expr} {route : Route} {text : String} {found : PathMatch}

/-- The text is a delimiter that is tolerated at the end, letter case being what it is, or
nothing. -/
def Trailing (options : Options) (text : List Char) : Prop :=
  text = [] ∨ options.strict = false ∧
    ∃ c, text = [c] ∧ (delimiterSet (!options.sensitive) options).contains c = true

/-- What stands after the tokens covers no more than a delimiter and leaves the captures alone. -/
theorem TailShape.traced (closed : options.toEnd = true) (ends : options.endsWith = "")
    (shape : TailShape (!options.sensitive) false options tokens parts) :
    Expr.Traced parts fun p w q => Trailing options w ∧ q.slots = p.slots ∧ q.after = [] := by
  obtain ⟨greedy, rfl⟩ := shape
  rw [if_pos closed, if_pos ends]
  have last := (@Expr.Traces.covers (.edge .textEnd) rfl rfl).single
  have delimiter := @Expr.Traces.covers (.one (delimiterSet (!options.sensitive) options)) rfl rfl
  cases strict : options.strict with
  | true =>
    refine last.mono ?_
    rintro p w q ⟨covered, kept⟩
    obtain ⟨rfl, atEnd⟩ := covers_textEnd.1 covered
    exact ⟨.inl rfl, kept, atEnd⟩
  | false =>
    refine ((delimiter.optional greedy .refused).single.append last).mono ?_
    rintro p _ q ⟨d, w, m, rfl, first, covered, kept⟩
    obtain ⟨rfl, atEnd⟩ := covers_textEnd.1 covered
    rw [List.append_nil]
    rcases first with ⟨rfl, rfl⟩ | ⟨⟨c, rfl, belongs⟩, kept'⟩
    · exact ⟨.inl rfl, kept, atEnd⟩
    · exact ⟨.inr ⟨strict, c, rfl, belongs⟩, kept.trans kept', atEnd⟩

/-- A match divides the whole path into the texts of the tokens and perhaps a delimiter, and gives
the parameters that the captures are the values of. -/
theorem exists_reading_of_run (start : options.fromStart = true) (closed : options.toEnd = true)
    (ends : options.endsWith = "")
    (shape : RouteShape options (· = !options.sensitive) (· = false) inner tokens parts)
    (settled : (Expr.join parts).settled? = some route.expression.expr)
    (contents : ∀ key ∈ keysOf tokens, ∀ y,
      KeyContent options (· = !options.sensitive) (inner key) key y →
        y.Traces (.still (language key)))
    (patterns : ∀ key ∈ keysOf tokens, key.pattern ≠ "")
    (run : (Matcher.ofRoute options route).run text = some found) :
    ∃ w d slots, text.toList = w ++ d ∧ Trailing options d ∧
      Reading options language slots 1 tokens w ∧
      found = { path := text, index := 0, params := .ofList (Matcher.bindings options.decodeValue
        (fun number => (slots number).map String.ofList) 1 route.keys) } := by
  obtain ⟨middle, tail, _, _, rfl, rfl, tokensShape, tailShape, rfl⟩ := shape
  have first := (@Expr.Traces.covers (.edge .textStart) rfl rfl).single
  have whole := (first.append ((tokensShape.traced contents patterns).append
    (tailShape.traced closed ends))).join
  rw [if_pos start] at settled
  obtain ⟨captures, captured, rfl⟩ := Option.map_eq_some_iff.1 run
  obtain ⟨⟨begin, stop⟩, search, rfl⟩ := Option.map_eq_some_iff.1 captured
  obtain ⟨u, rest, split, rfl, head⟩ := Expr.searchFrom_eq_some search
  obtain ⟨_, advances, _, _, _, rfl, ⟨covered, kept⟩, w, d, m, rfl, ⟨_, reading⟩, trailing, kept',
    atEnd⟩ := whole _ (Expr.settles_of_settled? settled) _ _ _ (List.mem_of_mem_head? head)
  obtain ⟨rfl, before⟩ := covers_textStart.1 covered
  obtain rfl : u = [] := by simpa using before
  have all : text.toList = w ++ d := by
    have after := advances.after
    rw [atEnd] at after
    simpa [split] using after
  have size : stop.position = (w ++ d).length := by
    simpa using advances.position
  refine ⟨w, d, stop.slots, all, trailing, kept' ▸ reading fun k _ => kept ▸ rfl, ?_⟩
  have path : String.ofList (rest.take (stop.position - (0 + ([] : List Char).length))) = text := by
    rw [show rest = text.toList from split.symm, all, size, Nat.zero_add, List.length_nil,
      Nat.sub_zero, List.take_length, ← all, String.ofList_toList]
  have slots : (fun number => (stop.capture? number).map fun c => String.ofList c.text) =
      fun number => (stop.slots number).map String.ofList := by
    funext number
    rw [Place.slots, Option.map_map]
    rfl
  simp only [path, slots, List.reverse_nil, List.append_nil, List.foldl_nil, Matcher.ofRoute]

end Whole

end Route

end PathTemplate
