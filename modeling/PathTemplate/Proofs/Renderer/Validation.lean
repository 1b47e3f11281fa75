/-
Rendering with validation and without.

Validation looks at each text that is written for a key, after the key has been found to have a value
of the right form. So a renderer that validates does what one does that does not, but that it fails
with the first text that is not accepted.

* `Renderer.textFor_checked`: what is written for a token, and `Renderer.mapM_checked`: for tokens.
* `Renderer.render_checked`: the two renderers of the same tokens.
-/

import PathTemplate.Proofs.Renderer.Acceptance

namespace PathTemplate

namespace Renderer

/-! ### Texts that are written for keys -/

/-- A text that is written for a key, after encoding. -/
structure Segment where
  key : Key
  text : String
  /-- The value has several texts. -/
  several : Bool

/-- What rendering fails with if the text is not accepted. -/
def Segment.refusal (segment : Segment) : RenderError :=
  if segment.several then
    .repeatedMismatch segment.key.name segment.key.pattern segment.text
  else .mismatch segment.key.name segment.key.pattern segment.text

/-- The texts that are written for a token, in order. -/
def segmentsOf (options : Options) (params : Params) : Token → List Segment
  | .literal _ => []
  | .key key =>
    match params.get? key.name with
    | none => []
    | some (.single text) => [{ key, text := options.encodeValue text key, several := false }]
    | some (.repeated texts) => texts.map fun text =>
      { key, text := options.encodeValue text key, several := true }

/-- The texts that are written for tokens. -/
def segments (options : Options) (params : Params) (tokens : List Token) : List Segment :=
  tokens.flatMap (segmentsOf options params)

/-- A text in place of the error of the first segment that fails. -/
def check (fails : Segment → Bool) (segments : List Segment) {α : Type} (result : α) :
    Except RenderError α :=
  match segments.find? fails with
  | some segment => .error segment.refusal
  | none => .ok result

section Check

variable {fails : Segment → Bool} {α β : Type}

theorem check_append (as bs : List Segment) (a : α) :
    check fails (as ++ bs) a = (check fails as a).bind fun a => check fails bs a := by
  unfold check
  rw [List.find?_append]
  cases as.find? fails <;> rfl

theorem check_cons (segment : Segment) (segments : List Segment) (a : α) :
    check fails (segment :: segments) a =
      if fails segment then .error segment.refusal else check fails segments a := by
  unfold check
  rw [List.find?_cons]
  cases fails segment <;> rfl

theorem map_check (f : α → β) (segments : List Segment) (a : α) :
    (check fails segments a).map f = check fails segments (f a) := by
  unfold check
  cases segments.find? fails <;> rfl

theorem check_eq_ok {segments : List Segment} (passed : ∀ segment ∈ segments, fails segment = false)
    (a : α) : check fails segments a = .ok a := by
  have none : segments.find? fails = none :=
    List.find?_eq_none.2 fun segment member => Bool.eq_false_iff.1 (passed segment member)
  rw [check, none]

theorem check_eq_error {before after : List Segment} {segment : Segment}
    (passed : ∀ other ∈ before, fails other = false) (failed : fails segment = true) (a : α) :
    check fails (before ++ segment :: after) a = .error segment.refusal := by
  rw [check_append, check_eq_ok passed]
  exact (check_cons ..).trans (if_pos failed)

/-- The result stands, or it is replaced by the error of a segment. -/
theorem check_cases (fails : Segment → Bool) (segments : List Segment) (a : α) :
    check fails segments a = .ok a ∨
      ∃ segment ∈ segments, check fails segments a = .error segment.refusal := by
  unfold check
  cases found : segments.find? fails with
  | none => exact .inl rfl
  | some segment => exact .inr ⟨segment, List.mem_of_find?_eq_some found, rfl⟩

end Check

/-! ### Token by token -/

section Tokens

variable {options : Options} {params : Params} {tokens : List Token}

/-- The validator of its key does not accept the segment. -/
def Segment.fails (options : Options) (segment : Segment) : Bool :=
  !passes (validator options.sensitive segment.key).toOption segment.text

/-- Nothing is refused without validation. -/
theorem exists_renderRepeated {encode : String → Key → String} (key : Key) (texts : List String) :
    ∃ written, renderRepeated encode key none texts = .ok written := by
  cases result : renderRepeated encode key none texts with
  | ok written => exact ⟨written, rfl⟩
  | error error =>
    obtain ⟨_, _, _, _, _, refused, _⟩ := renderRepeated_eq_error_iff.1 result
    cases refused

theorem renderRepeated_checked (key : Key) (texts : List String) :
    renderRepeated options.encodeValue key (validator options.sensitive key).toOption texts =
      (renderRepeated options.encodeValue key none texts).bind
        (check (Segment.fails options) (texts.map fun text =>
          { key, text := options.encodeValue text key, several := true })) := by
  induction texts with
  | nil => rfl
  | cons text texts ih =>
    obtain ⟨rest, written⟩ := @exists_renderRepeated options.encodeValue key texts
    rw [written] at ih
    rw [renderRepeated, renderRepeated, ih, written, List.map_cons]
    have all : passes none (options.encodeValue text key) = true := rfl
    rw [if_pos all]
    refine Eq.trans ?_ (check_cons _ _ _).symm
    cases accepted : passes (validator options.sensitive key).toOption (options.encodeValue text key) with
    | true =>
      simp only [Segment.fails, accepted, if_true, Bool.not_true, Bool.false_eq_true, if_false]
      exact map_check _ _ _
    | false =>
      simp only [Segment.fails, accepted, Bool.not_false, Bool.false_eq_true, if_false, if_true]
      rfl

/-- What is written for a token is what would be written without validation, unless a segment of the
token fails. -/
theorem textFor_checked (token : Token) :
    textFor { options with validate := true } params token =
      (textFor { options with validate := false } params token).bind
        (check (Segment.fails options) (segmentsOf options params token)) := by
  cases token with
  | literal text => rfl
  | key key =>
    have checked : validatorFor { options with validate := true } key =
      (validator options.sensitive key).toOption := rfl
    have unchecked : validatorFor { options with validate := false } key = none := rfl
    rw [textFor, textFor, checked, unchecked, segmentsOf]
    cases params.get? key.name with
    | none =>
      simp only [renderKey]
      split <;> rfl
    | some value =>
      cases value with
      | single text =>
        simp only [renderKey, show passes none (options.encodeValue text key) = true from rfl, if_true]
        refine Eq.trans ?_ (check_cons _ _ _).symm
        cases accepted :
          passes (validator options.sensitive key).toOption (options.encodeValue text key) <;>
          simp only [Segment.fails, accepted, Bool.not_true, Bool.not_false, Bool.false_eq_true,
            if_false, if_true] <;> rfl
      | repeated texts =>
        simp only [renderKey]
        split
        · rfl
        · split
          · rfl
          · exact renderRepeated_checked key texts

/-- So it is for tokens one after the other. -/
theorem mapM_checked {texts : List String}
    (written : tokens.mapM (textFor { options with validate := false } params) = .ok texts) :
    tokens.mapM (textFor { options with validate := true } params) =
      check (Segment.fails options) (segments options params tokens) texts := by
  induction tokens generalizing texts with
  | nil =>
    cases written
    rfl
  | cons token tokens ih =>
    rw [List.mapM_cons] at written ⊢
    obtain ⟨text, first, others⟩ := exists_of_bind_eq_ok written
    obtain ⟨rest, later, same⟩ := exists_of_bind_eq_ok others
    cases same
    have cons : segments options params (token :: tokens) =
        segmentsOf options params token ++ segments options params tokens := List.flatMap_cons
    rw [textFor_checked, first, ih later, cons, check_append]
    unfold check
    cases (segmentsOf options params token).find? (Segment.fails options) <;>
      cases (segments options params tokens).find? (Segment.fails options) <;> rfl

/-- A token for which nothing can be written without validation is refused for the same reason, if
no token before it is refused. -/
theorem mapM_checked_error {before later : List Token} {key : Key} {texts : List String}
    {error : RenderError}
    (written : before.mapM (textFor { options with validate := false } params) = .ok texts)
    (fails : textFor { options with validate := false } params (.key key) = .error error) :
    (before ++ .key key :: later).mapM (textFor { options with validate := true } params) =
      (check (Segment.fails options) (segments options params before) texts).bind
        fun _ => .error error := by
  rw [List.mapM_append, mapM_checked written, List.mapM_cons, textFor_checked, fails]
  cases check (Segment.fails options) (segments options params before) texts <;> rfl

end Tokens

/-! ### The two renderers -/

/-- A segment belongs to a key of the tokens. -/
theorem key_of_mem_segments {options : Options} {params : Params} {tokens : List Token}
    {segment : Segment} (member : segment ∈ segments options params tokens) :
    segment.key ∈ keysOf tokens := by
  obtain ⟨token, present, inside⟩ := List.mem_flatMap.1 member
  cases token with
  | literal text => cases inside
  | key key =>
    have own : segment.key = key := by
      rw [segmentsOf] at inside
      split at inside
      · cases inside
      · obtain rfl := List.mem_singleton.1 inside
        rfl
      · obtain ⟨text, _, rfl⟩ := List.mem_map.1 inside
        rfl
    exact own ▸ List.mem_filterMap.2 ⟨_, present, rfl⟩

/-- The validator and the pattern itself accept the same segments, where the patterns are expressions
of their own. -/
theorem fails_eq {options : Options} {params : Params} {tokens : List Token} {strict : Renderer}
    (checked : ofTokens { options with validate := true } tokens = .ok strict)
    (alone : ∀ key ∈ keysOf tokens, (key.alone? options.sensitive).isSome = true)
    {segment : Segment} (member : segment ∈ segments options params tokens) :
    segment.fails options = !segment.key.accepts options.sensitive segment.text := by
  have isKey := key_of_mem_segments member
  rw [ofTokens_eq] at checked
  obtain ⟨parts, made, -⟩ := map_eq_ok checked
  obtain ⟨expression, valid⟩ := (exists_mapM_part_iff rfl).1 ⟨parts, made⟩ _ isKey
  rw [← isMatch_eq_accepts (alone _ isKey) valid, Segment.fails]
  simp only [valid]
  rfl

/-- Validation only rejects. -/
theorem render_checked {options : Options} {tokens : List Token} {strict lenient : Renderer}
    (checked : ofTokens { options with validate := true } tokens = .ok strict)
    (unchecked : ofTokens { options with validate := false } tokens = .ok lenient)
    (params : Params) :
    (∀ path, strict.render params = .ok path → lenient.render params = .ok path) ∧
    ((∀ key ∈ keysOf tokens, (key.alone? options.sensitive).isSome = true) →
      ∀ path, lenient.render params = .ok path →
        ((∀ segment ∈ segments options params tokens,
            segment.key.accepts options.sensitive segment.text = true) →
          strict.render params = .ok path) ∧
        ∀ before segment after, segments options params tokens = before ++ segment :: after →
          (∀ other ∈ before, other.key.accepts options.sensitive other.text = true) →
          segment.key.accepts options.sensitive segment.text = false →
          strict.render params = .error segment.refusal) ∧
    (∀ error, lenient.render params = .error error →
      ∃ before key later, tokens = before ++ .key key :: later ∧
        (∃ texts, before.mapM (textFor { options with validate := false } params) = .ok texts) ∧
        Refused options.encodeValue key none (params.get? key.name) error ∧
        (strict.render params = .error error ∨
          ∃ segment ∈ segments options params before,
            strict.render params = .error segment.refusal)) ∧
    ∀ name pattern value, lenient.render params ≠ .error (.mismatch name pattern value) ∧
      lenient.render params ≠ .error (.repeatedMismatch name pattern value) := by
  have strict_eq := render_eq checked params
  have lenient_eq := render_eq unchecked params
  have refused {error : RenderError} (failed : lenient.render params = .error error) :
      ∃ before key later, tokens = before ++ .key key :: later ∧
        (∃ texts, before.mapM (textFor { options with validate := false } params) = .ok texts) ∧
        Refused options.encodeValue key none (params.get? key.name) error ∧
        (strict.render params = .error error ∨
          ∃ segment ∈ segments options params before,
            strict.render params = .error segment.refusal) := by
    obtain ⟨before, key, later, rfl, ⟨texts, written⟩, reason⟩ :=
      (render_eq_error_iff unchecked).1 failed
    refine ⟨before, key, later, rfl, ⟨texts, written⟩, reason, ?_⟩
    rw [strict_eq, mapM_checked_error written (renderKey_eq_error_iff.2 reason)]
    rcases check_cases (Segment.fails options) (segments options params before) texts with
      passed | ⟨segment, member, failed⟩
    · exact .inl (by rw [passed]; rfl)
    · exact .inr ⟨segment, member, by rw [failed]; rfl⟩
  have kept {path : String} (rendered : lenient.render params = .ok path) :
      strict.render params = check (Segment.fails options) (segments options params tokens) path := by
    rw [lenient_eq] at rendered
    obtain ⟨texts, written, rfl⟩ := map_eq_ok rendered
    rw [strict_eq, mapM_checked written, map_check]
  refine ⟨fun path rendered => ?_, fun alone path rendered => ?_, fun _ => refused,
    fun name pattern value => ⟨fun failed => ?_, fun failed => ?_⟩⟩
  · cases found : lenient.render params with
    | ok path' =>
      rw [kept found] at rendered
      rcases check_cases (Segment.fails options) (segments options params tokens) path' with
        same | ⟨_, _, same⟩ <;> rw [same] at rendered <;> cases rendered
      rfl
    | error error =>
      obtain ⟨_, _, _, _, _, _, same | ⟨segment, _, same⟩⟩ := refused found <;>
        rw [rendered] at same <;> cases same
  · rw [kept rendered]
    refine ⟨fun accepted => check_eq_ok (fun segment member => ?_) path,
      fun before segment after split accepted failed => ?_⟩
    · rw [fails_eq checked alone member, accepted segment member]
      rfl
    · have inside {other : Segment} (member : other ∈ before ++ segment :: after) :
          other.fails options = !other.key.accepts options.sensitive other.text :=
        fails_eq checked alone (split ▸ member)
      rw [split]
      refine check_eq_error (fun other member => ?_) ?_ path
      · rw [inside (List.mem_append_left _ member), accepted other member]
        rfl
      · rw [inside (List.mem_append_right _ List.mem_cons_self), failed]
        rfl
  · obtain ⟨_, key, _, _, _, reason, _⟩ := refused failed
    generalize params.get? key.name = value at reason
    cases reason with
    | mismatch never => cases never
  · obtain ⟨_, key, _, _, _, reason, _⟩ := refused failed
    generalize params.get? key.name = value at reason
    cases reason with
    | repeatedMismatch _ _ never => cases never

/-- A pattern with a capture group and a reference, and several values of which the second one is not
accepted. -/
theorem render_checked_reference :
    let options : Options := { sensitive := true }
    let key : Key := { name := .explicit "a", lead := "/", pattern := "(x|y)\\1", modifier := .oneOrMore }
    let tokens : List Token := [.literal "/", .key key]
    let params : Params := .ofList [(.explicit "a", .repeated ["xx", "xy", "z"])]
    ∃ strict lenient, ofTokens { options with validate := true } tokens = .ok strict ∧
      ofTokens { options with validate := false } tokens = .ok lenient ∧
      lenient.render params = .ok "//xx/xy/z" ∧
      strict.render params = .error (.repeatedMismatch (.explicit "a") "(x|y)\\1" "xy") := by
  intro options key tokens params
  have evaluated : ((ofTokens { options with validate := true } tokens).toOption.bind fun _ =>
      (ofTokens { options with validate := false } tokens).toOption.bind fun lenient =>
        (lenient.render params).toOption) = some "//xx/xy/z" := by
    decide +kernel
  simp only [Option.bind_eq_some_iff, toOption_eq_some_iff] at evaluated
  obtain ⟨strict, checked, lenient, unchecked, rendered⟩ := evaluated
  refine ⟨strict, lenient, checked, unchecked, rendered, ?_⟩
  obtain ⟨-, accepted, -⟩ := render_checked checked unchecked params
  have alone : ∀ key ∈ keysOf tokens, (key.alone? options.sensitive).isSome = true := by
    decide +kernel
  have first : ∀ other ∈ [({ key, text := "xx", several := true } : Segment)],
      other.key.accepts options.sensitive other.text = true := by
    intro other member
    obtain rfl := List.mem_singleton.1 member
    decide +kernel
  exact (accepted alone _ rendered).2 [{ key, text := "xx", several := true }]
    { key, text := "xy", several := true } [{ key, text := "z", several := true }]
    rfl first (by decide +kernel)

/-- Where the pattern is no expression of its own, its validator may accept what begins or ends as
one of its branches does: the class swallows the parenthesis that would close it. -/
theorem exists_render_not_accepted :
    let tokens : List Token := [.key { name := .ordinal 0, pattern := "[(?])|(?:[)]" }]
    (tokensOf {} "([(?])|(?:[)])").toOption = some tokens ∧
      ((ofTokens {} tokens).toOption.bind fun strict =>
        (strict.render (.ofList [(.ordinal 0, .single "(x")])).toOption) = some "(x" ∧
      (∀ key ∈ keysOf tokens, key.accepts false "(x" = false) := by
  decide +kernel

end Renderer

end PathTemplate
