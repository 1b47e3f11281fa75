/-
Rendering, token by token.

A renderer writes what its tokens stand for, one after the other, and stops at the first key for
which nothing can be written. `Renderer.textFor` says what is written for a token, and
`Renderer.Refused` why nothing is, with one constructor for each reason.

* `renderKey_eq_error_iff`: nothing is written for a key for these reasons.
* `ofTokens_eq_ok`, `ofTokens_eq_error_iff`: the renderer of tokens, and why there is none.
* `render_eq`: rendering goes token by token.
* `ofTokens_render_append`: what is rendered for two token lists, one after the other.
-/

import PathTemplate.Renderer
import PathTemplate.Proofs.Results

namespace PathTemplate

namespace Renderer

/-! ### Why nothing is written -/

section Refused

variable {encode : String → Key → String} {key : Key} {validator : Option Expression}

/-- Why nothing can be written for a key with the value that is given for it. Of several texts, the
first that is not accepted is the reason. -/
inductive Refused (encode : String → Key → String) (key : Key) (validator : Option Expression) :
    Option Value → RenderError → Prop where
  | unexpectedRepeat {texts : List String} : key.modifier.isRepeating = false →
      Refused encode key validator (some (.repeated texts)) (.unexpectedRepeat key.name)
  | emptyRepeat : key.modifier.isRepeating = true → key.modifier.isOptional = false →
      Refused encode key validator (some (.repeated [])) (.emptyRepeat key.name)
  | repeatedMismatch {earlier later : List String} {text : String} :
      key.modifier.isRepeating = true →
      (∀ other ∈ earlier, passes validator (encode other key) = true) →
      passes validator (encode text key) = false →
      Refused encode key validator (some (.repeated (earlier ++ text :: later)))
        (.repeatedMismatch key.name key.pattern (encode text key))
  | mismatch {text : String} : passes validator (encode text key) = false →
      Refused encode key validator (some (.single text))
        (.mismatch key.name key.pattern (encode text key))
  | missingValue : key.modifier.isOptional = false →
      Refused encode key validator none (.missingValue key.name key.modifier.isRepeating)

theorem renderRepeated_eq_error_iff {texts : List String} {error : RenderError} :
    renderRepeated encode key validator texts = .error error ↔
      ∃ earlier text later, texts = earlier ++ text :: later ∧
        (∀ other ∈ earlier, passes validator (encode other key) = true) ∧
        passes validator (encode text key) = false ∧
        error = .repeatedMismatch key.name key.pattern (encode text key) := by
  constructor
  · intro failed
    induction texts with
    | nil => cases failed
    | cons text texts ih =>
      rw [renderRepeated] at failed
      split at failed
      · rename_i accepted
        obtain ⟨earlier, bad, later, rfl, fine, refused, same⟩ := ih (map_eq_error failed)
        exact ⟨text :: earlier, bad, later, rfl, List.forall_mem_cons.2 ⟨accepted, fine⟩, refused,
          same⟩
      · rename_i refused
        cases failed
        exact ⟨[], text, texts, rfl, nofun, by simpa using refused, rfl⟩
  · rintro ⟨earlier, text, later, rfl, fine, refused, rfl⟩
    induction earlier with
    | nil => simp [renderRepeated, refused]
    | cons other earlier ih =>
      obtain ⟨accepted, fine⟩ := List.forall_mem_cons.1 fine
      rw [List.cons_append, renderRepeated, if_pos accepted]
      exact map_eq_error_iff.2 (ih fine)

theorem renderKey_eq_error_iff {value : Option Value} {error : RenderError} :
    renderKey encode key validator value = .error error ↔
      Refused encode key validator value error := by
  constructor
  · intro failed
    unfold renderKey at failed
    split at failed
    · rename_i texts
      split at failed
      · rename_i once
        cases failed
        exact .unexpectedRepeat (by simpa using once)
      · rename_i repeats
        have repeats : key.modifier.isRepeating = true := by simpa using repeats
        split at failed
        · rename_i empty
          cases failed
          obtain ⟨rfl, needed⟩ : texts = [] ∧ key.modifier.isOptional = false := by
            simpa using empty
          exact .emptyRepeat repeats needed
        · obtain ⟨earlier, text, later, rfl, fine, refused, rfl⟩ :=
            renderRepeated_eq_error_iff.1 failed
          exact .repeatedMismatch repeats fine refused
    · simp only at failed
      split at failed
      · cases failed
      · rename_i refused
        cases failed
        exact .mismatch (by simpa using refused)
    · split at failed
      · cases failed
      · rename_i needed
        cases failed
        exact .missingValue (by simpa using needed)
  · intro refused
    cases refused with
    | unexpectedRepeat once => simp [renderKey, once]
    | emptyRepeat repeats needed => simp [renderKey, repeats, needed]
    | @repeatedMismatch earlier later text repeats fine refused =>
      have failed := renderRepeated_eq_error_iff.2 ⟨_, _, later, rfl, fine, refused, rfl⟩
      simp [renderKey, repeats, failed]
    | mismatch refused => simp [renderKey, refused]
    | missingValue needed => simp [renderKey, needed]

end Refused

/-! ### Token by token -/

section Tokens

variable {options : Options} {params other : Params} {renderer : Renderer}
  {tokens : List Token} {token : Token}

/-- The expression that the values of the key have to match, if they have to match one. -/
def validatorFor (options : Options) (key : Key) : Option Expression :=
  if options.validate then (validator options.sensitive key).toOption else none

/-- What is written for a token, or why nothing is. -/
def textFor (options : Options) (params : Params) : Token → Except RenderError String
  | .literal text => .ok text
  | .key key =>
    renderKey options.encodeValue key (validatorFor options key) (params.get? key.name)

theorem part_eq_ok {found : Token × Option Expression} (made : part options token = .ok found) :
    found = (token, token.key?.bind (validatorFor options)) := by
  cases token with
  | literal text =>
    cases made
    rfl
  | key key =>
    rw [part] at made
    split at made
    · rename_i validates
      obtain ⟨expression, valid, rfl⟩ := map_eq_ok made
      simp [Token.key?, validatorFor, validates, valid, Except.toOption]
    · rename_i validates
      cases made
      simp [Token.key?, validatorFor, validates]

theorem part_eq_error_iff {error : BuildError} :
    part options token = .error error ↔ options.validate = true ∧
      ∃ key, token = .key key ∧ validator options.sensitive key = .error error := by
  cases token with
  | literal text => exact ⟨nofun, fun ⟨_, _, other, _⟩ => nomatch other⟩
  | key key =>
    rw [part]
    split
    · rename_i validates
      simp [validates, map_eq_error_iff]
    · rename_i validates
      simp [validates]

theorem renderPart_eq (token : Token) :
    renderPart options.encodeValue params (token, token.key?.bind (validatorFor options)) =
      textFor options params token := by
  cases token <;> rfl

theorem ofTokens_eq (options : Options) (tokens : List Token) :
    ofTokens options tokens = (tokens.mapM (part options)).map fun parts =>
      { parts, encode := options.encodeValue } := by
  rw [ofTokens]
  cases tokens.mapM (part options) <;> rfl

/-- A renderer has its tokens, each with the expression that its values have to match. -/
theorem ofTokens_eq_ok (made : ofTokens options tokens = .ok renderer) :
    renderer = { parts := tokens.map fun token => (token, token.key?.bind (validatorFor options)),
                 encode := options.encodeValue } := by
  rw [ofTokens_eq] at made
  obtain ⟨parts, all, rfl⟩ := map_eq_ok made
  congr
  have each := mapM_eq_ok_iff.1 all
  clear made all
  induction each with
  | nil => rfl
  | cons here _ ih => rw [List.map_cons, ← ih, part_eq_ok here]

/-- A renderer writes its tokens one by one. -/
theorem render_eq (made : ofTokens options tokens = .ok renderer) (params : Params) :
    renderer.render params = (tokens.mapM (textFor options params)).map String.join := by
  obtain rfl := ofTokens_eq_ok made
  have each : (tokens.map fun token => (token, token.key?.bind (validatorFor options))).mapM
      (renderPart options.encodeValue params) = tokens.mapM (textFor options params) := by
    rw [List.mapM_map]
    apply mapM_congr
    intro token _
    exact renderPart_eq token
  rw [render, each]
  cases tokens.mapM (textFor options params) <;> rfl

theorem tokens_eq (made : ofTokens options tokens = .ok renderer) : renderer.tokens = tokens := by
  obtain rfl := ofTokens_eq_ok made
  rw [Renderer.tokens, List.map_map]
  exact List.map_id tokens

/-- Nothing is rendered where nothing can be written for a key, and the first such key is why. -/
theorem render_eq_error_iff (made : ofTokens options tokens = .ok renderer) {error : RenderError} :
    renderer.render params = .error error ↔
      ∃ before key after, tokens = before ++ .key key :: after ∧
        (∃ texts, before.mapM (textFor options params) = .ok texts) ∧
        Refused options.encodeValue key (validatorFor options key) (params.get? key.name)
          error := by
  rw [render_eq made, map_eq_error_iff, mapM_eq_error_iff]
  constructor
  · rintro ⟨before, token, after, texts, split, run, fails⟩
    cases token with
    | literal text => cases fails
    | key key => exact ⟨before, key, after, split, ⟨texts, run⟩, renderKey_eq_error_iff.1 fails⟩
  · rintro ⟨before, key, after, split, ⟨texts, run⟩, refused⟩
    exact ⟨before, .key key, after, texts, split, run, renderKey_eq_error_iff.2 refused⟩

theorem ofTokens_append (options : Options) (as bs : List Token) :
    ofTokens options (as ++ bs) = (do
      let a ← ofTokens options as
      let b ← ofTokens options bs
      return { parts := a.parts ++ b.parts, encode := options.encodeValue }) := by
  simp only [ofTokens, List.mapM_append]
  cases as.mapM (part options) with
  | error e => rfl
  | ok parts => cases bs.mapM (part options) <;> rfl

/-- The tokens have no renderer, and this is the error of the first key whose validator is
refused. -/
def IsFirstRefusal (options : Options) (tokens : List Token) (error : BuildError) : Prop :=
  options.validate = true ∧ ∃ before key after, tokens = before ++ .key key :: after ∧
    (∀ other ∈ keysOf before, ∃ expression, validator options.sensitive other = .ok expression) ∧
    validator options.sensitive key = .error error

theorem exists_mapM_part_iff (validates : options.validate = true) :
    (∃ parts, tokens.mapM (part options) = .ok parts) ↔
      ∀ key ∈ keysOf tokens, ∃ expression, validator options.sensitive key = .ok expression := by
  constructor
  · rintro ⟨parts, run⟩ key member
    obtain ⟨token, member, isKey⟩ := List.mem_filterMap.1 member
    obtain ⟨found, _, made⟩ := exists_of_forall₂_left (forall₂_of_mapM run) member
    cases token with
    | literal text => cases isKey
    | key key =>
      cases isKey
      rw [part, if_pos validates] at made
      obtain ⟨expression, valid, _⟩ := map_eq_ok made
      exact ⟨expression, valid⟩
  · intro each
    apply exists_mapM
    intro token member
    cases token with
    | literal text => exact ⟨_, rfl⟩
    | key key =>
      have isKey : key ∈ keysOf tokens := List.mem_filterMap.2 ⟨.key key, member, rfl⟩
      obtain ⟨expression, valid⟩ := each key isKey
      exact ⟨(.key key, some expression), by rw [part, if_pos validates, valid]; rfl⟩

theorem ofTokens_eq_error_iff {error : BuildError} :
    ofTokens options tokens = .error error ↔ IsFirstRefusal options tokens error := by
  rw [ofTokens_eq, map_eq_error_iff, mapM_eq_error_iff, IsFirstRefusal]
  constructor
  · rintro ⟨before, token, after, parts, rfl, run, fails⟩
    obtain ⟨validates, key, rfl, refused⟩ := part_eq_error_iff.1 fails
    exact ⟨validates, before, key, after, rfl, (exists_mapM_part_iff validates).1 ⟨parts, run⟩,
      refused⟩
  · rintro ⟨validates, before, key, after, rfl, valid, refused⟩
    obtain ⟨parts, run⟩ := (exists_mapM_part_iff validates).2 valid
    exact ⟨before, .key key, after, parts, rfl, run,
      part_eq_error_iff.2 ⟨validates, key, rfl, refused⟩⟩

theorem render_append {as bs : List Token} {a b both : Renderer}
    (first : ofTokens options as = .ok a) (second : ofTokens options bs = .ok b)
    (whole : ofTokens options (as ++ bs) = .ok both) (params : Params) :
    both.render params = (do
      let path ← a.render params
      let rest ← b.render params
      return path ++ rest) := by
  rw [render_eq first, render_eq second, render_eq whole, List.mapM_append]
  cases as.mapM (textFor options params) with
  | error e => rfl
  | ok texts =>
    cases bs.mapM (textFor options params) with
    | error e => rfl
    | ok more => exact congrArg Except.ok String.join_append

/-- Values of other names do not matter. -/
theorem render_congr (made : ofTokens options tokens = .ok renderer)
    (same : ∀ key ∈ keysOf tokens, other.get? key.name = params.get? key.name) :
    renderer.render other = renderer.render params := by
  rw [render_eq made, render_eq made]
  apply congrArg (Except.map String.join)
  apply mapM_congr
  intro token member
  cases token with
  | literal text => rfl
  | key key =>
    have isKey : key ∈ keysOf tokens := List.mem_filterMap.2 ⟨.key key, member, rfl⟩
    rw [textFor, textFor, same key isKey]

theorem render_eq_ok_iff (made : ofTokens options tokens = .ok renderer) {path : String} :
    renderer.render params = .ok path ↔ ∃ texts,
      List.Forall₂ (fun token text => textFor options params token = .ok text) tokens texts ∧
        path = String.join texts := by
  rw [render_eq made, map_eq_ok_iff]
  apply exists_congr
  intro texts
  rw [mapM_eq_ok_iff, eq_comm]

/-- Rendering goes token by token. Two token lists, one after the other, have a renderer if both
have one, and otherwise the error is that of the first validator that is refused. It has the tokens
of both, each of which is written once; it writes what one writes and then what the other writes, or
fails as the first of them does that fails: with the first key, and of several texts the first, for
which nothing can be written. The values of other names than those of the keys do not matter. -/
theorem ofTokens_render_append (options : Options) (as bs : List Token) :
    ((∃ both, ofTokens options (as ++ bs) = .ok both) ↔
      (∃ a, ofTokens options as = .ok a) ∧ ∃ b, ofTokens options bs = .ok b) ∧
    (∀ error, ofTokens options (as ++ bs) = .error error ↔
      IsFirstRefusal options (as ++ bs) error) ∧
    ∀ a b, ofTokens options as = .ok a → ofTokens options bs = .ok b →
      ∃ both, ofTokens options (as ++ bs) = .ok both ∧ both.tokens = as ++ bs ∧ ∀ params,
        both.render params = (do
          let path ← a.render params
          let rest ← b.render params
          return path ++ rest) ∧
        (∀ path, both.render params = .ok path ↔ ∃ texts,
          List.Forall₂ (fun token text => textFor options params token = .ok text)
            (as ++ bs) texts ∧ path = String.join texts) ∧
        (∀ error, both.render params = .error error ↔
          ∃ before key after, as ++ bs = before ++ .key key :: after ∧
            (∃ texts, before.mapM (textFor options params) = .ok texts) ∧
            Refused options.encodeValue key (validatorFor options key) (params.get? key.name)
              error) ∧
        ∀ other : Params,
          (∀ key ∈ keysOf (as ++ bs), other.get? key.name = params.get? key.name) →
          both.render other = both.render params := by
  have joined := ofTokens_append options as bs
  refine ⟨?_, fun error => ofTokens_eq_error_iff, fun a b first second => ?_⟩
  · rw [joined]
    constructor
    · rintro ⟨both, made⟩
      obtain ⟨a, first, made⟩ := exists_of_bind_eq_ok made
      obtain ⟨b, second, _⟩ := exists_of_bind_eq_ok made
      exact ⟨⟨a, first⟩, b, second⟩
    · rintro ⟨⟨a, first⟩, b, second⟩
      rw [first, second]
      exact ⟨_, rfl⟩
  · rw [first, second] at joined
    exact ⟨_, joined, tokens_eq joined, fun params => ⟨render_append first second joined params,
      fun path => render_eq_ok_iff joined, fun error => render_eq_error_iff joined,
      fun other => render_congr joined⟩⟩

/-- The second of two texts is not accepted. -/
theorem ofTokens_render_append_repeated :
    let as : List Token := [.literal "/", .key { name := .explicit "a", pattern := "x" }]
    let bs : List Token :=
      [.key { name := .explicit "b", lead := "-", pattern := "y", modifier := .oneOrMore }]
    let params := Params.ofList
      [(.explicit "a", .single "x"), (.explicit "b", .repeated ["y", "z"])]
    ∃ a b both, ofTokens {} as = .ok a ∧ ofTokens {} bs = .ok b ∧
      ofTokens {} (as ++ bs) = .ok both ∧ a.render params = .ok "/x" ∧
      both.render params = b.render params ∧
      both.render params = .error (.repeatedMismatch (.explicit "b") "y" "z") := by
  intro as bs params
  have evaluated : ((ofTokens {} as).toOption.bind fun a => (ofTokens {} bs).toOption.map fun b =>
      ((a.render params, b.render params) : _ × _)) =
        some (.ok "/x", .error (.repeatedMismatch (.explicit "b") "y" "z")) := by
    decide +kernel
  simp only [Option.bind_eq_some_iff, Option.map_eq_some_iff, toOption_eq_some_iff,
    Prod.mk.injEq] at evaluated
  obtain ⟨a, first, b, second, rendered, refused⟩ := evaluated
  obtain ⟨both, whole, _, render⟩ := (ofTokens_render_append {} as bs).2.2 a b first second
  have same := (render params).1
  rw [rendered, refused] at same
  exact ⟨a, b, both, first, second, whole, rendered, same.trans refused.symm, same⟩

end Tokens

end Renderer

end PathTemplate
