/-
Rendered values stay in their places.

A value of a key with the default pattern is accepted just if it is encoded as some text without a
delimiter, so that it cannot end a segment of the path and begin another. This asks for delimiters
that are alike to no other character, or for an expression to which letter case matters.

* `isMatch_validator_iff_isContained`: which texts the validator accepts.
* `rendered_delimiters`: which values are accepted, and where the delimiters of a path come from.
-/

import PathTemplate.Proofs.Expression.Folding
import PathTemplate.Proofs.Route.Standard
import PathTemplate.Proofs.Route.Unambiguous

namespace PathTemplate

/-- The text is one that may stand between delimiters: it is not empty, and holds none of them. -/
def Options.IsContained (options : Options) (text : String) : Prop :=
  text ≠ "" ∧ ∀ c ∈ text.toList, c ∉ options.delimiter.toList

/-- Letter case makes no difference to what is a delimiter: it matters, or no delimiter has another
case. -/
def Options.IsCaseless (options : Options) : Prop :=
  options.sensitive = true ∨ ∀ c ∈ options.delimiter.toList, ∀ d ∈ caseOrbit c, d = c

/-- Whether a text is contained can be evaluated. -/
theorem Options.isContained_iff {options : Options} {text : String} : options.IsContained text ↔
    (text ≠ "" && text.toList.all fun c => !options.delimiter.toList.contains c) = true := by
  simp [Options.IsContained]

/-- So can whether letter case makes no difference. -/
theorem Options.isCaseless_iff {options : Options} : options.IsCaseless ↔
    (options.sensitive || options.delimiter.toList.all fun c => (caseOrbit c).all (· == c)) = true := by
  simp [Options.IsCaseless]

/-! ### Values that are accepted -/

namespace Route

variable {options : Options}

theorem isDelimiter_iff_mem (caseless : options.IsCaseless) {c : Char} :
    IsDelimiter options c ↔ c ∈ options.delimiter.toList := by
  refine ⟨fun delimiter => ?_, isDelimiter_of_mem⟩
  rw [isDelimiter_iff] at delimiter
  rcases caseless with sensitive | alone
  · rwa [if_pos sensitive] at delimiter
  · split at delimiter
    · exact delimiter
    · obtain ⟨d, alike, member⟩ := delimiter
      exact eq_of_mem_caseOrbit (alone d member) alike ▸ member

theorem isMatch_validator_iff_isContained {key : Key} {validator : Expression}
    (delimited : options.delimiter ≠ "") (caseless : options.IsCaseless)
    (default : key.pattern = defaultPattern options.delimiter)
    (made : Renderer.validator options.sensitive key = .ok validator) (text : String) :
    Renderer.passes (some validator) text = true ↔ options.IsContained text := by
  refine (isMatch_validator_iff delimited default made).trans ?_
  simp only [Unbroken, isDelimiter_iff_mem caseless, Options.IsContained, ne_eq,
    String.toList_eq_nil_iff]

end Route

namespace Renderer

variable {encode : String → Key → String} {key : Key} {validator : Option Expression}

theorem exists_renderRepeated_iff {texts : List String} :
    (∃ written, renderRepeated encode key validator texts = .ok written) ↔
      ∀ text ∈ texts, passes validator (encode text key) = true := by
  refine ⟨fun ⟨written, rendered⟩ => (Route.renderRepeated_eq_ok rendered).1, fun all => ?_⟩
  induction texts with
  | nil => exact ⟨"", rfl⟩
  | cons text texts ih =>
    obtain ⟨here, others⟩ := List.forall_mem_cons.1 all
    obtain ⟨written, rendered⟩ := ih others
    exact ⟨segment key (encode text key) ++ written, by
      simp only [renderRepeated, here, if_true, rendered, Except.map]⟩

theorem exists_renderKey_single_iff {text : String} :
    (∃ written, renderKey encode key validator (some (.single text)) = .ok written) ↔
      passes validator (encode text key) = true := by
  simp only [renderKey]
  split
  · rename_i passed
    exact iff_of_true ⟨_, rfl⟩ passed
  · rename_i refused
    exact iff_of_false (by rintro ⟨_, ⟨⟩⟩) refused

theorem exists_renderKey_repeated_iff {texts : List String} (repeats : key.modifier.isRepeating = true)
    (enough : texts ≠ [] ∨ key.modifier.isOptional = true) :
    (∃ written, renderKey encode key validator (some (.repeated texts)) = .ok written) ↔
      ∀ text ∈ texts, passes validator (encode text key) = true := by
  have present : (texts.isEmpty && !key.modifier.isOptional) = false := by
    rcases enough with some | optional
    · simp [some]
    · simp [optional]
  simp only [renderKey, repeats, present, Bool.not_true, Bool.false_eq_true, if_false]
  exact exists_renderRepeated_iff

end Renderer

/-! ### What a path is made of -/

/-- A part of a rendered path: a text of the pattern, or a value as it was encoded. -/
inductive Fragment where
  | fixed (text : String)
  | value (text : String)

namespace Fragment

def text : Fragment → String
  | .fixed text => text
  | .value text => text

/-- The text of the pattern. -/
def fixed? : Fragment → Option String
  | .fixed text => some text
  | .value _ => none

end Fragment

/-- What stands for the token in a path: the text, or each value of the key between its affixes. -/
def Token.fragments (encode : String → Key → String) (params : Params) : Token → List Fragment
  | .literal text => [.fixed text]
  | .key k => (params.get? k.name).elim [] fun value => value.texts.flatMap fun text =>
      [.fixed k.lead, .value (encode text k), .fixed k.trail]

namespace Route

variable {options : Options} {tokens : List Token} {params : Params} {path : String}

/-- What is written for a token are its fragments. -/
theorem join_fragments {token : Token} {written : String} (h : Written options params token written) :
    written.toList =
      (token.fragments options.encodeValue params).flatMap fun fragment => fragment.text.toList := by
  cases token with
  | literal text =>
    obtain rfl : written = text := h
    simp [Token.fragments, Fragment.text]
  | key key =>
    obtain ⟨validator, _, rendered⟩ := h
    rw [Token.fragments]
    cases given : params.get? key.name with
    | none =>
      rw [given] at rendered
      simp only [Renderer.renderKey] at rendered
      split at rendered <;> cases rendered
      rfl
    | some value =>
      rw [given] at rendered
      have segments : ∀ text, (Renderer.segment key (options.encodeValue text key)).toList =
          [Fragment.fixed key.lead, .value (options.encodeValue text key),
            .fixed key.trail].flatMap fun fragment => fragment.text.toList := by
        simp [Renderer.segment, Fragment.text]
      cases value with
      | single text =>
        simp only [Renderer.renderKey] at rendered
        split at rendered <;> cases rendered
        rw [segments]
        simp [Value.texts]
      | repeated texts =>
        simp only [Renderer.renderKey] at rendered
        split at rendered
        · cases rendered
        · split at rendered
          · cases rendered
          · rw [(renderRepeated_eq_ok rendered).2]
            simp only [segments, Option.elim_some, Value.texts, List.flatMap_assoc, ← List.flatMap_def]

/-- A rendered path is its fragments, one after the other. -/
theorem eq_join_fragments {texts : List String}
    (written : List.Forall₂ (Written options params) tokens texts) :
    String.join texts =
      String.join ((tokens.flatMap (Token.fragments options.encodeValue params)).map
        Fragment.text) := by
  rw [← String.toList_inj]
  simp only [String.toList_join, List.flatMap_map]
  induction written with
  | nil => rfl
  | cons first _ ih =>
    rw [List.flatMap_cons, List.flatMap_cons, List.flatMap_append, join_fragments first, ih]

/-- The values among them are contained. -/
theorem isContained_of_written (delimited : options.delimiter ≠ "")
    (caseless : options.IsCaseless)
    (default : ∀ key ∈ keysOf tokens, key.pattern = defaultPattern options.delimiter)
    {texts : List String} (written : List.Forall₂ (Written options params) tokens texts)
    {text : String}
    (member : .value text ∈ tokens.flatMap (Token.fragments options.encodeValue params)) :
    options.IsContained text := by
  obtain ⟨token, present, member⟩ := List.mem_flatMap.1 member
  cases token with
  | literal literal_ => simp [Token.fragments] at member
  | key key =>
    rw [Token.fragments] at member
    have here : key ∈ keysOf tokens := List.mem_filterMap.2 ⟨_, present, rfl⟩
    cases given : params.get? key.name with
    | none =>
      rw [given] at member
      cases member
    | some value =>
      rw [given] at member
      obtain ⟨original, inside, same⟩ := List.mem_flatMap.1 member
      obtain rfl : text = options.encodeValue original key := by simpa using same
      have unbroken := unbroken_of_written delimited default written key here value given original
        inside
      simpa only [Unbroken, isDelimiter_iff_mem caseless, Options.IsContained, ne_eq,
        String.toList_eq_nil_iff] using unbroken

/-- Where no value has such a character, those of the path are those of the texts of the
pattern. -/
theorem filter_fragments {holds : Char → Bool} {fragments : List Fragment}
    (free : ∀ text, .value text ∈ fragments → ∀ c ∈ text.toList, ¬holds c = true) :
    (String.join (fragments.map Fragment.text)).toList.filter holds =
      (fragments.filterMap Fragment.fixed?).flatMap fun text => text.toList.filter holds := by
  rw [String.toList_join, List.flatMap_map, List.filter_flatMap]
  induction fragments with
  | nil => rfl
  | cons fragment fragments ih =>
    have others := ih fun text member => free text (List.mem_cons_of_mem _ member)
    cases fragment with
    | fixed text =>
      rw [List.flatMap_cons, others]
      rfl
    | value text =>
      have none := List.filter_eq_nil_iff.2 (free text List.mem_cons_self)
      rw [List.flatMap_cons, others]
      simp only [Fragment.text, none]
      rfl

/-- A value of a key with the default pattern is accepted just if it is encoded as a contained text,
several values just if each of them is. So the delimiters in a path that is rendered from such keys
are those of the literal texts and of the affixes that were written. -/
theorem rendered_delimiters (delimited : options.delimiter ≠ "") (validated : options.validate = true)
    (caseless : options.IsCaseless) :
    (∀ key : Key, key.pattern = defaultPattern options.delimiter →
      ∃ validator, Renderer.part options (.key key) = .ok (.key key, some validator) ∧
        (∀ text,
          (∃ written, Renderer.renderKey options.encodeValue key (some validator)
            (some (.single text)) = .ok written) ↔
          options.IsContained (options.encodeValue text key)) ∧
        ∀ texts, key.modifier.isRepeating = true → texts ≠ [] ∨ key.modifier.isOptional = true →
          ((∃ written, Renderer.renderKey options.encodeValue key (some validator)
            (some (.repeated texts)) = .ok written) ↔
          ∀ text ∈ texts, options.IsContained (options.encodeValue text key))) ∧
    ∀ tokens renderer params path,
      Renderer.ofTokens options tokens = .ok renderer ∨
        (∃ pattern, tokensOf options pattern = .ok tokens ∧
          Renderer.ofPattern options pattern = .ok renderer) →
      (∀ key ∈ keysOf tokens, key.pattern = defaultPattern options.delimiter) →
      renderer.render params = .ok path →
      let fragments := tokens.flatMap (Token.fragments options.encodeValue params)
      path = String.join (fragments.map Fragment.text) ∧
        (∀ text, .value text ∈ fragments → options.IsContained text) ∧
        path.toList.filter options.delimiter.toList.contains =
          (fragments.filterMap Fragment.fixed?).flatMap fun text =>
            text.toList.filter options.delimiter.toList.contains := by
  refine ⟨fun key default => ?_, fun tokens renderer params path made default rendered => ?_⟩
  · have standard : key.IsStandard options := .default default
    obtain ⟨validator, made⟩ := standard.exists_validator delimited
    have accepts := isMatch_validator_iff_isContained delimited caseless default made
    refine ⟨validator, by rw [Renderer.part, if_pos validated, made]; rfl, fun text => ?_,
      fun texts repeats enough => ?_⟩
    · rw [Renderer.exists_renderKey_single_iff, accepts]
    · rw [Renderer.exists_renderKey_repeated_iff repeats enough]
      simp only [accepts]
  · have prepared : Renderer.ofTokens options tokens = .ok renderer := by
      rcases made with made | ⟨pattern, parsed, made⟩
      · exact made
      · rwa [ofPattern_of_parsed parsed] at made
    obtain ⟨texts, written, rfl⟩ := exists_written_of_render validated prepared rendered
    have contained := @isContained_of_written _ _ _ delimited caseless default _ written
    refine ⟨eq_join_fragments written, fun text => contained, ?_⟩
    rw [eq_join_fragments written]
    exact filter_fragments fun text member c inside => by
      simpa using (contained member).2 c inside

/-- Values between slashes. One that climbs to another directory is not accepted. -/
theorem rendered_delimiters_slash :
    let key : Key :=
      { name := .explicit "a", lead := "/", pattern := defaultPattern "/#?",
        modifier := .oneOrMore }
    let params := Params.ofList [(.explicit "a", .repeated ["y", "z"])]
    (∃ validator, Renderer.part {} (.key key) = .ok (.key key, some validator) ∧
      ¬∃ written, Renderer.renderKey (fun text _ => text) key (some validator)
        (some (.repeated ["y", "../z"])) = .ok written) ∧
    ∃ renderer path, Renderer.ofPattern {} "/x/:a+" = .ok renderer ∧
      renderer.render params = .ok path ∧
      path.toList.filter "/#?".toList.contains = ['/', '/', '/'] := by
  intro key params
  have caseless : Options.IsCaseless {} := Options.isCaseless_iff.2 (by decide +kernel)
  obtain ⟨accepted, paths⟩ := @rendered_delimiters {} (by decide) rfl caseless
  have parsed : tokensOf {} "/x/:a+" = .ok [.literal "/x", .key key] :=
    toOption_eq_some_iff.1 (by decide +kernel)
  have given : params.get? key.name = some (.repeated ["y", "z"]) := Params.get?_insert_self _ _ _
  obtain ⟨validator, made, _, several⟩ := accepted key rfl
  obtain ⟨written, rendered⟩ := (several ["y", "z"] rfl (.inl (by decide))).2 (by
    simp only [Options.isContained_iff]
    decide)
  let renderer : Renderer := { parts := [(.literal "/x", none), (.key key, some validator)]
                               encode := fun text _ => text }
  have prepared : Renderer.ofPattern {} "/x/:a+" = .ok renderer := by
    rw [ofPattern_of_parsed parsed, Renderer.ofTokens, List.mapM_cons, List.mapM_cons, made]
    rfl
  have whole : renderer.render params = .ok (String.join ["/x", written]) := by
    rw [← given] at rendered
    simp only [Renderer.render, renderer, List.mapM_cons, List.mapM_nil, Renderer.renderPart]
    rw [show Renderer.renderKey (fun text _ => text) key (some validator) (params.get? key.name) =
      .ok written from rendered]
    rfl
  have refused : ¬∃ written, Renderer.renderKey (fun text _ => text) key (some validator)
      (some (.repeated ["y", "../z"])) = .ok written := by
    refine mt (several ["y", "../z"] rfl (.inl (by decide))).1 ?_
    simp only [Options.isContained_iff]
    decide
  refine ⟨⟨validator, made, refused⟩, renderer, _, prepared, whole, ?_⟩
  obtain ⟨_, _, delimiters⟩ :=
    paths _ renderer params _ (.inr ⟨_, parsed, prepared⟩) (List.forall_mem_singleton.2 rfl) whole
  rw [delimiters, List.flatMap_cons, List.flatMap_singleton, Token.fragments, Token.fragments, given]
  decide +kernel

end Route

end PathTemplate
