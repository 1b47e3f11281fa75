/-
Rendered paths and the routes of the same tokens.

A renderer that validates asks each value for a match of the pattern of its key in full; a route
reads the same pattern between the other parts of the tokens.

* `isMatch_validator`: the validator of a key accepts what the expression of its pattern covers.
* `exists_written_of_render` and `tokensLanguage_of_written`: a rendered path is a text of the
  tokens.
* `TailShape.covers_end`: whatever stands after the tokens, it is there at the end of a text.
* `isMatch_of_render`: a rendered path is matched by the route of the same tokens.
-/

import PathTemplate.Proofs.Renderer.Composition
import PathTemplate.Proofs.Route.Acceptance

namespace PathTemplate

/-- The flags that the expressions of a route are read under. -/
def Options.flags (options : Options) : Flags := { fold := !options.sensitive }

/-! ### Validators -/

namespace Renderer

section Validator

variable {options : Options} {key : Key} {validator : Expression} {calm after : Flags → Prop}
  {inner : Expr → Prop}

theorem toList_validator (key : Key) : ("^(?:" ++ pinShorthands key.pattern ++ ")$").toList =
    ['^'] ++ ((['(', '?', ':'] ++ ((pinShorthands key.pattern).toList ++ [')']) ++
      Modifier.once.symbol.toList) ++ ['$']) := by
  simp [Modifier.symbol]

/-- A validator reads as the pattern of its key between the two ends of a text. -/
theorem reads_validator {total : Bool} {room : Nat} (known : ∀ f, calm f → f.lines = false)
    (holds : Holds total room 0 calm after (pinShorthands key.pattern).toList fun _ e => inner e) :
    Reads total (room + 1) 0 calm calm ("^(?:" ++ pinShorthands key.pattern ++ ")$").toList
      fun _ parts => ∃ x, inner x ∧ parts = [.edge .textStart, x, .edge .textEnd] := by
  rw [toList_validator]
  have start : Reads total (room + 1) 0 calm calm ['^'] _ := .caret known
  have group := holds.group .once fun _ _ _ _ other => absurd rfl other
  have stop : Reads total (room + 1) 0 calm calm ['$'] _ := .dollar known
  refine (start.append (group.append stop)).mono (fun _ h => h) ?_
  rintro _ _ ⟨_, _, rfl, rfl, _, _, rfl, ⟨_, x, rfl, holds⟩, rfl⟩
  exact ⟨x, holds, rfl⟩

/-- The validator of a key accepts what the pattern of the key covers when it stands alone. -/
theorem isMatch_validator (known : ∀ f, calm f → f.lines = false) (begins : calm options.flags)
    (holds : Holds false 0 0 calm after (pinShorthands key.pattern).toList fun _ e => inner e)
    (declarative : ∀ e, inner e → e.isDeclarative = true)
    (made : Renderer.validator options.sensitive key = .ok validator) :
    ∃ x, inner x ∧ ∀ text : String, validator.isMatch text = true ↔ x.Covers [] text.toList [] := by
  have compiled : Expression.compile? (validatorSource options.sensitive key) = some validator := by
    unfold Renderer.validator at made
    split at made
    · rename_i compiled
      cases made
      exact compiled
    · cases made
  obtain ⟨_, ⟨x, holds, rfl⟩, settled⟩ :=
    ((reads_validator known holds).ends_compile (by decide) begins nofun).apply compiled
  have all : ∀ e ∈ [.edge .textStart, x, .edge .textEnd], e.isDeclarative = true := by
    simp [declarative x holds, Expr.isDeclarative]
  obtain ⟨declarative', covers⟩ :=
    (Expr.settles_of_settled? settled).covers (Expr.isDeclarative_join all)
  refine ⟨x, holds, fun text => ?_⟩
  rw [Expression.isMatch_iff declarative', covers]
  simp only [Expr.covers_join, Expr.CoversAll, Route.covers_textStart, Route.covers_textEnd]
  constructor
  · rintro ⟨u, _, rest, split, _, _, rfl, ⟨rfl, begins⟩, w, _, rfl, covered, _, _, rfl,
      ⟨rfl, ends⟩, rfl⟩
    obtain rfl := List.reverse_eq_nil_iff.1 begins
    simp_all
  · intro covered
    refine ⟨[], text.toList, [], by simp, [], text.toList, rfl, ⟨rfl, rfl⟩, text.toList, [], ?_, ?_,
      [], [], rfl, ⟨rfl, rfl⟩, rfl⟩
    · rw [List.append_nil]
    · simpa using covered

end Validator

end Renderer

/-! ### Rendered paths as texts of the tokens -/

namespace Route

section Texts

variable {options : Options} {encode : String → Key → String} {params : Params} {key : Key}
  {validator : Option Expression} {values : Language}
  (literal : ∀ text, options.encodeLiteral text = text)
  (accepts : ∀ text, Renderer.passes validator text = true → values text.toList)
include literal

theorem textLanguage_self (text : String) : textLanguage options text text.toList := by
  rw [textLanguage, literal]
  exact Language.spelled_self _ _

theorem occurrenceLanguage_segment {encoded : String} (value : values encoded.toList) :
    occurrenceLanguage options values key (Renderer.segment key encoded).toList := by
  refine ⟨key.lead.toList, encoded.toList ++ key.trail.toList, ?_, textLanguage_self literal _,
    encoded.toList, key.trail.toList, rfl, value, textLanguage_self literal _⟩
  simp [Renderer.segment]

omit literal in
/-- Several values that are all accepted are written one after the other. -/
theorem renderRepeated_eq_ok {given : List String} {written : String}
    (rendered : Renderer.renderRepeated encode key validator given = .ok written) :
    (∀ text ∈ given, Renderer.passes validator (encode text key) = true) ∧
      written.toList = (given.map fun text =>
        (Renderer.segment key (encode text key)).toList).flatten := by
  induction given generalizing written with
  | nil =>
    cases rendered
    exact ⟨nofun, rfl⟩
  | cons text others ih =>
    rw [Renderer.renderRepeated] at rendered
    split at rendered
    · rename_i passed
      cases more : Renderer.renderRepeated encode key validator others with
      | error e =>
        rw [more] at rendered
        cases rendered
      | ok rest =>
        rw [more] at rendered
        cases rendered
        obtain ⟨all, same⟩ := ih more
        refine ⟨List.forall_mem_cons.2 ⟨passed, all⟩, ?_⟩
        rw [String.toList_append, same, List.map_cons, List.flatten_cons]
    · cases rendered

include accepts

/-- What is written for a key is a text of the key, whatever value was given for it. -/
theorem repeated_of_renderKey {given : Option Value} {written : String}
    (rendered : Renderer.renderKey encode key validator given = .ok written) :
    (occurrenceLanguage options values key).repeated key.modifier written.toList := by
  unfold Renderer.renderKey at rendered
  split at rendered
  · rename_i texts
    split at rendered
    · cases rendered
    · rename_i several
      split at rendered
      · cases rendered
      · rename_i enough
        obtain ⟨all, same⟩ := renderRepeated_eq_ok rendered
        refine ⟨_, ?_, fun u member => ?_, same⟩
        · rw [List.length_map]
          cases modifier : key.modifier <;> cases texts <;>
            simp_all [Modifier.isRepeating, Modifier.isOptional, Modifier.allows]
        · obtain ⟨text, present, rfl⟩ := List.mem_map.1 member
          exact occurrenceLanguage_segment literal (accepts _ (all text present))
  · rename_i text
    simp only at rendered
    split at rendered
    · rename_i passed
      cases rendered
      refine ⟨[_], ?_, fun u member => ?_, by rw [List.flatten_singleton]⟩
      · cases key.modifier <;> rfl
      · rw [List.mem_singleton.1 member]
        exact occurrenceLanguage_segment literal (accepts _ passed)
    · cases rendered
  · split at rendered
    · rename_i absent
      cases rendered
      refine ⟨[], ?_, List.forall_mem_nil _, rfl⟩
      cases modifier : key.modifier <;> simp_all [Modifier.isOptional, Modifier.allows]
    · cases rendered

end Texts

section Paths

variable {options : Options} {tokens : List Token} {renderer : Renderer} {params : Params}
  {path : String} {values : Key → Language}

/-- The text is written for the token, after validation. -/
def Written (options : Options) (params : Params) : Token → String → Prop
  | .literal text, written => written = text
  | .key key, written => ∃ validator, Renderer.validator options.sensitive key = .ok validator ∧
      Renderer.renderKey options.encodeValue key (some validator) (params.get? key.name) =
        .ok written

/-- A path is rendered token by token. -/
theorem exists_written_of_render (validated : options.validate = true)
    (prepared : Renderer.ofTokens options tokens = .ok renderer)
    (rendered : renderer.render params = .ok path) :
    ∃ texts, List.Forall₂ (Written options params) tokens texts ∧ path = String.join texts := by
  obtain ⟨texts, written, rfl⟩ := (Renderer.render_eq_ok_iff prepared).1 rendered
  rw [Renderer.ofTokens_eq] at prepared
  obtain ⟨parts, run, _⟩ := map_eq_ok prepared
  have valid := (Renderer.exists_mapM_part_iff validated).1 ⟨parts, run⟩
  refine ⟨texts, ?_, rfl⟩
  clear prepared rendered run
  induction written with
  | nil => exact .nil
  | @cons token text _ _ here _ ih =>
    cases token with
    | literal => exact .cons (Except.ok.inj here).symm (ih valid)
    | key key =>
      obtain ⟨⟨expression, made⟩, valid⟩ := List.forall_mem_cons.1 valid
      refine .cons ⟨expression, made, ?_⟩ (ih valid)
      rw [Renderer.textFor, Renderer.validatorFor, if_pos validated, made] at here
      exact here

/-- What is written for tokens is a text of the tokens, the values being those that the validators
of the keys accept. -/
theorem tokensLanguage_of_written (literal : ∀ text, options.encodeLiteral text = text)
    (accepts : ∀ key ∈ keysOf tokens, ∀ validator,
      Renderer.validator options.sensitive key = .ok validator →
        ∀ text : String, validator.isMatch text = true → values key text.toList)
    {texts : List String} (written : List.Forall₂ (Written options params) tokens texts) :
    tokensLanguage options values tokens (String.join texts).toList := by
  induction written with
  | nil => rfl
  | @cons token text _ _ first _ ih =>
    rw [String.join_cons, String.toList_append]
    cases token with
    | literal literal_ =>
      obtain rfl : text = literal_ := first
      exact ⟨_, _, rfl, textLanguage_self literal _, ih accepts⟩
    | key key =>
      obtain ⟨accepted, accepts⟩ := List.forall_mem_cons.1 accepts
      obtain ⟨validator, made, rendered⟩ := first
      refine ⟨_, _, rfl, repeated_of_renderKey literal ?_ rendered, ih accepts⟩
      exact accepted validator made

end Paths

/-! ### Ends of texts -/

/-- Whatever stands after the tokens, it is there at the end of a text. -/
theorem TailShape.covers_end {options : Options} {tokens : List Token} {parts : List Expr}
    {fold : Bool} (shape : TailShape fold false options tokens parts) (before : List Char) :
    Expr.CoversAll parts before [] [] := by
  obtain ⟨greedy, rfl⟩ := shape
  have ends : (endExpr fold false options).Covers before [] [] := by
    unfold endExpr
    split
    · exact covers_textEnd.2 ⟨rfl, rfl⟩
    · exact .inr (covers_textEnd.2 ⟨rfl, rfl⟩)
  have boundary : (boundaryExpr fold false options).Covers before [] [] :=
    covers_boundaryExpr.2 (.inr ends)
  have absent {e : Expr} : (e.modified greedy .optional).Covers before [] [] :=
    covers_optional.2 (.inl rfl)
  have none {parts more : List Expr} (first : Expr.CoversAll parts before [] [])
      (second : Expr.CoversAll more before [] []) : Expr.CoversAll (parts ++ more) before [] [] :=
    Expr.coversAll_append.2 ⟨[], [], rfl, first, second⟩
  split
  · refine none ?_ (Expr.coversAll_singleton.2 ?_)
    · split
      · rfl
      · exact Expr.coversAll_singleton.2 absent
    · split
      · exact covers_textEnd.2 ⟨rfl, rfl⟩
      · exact covers_ahead.2 ⟨rfl, [], [], rfl, ends⟩
  · refine none ?_ ?_
    · split
      · rfl
      · exact Expr.coversAll_singleton.2 absent
    · split
      · rfl
      · exact Expr.coversAll_singleton.2 (covers_ahead.2 ⟨rfl, [], [], rfl, boundary⟩)

section Accepted

variable {options : Options} {tokens : List Token} {route : Route} {renderer : Renderer}
  {params : Params} {path : String}

/-- A route matches every text of its tokens, from the beginning to the end. -/
theorem isMatch_of_tokensLanguage {inner : Key → Expr → Prop} {values : Key → Language}
    {parts : List Expr}
    (decoration : ∀ key ∈ keysOf tokens, key.pattern = "" → ∀ w, values key w ↔ w = [])
    (patterns : ∀ key ∈ keysOf tokens, key.pattern ≠ "" → ∀ x, inner key x → x.Denotes (values key))
    (shape : RouteShape options (· = !options.sensitive) (· = false) inner tokens parts)
    (settled : (Expr.join parts).settled? = some route.expression.expr)
    (holds : tokensLanguage options values tokens path.toList) : route.isMatch path = true := by
  obtain ⟨tail, tailShape, isMatch⟩ := isMatch_of_shape decoration patterns shape settled
  refine (isMatch path).2 ⟨[], path.toList, [], [], by simp, fun _ => rfl, holds, ?_⟩
  exact tailShape.covers_end _

end Accepted

/-! ### Plain patterns -/

/-- The texts that the pattern of a key, read under the flags, covers in full. -/
def valuesUnder (flags : Flags) (key : Key) : Language := fun w =>
  (exprUnder flags key.pattern).Covers [] w []

/-- The key captures nothing, or its pattern is plain. -/
def IsPlainKey (options : Options) (key : Key) : Prop :=
  key.pattern ≠ "" → isPlainUnder options.flags key.pattern = true

theorem exprUnder_empty {options : Options} : exprUnder options.flags "" = .empty := by
  unfold Options.flags
  cases options.sensitive <;> rfl

-- `exprUnder` unfolds to a run of the reader, which no proof about what it covers carries out.
attribute [local irreducible] exprUnder

section Plain

variable {options : Options} {key : Key}

/-- The expression of a plain pattern covers the same texts wherever it stands. -/
theorem denotes_exprUnder {flags : Flags} (plain : (exprUnder flags key.pattern).isPlain = true) :
    (exprUnder flags key.pattern).Denotes (valuesUnder flags key) := by
  have free := Expr.covers_isFree plain
  refine ⟨Expr.isDeclarative_of_isPlain plain, ?_⟩
  intro before w after
  exact ⟨free _ _ _ _ _, free _ _ _ _ _⟩

variable (plain : IsPlainKey options key)
include plain

theorem IsPlainKey.isPlain_exprUnder : (exprUnder options.flags key.pattern).isPlain = true := by
  by_cases empty : key.pattern = ""
  · rw [empty, exprUnder_empty]
    rfl
  · obtain ⟨_, _, _, _, _, _, expr, plainExpr⟩ := isPlainUnder_pinned (plain empty) rfl
    rw [expr]
    exact plainExpr

theorem IsPlainKey.denotes :
    (exprUnder options.flags key.pattern).Denotes (valuesUnder options.flags key) :=
  denotes_exprUnder plain.isPlain_exprUnder

theorem IsPlainKey.reads (nonempty : key.pattern ≠ "") :
    PatternReads false (· = options.flags)
      (FlagsAfter options (· = !options.sensitive) (· = options.flags) key)
      (· = exprUnder options.flags key.pattern) (pinShorthands key.pattern).toList :=
  patternReads_plainUnder rfl rfl nonempty (plain nonempty)

/-- The validator of a key accepts the texts that its pattern covers. -/
theorem IsPlainKey.accepts {validator : Expression}
    (made : Renderer.validator options.sensitive key = .ok validator) (text : String) :
    validator.isMatch text = true ↔ valuesUnder options.flags key text.toList := by
  have known : ∀ f : Flags, f = options.flags → f.lines = false := by
    rintro _ rfl
    rfl
  have declarative : ∀ e, e = exprUnder options.flags key.pattern → e.isDeclarative = true := by
    rintro _ rfl
    exact plain.denotes.declarative
  have holds : ∃ after, Holds false 0 0 (· = options.flags) after (pinShorthands key.pattern).toList
      fun _ e => e = exprUnder options.flags key.pattern := by
    by_cases empty : key.pattern = ""
    · rw [empty, exprUnder_empty]
      refine ⟨_, Reads.nil.holds.mono (fun _ h => h) ?_⟩
      rintro _ _ ⟨_, rfl, rfl⟩
      rfl
    · exact ⟨_, (plain.reads empty).holds⟩
  obtain ⟨after, holds⟩ := holds
  obtain ⟨_, rfl, accepts⟩ := Renderer.isMatch_validator known rfl holds declarative made
  exact accepts text

end Plain

/-- Every path that is rendered with validation is matched by the route of the same tokens,
whatever the parameters are, if the patterns of the keys are plain. -/
theorem isMatch_of_render {options : Options} {tokens : List Token} {route : Route}
    {renderer : Renderer} {params : Params} {path : String}
    (literal : ∀ text, options.encodeLiteral text = text) (validated : options.validate = true)
    (plain : ∀ key ∈ keysOf tokens, key.pattern ≠ "" →
      isPlainUnder options.flags key.pattern = true)
    (made : ofTokens options tokens = .ok route)
    (prepared : Renderer.ofTokens options tokens = .ok renderer)
    (rendered : renderer.render params = .ok path) : route.isMatch path = true := by
  have plain : ∀ key ∈ keysOf tokens, IsPlainKey options key := plain
  have known : ∀ f : Flags, f = options.flags →
      f.fold = (!options.sensitive) ∧ f.lines = false ∧ f.spaced = false := by
    rintro _ rfl
    exact ⟨rfl, rfl, rfl⟩
  obtain ⟨parts, shape, settled, -⟩ :=
    exists_shape known rfl (fun key member => (plain key member).reads) made
  obtain ⟨texts, written, rfl⟩ := exists_written_of_render validated prepared rendered
  have holds : tokensLanguage options (valuesUnder options.flags) tokens
      (String.join texts).toList :=
    tokensLanguage_of_written literal
      (fun key member _ made text => ((plain key member).accepts made text).1) written
  refine isMatch_of_tokensLanguage ?_ ?_ shape settled holds
  · intro key _ empty w
    rw [valuesUnder, empty, exprUnder_empty]
    rfl
  · rintro key member _ _ rfl
    exact (plain key member).denotes

/-- A single value is given to a key that may be repeated, and a decoration is left out. -/
theorem isMatch_of_render_single :
    let options : Options := { toEnd := false }
    let tokens : List Token := [.literal "/A", .key
      { name := .explicit "id", lead := "/", pattern := "\\d|x", modifier := .zeroOrMore },
      .key { name := .explicit "", lead := "!", pattern := "", modifier := .optional }]
    ∃ route renderer, ofTokens options tokens = .ok route ∧
      Renderer.ofTokens options tokens = .ok renderer ∧
      renderer.render (.ofList [(.explicit "id", .single "X")]) = .ok "/A/X" ∧
      route.isMatch "/A/X" = true := by
  intro options tokens
  have evaluated : ((ofTokens options tokens).toOption.bind fun _ =>
      (Renderer.ofTokens options tokens).toOption.bind fun renderer =>
        (renderer.render (.ofList [(.explicit "id", .single "X")])).toOption) = some "/A/X" := by
    decide +kernel
  simp only [Option.bind_eq_some_iff, toOption_eq_some_iff] at evaluated
  obtain ⟨route, made, renderer, prepared, rendered⟩ := evaluated
  exact ⟨route, renderer, made, prepared, rendered,
    isMatch_of_render (fun _ => rfl) rfl (by decide +kernel) made prepared rendered⟩

end Route

end PathTemplate
