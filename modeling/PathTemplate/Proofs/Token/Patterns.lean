/-
Where the patterns of keys come from.

A custom pattern is what the lexer takes up to the parenthesis that closes it. Lexemes, items and
assemblies hand custom patterns on as they are, so that every key of a path pattern has a custom
pattern or the default one (`isSourced_of_tokensOf`).
-/

import PathTemplate.Proofs.Token.Accepted

namespace PathTemplate

namespace Lexeme

/-- The lexer may have taken the text for a custom pattern, or for none. -/
structure IsCustom (pattern : String) : Prop where
  begins : pattern.toList.head? ≠ some '?'
  balanced : Balanced 0 pattern.toList

theorem isCustom_of_customPattern {index : Nat} {text body : List Char}
    (read : customPattern index text = .ok body) : IsCustom (String.ofList body) := by
  obtain ⟨-, begins, -, balanced, -⟩ := customPattern_eq_ok_iff.1 read
  exact ⟨by rwa [String.toList_ofList], by rwa [String.toList_ofList]⟩

theorem isCustom_empty : IsCustom "" := ⟨nofun, .nil⟩

theorem isCustom_wildcard : IsCustom wildcardPattern :=
  ⟨by decide, .plain (by decide) (by decide) (by decide)
    (.plain (by decide) (by decide) (by decide) .nil)⟩

/-- A custom pattern is what stands between two parentheses. -/
theorem exists_customPattern_of_first {index further : Nat} {c : Char} {rest : List Char}
    {lexeme : Lexeme} (read : first index c rest = .ok (lexeme, further))
    (kind : lexeme.kind = .pattern) :
    ∃ body, customPattern index rest = .ok body ∧ lexeme.value = String.ofList body := by
  unfold first at read
  split at read
  case h_8 =>
    split at read
    · cases read
    · rename_i body custom
      cases read
      exact ⟨body, custom, rfl⟩
  all_goals first
    | cases read
      cases kind
    | split at read <;> cases read
      cases kind

theorem isCustom_of_first {index further : Nat} {c : Char} {rest : List Char} {lexeme : Lexeme}
    (read : first index c rest = .ok (lexeme, further)) (kind : lexeme.kind = .pattern) :
    IsCustom lexeme.value := by
  obtain ⟨body, custom, same⟩ := exists_customPattern_of_first read kind
  exact same ▸ isCustom_of_customPattern custom

end Lexeme

open Lexeme (IsCustom)

/-- All custom patterns among the lexemes are ones. -/
def AreCustom (lexemes : List Lexeme) : Prop :=
  ∀ lexeme ∈ lexemes, lexeme.kind = .pattern → IsCustom lexeme.value

theorem areCustom_of_lexemes {pattern : String} {found : List Lexeme}
    (read : lexemes pattern = .ok found) : AreCustom found.dropLast := by
  obtain ⟨body, last, rfl, custom⟩ := Lexeme.exists_body_of_strictFrom Lexeme.isCustom_of_first read
  rw [List.dropLast_concat]
  exact custom

/-! ### Items -/

/-- The pattern of the core, if it has one, is a custom one. -/
def Core.IsCustom : Core → Prop
  | .named _ _ pattern => ∀ text ∈ pattern, Lexeme.IsCustom text
  | .unnamed pattern _ => Lexeme.IsCustom pattern

/-- So is the one of an item. -/
def Item.IsCustom (item : Item) : Prop := ∀ core ∈ item.core?, core.IsCustom

theorem Core.Uses.isCustom {core : Core} {heart : List Use} (h : core.Uses heart)
    (custom : AreCustom (lexemesOf heart)) : core.IsCustom := by
  cases h with
  | name => exact nofun
  | namePattern =>
    rintro _ ⟨⟩
    exact custom _ (List.mem_cons_of_mem _ List.mem_cons_self) rfl
  | pattern => exact custom _ List.mem_cons_self rfl
  | wildcard => exact Lexeme.isCustom_wildcard

/-! ### Tokens -/

/-- The pattern is a custom one, or the one of keys that have none. -/
def IsSourced (options : Options) (pattern : String) : Prop :=
  pattern = defaultPattern options.delimiter ∨ IsCustom pattern

theorem isSourced_patternFor {options : Options} {core : Core} (custom : core.IsCustom) :
    IsSourced options (Assembly.patternFor options core) := by
  cases core with
  | named name index pattern =>
    cases pattern with
    | none => exact .inl rfl
    | some pattern => exact .inr (custom pattern rfl)
  | unnamed pattern index => exact .inr custom

/-- Every key that is put together has such a pattern. -/
def Assembly.IsSourced (options : Options) (assembly : Assembly) : Prop :=
  ∀ key ∈ keysOf assembly.tokens, PathTemplate.IsSourced options key.pattern

theorem Assembly.IsSourced.add {options : Options} {assembly next : Assembly} {item : Item}
    (h : assembly.IsSourced options) (custom : item.IsCustom)
    (added : assembly.add options item = .ok next) : next.IsSourced options := by
  unfold Assembly.IsSourced
  cases extends_add added with
  | same keys => exact keys ▸ h
  | decorated key _ decoration _ keys =>
    rw [keys]
    exact List.forall_mem_cons.2 ⟨decoration ▸ .inr Lexeme.isCustom_empty, h⟩
  | claimed core key core? _ pattern _ keys =>
    rw [keys]
    exact List.forall_mem_cons.2 ⟨pattern ▸ isSourced_patternFor (custom core core?), h⟩

/-- Every key of a path pattern has a custom pattern or the default one. -/
theorem isSourced_of_tokensOf {options : Options} {pattern : String} {tokens : List Token}
    (h : tokensOf options pattern = .ok tokens) :
    ∀ key ∈ keysOf tokens, IsSourced options key.pattern := by
  obtain ⟨assembly, sourced, keys⟩ := @Assembly.keysOf_tokensOf _ _ _ (Assembly.IsSourced options)
    nofun (fun found read item member _ _ sourced added => by
      refine sourced.add (fun core has => ?_) added
      obtain ⟨heart, inside, isCore⟩ := exists_uses_of_tokensOf read h item member core has
      exact isCore.isCustom fun lexeme within => areCustom_of_lexemes read lexeme (inside within)) h
  rw [keys]
  exact fun key member => sourced key (List.mem_reverse.1 member)

end PathTemplate
