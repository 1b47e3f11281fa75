/-
Decorations, the keys that have no pattern.

A decoration has the empty name. No other key has it: neither the name nor the custom pattern that a
lexeme gives to a key is empty.

* `Assembly.Decorates`: which keys have the empty name, while a pattern is put together.
* `name_eq_empty_iff_of_tokensOf`: exactly the decorations have it.
-/

import PathTemplate.Proofs.Token.Accepted

namespace PathTemplate

/-! ### Lexemes and cores -/

theorem Lexeme.value_ne_of_first {index further : Nat} {c : Char} {rest : List Char}
    {lexeme : Lexeme} (read : first index c rest = .ok (lexeme, further)) : lexeme.value ≠ "" := by
  have nonempty {chars : List Char} (some : chars ≠ []) : String.ofList chars ≠ "" :=
    fun none => some (String.ofList_eq_empty_iff.1 none)
  have one (c : Char) : String.singleton c ≠ "" := fun none => by
    have chars := congrArg String.toList none
    simp at chars
  unfold first at read
  split at read
  case h_7 =>
    split at read <;> cases read
    rename_i some
    exact nonempty some
  case h_8 =>
    split at read
    · cases read
    · rename_i body custom
      cases read
      refine nonempty ?_
      rintro rfl
      unfold customPattern at custom
      split at custom
      · cases custom
      · split at custom
        · cases custom
        · cases custom
        · rename_i some _
          cases custom
          exact some rfl
  all_goals first
    | cases read
      exact one _
    | split at read <;> cases read
      exact one _

/-- Neither the name nor the pattern of the core is empty, where it has one. -/
def Core.IsFilled : Core → Prop
  | .named name _ pattern => name ≠ "" ∧ ∀ text ∈ pattern, text ≠ ""
  | .unnamed pattern _ => pattern ≠ ""

theorem Core.Uses.isFilled {core : Core} {heart : List Use} (h : core.Uses heart)
    (filled : ∀ lexeme ∈ lexemesOf heart, lexeme.value ≠ "") : core.IsFilled := by
  cases h with
  | name => exact ⟨filled _ List.mem_cons_self, nofun⟩
  | namePattern =>
    refine ⟨filled _ List.mem_cons_self, ?_⟩
    rintro _ ⟨⟩
    exact filled _ (List.mem_cons_of_mem _ List.mem_cons_self)
  | pattern => exact filled _ List.mem_cons_self
  | wildcard => exact (by decide : wildcardPattern ≠ "")

namespace Core.IsFilled

variable {core : Core} (filled : core.IsFilled)
include filled

theorem name_ne {name : Name} (names : core.Names name) : name ≠ .explicit "" := by
  rintro rfl
  cases core with
  | named text index pattern =>
    cases names
    exact filled.1 rfl
  | unnamed pattern index =>
    obtain ⟨_, ordinal⟩ := names
    cases ordinal

theorem patternFor_ne (options : Options) : Assembly.patternFor options core ≠ "" := by
  match core, filled with
  | .named _ _ (some pattern), filled => exact filled.2 pattern rfl
  | .named _ _ none, _ =>
    intro none
    have chars := congrArg String.toList none
    simp [Assembly.patternFor, defaultPattern] at chars
  | .unnamed pattern _, filled => exact filled

end Core.IsFilled

/-! ### Keys -/

namespace Assembly

/-- The decorations have the empty name, which nothing else has claimed. -/
structure Decorates (assembly : Assembly) : Prop where
  unclaimed : .explicit "" ∉ assembly.names
  keys : ∀ key ∈ keysOf assembly.tokens, key.name = .explicit "" ↔ key.pattern = ""

theorem Decorates.add {options : Options} {assembly next : Assembly} {item : Item}
    (h : assembly.Decorates) (filled : ∀ core ∈ item.core?, core.IsFilled)
    (added : assembly.add options item = .ok next) : next.Decorates := by
  cases extends_add added with
  | same keys names => exact ⟨names ▸ h.unclaimed, keys ▸ h.keys⟩
  | decorated key name decoration _ keys names =>
    refine ⟨names ▸ h.unclaimed, ?_⟩
    rw [keys]
    exact List.forall_mem_cons.2 ⟨iff_of_true name decoration, h.keys⟩
  | claimed core key core? named pattern _ keys names =>
    have here := filled core core?
    have name := here.name_ne named
    constructor
    · rw [names]
      exact List.not_mem_cons_of_ne_of_not_mem name.symm h.unclaimed
    · rw [keys]
      refine List.forall_mem_cons.2 ⟨iff_of_false name ?_, h.keys⟩
      rw [pattern]
      exact here.patternFor_ne options

end Assembly

/-- Neither a name nor a custom pattern that a pattern has is empty. -/
theorem isFilled_of_tokensOf {options : Options} {pattern : String} {tokens : List Token}
    {found : List Lexeme} (read : lexemes pattern = .ok found)
    (parsed : tokensOf options pattern = .ok tokens) :
    ∀ item ∈ (items found).1, ∀ core ∈ item.core?, core.IsFilled := by
  intro item member core has
  obtain ⟨heart, inside, isCore⟩ := exists_uses_of_tokensOf read parsed item member core has
  obtain ⟨body, last, rfl, filled⟩ := Lexeme.exists_body_of_strictFrom Lexeme.value_ne_of_first read
  rw [List.dropLast_concat] at inside
  exact isCore.isFilled fun lexeme within => filled lexeme (inside within)

/-- Exactly the decorations of a pattern have the empty name. -/
theorem name_eq_empty_iff_of_tokensOf {options : Options} {pattern : String} {tokens : List Token}
    (parsed : tokensOf options pattern = .ok tokens) :
    ∀ key ∈ keysOf tokens, key.name = .explicit "" ↔ key.pattern = "" := by
  obtain ⟨assembly, decorates, all⟩ := @Assembly.keysOf_tokensOf _ _ _ Assembly.Decorates
    ⟨nofun, nofun⟩ (fun found read item member _ _ decorates added =>
      decorates.add (isFilled_of_tokensOf read parsed item member) added) parsed
  rw [all]
  exact fun key member => decorates.keys key (List.mem_reverse.1 member)

end PathTemplate
