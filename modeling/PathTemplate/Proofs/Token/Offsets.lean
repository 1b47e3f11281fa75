/-
Tokens without the places of their lexemes.

Where a lexeme stands in the pattern is in the error that points to it, and nowhere else. `unplaced`
takes the places out of lexemes, cores, items and errors; reading and putting together come to the
same without them.

* `ReadsItems.unplaced`: the items of lexemes without their places.
* `tokensOfLexemes_unplaced`: the tokens of such lexemes are the same, and so is the error but for
  its place.
-/

import PathTemplate.Proofs.Token.Groups

namespace PathTemplate

/-! ### What has a place -/

/-- The lexeme, as if it stood at the beginning. -/
def Lexeme.unplaced (lexeme : Lexeme) : Lexeme := { lexeme with index := 0 }

def Core.unplaced : Core → Core
  | .named name _ pattern => .named name 0 pattern
  | .unnamed pattern _ => .unnamed pattern 0

def Item.unplaced : Item → Item
  | .key core modifier => .key core.unplaced modifier
  | .group lead core trail modifier => .group lead (core.map Core.unplaced) trail modifier
  | item => item

/-- The error, as if it pointed to the beginning. A fault of the lexemes stays as it is. -/
def ParseError.unplaced : ParseError → ParseError
  | .unexpected found _ expected => .unexpected found 0 expected
  | .duplicateName name _ => .duplicateName name 0
  | error => error

/-! ### Items -/

namespace Item

theorem leadingModifier_unplaced (lexemes : List Lexeme) :
    leadingModifier (lexemes.map Lexeme.unplaced) =
      ((leadingModifier lexemes).1, (leadingModifier lexemes).2.map Lexeme.unplaced) := by
  cases lexemes with
  | nil => rfl
  | cons lexeme rest =>
    obtain ⟨kind, index, value⟩ := lexeme
    cases kind <;> rfl

theorem leadingCore?_unplaced (lexemes : List Lexeme) :
    leadingCore? (lexemes.map Lexeme.unplaced) =
      (leadingCore? lexemes).map (Prod.map Core.unplaced (List.map Lexeme.unplaced)) := by
  cases lexemes with
  | nil => rfl
  | cons lexeme rest =>
    obtain ⟨kind, index, value⟩ := lexeme
    cases kind with
    | name =>
      cases rest with
      | nil => rfl
      | cons next rest =>
        obtain ⟨kind, index', value'⟩ := next
        cases kind <;> rfl
    | _ => rfl

theorem leadingText_unplaced (lexemes : List Lexeme) :
    leadingText (lexemes.map Lexeme.unplaced) =
      ((leadingText lexemes).1, (leadingText lexemes).2.map Lexeme.unplaced) := by
  have same : isText ∘ Lexeme.unplaced = isText := rfl
  simp only [leadingText, List.takeWhile_map, List.dropWhile_map, same, List.map_map]
  rfl

theorem groupCore_unplaced (lexemes : List Lexeme) :
    groupCore (lexemes.map Lexeme.unplaced) =
      ((groupCore lexemes).1.map Core.unplaced, (groupCore lexemes).2.map Lexeme.unplaced) := by
  rw [groupCore, groupCore, leadingCore?_unplaced]
  cases leadingCore? lexemes <;> rfl

theorem groupEnd_unplaced (lead : String) (core : Option Core) (trail : String)
    (lexemes : List Lexeme) :
    groupEnd lead (core.map Core.unplaced) trail (lexemes.map Lexeme.unplaced) =
      ((groupEnd lead core trail lexemes).map
        (Prod.map Item.unplaced (List.map Lexeme.unplaced))).mapError ParseError.unplaced := by
  cases lexemes with
  | nil => rfl
  | cons lexeme rest =>
    obtain ⟨kind, index, value⟩ := lexeme
    cases kind with
    | closing =>
      simp only [List.map_cons, Lexeme.unplaced, groupEnd, leadingModifier_unplaced]
      rfl
    | _ => rfl

theorem groupBody_unplaced (lexemes : List Lexeme) :
    groupBody (lexemes.map Lexeme.unplaced) =
      ((groupBody lexemes).map (Prod.map Item.unplaced (List.map Lexeme.unplaced))).mapError
        ParseError.unplaced := by
  simp only [groupBody_eq, leadingText_unplaced, groupCore_unplaced, groupEnd_unplaced]

theorem next_unplaced (lexemes : List Lexeme) :
    next (lexemes.map Lexeme.unplaced) =
      ((next lexemes).map (Option.map (Prod.map Item.unplaced (List.map Lexeme.unplaced)))).mapError
        ParseError.unplaced := by
  cases read : leadingCore? lexemes with
  | some found =>
    have mapped := leadingCore?_unplaced lexemes
    rw [read, Option.map_some] at mapped
    simp only [next, mapped, read, Prod.map, leadingModifier_unplaced]
    rfl
  | none =>
    cases lexemes with
    | nil => rfl
    | cons lexeme rest =>
      have noCore := leadingCore?_eq_none_iff.1 read
      obtain ⟨kind, index, value⟩ := lexeme
      cases kind with
      | opening =>
        have opens (index : Nat) (lexemes : List Lexeme) :
            next (⟨.opening, index, value⟩ :: lexemes) = (groupBody lexemes).map some := rfl
        rw [List.map_cons, Lexeme.unplaced, opens, opens, groupBody_unplaced]
        cases groupBody rest <;> rfl
      | name | pattern | asterisk => cases noCore
      | _ => rfl

end Item

/-- Without the places of their lexemes, the items are the same without theirs. -/
theorem ReadsItems.unplaced {lexemes : List Lexeme} {found : List Item} {stop : Option ParseError}
    (reads : ReadsItems lexemes found stop) :
    ReadsItems (lexemes.map Lexeme.unplaced) (found.map Item.unplaced)
      (stop.map ParseError.unplaced) := by
  induction reads with
  | @stop lexemes stop stops =>
    refine .stop ?_
    cases stop <;> simp only [Option.map_none, Option.map_some, Item.StopsAt] at stops ⊢ <;>
      rw [Item.next_unplaced, stops] <;> rfl
  | cons first _ ih =>
    refine .cons ?_ ih
    rw [Item.next_unplaced, first]
    rfl

/-! ### Tokens -/

namespace Assembly

variable {options : Options} {assembly : Assembly}

theorem claimFor_unplaced (core : Core) (assembly : Assembly) :
    assembly.claimFor core.unplaced = (assembly.claimFor core).mapError ParseError.unplaced := by
  cases core with
  | named name index pattern =>
    simp only [claimFor, Core.unplaced, claim]
    split <;> rfl
  | unnamed pattern index =>
    simp only [claimFor, Core.unplaced, claim]
    split <;> rfl

theorem patternFor_unplaced (core : Core) :
    patternFor options core.unplaced = patternFor options core := by
  cases core with
  | named name index pattern => cases pattern <;> rfl
  | unnamed => rfl

theorem add_unplaced (item : Item) (assembly : Assembly) :
    assembly.add options item.unplaced =
      (assembly.add options item).mapError ParseError.unplaced := by
  cases item with
  | plain | escaped => rfl
  | key core modifier =>
    simp only [Item.unplaced, add, addKey, claimFor_unplaced, patternFor_unplaced]
    generalize (if isLead options assembly.held then
        (assembly.held, ({ assembly with held := "" } : Assembly))
      else ("", assembly.release)) = taken
    cases (taken.2.flush options).claimFor core <;> rfl
  | group lead core trail modifier =>
    cases core with
    | some core =>
      simp only [Item.unplaced, Option.map_some, add, addGroup, claimFor_unplaced,
        patternFor_unplaced]
      cases (assembly.release.flush options).claimFor core <;> rfl
    | none =>
      simp only [Item.unplaced, Option.map_none, add, addGroup]
      split
      · rfl
      · split <;> rfl

theorem foldlM_unplaced (items : List Item) (assembly : Assembly) :
    (items.map Item.unplaced).foldlM (add options) assembly =
      (items.foldlM (add options) assembly).mapError ParseError.unplaced := by
  induction items generalizing assembly with
  | nil => rfl
  | cons item items ih =>
    rw [List.map_cons, List.foldlM_cons, List.foldlM_cons, add_unplaced]
    cases assembly.add options item with
    | error error => rfl
    | ok next => exact ih next

end Assembly

/-- The tokens of lexemes do not depend on the places, and the error does in its own place alone. -/
theorem tokensOfLexemes_unplaced (options : Options) (lexemes : List Lexeme) :
    tokensOfLexemes options (lexemes.map Lexeme.unplaced) =
      (tokensOfLexemes options lexemes).mapError ParseError.unplaced := by
  simp only [tokensOfLexemes, (reads_items lexemes).unplaced.items_eq, tokensOfItems,
    Assembly.foldlM_unplaced]
  cases (items lexemes).1.foldlM (Assembly.add options) {} with
  | error error => rfl
  | ok assembly => cases (items lexemes).2 <;> rfl

end PathTemplate
