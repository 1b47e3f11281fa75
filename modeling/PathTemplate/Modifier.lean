/-
Modifiers: how often a part of a path occurs.
-/

namespace PathTemplate

/-- How often a part occurs: once, at most once, at least once, any number of times. -/
inductive Modifier where
  | once
  | optional
  | oneOrMore
  | zeroOrMore
deriving DecidableEq, Repr, Inhabited

namespace Modifier

/-- The sign for the modifier in patterns and expressions; nothing for `once`. -/
def symbol : Modifier → String
  | .once => ""
  | .optional => "?"
  | .oneOrMore => "+"
  | .zeroOrMore => "*"

def ofSymbol? : String → Option Modifier
  | "" => some .once
  | "?" => some .optional
  | "+" => some .oneOrMore
  | "*" => some .zeroOrMore
  | _ => none

/-- The modifier's name where values are shown to a programmer. -/
def label : Modifier → String
  | .once => "None"
  | .optional => "Optional"
  | .oneOrMore => "OneOrMore"
  | .zeroOrMore => "ZeroOrMore"

/-- The part may be absent. -/
def isOptional : Modifier → Bool
  | .optional | .zeroOrMore => true
  | .once | .oneOrMore => false

/-- The part may occur more than once. -/
def isRepeating : Modifier → Bool
  | .oneOrMore | .zeroOrMore => true
  | .once | .optional => false

@[simp] theorem ofSymbol?_symbol (modifier : Modifier) :
    ofSymbol? modifier.symbol = some modifier := by
  cases modifier <;> rfl

theorem symbol_of_ofSymbol? {text : String} {modifier : Modifier}
    (h : ofSymbol? text = some modifier) : modifier.symbol = text := by
  unfold ofSymbol? at h
  split at h <;> first | cases h; rfl | cases h

/-- Exactly the four signs stand for modifiers. -/
theorem ofSymbol?_eq_some_iff {text : String} {modifier : Modifier} :
    ofSymbol? text = some modifier ↔ text = modifier.symbol :=
  ⟨fun h => (symbol_of_ofSymbol? h).symm, fun h => h ▸ ofSymbol?_symbol modifier⟩

end Modifier

end PathTemplate
