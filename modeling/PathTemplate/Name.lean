/-
Names of parameters.

A parameter is named by the pattern's author (`:id`) or, where the author gives no name, by
its place among the unnamed ones. The explicit name `0` and the ordinal 0 are different names
that are shown alike. `Name.before` is the order in which parameters are listed.
-/

namespace PathTemplate

/-- The name of a parameter. -/
inductive Name where
  | ordinal (index : Nat)
  | explicit (text : String)
deriving DecidableEq, Repr, Hashable, Inhabited

namespace Name

/-- The name as messages show it. -/
def shown : Name → String
  | .ordinal index => toString index
  | .explicit text => text

/-- The text of an explicit name. -/
def explicit? : Name → Option String
  | .explicit text => some text
  | .ordinal _ => none

/-- The index of an ordinal name. -/
def ordinal? : Name → Option Nat
  | .ordinal index => some index
  | .explicit _ => none

/-- Ordinals come first, by their index; explicit names follow, character by character. -/
def before : Name → Name → Bool
  | .ordinal a, .ordinal b => a < b
  | .ordinal _, .explicit _ => true
  | .explicit _, .ordinal _ => false
  | .explicit a, .explicit b => a < b

theorem before_irrefl (a : Name) : a.before a = false := by
  cases a <;> simp [before]

theorem before_trans {a b c : Name} (h₁ : a.before b = true) (h₂ : b.before c = true) :
    a.before c = true := by
  cases a <;> cases b <;> cases c <;> simp_all only [before, decide_eq_true_eq, reduceCtorEq]
  · omega
  · exact String.lt_trans h₁ h₂

/-- Of two names, neither of which comes before the other, both are the same. -/
theorem eq_of_not_before {a b : Name} (h₁ : a.before b = false) (h₂ : b.before a = false) :
    a = b := by
  cases a <;> cases b <;> simp_all only [before, decide_eq_false_iff_not, reduceCtorEq]
  · rw [Nat.le_antisymm (Nat.le_of_not_lt h₂) (Nat.le_of_not_lt h₁)]
  · rw [String.le_antisymm (String.not_lt.1 h₂) (String.not_lt.1 h₁)]

theorem before_asymm {a b : Name} (h : a.before b = true) : b.before a = false := by
  cases h' : b.before a with
  | false => rfl
  | true => rw [before_irrefl a |>.symm.trans (before_trans h h')] at *

end Name

/-- The names of a list in order, each of them once. -/
def sortedNames (names : List Name) : List Name :=
  (names.mergeSort fun a b => !b.before a).eraseDups

end PathTemplate
