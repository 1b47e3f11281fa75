/-
Sets of characters as expressions describe them: ranges, shorthand classes, the operations of
bracket classes, and closure under simple case folding. `CharSet.contains` decides membership,
and one lemma per constructor says what it means.
-/

import PathTemplate.Text.Folding
import PathTemplate.Text.Word

namespace PathTemplate

/-- A description of a set of characters. -/
inductive CharSet where
  | none
  /-- The characters from `first` to `last`. -/
  | range (first last : Char)
  /-- The decimal digits of all scripts. -/
  | digit
  /-- The word characters of all scripts. -/
  | word
  /-- White space of all scripts. -/
  | blank
  | union (a b : CharSet)
  | inter (a b : CharSet)
  | compl (a : CharSet)
  /-- The characters alike, but for case, to one of the set. -/
  | folded (a : CharSet)
deriving DecidableEq, Repr, Inhabited

namespace CharSet

/-- The character belongs to the set. -/
def contains : CharSet → Char → Bool
  | .none, _ => false
  | .range first last, c => first ≤ c && c ≤ last
  | .digit, c => isDecimalDigit c
  | .word, c => isWordCharacter c
  | .blank, c => isBlank c
  | .union a b, c => a.contains c || b.contains c
  | .inter a b, c => a.contains c && b.contains c
  | .compl a, c => !a.contains c
  | .folded a, c => (caseOrbit c).any a.contains

/-- The set of one character. -/
def single (c : Char) : CharSet := .range c c

/-- The characters of `a` that are not in `b`. -/
def diff (a b : CharSet) : CharSet := .inter a (.compl b)

/-- The characters in exactly one of the two sets. -/
def symmDiff (a b : CharSet) : CharSet := .union (a.diff b) (b.diff a)

/-- The characters of any of the ranges. -/
def ofRanges (ranges : List (Char × Char)) : CharSet :=
  ranges.foldr (fun range rest => .union (.range range.1 range.2) rest) .none

/-- The set, closed under case folding if `fold` says so. -/
def foldIf (fold : Bool) (a : CharSet) : CharSet := if fold then .folded a else a

/-- The set or its complement. -/
def complIf (negated : Bool) (a : CharSet) : CharSet := if negated then .compl a else a

/-- All characters. -/
def all : CharSet := .compl .none

@[simp] theorem contains_single {c d : Char} : (single c).contains d = decide (d = c) := by
  simp only [single, contains]
  by_cases h : d = c
  · subst h; simp
  · have : ¬(c ≤ d ∧ d ≤ c) := fun ⟨h₁, h₂⟩ => h (Char.le_antisymm h₂ h₁)
    simpa [h] using this

@[simp] theorem contains_union {a b : CharSet} {c : Char} :
    (union a b).contains c = (a.contains c || b.contains c) := rfl

@[simp] theorem contains_compl {a : CharSet} {c : Char} :
    (compl a).contains c = !a.contains c := rfl

/-- A set is part of its closure. -/
theorem contains_folded_of_contains {a : CharSet} {c : Char} (h : a.contains c = true) :
    (folded a).contains c = true := by
  simp only [contains, List.any_eq_true]
  exact ⟨c, mem_caseOrbit_self c, h⟩

/-! ### Named ASCII sets -/

/-- The ASCII set that a bracket class may name as `[:name:]`. -/
def named? : List Char → Option CharSet
  | ['a', 'l', 'n', 'u', 'm'] => some (ofRanges [('0', '9'), ('A', 'Z'), ('a', 'z')])
  | ['a', 'l', 'p', 'h', 'a'] => some (ofRanges [('A', 'Z'), ('a', 'z')])
  | ['a', 's', 'c', 'i', 'i'] => some (.range '\x00' '\x7F')
  | ['b', 'l', 'a', 'n', 'k'] => some (ofRanges [('\t', '\t'), (' ', ' ')])
  | ['c', 'n', 't', 'r', 'l'] => some (ofRanges [('\x00', '\x1F'), ('\x7F', '\x7F')])
  | ['d', 'i', 'g', 'i', 't'] => some (.range '0' '9')
  | ['g', 'r', 'a', 'p', 'h'] => some (.range '!' '~')
  | ['l', 'o', 'w', 'e', 'r'] => some (.range 'a' 'z')
  | ['p', 'r', 'i', 'n', 't'] => some (.range ' ' '~')
  | ['p', 'u', 'n', 'c', 't'] =>
    some (ofRanges [('!', '/'), (':', '@'), ('[', '\x60'), ('\x7B', '~')])
  | ['s', 'p', 'a', 'c', 'e'] => some (ofRanges [('\t', '\r'), (' ', ' ')])
  | ['u', 'p', 'p', 'e', 'r'] => some (.range 'A' 'Z')
  | ['w', 'o', 'r', 'd'] => some (ofRanges [('0', '9'), ('A', 'Z'), ('a', 'z'), ('_', '_')])
  | ['x', 'd', 'i', 'g', 'i', 't'] => some (ofRanges [('0', '9'), ('A', 'F'), ('a', 'f')])
  | _ => Option.none

/-- The hexadecimal digits. -/
def hexDigit : CharSet := ofRanges [('0', '9'), ('A', 'F'), ('a', 'f')]

end CharSet

end PathTemplate
