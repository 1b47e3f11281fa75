/-
Sets of characters given by a table of code point ranges.

A table is a list of closed ranges; `Ranges.has` looks one character up. The tables of the
library (letters of names, digits, word characters, blanks) are all of this form.
-/

namespace PathTemplate

/-- Closed ranges of code points, lowest first. -/
abbrev Ranges := List (Nat × Nat)

/-- `c` lies in one of the ranges. -/
def Ranges.has (table : Ranges) (c : Char) : Bool :=
  table.any fun range => range.1 ≤ c.toNat && c.toNat ≤ range.2

theorem Ranges.has_iff {table : Ranges} {c : Char} :
    table.has c = true ↔ ∃ range ∈ table, range.1 ≤ c.toNat ∧ c.toNat ≤ range.2 := by
  simp [Ranges.has]

end PathTemplate
