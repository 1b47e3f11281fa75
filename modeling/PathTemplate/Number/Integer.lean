/-
Integers of a fixed width as texts.
-/

import PathTemplate.Number.Digits

namespace PathTemplate

/-- A range of integers. -/
structure IntegerRange where
  least : Int
  greatest : Int
deriving DecidableEq, Repr

namespace IntegerRange

/-- The integers that so many bits hold with a sign. -/
def signed (bits : Nat) : IntegerRange :=
  ⟨-(Nat.pow 2 (bits - 1) : Nat), (Nat.pow 2 (bits - 1) : Nat) - 1⟩

/-- The integers that so many bits hold without a sign. -/
def unsigned (bits : Nat) : IntegerRange := ⟨0, (Nat.pow 2 bits : Nat) - 1⟩

/-- The integer of the range that a text writes. A minus sign is allowed where the range has
negative integers, a plus sign everywhere. -/
def read? (range : IntegerRange) (text : String) : Option Int :=
  let value : Option Int :=
    match text.toList with
    | '+' :: rest => (natural? rest).map Int.ofNat
    | '-' :: rest => if range.least < 0 then (natural? rest).map fun n => -Int.ofNat n else none
    | rest => (natural? rest).map Int.ofNat
  value.bind fun value =>
    if range.least ≤ value && value ≤ range.greatest then some value else none

end IntegerRange

end PathTemplate
