/-
Double-precision numbers as decimal texts.

`shortest` gives the fewest digits that read back to the same number, and of those the nearest
to it. It works on the number as an integer times a power of two, so all of it is exact
arithmetic on natural numbers. `Decimal.text` writes the digits with a point where needed and
never with an exponent; `Decimal.read?` reads a text.
-/

import PathTemplate.Number.Digits

namespace PathTemplate

namespace Decimal

/-- A positive number, as `significand * 2 ^ exponent`, and whether the next smaller number of
its format is only half as far as the next greater one. -/
structure Binary where
  significand : Nat
  exponent : Int
  lowerGapHalved : Bool
deriving DecidableEq, Repr

/-- The number whose bits these are, if it is positive and finite. -/
def Binary.ofBits (bits : UInt64) : Binary :=
  let fraction : Nat := bits.toNat % Nat.pow 2 52
  let biased : Nat := bits.toNat / Nat.pow 2 52 % Nat.pow 2 11
  if biased = 0 then ⟨fraction, -1074, false⟩
  else ⟨fraction + Nat.pow 2 52, (biased : Int) - 1075, fraction = 0 && 1 < biased⟩

/-- `digits * 10 ^ exponent`. -/
structure Digits where
  digits : Nat
  exponent : Int
deriving DecidableEq, Repr

/-- The least number from `n` on, within the bound, for which `start * 10 ^ n` reaches the goal. -/
def firstReaching (goal start : Nat) : (bound : Nat) → (n : Nat) → Nat
  | 0, n => n
  | bound + 1, n => if goal ≤ start * Nat.pow 10 n then n else firstReaching goal start bound (n + 1)

/-- The number of places before the decimal point of `numerator / denominator`: the least `k`
for which the number is less than `10 ^ k`. -/
def magnitude (numerator denominator : Nat) : Int :=
  if denominator ≤ numerator then (Nat.toDigits 10 (numerator / denominator)).length
  else 1 - (firstReaching denominator numerator 400 0 : Nat)

/-- The interval of the numbers that are read as a binary one: the numerators of its lower end,
of the number and of its upper end, their denominator, and whether the ends belong to it. -/
structure Interval where
  lower : Nat
  middle : Nat
  upper : Nat
  denominator : Nat
  closed : Bool
deriving DecidableEq, Repr

/-- The numbers that are read as this one: half the gap to either neighbour belongs to it. -/
def Binary.interval (binary : Binary) : Interval :=
  let factor := Nat.pow 2 binary.exponent.toNat
  { lower := (4 * binary.significand - if binary.lowerGapHalved then 1 else 2) * factor
    middle := 4 * binary.significand * factor
    upper := (4 * binary.significand + 2) * factor
    denominator := 4 * Nat.pow 2 (-binary.exponent).toNat
    closed := binary.significand % 2 = 0 }

/-- The interval with all numbers times `10 ^ shift`. -/
def Interval.scale (interval : Interval) (shift : Int) : Interval :=
  let factor := Nat.pow 10 shift.toNat
  { interval with
    lower := interval.lower * factor
    middle := interval.middle * factor
    upper := interval.upper * factor
    denominator := interval.denominator * Nat.pow 10 (-shift).toNat }

/-- The integer belongs to the interval. -/
def Interval.has (interval : Interval) (n : Nat) : Bool :=
  let n := n * interval.denominator
  if interval.closed then interval.lower ≤ n && n ≤ interval.upper
  else interval.lower < n && n < interval.upper

/-- The integer of the interval that is nearest to its middle; the greater one of two. -/
def Interval.nearest? (interval : Interval) : Option Nat :=
  let below := interval.middle / interval.denominator
  let above := below + 1
  match interval.has below, interval.has above with
  | false, false => none
  | true, false => some below
  | false, true => some above
  | true, true =>
    let toBelow := interval.middle - below * interval.denominator
    let toAbove := above * interval.denominator - interval.middle
    some (if toBelow < toAbove then below else above)

/-- The digits of the first grid, from `count` digits on, that has a number in the interval. -/
def digitsFrom (interval : Interval) (size : Int) : (bound : Nat) → (count : Nat) → Digits
  | 0, count => ⟨(interval.scale (count - size)).nearest?.getD 0, size - count⟩
  | bound + 1, count =>
    match (interval.scale (count - size)).nearest? with
    | some digits => ⟨digits, size - count⟩
    | none => digitsFrom interval size bound (count + 1)

/-- The fewest digits that read back to the number, and of those the nearest. -/
def shortest (binary : Binary) : Digits :=
  let interval := binary.interval
  digitsFrom interval (magnitude interval.middle interval.denominator) 17 1

/-- Positional notation, without zeros after the last digit behind the point. -/
def positional (digits : Digits) : List Char :=
  let text := Nat.toDigits 10 digits.digits
  if 0 ≤ digits.exponent then text ++ List.replicate digits.exponent.toNat '0'
  else
    let places := (-digits.exponent).toNat
    let padded := List.replicate (places + 1 - text.length) '0' ++ text
    let whole := padded.take (padded.length - places)
    let fraction := ((padded.drop (padded.length - places)).reverse.dropWhile (· == '0')).reverse
    if fraction.isEmpty then whole else whole ++ '.' :: fraction

end Decimal

/-- The shortest decimal text that reads back to the number, never with an exponent. -/
def Decimal.text (value : Float) : String :=
  let bits := value.toBits
  let magnitude := bits.toNat % Nat.pow 2 63
  let sign := if Nat.pow 2 63 ≤ bits.toNat then "-" else ""
  if 0x7FF0000000000000 < magnitude then "NaN"
  else if magnitude = 0x7FF0000000000000 then sign ++ "inf"
  else if magnitude = 0 then sign ++ "0"
  else sign ++ String.ofList (Decimal.positional (Decimal.shortest (.ofBits magnitude.toUInt64)))

namespace Decimal

/-- The exponent after the letter `e`, with a sign that may be missing. -/
def exponent? (text : List Char) : Option Int :=
  match text with
  | '-' :: rest => (natural? rest).map fun n => -(n : Int)
  | '+' :: rest => (natural? rest).map fun n => (n : Int)
  | rest => (natural? rest).map fun n => (n : Int)

/-- The number nearest to `digits * 10 ^ exponent`. -/
def toFloat (digits : Nat) (exponent : Int) : Float :=
  let size := exponent + (Nat.toDigits 10 digits).length
  if digits = 0 || size < -400 then 0.0
  else if 400 < size then Float.ofBits 0x7FF0000000000000
  else if 0 ≤ exponent then Float.ofScientific digits false exponent.toNat
  else Float.ofScientific digits true (-exponent).toNat

/-- The number that digits with a point and an exponent write. A digit is needed before or after
the point. -/
def finite? (text : List Char) : Option Float :=
  let whole := text.takeWhile Char.isDigit
  let afterWhole := text.dropWhile Char.isDigit
  let (fraction, afterFraction) :=
    match afterWhole with
    | '.' :: rest => (rest.takeWhile Char.isDigit, rest.dropWhile Char.isDigit)
    | rest => ([], rest)
  let exponent : Option Int :=
    match afterFraction with
    | [] => some 0
    | c :: rest => if c = 'e' || c = 'E' then exponent? rest else none
  if whole.isEmpty && fraction.isEmpty then none
  else exponent.map fun exponent => toFloat (digitsValue (whole ++ fraction)) (exponent - fraction.length)

/-- The number that a text without a sign writes. -/
def magnitude? (text : List Char) : Option Float :=
  let small := String.ofList (text.map Char.toLower)
  if small = "inf" || small = "infinity" then some (Float.ofBits 0x7FF0000000000000)
  else if small = "nan" then some (Float.ofBits 0x7FF8000000000000)
  else finite? text

end Decimal

/-- The number that a decimal text writes. -/
def Decimal.read? (text : String) : Option Float :=
  match text.toList with
  | '-' :: rest => (Decimal.magnitude? rest).map fun value => -value
  | '+' :: rest => Decimal.magnitude? rest
  | rest => Decimal.magnitude? rest

end PathTemplate
