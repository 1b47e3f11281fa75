/-
Slots: what a matcher does with the capture of a key.

The occurrences of a repeated key are taken apart on bytes: a finder of byte strings reports the
offsets of the separator in the captured text, and the text is sliced there. The finder is a
parameter, and a slice that begins or ends inside of a character is refused. `Key.occurrences` takes
the same text apart on characters.
-/

import PathTemplate.Matcher

namespace PathTemplate

/-- The offsets at which a byte string is found in another one. -/
abbrev Finder := (needle haystack : ByteArray) → List Nat

/-- The part of a text from one byte offset to another. It is refused if they are not in order or if
one of them is not the boundary of a character. -/
def slice? (text : String) (first last : Nat) : Option String :=
  if h : first ≤ last ∧ String.Pos.Raw.IsValid text ⟨first⟩ ∧ String.Pos.Raw.IsValid text ⟨last⟩ then
    some (String.extract (s := text) ⟨⟨first⟩, h.2.1⟩ ⟨⟨last⟩, h.2.2⟩)
  else none

/-- The parts that are left of `size` bytes if `step` bytes are cut out at each of these offsets, from
`last` on: where each of them begins and ends. -/
def partsBetween (step size last : Nat) : List Nat → List (Nat × Nat)
  | [] => [(last, size)]
  | pos :: offsets => (last, pos) :: partsBetween step size (pos + step) offsets

/-- A key, ready for what it captures. -/
structure Slot where
  key : Key
  /-- The bytes that stand between two occurrences, of a key that has several and of a separator that
  is not empty. -/
  needle? : Option ByteArray

namespace Slot

/-- The slot of a key. -/
def ofKey (key : Key) : Slot :=
  { key
    needle? := if key.modifier.isRepeating && key.separator ≠ "" then some key.separator.toByteArray
      else none }

/-- Where a value is sliced: the offsets at which each slice begins and ends. -/
def slices (find : Finder) (slot : Slot) (value : String) : List (Nat × Nat) :=
  match slot.needle? with
  | none => []
  | some needle =>
    partsBetween needle.size value.utf8ByteSize 0 (find needle value.toByteArray)

/-- The occurrences in a value, unless a slice is refused. -/
def split (find : Finder) (slot : Slot) (value : String) : Option (List String) :=
  match slot.needle? with
  | none => some [value]
  | some _ => (slot.slices find value).mapM fun (first, last) => slice? value first last

/-- The value of a key that captured a text, unless a slice is refused. -/
def value? (find : Finder) (decode : String → Key → String) (slot : Slot) (captured : String) :
    Option Value :=
  if slot.key.modifier.isRepeating then
    (slot.split find captured).map fun parts =>
      .repeated (parts.map fun text => decode text slot.key)
  else some (.single (decode captured slot.key))

end Slot

end PathTemplate
