/-
Places in a text, and what the groups of an expression have captured on the way there.

A place divides its text: `before` holds the characters before it, nearest first, and `after`
those that follow. A capture remembers the text from where it opened, so that it costs nothing
to make.
-/

import PathTemplate.Expression.Basic

namespace PathTemplate

/-- What a group captured: the characters from `start` up to `stop`. -/
structure Capture where
  start : Nat
  stop : Nat
  /-- The text from `start` on. -/
  source : List Char
deriving DecidableEq, Repr

/-- The captured text. -/
def Capture.text (capture : Capture) : List Char :=
  capture.source.take (capture.stop - capture.start)

/-- A place in a text. -/
structure Place where
  /-- The number of characters before the place. -/
  position : Nat
  before : List Char
  after : List Char
  /-- The last capture of each group that has captured anything. -/
  captures : List (Nat × Capture)
deriving DecidableEq, Repr

namespace Place

/-- The beginning of a text. -/
def start (text : List Char) : Place := ⟨0, [], text, []⟩

/-- The text around the place. -/
def text (place : Place) : List Char := place.before.reverse ++ place.after

/-- The place after the next character. -/
def next? (place : Place) : Option Place :=
  match place.after with
  | [] => none
  | c :: rest => some { place with position := place.position + 1, before := c :: place.before, after := rest }

/-- The place `n` characters back. -/
def back? : Nat → Place → Option Place
  | 0, place => some place
  | n + 1, place =>
    match place.before with
    | [] => none
    | c :: rest => { place with position := place.position - 1, before := rest, after := c :: place.after }.back? n

/-- The last capture of a group. -/
def capture? (place : Place) (number : Nat) : Option Capture := place.captures.lookup number

/-- The group with this number captured what lies between `opened` and the place. -/
def capture (number : Nat) (opened place : Place) : Place :=
  { place with
    captures :=
      (number, ⟨opened.position, place.position, opened.after⟩) ::
        place.captures.filter fun entry => entry.1 ≠ number }

/-- The place after a text, if that text follows. -/
def skip? : List Char → Place → Option Place
  | [], place => some place
  | c :: cs, place =>
    match place.next? with
    | some next => if place.after.head? = some c then next.skip? cs else none
    | none => none

/-- The next character has the property. -/
def followedBy (p : Char → Bool) (place : Place) : Bool := place.after.head?.any p

/-- The character before has the property. -/
def precededBy (p : Char → Bool) (place : Place) : Bool := place.before.head?.any p

/-- The place is such an edge. -/
def isAt (place : Place) : Edge → Bool
  | .textStart => place.before.isEmpty
  | .textEnd => place.after.isEmpty
  | .lineStart => place.before.isEmpty || place.precededBy (· == '\n')
  | .lineEnd => place.after.isEmpty || place.followedBy (· == '\n')
  | .wordBoundary => place.precededBy isWordCharacter != place.followedBy isWordCharacter
  | .noWordBoundary => place.precededBy isWordCharacter == place.followedBy isWordCharacter

/-- What decides how an expression goes on from a place: the position, and the spans of the
groups that it refers back to. -/
abbrev Mark := Nat × List (Option (Nat × Nat))

/-- The mark of a place for an expression that refers back to these groups. -/
def mark (references : List Nat) (place : Place) : Mark :=
  (place.position,
    references.map fun number => (place.capture? number).map fun c => (c.start, c.stop))

end Place

end PathTemplate
