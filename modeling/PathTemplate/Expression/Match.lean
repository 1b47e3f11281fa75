/-
Matching.

`Expr.outcomes` lists the places that an expression can lead to from a place, in order of
preference: the first alternative before the second, the greedy loop's longer way before the
shorter. Of several ways to places that no continuation can tell apart only the preferred one
is listed, which keeps the work polynomial without changing which match is found.

`Expr.search?` finds the first place of a text from which the expression matches, and the
preferred match there.
-/

import Std.Data.HashSet
import PathTemplate.Expression.Place

namespace PathTemplate

/-- The places of a list, without those whose mark occurred before. -/
def distinctPlaces (references : List Nat) : List Place → List Place
  | [] => []
  | [place] => [place]
  | places =>
    (places.foldl
      (fun (seen, found) place =>
        let mark := place.mark references
        if seen.contains mark then (seen, found) else (seen.insert mark, place :: found))
      ((∅ : Std.HashSet Place.Mark), ([] : List Place))).2.reverse

/-- What exploring a loop has come to. -/
structure Exploration where
  /-- The marks from which passes were tried, with the number of passes that were left. -/
  tried : Std.HashSet (Nat × Place.Mark) := ∅
  /-- The places where the loop may end, least preferred first. -/
  found : List Place := []

namespace Exploration

/-- The loop may end at `place`. -/
def emit (place : Place) (exploration : Exploration) : Exploration :=
  { exploration with found := place :: exploration.found }

end Exploration

section Loops

variable (references : List Nat) (greedy : Bool) (pass : Place → List Place)

/-- Explore up to `left` optional passes from `place`. Where `counted`, the number of passes
left is part of what tells situations apart; where not, it is only a bound. -/
def explore (counted : Bool) : (left : Nat) → Exploration → Place → Exploration
  | 0, exploration, place => exploration.emit place
  | left + 1, exploration, place =>
    let situation := (if counted then left + 1 else 0, place.mark references)
    if exploration.tried.contains situation then exploration
    else
      let exploration := { exploration with tried := exploration.tried.insert situation }
      if greedy then ((pass place).foldl (explore counted left) exploration).emit place
      else (pass place).foldl (explore counted left) (exploration.emit place)

/-- The places after exactly `count` passes. -/
def repeatExactly : (count : Nat) → List Place → List Place
  | 0, places => places
  | _ + 1, [] => []
  | count + 1, places => repeatExactly count (distinctPlaces references (places.flatMap pass))

/-- Any number of passes, none of which covers nothing. -/
def exploreMany (exploration : Exploration) (place : Place) : Exploration :=
  explore references greedy
    (fun origin => (pass origin).filter fun place => place.position ≠ origin.position)
    false (place.after.length + 1) exploration place

/-- A first pass, which ends the loop if it covers nothing, and then any number of passes. -/
def exploreSome (exploration : Exploration) (origin : Place) : Exploration :=
  (pass origin).foldl
    (fun exploration place =>
      if place.position = origin.position then exploration.emit place
      else exploreMany references greedy pass exploration place)
    exploration

/-- The places after a loop that starts at `origin`. -/
def loopOutcomes (least : Nat) (most : Option Nat) (emptyPass : EmptyPass) (origin : Place) :
    List Place :=
  let exploration :=
    match most, emptyPass with
    | some most, _ =>
      (repeatExactly references pass (min least most) [origin]).foldl
        (explore references greedy pass true (most - least)) {}
    | none, .refused =>
      (repeatExactly references pass least [origin]).foldl
        (exploreMany references greedy pass) {}
    | none, .endsLoop =>
      match least with
      | 0 =>
        if greedy then (exploreSome references greedy pass {} origin).emit origin
        else exploreSome references greedy pass (Exploration.emit origin {}) origin
      | least + 1 =>
        (repeatExactly references pass least [origin]).foldl
          (exploreSome references greedy pass) {}
  distinctPlaces references exploration.found.reverse

end Loops

namespace Expr

/-- The places that the expression can lead to, preferred ones first. `references` are the
groups to which the whole expression refers back. -/
def outcomes (references : List Nat) : Expr → Place → List Place
  | .empty, place => [place]
  | .never, _ => []
  | .one set, place => if place.followedBy set.contains then place.next?.toList else []
  | .seq a b, place =>
    distinctPlaces references ((a.outcomes references place).flatMap (b.outcomes references))
  | .alt a b, place =>
    distinctPlaces references (a.outcomes references place ++ b.outcomes references place)
  | .group number a, place => (a.outcomes references place).map (Place.capture number place)
  | .loop least most greedy emptyPass a, place =>
    loopOutcomes references greedy (a.outcomes references) least most emptyPass place
  | .edge kind, place => if place.isAt kind then [place] else []
  | .ahead negated a, place =>
    match a.outcomes references place, negated with
    | [], true => [place]
    | [], false => []
    | _ :: _, true => []
    | found :: _, false => [{ place with captures := found.captures }]
  | .behind negated a, place =>
    let found :=
      match a.width? with
      | some width => (place.back? width).toList.flatMap (a.outcomes references)
      | none => []
    match found, negated with
    | [], true => [place]
    | [], false => []
    | _ :: _, true => []
    | found :: _, false => [{ place with captures := found.captures }]
  | .atomic a, place => (a.outcomes references place).take 1
  | .back number, place =>
    match place.capture? number with
    | some capture => (place.skip? capture.text).toList
    | none => []

/-- The preferred match from the first place at or after a given one from which there is one:
where it begins, and where it ends. `before` precedes the given place, nearest first, and
`after` follows it. -/
def searchFrom (references : List Nat) (expr : Expr) (position : Nat) (before : List Char) :
    (after : List Char) → Option (Place × Place)
  | [] => (attempt []).map fun found => (⟨position, before, [], []⟩, found)
  | c :: rest =>
    match attempt (c :: rest) with
    | some found => some (⟨position, before, c :: rest, []⟩, found)
    | none => searchFrom references expr (position + 1) (c :: before) rest
where
  /-- The preferred match from the place that `after` follows. -/
  attempt (after : List Char) : Option Place :=
    (expr.outcomes references ⟨position, before, after, []⟩).head?

/-- The first place of a text from which the expression matches, and the place where the
preferred match from there ends. -/
def search? (expr : Expr) (text : List Char) : Option (Place × Place) :=
  searchFrom expr.references expr 0 [] text

end Expr

end PathTemplate
