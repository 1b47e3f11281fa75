/-
Matching expressions.

`Expr` is the abstract form of an expression: sets of characters, sequence, choice, capture
groups, loops, edges, looking around, atomic parts and references back to groups. The module
also has the simple analyses: which groups are referred to, and what constant number of
characters an expression covers.
-/

import PathTemplate.Expression.CharSet

namespace PathTemplate

/-- A place in a text that an expression may insist on. -/
inductive Edge where
  | textStart
  | textEnd
  | lineStart
  | lineEnd
  | wordBoundary
  | noWordBoundary
deriving DecidableEq, Repr

/-- What becomes of a pass of an unbounded loop that covers no character. -/
inductive EmptyPass where
  /-- Such a pass is refused. -/
  | refused
  /-- As the first pass of the unbounded part it stands and ends the loop; later it is
  refused. -/
  | endsLoop
deriving DecidableEq, Repr

/-- A matching expression. -/
inductive Expr where
  /-- Covers nothing. -/
  | empty
  /-- Matches nowhere. -/
  | never
  /-- One character of the set. -/
  | one (set : CharSet)
  | seq (a b : Expr)
  /-- The first alternative has priority. -/
  | alt (a b : Expr)
  /-- Captures what `a` covers as the group with this number. -/
  | group (number : Nat) (a : Expr)
  /-- At least `least` and at most `most` passes of `a`, many first if `greedy`. -/
  | loop (least : Nat) (most : Option Nat) (greedy : Bool) (emptyPass : EmptyPass) (a : Expr)
  | edge (edge : Edge)
  /-- What follows matches `a`, or does not if `negated`; nothing is covered. -/
  | ahead (negated : Bool) (a : Expr)
  /-- What precedes matches `a`, or does not if `negated`; nothing is covered. -/
  | behind (negated : Bool) (a : Expr)
  /-- The preferred match of `a` and no other. -/
  | atomic (a : Expr)
  /-- The text that the group with this number captured last. -/
  | back (number : Nat)
deriving DecidableEq, Repr, Inhabited

namespace Expr

/-- `a` and then `b`, where the empty expression leaves no trace. -/
def append : Expr → Expr → Expr
  | .empty, b => b
  | a, .empty => a
  | a, b => .seq a b

/-- A character, or any character alike to it if `fold` says so. -/
def character (fold : Bool) (c : Char) : Expr := .one (.foldIf fold (.single c))

/-- A loop may go round `a`: it is neither an edge nor a look around, nor empty. -/
def isRepeatable : Expr → Bool
  | .empty | .edge _ | .ahead .. | .behind .. => false
  | _ => true

/-- The numbers of the groups that the expression refers back to. -/
def references : Expr → List Nat
  | .empty | .never | .one _ | .edge _ => []
  | .seq a b | .alt a b => a.references ++ b.references
  | .group _ a | .loop _ _ _ _ a | .ahead _ a | .behind _ a | .atomic a => a.references
  | .back number => [number]

/-- The numbers of the capture groups, in the order in which they open. -/
def groups : Expr → List Nat
  | .empty | .never | .one _ | .edge _ | .back _ => []
  | .seq a b | .alt a b => a.groups ++ b.groups
  | .group number a => number :: a.groups
  | .loop _ _ _ _ a | .ahead _ a | .behind _ a | .atomic a => a.groups

/-- The number of characters that every match covers, if the form of the expression tells. -/
def width? : Expr → Option Nat
  | .empty | .edge _ | .ahead .. | .behind .. => some 0
  | .one _ => some 1
  | .never | .back _ => none
  | .seq a b =>
    match a.width?, b.width? with
    | some m, some n => some (m + n)
    | _, _ => none
  | .alt a b =>
    match a.width?, b.width? with
    | some m, some n => if m = n then some m else none
    | _, _ => none
  | .group _ a | .atomic a => a.width?
  | .loop least most _ _ a =>
    match a.width? with
    | some n => if most = some least then some (least * n) else none
    | none => none

end Expr

end PathTemplate
