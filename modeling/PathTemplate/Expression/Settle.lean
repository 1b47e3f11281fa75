/-
Settling an expression: what its loops do with passes that cover nothing.

Parts made of characters, choices, groups and loops alone are simple. A simple part tries
each state of affairs once, so that an empty first pass ends an unbounded loop; and its loops
must not ask for more passes than they allow. The other parts backtrack and refuse every empty
pass of an unbounded loop; a loop that asks for more passes than it allows makes as many as it
allows. What a look around or an atomic part ends with is again simple if it has that form.

Looking behind needs a constant width, for each branch of its own.
-/

import PathTemplate.Expression.Basic

namespace PathTemplate

namespace Expr

/-- The expression needs backtracking; `references` are the groups that are referred to. -/
def isHard (references : List Nat) : Expr → Bool
  | .empty | .one _ => false
  | .never | .back _ | .ahead .. | .behind .. | .atomic _ => true
  | .edge kind => kind = .wordBoundary || kind = .noWordBoundary
  | .seq a b | .alt a b => a.isHard references || b.isHard references
  | .group number a => references.contains number || a.isHard references
  | .loop _ _ _ _ a => a.isHard references

/-- The expression as a simple part. -/
def simple? : Expr → Option Expr
  | .seq a b => do return .seq (← a.simple?) (← b.simple?)
  | .alt a b => do return .alt (← a.simple?) (← b.simple?)
  | .group number a => do return .group number (← a.simple?)
  | .loop least most greedy _ a =>
    if most.all (least ≤ ·) then do return .loop least most greedy .endsLoop (← a.simple?)
    else none
  | .ahead negated a => do return .ahead negated (← a.simple?)
  | .behind negated a => do return .behind negated (← a.simple?)
  | .atomic a => do return .atomic (← a.simple?)
  | expr => some expr

/-- Looking behind, branch by branch where the branches differ in width. -/
def lookBehind? (negated : Bool) : Expr → Option Expr
  | .alt a b =>
    if ((Expr.alt a b).width?).isSome then some (.behind negated (.alt a b))
    else if b.width?.isSome then do
      let a ← lookBehind? negated a
      let b := Expr.behind negated b
      return if negated then .seq a b else .alt a b
    else none
  | a => if a.width?.isSome then some (.behind negated a) else none

/-- The expression with its loops and its looking behind settled. Where `last`, nothing
follows that could make the expression match otherwise. -/
def settle? (references : List Nat) : (last : Bool) → Expr → Option Expr
  | last, .seq a b =>
    if last && !(Expr.seq a b).isHard references then (Expr.seq a b).simple?
    else if last && !b.isHard references then
      do return .seq (← settle? references (a matches .seq ..) a) (← b.simple?)
    else do return .seq (← settle? references false a) (← settle? references false b)
  | last, .alt a b =>
    if last && !(Expr.alt a b).isHard references then (Expr.alt a b).simple?
    else do return .alt (← settle? references last a) (← settle? references last b)
  | last, .group number a =>
    if last && !(Expr.group number a).isHard references then (Expr.group number a).simple?
    else do return .group number (← settle? references last a)
  | last, .loop least most greedy emptyPass a =>
    if last && !a.isHard references then (Expr.loop least most greedy emptyPass a).simple?
    else do return .loop least most greedy .refused (← settle? references last a)
  | _, .ahead negated a => do return .ahead negated (← settle? references true a)
  | _, .behind negated a => do lookBehind? negated (← settle? references true a)
  | _, .atomic a => do return .atomic (← settle? references true a)
  | _, expr => some expr

/-- The settled form of a whole expression. -/
def settled? (expr : Expr) : Option Expr :=
  if expr.isHard expr.references then settle? expr.references false expr else expr.simple?

end Expr

end PathTemplate
