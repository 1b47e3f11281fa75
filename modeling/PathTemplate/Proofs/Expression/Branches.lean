/-
Expressions as the branches of one.

`Expr.branches` puts expressions side by side as the branches of a choice, the first one first, and
gives the groups of each the numbers that follow those before it. None of them refers to a group.

* `Expr.exists_of_settledWithin?_branches`: the branches are settled one by one, all as parts of an
  expression that needs backtracking or all as parts of one that does not.
* `Expr.head?_outcomes_branches`: the preferred place is the one that the first branch prefers which
  leads anywhere.
-/

import Mathlib.Algebra.GroupWithZero.Nat
import PathTemplate.Proofs.Expression.Distinct
import PathTemplate.Proofs.Expression.Renumbering
import PathTemplate.Proofs.Expression.Settling
import PathTemplate.Proofs.Results

namespace PathTemplate

namespace Expr

/-- Expressions as branches, the first one first. The groups of each follow those before it. -/
def branches (first : Expr) : List Expr → Expr
  | [] => first
  | e :: rest => branches (.alt first (e.shift first.groups.length)) rest

theorem references_shift {e : Expr} (none : e.references = []) (n : Nat) :
    (e.shift n).references = [] := by
  rw [shift, references_renumber, none]
  rfl

theorem references_branches {first : Expr} {rest : List Expr} (none : first.references = [])
    (others : ∀ e ∈ rest, e.references = []) : (branches first rest).references = [] := by
  induction rest generalizing first with
  | nil => exact none
  | cons e rest ih =>
    obtain ⟨here, others⟩ := List.forall_mem_cons.1 others
    refine ih ?_ others
    rw [references, none, references_shift here]
    rfl

/-- The groups of branches are counted through. -/
theorem groups_branches {first : Expr} {rest : List Expr} {count : Nat} {counts : List Nat}
    (here : first.groups = List.range' 1 count)
    (others : List.Forall₂ (fun e count => e.groups = List.range' 1 count) rest counts) :
    (branches first rest).groups = List.range' 1 (count + counts.sum) := by
  induction others generalizing first count with
  | nil => exact here
  | @cons e more _ counts next _ ih =>
    have both : (Expr.alt first (e.shift first.groups.length)).groups =
        List.range' 1 (count + more) := by
      rw [groups, shift, groups_renumber, here, next, List.length_range', List.map_add_range',
        ← List.range'_append_1, Nat.add_comm 1]
    rw [branches, ih both, List.sum_cons, Nat.add_assoc]

theorem isHard_branches (first : Expr) (rest : List Expr) :
    (branches first rest).isHard [] = (first :: rest).any (isHard []) := by
  induction rest generalizing first with
  | nil => simp [branches]
  | cons e rest ih =>
    have shifted : (e.shift first.groups.length).isHard [] = e.isHard [] :=
      @isHard_renumber _ [] (injective_shift _) e
    rw [branches, ih]
    simp [isHard, shifted, Bool.or_assoc]

/-! ### Settling -/

/-- The expression as it is settled within one that refers to no group, and which needs backtracking
if `hard`. -/
def settledWithin? (hard : Bool) (e : Expr) : Option Expr :=
  if hard then e.settle? [] false else e.simple?

section Settling

variable {e e' first : Expr} {rest : List Expr} {hard : Bool}

theorem settled?_eq (none : e.references = []) : e.settled? = e.settledWithin? (e.isHard []) := by
  rw [settled?, none, settledWithin?]

theorem settles_of_settledWithin? (h : e.settledWithin? hard = some e') : e.Settles e' := by
  cases hard with
  | true => exact .inr ⟨_, _, h⟩
  | false => exact .inl h

theorem settledWithin?_alt (a b : Expr) : (Expr.alt a b).settledWithin? hard =
    do return .alt (← a.settledWithin? hard) (← b.settledWithin? hard) := by
  cases hard <;> rfl

theorem settledWithin?_shift (n : Nat) (e : Expr) :
    (e.shift n).settledWithin? hard = (e.settledWithin? hard).map (shift n) := by
  cases hard with
  | true => exact @settle?_renumber _ [] (injective_shift n) false e
  | false => exact simple?_renumber e

/-- The branches are settled one by one. -/
theorem exists_of_settledWithin?_branches (h : (branches first rest).settledWithin? hard = some e') :
    ∃ first' rest', first.settledWithin? hard = some first' ∧
      List.Forall₂ (fun e e' => e.settledWithin? hard = some e') rest rest' ∧
      e' = branches first' rest' := by
  induction rest generalizing first with
  | nil => exact ⟨e', [], h, .nil, rfl⟩
  | cons e rest ih =>
    obtain ⟨both, rest', settled, others, rfl⟩ := ih h
    rw [settledWithin?_alt, settledWithin?_shift] at settled
    simp only [Option.bind_eq_bind, Option.bind_eq_some_iff, Option.pure_def,
      Option.map_eq_some_iff, Option.some.injEq] at settled
    obtain ⟨first', here, _, ⟨e', next, rfl⟩, rfl⟩ := settled
    refine ⟨first', e' :: rest', here, .cons next others, ?_⟩
    rw [branches, (settles_of_settledWithin? here).groups]

theorem isDeclarative_of_isHard (easy : e.isHard [] = false) : e.isDeclarative = true := by
  induction e with
  | empty | one | edge => rfl
  | seq a b iha ihb | alt a b iha ihb =>
    simp only [isHard, Bool.or_eq_false_iff] at easy
    simp [isDeclarative, iha easy.1, ihb easy.2]
  | group number a ih =>
    simp only [isHard, Bool.or_eq_false_iff] at easy
    exact ih easy.2
  | loop _ _ _ _ a ih => exact ih easy
  | never | back | ahead | behind | atomic => cases easy

/-- What needs no backtracking covers the same texts, however it is settled. -/
theorem outcomes_eq_nil_iff_of_settles {a b : Expr} (easy : e.isHard [] = false)
    (left : e.Settles a) (right : e.Settles b) (p : Place) :
    a.outcomes [] p = [] ↔ b.outcomes [] p = [] := by
  have declarative := isDeclarative_of_isHard easy
  obtain ⟨left', covers⟩ := left.covers declarative
  obtain ⟨right', covers'⟩ := right.covers declarative
  have real := realizes_covers left'
  have real' := realizes_covers right'
  rw [covers] at real
  rw [covers'] at real'
  have empty {f g : Place → List Place} (real : Realizes f e.Covers)
      (real' : Realizes g e.Covers) (none : f p = []) : g p = [] := by
    refine List.eq_nil_iff_forall_not_mem.2 fun q member => ?_
    obtain ⟨w, advances, covered⟩ := real'.sound member
    obtain ⟨_, found, _⟩ := real.complete advances.after covered
    rw [none] at found
    cases found
  exact ⟨empty real real', empty real' real⟩

end Settling

/-! ### The preferred branch -/

/-- The place that the first expression prefers which leads anywhere from `p`. The groups of each
expression follow those before it. -/
def leftmost (p : Place) : (opened : Nat) → List Expr → Option Place
  | _, [] => none
  | opened, e :: rest =>
    ((e.outcomes [] p).head?.map (Place.renumber (opened + ·))).or
      (leftmost p (opened + e.groups.length) rest)

theorem outcomes_shift {p : Place} (none : p.captures = []) (n : Nat) (e : Expr) :
    (e.shift n).outcomes [] p = (e.outcomes [] p).map (Place.renumber (n + ·)) := by
  have same := @outcomes_renumber _ [] (injective_shift n) e p
  rwa [Place.renumber_of_captures none] at same

theorem head?_outcomes_branches {p : Place} (none : p.captures = []) (first : Expr)
    (rest : List Expr) :
    ((branches first rest).outcomes [] p).head? = leftmost p 0 (first :: rest) := by
  induction rest generalizing first with
  | nil => simp [branches, leftmost]
  | cons e rest ih =>
    rw [branches, ih]
    simp [leftmost, outcomes, head?_distinctPlaces, outcomes_shift none, groups, Option.or_assoc]

/-- Where a branch leads anywhere, one of the expressions does. -/
theorem exists_of_leftmost {p : Place} {opened : Nat} {es : List Expr}
    (some : leftmost p opened es ≠ none) : ∃ e ∈ es, e.outcomes [] p ≠ [] := by
  induction es generalizing opened with
  | nil => exact absurd rfl some
  | cons e rest ih =>
    by_cases here : e.outcomes [] p = []
    · rw [leftmost, here] at some
      obtain ⟨other, member, found⟩ := ih some
      exact ⟨other, List.mem_cons_of_mem _ member, found⟩
    · exact ⟨e, List.mem_cons_self, here⟩

/-- What is found of the branches is found of one of them, settled as it is alone. -/
theorem exists_search?_of_branches {first e' : Expr} {rest : List Expr} {text : List Char}
    (free : ∀ e ∈ first :: rest, e.references = [])
    (settled : (branches first rest).settled? = some e') (found : (e'.search? text).isSome = true) :
    ∃ e ∈ first :: rest, ∀ own, e.settled? = some own → (own.search? text).isSome = true := by
  obtain ⟨here, others⟩ := List.forall_mem_cons.1 free
  have whole := references_branches here others
  rw [search?, (settles_of_settled? settled).references, whole] at found
  obtain ⟨u, after, split, leads⟩ := searchFrom_isSome_iff.1 found
  rw [settled?_eq whole] at settled
  obtain ⟨first', rest', own, owns, rfl⟩ := exists_of_settledWithin?_branches settled
  rw [ne_eq, ← List.head?_eq_none_iff, head?_outcomes_branches rfl] at leads
  obtain ⟨_, member, leads⟩ := exists_of_leftmost leads
  have all : List.Forall₂ (fun e e' => e.settledWithin? ((branches first rest).isHard []) = some e')
      (first :: rest) (first' :: rest') := .cons own owns
  obtain ⟨e, member, within⟩ := exists_of_forall₂_right all member
  refine ⟨e, member, fun own settled => ?_⟩
  rw [search?, (settles_of_settled? settled).references, free e member]
  refine searchFrom_isSome_iff.2 ⟨u, after, split, ?_⟩
  by_cases backtracks : e.isHard [] = true
  · have hard : (branches first rest).isHard [] = true := by
      rw [isHard_branches]
      exact List.any_eq_true.2 ⟨e, member, backtracks⟩
    rw [settled?_eq (free e member), backtracks, ← hard, within] at settled
    cases settled
    exact leads
  · exact fun empty => leads ((outcomes_eq_nil_iff_of_settles (Bool.eq_false_iff.2 backtracks)
      (settles_of_settled? settled) (settles_of_settledWithin? within) _).1 empty)

end Expr

end PathTemplate
