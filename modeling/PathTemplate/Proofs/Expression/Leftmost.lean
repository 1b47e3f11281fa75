/-
Choices that can only match at the beginning of a text.

* `Expr.isAnchored` and `Expr.search?_of_isAnchored`: an expression that begins with the edge of the
  text is found at its beginning or nowhere.
* `Expr.capture?_of_mem_outcomes`: an expression leaves the groups alone that it does not have.
* `Expr.PrefersAlike` and `Expr.head?_outcomes_of_branches`: where the two settled forms of each
  branch prefer the same place, branches prefer what the leftmost one does that leads anywhere.
-/

import PathTemplate.Proofs.Expression.EmptyPasses
import PathTemplate.Proofs.Expression.Tracing

namespace PathTemplate

namespace Expr

/-! ### Anchored expressions -/

/-- Every match begins at the beginning of the text. -/
def isAnchored : Expr → Bool
  | .edge kind => kind = .textStart
  | .seq a _ => a.isAnchored
  | .alt a b => a.isAnchored && b.isAnchored
  | .group _ a => a.isAnchored
  | _ => false

section Anchored

variable {e e' : Expr} {references : List Nat}

theorem Settles.isAnchored (h : e.Settles e') (anchored : e.isAnchored = true) :
    e'.isAnchored = true := by
  induction e generalizing e' with
  | edge =>
    obtain rfl := h.form
    exact anchored
  | seq a b iha _ =>
    obtain ⟨a', b', rfl, ha, _⟩ := h.form
    change a'.isAnchored = true
    exact iha ha anchored
  | alt a b iha ihb =>
    obtain ⟨a', b', rfl, ha, hb⟩ := h.form
    rw [Expr.isAnchored, Bool.and_eq_true] at anchored ⊢
    exact ⟨iha ha anchored.1, ihb hb anchored.2⟩
  | group number a ih =>
    obtain ⟨a', rfl, ha⟩ := h.form
    change a'.isAnchored = true
    exact ih ha anchored
  | _ => cases anchored

theorem isAnchored_renumber (f g : Nat → Nat) (e : Expr) :
    (e.renumber f g).isAnchored = e.isAnchored := by
  induction e with
  | alt a b iha ihb => simp only [renumber, isAnchored, iha, ihb]
  | seq a b iha _ => exact iha
  | group _ a ih => exact ih
  | _ => rfl

theorem isAnchored_branches {first : Expr} {rest : List Expr} (here : first.isAnchored = true)
    (others : ∀ e ∈ rest, e.isAnchored = true) : (branches first rest).isAnchored = true := by
  induction rest generalizing first with
  | nil => exact here
  | cons e rest ih =>
    obtain ⟨next, others⟩ := List.forall_mem_cons.1 others
    refine ih ?_ others
    rw [isAnchored, here, shift, isAnchored_renumber, next]
    rfl

theorem isAnchored_append {a : Expr} (anchored : a.isAnchored = true) (b : Expr) :
    (a.append b).isAnchored = true := by
  rcases append_cases a b with rfl | rfl | ⟨_, _, same⟩
  · cases anchored
  · rwa [append_empty]
  · rwa [same]

theorem isAnchored_join {first : Expr} {parts : List Expr} (anchored : first.isAnchored = true) :
    (join (first :: parts)).isAnchored = true := by
  suffices ∀ e : Expr, e.isAnchored = true → (parts.foldl append e).isAnchored = true from
    this first anchored
  induction parts with
  | nil => exact fun _ anchored => anchored
  | cons part parts ih => exact fun e anchored => ih _ (isAnchored_append anchored part)

theorem outcomes_of_isAnchored {p : Place} (anchored : e.isAnchored = true)
    (inside : p.before ≠ []) : e.outcomes references p = [] := by
  induction e with
  | edge kind =>
    obtain rfl : kind = .textStart := of_decide_eq_true anchored
    simp [outcomes, Place.isAt, inside]
  | seq a b iha _ =>
    rw [outcomes, iha anchored]
    rfl
  | alt a b iha ihb =>
    rw [isAnchored, Bool.and_eq_true] at anchored
    rw [outcomes, iha anchored.1, ihb anchored.2]
    rfl
  | group number a ih =>
    rw [outcomes, ih anchored]
    rfl
  | _ => cases anchored

/-- An anchored expression is found at the beginning of a text or nowhere. -/
theorem search?_of_isAnchored (anchored : e.isAnchored = true) (text : List Char) :
    e.search? text = ((e.outcomes e.references (Place.start text)).head?).map
      fun stop => (Place.start text, stop) := by
  cases text with
  | nil => rfl
  | cons c rest =>
    have nowhere : e.searchFrom e.references 1 [c] rest = none := by
      refine Option.not_isSome_iff_eq_none.1 fun found => ?_
      obtain ⟨u, after, _, leads⟩ := searchFrom_isSome_iff.1 found
      exact leads (outcomes_of_isAnchored anchored (by simp))
    cases here : (e.outcomes e.references (Place.start (c :: rest))).head? with
    | none =>
      have attempt : searchFrom.attempt e.references e 0 [] (c :: rest) = none := here
      simp only [search?, searchFrom, attempt]
      exact nowhere
    | some stop =>
      have attempt : searchFrom.attempt e.references e 0 [] (c :: rest) = some stop := here
      simp only [search?, searchFrom, attempt]
      rfl

end Anchored

/-! ### Captures -/

/-- An expression leaves the groups alone that it does not have. -/
theorem capture?_of_mem_outcomes {references : List Nat} {number : Nat} {e : Expr} {p q : Place}
    (outside : number ∉ e.groups) (member : q ∈ e.outcomes references p) :
    q.capture? number = p.capture? number := by
  induction e generalizing p q with
  | empty | never | one | edge | back =>
    rw [Place.capture?, captures_of_mem_outcomes rfl member]
    rfl
  | seq a b iha ihb =>
    rw [groups, List.mem_append, not_or] at outside
    obtain ⟨m, first, second⟩ := List.mem_flatMap.1 (mem_of_mem_distinctPlaces member)
    exact (ihb outside.2 second).trans (iha outside.1 first)
  | alt a b iha ihb =>
    rw [groups, List.mem_append, not_or] at outside
    rcases List.mem_append.1 (mem_of_mem_distinctPlaces member) with member | member
    · exact iha outside.1 member
    · exact ihb outside.2 member
  | group other a ih =>
    rw [groups, List.mem_cons, not_or] at outside
    obtain ⟨m, inner, rfl⟩ := List.mem_map.1 member
    rw [← ih outside.2 inner]
    have unlike : (number == other) = false := beq_eq_false_iff_ne.2 outside.1
    simp only [Place.capture?, Place.capture, List.lookup_cons, unlike,
      Place.lookup_filter_ne outside.1]
  | loop least most greedy emptyPass a ih =>
    obtain ⟨count, _, chain⟩ := loopOutcomes_sound member
    exact @Chain.induction _ (fun p q => q.capture? number = p.capture? number) (fun _ => rfl)
      (fun h₁ h₂ => h₂.trans h₁) (fun _ _ => ih outside) _ _ _ chain
  | ahead negated a ih =>
    simp only [outcomes] at member
    split at member
    · obtain rfl := List.mem_singleton.1 member
      rfl
    · exact absurd member List.not_mem_nil
    · exact absurd member List.not_mem_nil
    · rename_i found others equal
      obtain rfl := List.mem_singleton.1 member
      have kept : found.capture? number = p.capture? number :=
        ih outside (equal ▸ List.mem_cons_self)
      exact kept
  | behind negated a ih =>
    simp only [outcomes] at member
    split at member
    · obtain rfl := List.mem_singleton.1 member
      rfl
    · exact absurd member List.not_mem_nil
    · exact absurd member List.not_mem_nil
    · rename_i found others equal
      obtain rfl := List.mem_singleton.1 member
      split at equal
      · have among : found ∈ _ := equal ▸ List.mem_cons_self
        obtain ⟨start, back, inner⟩ := List.mem_flatMap.1 among
        have captures : start.captures = p.captures :=
          Place.captures_of_back? (by simpa using back)
        have same : start.capture? number = p.capture? number := by
          rw [Place.capture?, captures]
          rfl
        have kept : found.capture? number = start.capture? number := ih outside inner
        exact kept.trans same
      · exact absurd equal (List.cons_ne_nil _ _).symm
  | atomic a ih => exact ih outside (List.mem_of_mem_take member)

/-! ### The leftmost branch -/

/-- Alone and within an expression that needs backtracking, the expression prefers the same place. -/
def PrefersAlike (e : Expr) : Prop :=
  ∀ a b, e.settledWithin? false = some a → e.settledWithin? true = some b →
    ∀ p : Place, p.captures = [] → (a.outcomes [] p).head? = (b.outcomes [] p).head?

section Leftmost

variable {p : Place} {first e' : Expr} {es es' rest owns : List Expr}

/-- Expressions that have as many groups and prefer the same places. -/
theorem leftmost_congr {opened : Nat} (same : List.Forall₂ (fun a b : Expr =>
      a.groups.length = b.groups.length ∧ (a.outcomes [] p).head? = (b.outcomes [] p).head?) es es') :
    leftmost p opened es = leftmost p opened es' := by
  induction same generalizing opened with
  | nil => rfl
  | cons here _ ih => rw [leftmost, leftmost, here.1, here.2, ih]

/-- Branches that prefer the same places alone and elsewhere do so together. -/
theorem prefersAlike_branches (alike : ∀ e ∈ first :: rest, e.PrefersAlike) :
    (branches first rest).PrefersAlike := by
  intro a b left right p none
  obtain ⟨a₁, as, ha, has, rfl⟩ := exists_of_settledWithin?_branches left
  obtain ⟨b₁, bs, hb, hbs, rfl⟩ := exists_of_settledWithin?_branches right
  rw [head?_outcomes_branches none, head?_outcomes_branches none]
  apply leftmost_congr
  refine forall₂_of_forall₂ (fun e member a b left right => ?_) (.cons ha has) (.cons hb hbs)
  refine ⟨?_, alike e member a b left right p none⟩
  rw [(settles_of_settledWithin? left).groups, (settles_of_settledWithin? right).groups]

/-- Of branches the leftmost one is preferred that leads anywhere, as it does alone. -/
theorem head?_outcomes_of_branches (free : ∀ e ∈ first :: rest, e.references = [])
    (alike : ∀ e ∈ first :: rest, (branches first rest).isHard [] = true → e.isHard [] = false →
      e.PrefersAlike)
    (settled : (branches first rest).settled? = some e')
    (alone : List.Forall₂ (fun e own => e.settled? = some own) (first :: rest) owns)
    (none : p.captures = []) : (e'.outcomes [] p).head? = leftmost p 0 owns := by
  have whole : (branches first rest).references = [] := by
    obtain ⟨here, others⟩ := List.forall_mem_cons.1 free
    exact references_branches here others
  rw [settled?_eq whole] at settled
  obtain ⟨first', rest', own, within, rfl⟩ := exists_of_settledWithin?_branches settled
  rw [head?_outcomes_branches none]
  refine leftmost_congr (forall₂_of_forall₂ (fun e member a b within alone => ?_)
    (.cons own within) alone)
  refine ⟨?_, ?_⟩
  · rw [(settles_of_settledWithin? within).groups, (settles_of_settled? alone).groups]
  · rw [settled?_eq (free e member)] at alone
    cases hard : (branches first rest).isHard [] with
    | false =>
      have easy : e.isHard [] = false := by
        rw [isHard_branches, List.any_eq_false] at hard
        exact Bool.eq_false_iff.2 (hard e member)
      rw [easy, ← hard, within] at alone
      cases alone
      rfl
    | true =>
      rw [hard] at within
      cases easy : e.isHard [] with
      | true =>
        rw [easy, within] at alone
        cases alone
        rfl
      | false =>
        rw [easy] at alone
        exact (alike e member hard easy b a alone within p none).symm

end Leftmost

end Expr

end PathTemplate
