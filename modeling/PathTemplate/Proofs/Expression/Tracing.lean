/-
What groups capture.

`Expr.Traces` says of all settled forms of an expression what holds between the places from which
and to which they lead and the text between. A place remembers what its groups captured, and only
a group changes that: `Place.slots` is the part of a place that such statements are about.

* `Traces.append`, `Traces.group` and `Traces.optional`: one rule for each way to put expressions
  together. `Expr.Traced` is the same for parts that stand one after the other.
* `Traces.free` and `Traces.covers`: an expression without groups leaves the captures alone, and if
  it is simple, `Expr.Covers` says the rest.
-/

import Mathlib.Logic.Function.Basic
import PathTemplate.Proofs.Expression.Sequence
import PathTemplate.Proofs.Expression.Settling

namespace PathTemplate

/-- The texts that groups captured last. -/
abbrev Slots := Nat → Option (List Char)

namespace Place

/-- The texts that the groups captured on the way to the place. -/
def slots (place : Place) : Slots := fun number => (place.capture? number).map Capture.text

theorem slots_eq {p q : Place} (same : q.captures = p.captures) : q.slots = p.slots := by
  funext number
  rw [slots, slots, capture?, capture?, same]

theorem lookup_filter_ne {number other : Nat} (differ : other ≠ number)
    (captures : List (Nat × Capture)) :
    (captures.filter fun entry => entry.1 ≠ number).lookup other = captures.lookup other := by
  induction captures with
  | nil => rfl
  | cons entry captures ih =>
    obtain ⟨key, capture⟩ := entry
    by_cases same : key = number
    · subst same
      have unlike : (other == key) = false := beq_eq_false_iff_ne.2 differ
      simpa [List.lookup_cons, unlike] using ih
    · simp only [List.filter_cons, ne_eq, same, not_false_eq_true, decide_true, if_true,
        List.lookup_cons, ← ih]

/-- A capture fills one slot with the text between the places. -/
theorem slots_capture {p q : Place} {w : List Char} (advances : p.Advances w q) (number : Nat) :
    (Place.capture number p q).slots = Function.update q.slots number (some w) := by
  funext other
  by_cases same : other = number
  · subst same
    have covered : q.position - p.position = w.length := by
      rw [advances.position]
      omega
    rw [Function.update_self]
    simp [slots, capture?, capture, Capture.text, covered, advances.after]
  · have unlike : (other == number) = false := beq_eq_false_iff_ne.2 same
    rw [Function.update_of_ne same]
    simp only [slots, capture?, capture, List.lookup_cons, unlike, lookup_filter_ne same]

end Place

/-- What holds between two places and the text between them. -/
abbrev Passage := Place → List Char → Place → Prop

namespace Passage

/-- One passage and then the other. -/
def then_ (first second : Passage) : Passage := fun p w q =>
  ∃ u v m, w = u ++ v ∧ first p u m ∧ second m v q

/-- The text is such, and the captures stay. -/
def still (language : List Char → Prop) : Passage := fun p w q => language w ∧ q.slots = p.slots

end Passage

namespace Expr

/-- The passage holds of all ways that the settled forms of the expression lead. -/
def Traces (e : Expr) (passage : Passage) : Prop :=
  ∀ e', e.Settles e' → ∀ references p q, q ∈ e'.outcomes references p →
    ∃ w, p.Advances w q ∧ passage p w q

/-- The passage holds of the parts, whatever stands before them. -/
def Traced (parts : List Expr) (passage : Passage) : Prop :=
  ∀ a first, a.Traces first → (parts.foldl append a).Traces (first.then_ passage)

section Rules

variable {a b e : Expr} {parts more : List Expr} {passage further : Passage}

theorem Traces.mono (h : e.Traces passage) (imp : ∀ p w q, passage p w q → further p w q) :
    e.Traces further := by
  intro e' settles references p q member
  obtain ⟨w, advances, holds⟩ := h e' settles references p q member
  exact ⟨w, advances, imp p w q holds⟩

/-- The places tell the text between them, so that two passages are led through together. -/
theorem Traces.and (h₁ : e.Traces passage) (h₂ : e.Traces further) :
    e.Traces fun p w q => passage p w q ∧ further p w q := by
  intro e' settles references p q member
  obtain ⟨w, advances, holds⟩ := h₁ e' settles references p q member
  obtain ⟨v, advances', holds'⟩ := h₂ e' settles references p q member
  obtain rfl : w = v := List.append_cancel_right (advances.after.symm.trans advances'.after)
  exact ⟨w, advances, holds, holds'⟩

theorem Traced.mono (h : Traced parts passage) (imp : ∀ p w q, passage p w q → further p w q) :
    Traced parts further := by
  intro a first traces
  refine (h a first traces).mono ?_
  rintro p _ q ⟨u, v, m, rfl, first, second⟩
  exact ⟨u, v, m, rfl, first, imp m v q second⟩

/-- An expression without groups leaves the captures alone. -/
theorem Traces.free (free : e.groups = []) : e.Traces (.still fun _ => True) := by
  intro e' settles references p q member
  obtain ⟨w, advances⟩ := advances_of_mem_outcomes member
  exact ⟨w, advances, trivial,
    Place.slots_eq (captures_of_mem_outcomes (settles.groups.trans free) member)⟩

/-- If it is simple, it covers the text. -/
theorem covers_of_mem_outcomes {e' : Expr} {references : List Nat} {p q : Place}
    (simple : e.isSimple = true) (settles : e.Settles e') (member : q ∈ e'.outcomes references p) :
    ∃ w, p.Advances w q ∧ e.Covers p.before w q.after := by
  induction e generalizing e' p q with
  | empty =>
    obtain rfl := settles.form
    obtain rfl := List.mem_singleton.1 member
    exact ⟨[], .refl q, rfl⟩
  | one set =>
    obtain rfl := settles.form
    exact (Place.realizes_one set).sound member
  | edge kind =>
    obtain rfl := settles.form
    exact (Place.realizes_edge kind).sound member
  | seq a b iha ihb =>
    simp only [isSimple, Bool.and_eq_true] at simple
    obtain ⟨a', b', rfl, ha, hb⟩ := settles.form
    obtain ⟨m, first, second⟩ := List.mem_flatMap.1 (mem_of_mem_distinctPlaces member)
    obtain ⟨u, toMiddle, covered⟩ := iha simple.1 ha first
    obtain ⟨v, toEnd, covered'⟩ := ihb simple.2 hb second
    exact ⟨u ++ v, toMiddle.trans toEnd, u, v, rfl, toEnd.after ▸ covered,
      toMiddle.before ▸ covered'⟩
  | alt a b iha ihb =>
    simp only [isSimple, Bool.and_eq_true] at simple
    obtain ⟨a', b', rfl, ha, hb⟩ := settles.form
    rcases List.mem_append.1 (mem_of_mem_distinctPlaces member) with member | member
    · obtain ⟨w, advances, covered⟩ := iha simple.1 ha member
      exact ⟨w, advances, .inl covered⟩
    · obtain ⟨w, advances, covered⟩ := ihb simple.2 hb member
      exact ⟨w, advances, .inr covered⟩
  | group number a ih =>
    obtain ⟨a', rfl, ha⟩ := settles.form
    obtain ⟨m, inner, rfl⟩ := List.mem_map.1 member
    obtain ⟨w, advances, covered⟩ := ih simple ha inner
    exact ⟨w, advances.withCaptures _, covered⟩
  | loop least most greedy emptyPass a ih =>
    simp only [isSimple, Bool.and_eq_true] at simple
    obtain ⟨emptyPass', a', rfl, ha⟩ := settles.form
    obtain ⟨count, allowed, chain⟩ := loopOutcomes_sound member
    obtain ⟨w, advances, covered⟩ := chain.repeats (ih simple.2 ha)
    exact ⟨w, advances, count, allowed, covered⟩
  | _ => cases simple

theorem Traces.covers (simple : e.isSimple = true) (free : e.groups = []) :
    e.Traces fun p w q => e.Covers p.before w q.after ∧ q.slots = p.slots := by
  intro e' settles references p q member
  obtain ⟨w, advances, covered⟩ := covers_of_mem_outcomes simple settles member
  exact ⟨w, advances, covered,
    Place.slots_eq (captures_of_mem_outcomes (settles.groups.trans free) member)⟩

theorem Traces.empty : Expr.empty.Traces fun p w q => w = [] ∧ q = p := by
  intro e' settles references p q member
  obtain rfl := settles.form
  obtain rfl := List.mem_singleton.1 member
  exact ⟨[], .refl q, rfl, rfl⟩

theorem Traces.append (h₁ : a.Traces passage) (h₂ : b.Traces further) :
    (a.append b).Traces (passage.then_ further) := by
  have still (p : Place) : p ∈ Expr.empty.outcomes [] p := List.mem_singleton.2 rfl
  rcases append_cases a b with rfl | rfl | ⟨_, _, same⟩
  · intro e' settles references p q member
    obtain ⟨w, advances, second⟩ := h₂ e' settles references p q member
    obtain ⟨u, stays, first⟩ := h₁ .empty (.inl rfl) [] p p (still p)
    obtain rfl := stays.position_eq_iff.1 rfl
    exact ⟨w, advances, [], w, p, rfl, first, second⟩
  · rw [append_empty]
    intro e' settles references p q member
    obtain ⟨w, advances, first⟩ := h₁ e' settles references p q member
    obtain ⟨u, stays, second⟩ := h₂ .empty (.inl rfl) [] q q (still q)
    obtain rfl := stays.position_eq_iff.1 rfl
    exact ⟨w, advances, w, [], q, (List.append_nil w).symm, first, second⟩
  · rw [same]
    intro e' settles references p q member
    obtain ⟨a', b', rfl, ha, hb⟩ := settles.form
    obtain ⟨m, first, second⟩ := List.mem_flatMap.1 (mem_of_mem_distinctPlaces member)
    obtain ⟨u, advances, holds⟩ := h₁ a' ha references p m first
    obtain ⟨v, advances', holds'⟩ := h₂ b' hb references m q second
    exact ⟨u ++ v, advances.trans advances', u, v, m, rfl, holds, holds'⟩

theorem Traced.nil : Traced [] fun p w q => w = [] ∧ q = p := by
  intro a first traces
  refine traces.mono fun p w q holds => ?_
  exact ⟨w, [], q, (List.append_nil w).symm, holds, rfl, rfl⟩

theorem Traces.single (h : e.Traces passage) : Traced [e] passage :=
  fun _ _ traces => traces.append h

theorem Traced.append (h₁ : Traced parts passage) (h₂ : Traced more further) :
    Traced (parts ++ more) (passage.then_ further) := by
  intro a first traces
  rw [List.foldl_append]
  refine (h₂ _ _ (h₁ a first traces)).mono ?_
  rintro p _ q ⟨_, w, m, rfl, ⟨u, v, n, rfl, holds, second⟩, third⟩
  exact ⟨u, v ++ w, n, List.append_assoc .., holds, v, w, m, rfl, second, third⟩

theorem Traced.join (h : Traced parts passage) : (join parts).Traces passage := by
  refine (h .empty _ .empty).mono ?_
  rintro p _ q ⟨_, v, _, rfl, ⟨rfl, rfl⟩, holds⟩
  exact holds

/-- A group captures what it covers. -/
theorem Traces.group {language : List Char → Prop} (h : e.Traces (.still language))
    (number : Nat) : (group number e).Traces fun p w q =>
      language w ∧ q.slots = Function.update p.slots number (some w) := by
  intro e' settles references p q member
  obtain ⟨a, rfl, ha⟩ := settles.form
  obtain ⟨m, inner, rfl⟩ := List.mem_map.1 member
  obtain ⟨w, advances, holds, kept⟩ := h a ha references p m inner
  refine ⟨w, advances.withCaptures _, holds, ?_⟩
  rw [Place.slots_capture advances, kept]

/-- What may be there or not is passed, or nothing happens. -/
theorem Traces.optional (h : e.Traces passage) (greedy : Bool) (emptyPass : EmptyPass) :
    (loop 0 (some 1) greedy emptyPass e).Traces fun p w q => w = [] ∧ q = p ∨ passage p w q := by
  intro e' settles references p q member
  obtain ⟨emptyPass, a, rfl, ha⟩ := settles.form
  obtain ⟨count, allowed, chain⟩ := loopOutcomes_sound member
  match count, allowed.2 with
  | 0, _ =>
    obtain rfl : p = q := chain
    exact ⟨[], .refl p, .inl ⟨rfl, rfl⟩⟩
  | 1, _ =>
    obtain ⟨m, pass, rfl⟩ := chain
    obtain ⟨w, advances, holds⟩ := h a ha references p m pass
    exact ⟨w, advances, .inr holds⟩

end Rules

end Expr

end PathTemplate
