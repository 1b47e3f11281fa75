/-
What stands in the groups of an expression, and what they capture.

`Expr.bodies` lists what is written in the groups with a number. Wherever an expression leads,
nothing is captured by a group but what one of its bodies led over.

* `Expr.body_unique`: where no number is given twice, a group has one body.
* `Expr.Settles.bodies`: settling an expression settles what stands in its groups.
* `Expr.exists_covers_of_search?`: what a group captured is covered by its body.
-/

import PathTemplate.Proofs.Expression.Tracing

namespace PathTemplate

namespace Place

/-- What the group with this number captured on the way is of the language. -/
def Gains (number : Nat) (language : List Char → Prop) (p q : Place) : Prop :=
  ∀ w, q.slots number = some w → p.slots number = some w ∨ language w

section Gains

variable {number : Nat} {language further : List Char → Prop} {p q r : Place}

theorem Gains.refl (p : Place) : Gains number language p p := fun _ => .inl

theorem Gains.trans (first : Gains number language p q) (second : Gains number language q r) :
    Gains number language p r :=
  fun w filled => (second w filled).elim (first w) .inr

theorem Gains.mono (h : Gains number language p q) (imp : ∀ w, language w → further w) :
    Gains number further p q :=
  fun w filled => (h w filled).imp_right (imp w)

theorem Gains.of_captures (same : q.captures = p.captures) : Gains number language p q :=
  fun _ filled => .inl (slots_eq same ▸ filled)

end Gains

end Place

namespace Expr

/-- What stands in the groups with this number. -/
def bodies (number : Nat) : Expr → List Expr
  | .empty | .never | .one _ | .edge _ | .back _ => []
  | .seq a b | .alt a b => a.bodies number ++ b.bodies number
  | .group other a => (if other = number then [a] else []) ++ a.bodies number
  | .loop _ _ _ _ a | .ahead _ a | .behind _ a | .atomic a => a.bodies number

section Bodies

variable {number : Nat} {e e' x y : Expr}

theorem length_bodies (number : Nat) (e : Expr) :
    (e.bodies number).length = e.groups.count number := by
  induction e with
  | seq a b iha ihb | alt a b iha ihb =>
    simp only [bodies, groups, List.length_append, List.count_append, iha, ihb]
  | group other a ih =>
    simp only [bodies, groups, List.length_append, List.count_cons, ih, beq_iff_eq]
    split <;> simp [Nat.add_comm]
  | loop _ _ _ _ a ih | ahead _ a ih | behind _ a ih | atomic a ih => exact ih
  | empty | never | one | edge | back => rfl

/-- Where no number is given twice, a group has one body. -/
theorem body_unique (distinct : e.groups.Nodup) (here : x ∈ e.bodies number)
    (there : y ∈ e.bodies number) : x = y := by
  have most : (e.bodies number).length ≤ 1 :=
    length_bodies number e ▸ List.nodup_iff_count.1 distinct number
  match bodies : e.bodies number, most with
  | [], _ =>
    rw [bodies] at here
    cases here
  | [z], _ =>
    rw [bodies] at here there
    rw [List.mem_singleton.1 here, List.mem_singleton.1 there]

theorem bodies_lookBehind? {negated : Bool} (h : lookBehind? negated e = some e') :
    e'.bodies number = e.bodies number := by
  induction e generalizing e' with
  | alt a b iha _ =>
    unfold lookBehind? at h
    split at h
    · cases h
      rfl
    · split at h
      · simp only [Option.bind_eq_bind, Option.bind_eq_some_iff, Option.pure_def,
          Option.some.injEq] at h
        obtain ⟨a', ha, rfl⟩ := h
        cases negated <;> simp [bodies, iha ha]
      · cases h
  | _ =>
    simp only [lookBehind?] at h
    split at h
    · cases h
      rfl
    · cases h

/-- What stands in the groups of a settled form are settled forms of what stood there. -/
theorem Settles.bodies (h : e.Settles e') (member : y ∈ e'.bodies number) :
    ∃ x ∈ e.bodies number, x.Settles y := by
  induction e generalizing e' with
  | empty | never | one | edge | back =>
    obtain rfl := h.form
    cases member
  | seq a b iha ihb | alt a b iha ihb =>
    obtain ⟨a', b', rfl, ha, hb⟩ := h.form
    rcases List.mem_append.1 member with member | member
    · obtain ⟨x, here, settles⟩ := iha ha member
      exact ⟨x, List.mem_append_left _ here, settles⟩
    · obtain ⟨x, here, settles⟩ := ihb hb member
      exact ⟨x, List.mem_append_right _ here, settles⟩
  | group other a ih =>
    obtain ⟨a', rfl, ha⟩ := h.form
    rcases List.mem_append.1 member with member | member
    · by_cases same : other = number
      · rw [if_pos same] at member
        obtain rfl := List.mem_singleton.1 member
        exact ⟨a, List.mem_append_left _ (by rw [if_pos same]; exact List.mem_cons_self), ha⟩
      · rw [if_neg same] at member
        cases member
    · obtain ⟨x, here, settles⟩ := ih ha member
      exact ⟨x, List.mem_append_right _ here, settles⟩
  | loop least most greedy emptyPass a ih =>
    obtain ⟨emptyPass', a', rfl, ha⟩ := h.form
    exact ih ha member
  | ahead negated a ih | atomic a ih =>
    obtain ⟨a', rfl, ha⟩ := h.form
    exact ih ha member
  | behind negated a ih =>
    obtain ⟨a', rfl | apart, ha⟩ := h.form
    · exact ih ha member
    · rw [bodies_lookBehind? apart] at member
      exact ih ha member

end Bodies

/-- One of these expressions leads over the text, from some place. -/
def LeadsOver (references : List Nat) (all : List Expr) : List Char → Prop := fun w =>
  ∃ x ∈ all, ∃ p q, q ∈ x.outcomes references p ∧ p.Advances w q

section Captures

variable {number : Nat} {references : List Nat} {e : Expr} {p q : Place}

theorem LeadsOver.mono {all more : List Expr} {w : List Char} (h : LeadsOver references all w)
    (subset : all ⊆ more) : LeadsOver references more w := by
  obtain ⟨x, member, leads⟩ := h
  exact ⟨x, subset member, leads⟩

/-- What a group captured on the way was led over by what stands in it. -/
theorem gains_of_mem_outcomes (member : q ∈ e.outcomes references p) :
    p.Gains number (LeadsOver references (e.bodies number)) q := by
  have free {e : Expr} {p q : Place} (none : e.groups = []) (member : q ∈ e.outcomes references p) :
      p.Gains number (LeadsOver references (e.bodies number)) q :=
    .of_captures (captures_of_mem_outcomes none member)
  induction e generalizing p q with
  | empty | never | one | edge | back => exact free rfl member
  | seq a b iha ihb =>
    obtain ⟨m, first, second⟩ := List.mem_flatMap.1 (mem_of_mem_distinctPlaces member)
    exact ((iha first).mono fun _ leads => leads.mono (List.subset_append_left ..)).trans
      ((ihb second).mono fun _ leads => leads.mono (List.subset_append_right ..))
  | alt a b iha ihb =>
    rcases List.mem_append.1 (mem_of_mem_distinctPlaces member) with member | member
    · exact (iha member).mono fun _ leads => leads.mono (List.subset_append_left ..)
    · exact (ihb member).mono fun _ leads => leads.mono (List.subset_append_right ..)
  | group other a ih =>
    obtain ⟨m, inner, rfl⟩ := List.mem_map.1 member
    obtain ⟨w, advances⟩ := advances_of_mem_outcomes inner
    have kept : p.Gains number (LeadsOver references ((group other a).bodies number)) m :=
      (ih inner).mono fun _ leads => leads.mono (List.subset_append_right ..)
    intro v filled
    rw [Place.slots_capture advances] at filled
    by_cases same : number = other
    · subst same
      rw [Function.update_self] at filled
      cases filled
      refine .inr ⟨a, ?_, p, m, inner, advances⟩
      rw [bodies, if_pos rfl]
      exact List.mem_cons_self
    · rw [Function.update_of_ne same] at filled
      exact kept v filled
  | loop least most greedy emptyPass a ih =>
    obtain ⟨count, _, chain⟩ := loopOutcomes_sound member
    exact chain.induction .refl .trans fun _ _ => ih
  | ahead negated a ih =>
    simp only [outcomes] at member
    split at member
    · obtain rfl := List.mem_singleton.1 member
      exact .refl q
    · exact absurd member List.not_mem_nil
    · exact absurd member List.not_mem_nil
    · rename_i found others equal
      obtain rfl := List.mem_singleton.1 member
      exact @ih p found (equal ▸ List.mem_cons_self)
  | behind negated a ih =>
    simp only [outcomes] at member
    split at member
    · obtain rfl := List.mem_singleton.1 member
      exact .refl q
    · exact absurd member List.not_mem_nil
    · exact absurd member List.not_mem_nil
    · rename_i found others equal
      obtain rfl := List.mem_singleton.1 member
      split at equal
      · obtain ⟨start, back, inner⟩ := List.mem_flatMap.1 (equal ▸ List.mem_cons_self)
        have kept := Place.captures_of_back? (Option.mem_toList.1 back)
        have gains : p.Gains number _ found := (Place.Gains.of_captures kept).trans (ih inner)
        exact gains
      · exact absurd equal (List.cons_ne_nil _ _).symm
  | atomic a ih => exact ih (List.mem_of_mem_take member)

/-- What the groups captured where a search ends was led over by what stands in them. -/
theorem exists_body_of_search? {text : List Char} {start stop : Place} {w : List Char}
    (search : e.search? text = some (start, stop)) (filled : stop.slots number = some w) :
    LeadsOver e.references (e.bodies number) w := by
  obtain ⟨u, rest, -, rfl, head⟩ := searchFrom_eq_some search
  exact (gains_of_mem_outcomes (List.mem_of_mem_head? head) w filled).resolve_left nofun

/-- Where no number is given twice, what a group captured is covered by what stands in it. -/
theorem exists_covers_of_search? {settled content : Expr} {text : List Char} {start stop : Place}
    {w : List Char} (settles : e.Settles settled) (distinct : e.groups.Nodup)
    (member : content ∈ e.bodies number) (simple : content.isSimple = true)
    (search : settled.search? text = some (start, stop)) (filled : stop.slots number = some w) :
    ∃ before after, content.Covers before w after := by
  obtain ⟨body, there, p, q, leads, advances⟩ := exists_body_of_search? search filled
  obtain ⟨x, here, settles⟩ := settles.bodies there
  obtain rfl := body_unique distinct here member
  obtain ⟨v, advances', covered⟩ := covers_of_mem_outcomes simple settles leads
  obtain rfl := advances'.unique advances rfl
  exact ⟨_, _, covered⟩

end Captures

end Expr

end PathTemplate
