/-
Loops: the places that exploring one finds.

A loop is explored depth first, and a situation that was tried before is not tried again.

* `loopOutcomes_sound`: every place that a loop leads to is reached by a number of passes that
  the loop allows. This holds whatever the passes do.
* `Realizes.loop`: if the passes lead exactly to the ends of certain texts, then the loop leads
  exactly to the ends of the allowed repetitions of these texts.

The second rests on the invariant of the search, `Explored`: whatever was newly tried is
finished, which means that the place itself was found and that every pass from it leads to what
was tried as well.
-/

import PathTemplate.Proofs.Expression.Coverage

namespace PathTemplate

/-! ### Distinct places -/

section Distinct

variable {references : List Nat}

/-- Keep a place unless its mark was seen. -/
def keepDistinct (references : List Nat) (state : Std.HashSet Place.Mark × List Place)
    (place : Place) : Std.HashSet Place.Mark × List Place :=
  if state.1.contains (place.mark references) then state
  else (state.1.insert (place.mark references), place :: state.2)

theorem distinctPlaces_eq_foldl (places : List Place) :
    distinctPlaces references places =
      (places.foldl (keepDistinct references) (∅, [])).2.reverse := by
  match places with
  | [] => rfl
  | [place] => simp [distinctPlaces, keepDistinct]
  | first :: second :: rest => rfl

private theorem mem_foldl_keepDistinct {places : List Place} {place : Place} :
    ∀ {state : Std.HashSet Place.Mark × List Place},
      place ∈ (places.foldl (keepDistinct references) state).2 →
        place ∈ state.2 ∨ place ∈ places := by
  induction places with
  | nil => exact fun h => .inl h
  | cons first rest ih =>
    intro state h
    rcases ih h with h | h
    · unfold keepDistinct at h
      split at h
      · exact .inl h
      · rcases List.mem_cons.1 h with rfl | h
        · exact .inr List.mem_cons_self
        · exact .inl h
    · exact .inr (List.mem_cons_of_mem _ h)

theorem mem_of_mem_distinctPlaces {places : List Place} {place : Place}
    (h : place ∈ distinctPlaces references places) : place ∈ places := by
  rw [distinctPlaces_eq_foldl, List.mem_reverse] at h
  simpa using mem_foldl_keepDistinct h

private theorem exists_mem_foldl_keepDistinct {places : List Place} :
    ∀ (state : Std.HashSet Place.Mark × List Place),
      (∀ mark ∈ state.1, ∃ kept ∈ state.2, kept.mark references = mark) →
      ∀ place, place ∈ state.2 ∨ place ∈ places →
        ∃ kept ∈ (places.foldl (keepDistinct references) state).2,
          kept.mark references = place.mark references := by
  induction places with
  | nil =>
    intro state _ place h
    exact ⟨place, by simpa using h, rfl⟩
  | cons first rest ih =>
    intro state seen place h
    rw [List.foldl_cons]
    by_cases known : state.1.contains (first.mark references) = true
    · rw [keepDistinct, if_pos known]
      rcases h with h | h
      · exact ih _ seen place (.inl h)
      · rcases List.mem_cons.1 h with rfl | h
        · obtain ⟨kept, member, same⟩ := seen _ (Std.HashSet.mem_iff_contains.2 known)
          obtain ⟨again, member, same'⟩ := ih _ seen kept (.inl member)
          exact ⟨again, member, same'.trans same⟩
        · exact ih _ seen place (.inr h)
    · rw [keepDistinct, if_neg known]
      refine ih _ ?_ place ?_
      · intro mark member
        rcases Std.HashSet.mem_insert.1 member with equal | member
        · exact ⟨first, List.mem_cons_self, by simpa using equal⟩
        · obtain ⟨kept, member, same⟩ := seen mark member
          exact ⟨kept, List.mem_cons_of_mem _ member, same⟩
      · rcases h with h | h
        · exact .inl (List.mem_cons_of_mem _ h)
        · rcases List.mem_cons.1 h with rfl | h
          · exact .inl List.mem_cons_self
          · exact .inr h

/-- Of every place one with the same mark is kept. -/
theorem exists_mem_distinctPlaces (references : List Nat) {places : List Place} {place : Place}
    (h : place ∈ places) :
    ∃ kept ∈ distinctPlaces references places,
      kept.mark references = place.mark references := by
  rw [distinctPlaces_eq_foldl]
  obtain ⟨kept, member, same⟩ := exists_mem_foldl_keepDistinct (∅, [])
    (fun mark member => absurd member Std.HashSet.not_mem_empty) place (.inr h)
  exact ⟨kept, List.mem_reverse.2 member, same⟩

end Distinct

/-! ### What is found is reached -/

namespace Exploration

/-- What marks a place from which up to `left` passes are tried. -/
def situation (references : List Nat) (counted : Bool) (left : Nat) (place : Place) :
    Nat × Place.Mark :=
  (if counted then left else 0, place.mark references)

/-- The situation counts as tried. -/
def mark (situation : Nat × Place.Mark) (x : Exploration) : Exploration :=
  { x with tried := x.tried.insert situation }

end Exploration

theorem explore_succ {references : List Nat} {greedy counted : Bool}
    {pass : Place → List Place} {left : Nat} {x : Exploration} {p : Place} :
    explore references greedy pass counted (left + 1) x p =
      if x.tried.contains (Exploration.situation references counted (left + 1) p) = true then x
      else if greedy = true then
        ((pass p).foldl (explore references greedy pass counted left)
          (x.mark (Exploration.situation references counted (left + 1) p))).emit p
      else
        (pass p).foldl (explore references greedy pass counted left)
          ((x.mark (Exploration.situation references counted (left + 1) p)).emit p) :=
  rfl

/-- The second place is reached from the first one in `count` passes. -/
def Chain (pass : Place → List Place) : (count : Nat) → Place → Place → Prop
  | 0, p, q => p = q
  | count + 1, p, q => ∃ m ∈ pass p, Chain pass count m q

section Soundness

variable {references : List Nat} {greedy counted : Bool} {pass : Place → List Place}

theorem Chain.mono {more : Place → List Place} (h : ∀ p, ∀ q ∈ pass p, q ∈ more p) :
    ∀ {count : Nat} {p q : Place}, Chain pass count p q → Chain more count p q
  | 0, _, _, chain => chain
  | _ + 1, _, _, ⟨m, member, chain⟩ => ⟨m, h _ m member, chain.mono h⟩

theorem Chain.trans {m n : Nat} {p q r : Place} (h₁ : Chain pass m p q)
    (h₂ : Chain pass n q r) : Chain pass (m + n) p r := by
  induction m generalizing p with
  | zero =>
    cases h₁
    simpa using h₂
  | succ m ih =>
    obtain ⟨s, member, rest⟩ := h₁
    rw [Nat.succ_add]
    exact ⟨s, member, ih rest⟩

/-- What exploring from several places finds was found from one of them. -/
private theorem mem_found_foldl {go : Exploration → Place → Exploration}
    {reach : Place → Place → Prop}
    (h : ∀ x p, ∀ q ∈ (go x p).found, q ∈ x.found ∨ reach p q) :
    ∀ (places : List Place) (x : Exploration),
      ∀ q ∈ (places.foldl go x).found, q ∈ x.found ∨ ∃ p ∈ places, reach p q
  | [], _, _, member => .inl member
  | p :: rest, x, q, member => by
    rcases mem_found_foldl h rest (go x p) q member with member | ⟨p', member, reached⟩
    · exact (h x p q member).imp_right fun reached => ⟨p, List.mem_cons_self, reached⟩
    · exact .inr ⟨p', List.mem_cons_of_mem _ member, reached⟩

theorem Exploration.mem_found_emit {x : Exploration} {p q : Place} (h : q ∈ (x.emit p).found) :
    q = p ∨ q ∈ x.found :=
  List.mem_cons.1 h

theorem explore_sound : ∀ (left : Nat) (x : Exploration) (p : Place),
    ∀ q ∈ (explore references greedy pass counted left x p).found,
      q ∈ x.found ∨ ∃ count ≤ left, Chain pass count p q
  | 0, x, p, q, member => by
    rcases Exploration.mem_found_emit member with rfl | member
    · exact .inr ⟨0, Nat.le_refl 0, rfl⟩
    · exact .inl member
  | left + 1, x, p, q, member => by
    have further := mem_found_foldl (explore_sound left)
    have fromPasses : ∀ x,
        q ∈ ((pass p).foldl (explore references greedy pass counted left) x).found →
        q ∈ x.found ∨ ∃ count ≤ left + 1, Chain pass count p q := by
      intro x member
      rcases further _ _ q member with member | ⟨m, first, count, bound, chain⟩
      · exact .inl member
      · exact .inr ⟨count + 1, Nat.succ_le_succ bound, m, first, chain⟩
    rw [explore_succ] at member
    split at member
    · exact .inl member
    · split at member
      · rcases Exploration.mem_found_emit member with rfl | member
        · exact .inr ⟨0, Nat.zero_le _, rfl⟩
        · exact fromPasses (x.mark _) member
      · rcases fromPasses _ member with member | found
        · rcases Exploration.mem_found_emit member with rfl | member
          · exact .inr ⟨0, Nat.zero_le _, rfl⟩
          · exact .inl member
        · exact .inr found

theorem exploreMany_sound (x : Exploration) (p : Place) :
    ∀ q ∈ (exploreMany references greedy pass x p).found,
      q ∈ x.found ∨ ∃ count, Chain pass count p q := by
  intro q member
  rcases explore_sound _ x p q member with member | ⟨count, _, chain⟩
  · exact .inl member
  · exact .inr ⟨count, chain.mono fun _ _ member => (List.mem_filter.1 member).1⟩

theorem exploreSome_sound (x : Exploration) (p : Place) :
    ∀ q ∈ (exploreSome references greedy pass x p).found,
      q ∈ x.found ∨ ∃ count, Chain pass (count + 1) p q := by
  intro q member
  have each : ∀ x m, ∀ q ∈ (if m.position = p.position then x.emit m
      else exploreMany references greedy pass x m).found,
      q ∈ x.found ∨ ∃ count, Chain pass count m q := by
    intro x m q member
    split at member
    · rcases Exploration.mem_found_emit member with rfl | member
      · exact .inr ⟨0, rfl⟩
      · exact .inl member
    · exact exploreMany_sound x m q member
  rcases mem_found_foldl each _ _ q member with member | ⟨m, first, count, chain⟩
  · exact .inl member
  · exact .inr ⟨count, m, first, chain⟩

theorem repeatExactly_sound : ∀ (count : Nat) (places : List Place),
    ∀ q ∈ repeatExactly references pass count places, ∃ p ∈ places, Chain pass count p q
  | 0, _, q, member => ⟨q, by simpa [repeatExactly] using member, rfl⟩
  | _ + 1, [], _, member => by simp [repeatExactly] at member
  | count + 1, first :: rest, q, member => by
    change q ∈ repeatExactly references pass count
      (distinctPlaces references ((first :: rest).flatMap pass)) at member
    obtain ⟨m, member, chain⟩ := repeatExactly_sound count _ q member
    obtain ⟨p, start, step⟩ := List.mem_flatMap.1 (mem_of_mem_distinctPlaces member)
    exact ⟨p, start, m, step, chain⟩

end Soundness

/-! ### What is reached is found -/

/-- `pass` leads from any place exactly to the ends of the texts that `fit` allows there. -/
structure Realizes (pass : Place → List Place) (fit : Fit) : Prop where
  sound : ∀ {p q : Place}, q ∈ pass p → ∃ w, p.Advances w q ∧ fit p.before w q.after
  complete : ∀ {p : Place} {w rest : List Char}, p.after = w ++ rest → fit p.before w rest →
    ∃ q ∈ pass p, p.Advances w q

namespace Exploration

/-- A place that follows `origin` after `u` was found. -/
def Reaches (origin : Place) (u : List Char) (x : Exploration) : Prop :=
  ∃ q ∈ x.found, origin.Advances u q

/-- The place that follows `origin` after `u` was tried, with this number of passes left. -/
def Tried (origin : Place) (left : Nat) (u : List Char) (x : Exploration) : Prop :=
  (left, (origin.position + u.length, [])) ∈ x.tried

/-- The search came by the place after `u` with `left` passes left. -/
def Visited (origin : Place) (counted : Bool) (left : Nat) (u : List Char) (x : Exploration) :
    Prop :=
  if counted = true ∧ left = 0 then x.Reaches origin u
  else x.Tried origin (if counted then left else 0) u

/-- The place after `u` was found, and the search came by every place one pass further on. -/
def Done (fit : Fit) (origin : Place) (counted : Bool) (left : Nat) (u : List Char)
    (x : Exploration) : Prop :=
  x.Reaches origin u ∧
    ∀ w rest, origin.after = u ++ (w ++ rest) → fit (u.reverse ++ origin.before) w rest →
      x.Visited origin counted (left - 1) (u ++ w)

/-- Nothing was forgotten from `x` to `y`. -/
structure Extends (x y : Exploration) : Prop where
  tried : ∀ s ∈ x.tried, s ∈ y.tried
  found : ∀ q ∈ x.found, q ∈ y.found

/-- The invariant of the search: what was newly tried from `x` to `y` is done. -/
structure Explored (fit : Fit) (origin : Place) (counted : Bool) (x y : Exploration) : Prop
    extends Extends x y where
  done : ∀ left u rest, origin.after = u ++ rest → y.Tried origin left u →
    x.Tried origin left u ∨ y.Done fit origin counted left u

section

variable {fit : Fit} {origin p : Place} {counted : Bool} {left : Nat} {u : List Char}
  {x y z : Exploration}

theorem Extends.refl (x : Exploration) : x.Extends x := ⟨fun _ h => h, fun _ h => h⟩

theorem Extends.trans (h₁ : x.Extends y) (h₂ : y.Extends z) : x.Extends z :=
  ⟨fun s h => h₂.tried s (h₁.tried s h), fun q h => h₂.found q (h₁.found q h)⟩

theorem extends_emit (p : Place) (x : Exploration) : x.Extends (x.emit p) :=
  ⟨fun _ h => h, fun _ h => List.mem_cons_of_mem _ h⟩

theorem extends_mark (s : Nat × Place.Mark) (x : Exploration) : x.Extends (x.mark s) :=
  ⟨fun _ h => Std.HashSet.mem_insert.2 (.inr h), fun _ h => h⟩

theorem Reaches.mono (h : x.Reaches origin u) (more : x.Extends y) : y.Reaches origin u := by
  obtain ⟨q, member, advances⟩ := h
  exact ⟨q, more.found q member, advances⟩

theorem Visited.mono (h : x.Visited origin counted left u) (more : x.Extends y) :
    y.Visited origin counted left u := by
  unfold Visited at h ⊢
  split at h
  · rename_i last
    rw [if_pos last]
    exact h.mono more
  · rename_i last
    rw [if_neg last]
    exact more.tried _ h

theorem Done.mono (h : x.Done fit origin counted left u) (more : x.Extends y) :
    y.Done fit origin counted left u :=
  ⟨h.1.mono more, fun w rest split fits => (h.2 w rest split fits).mono more⟩

theorem Explored.refl (x : Exploration) : x.Explored fit origin counted x :=
  ⟨.refl x, fun _ _ _ _ h => .inl h⟩

theorem Explored.trans (h₁ : x.Explored fit origin counted y)
    (h₂ : y.Explored fit origin counted z) : x.Explored fit origin counted z where
  toExtends := h₁.toExtends.trans h₂.toExtends
  done := by
    intro left u rest split tried
    rcases h₂.done left u rest split tried with tried | done
    · exact (h₁.done left u rest split tried).imp_right fun done => done.mono h₂.toExtends
    · exact .inr done

theorem explored_emit (p : Place) (x : Exploration) :
    x.Explored fit origin counted (x.emit p) :=
  ⟨extends_emit p x, fun _ _ _ _ h => .inl h⟩

/-- Exploring from several places in turn keeps the invariant and what it came by. -/
theorem explored_foldl {go : Exploration → Place → Exploration}
    {goal : List Char → Exploration → Prop}
    (mono : ∀ {u x y}, goal u x → Extends x y → goal u y) :
    ∀ {places : List Place}, (∀ p ∈ places, ∃ u, origin.Advances u p ∧
        ∀ x, x.Explored fit origin counted (go x p) ∧ goal u (go x p)) →
      ∀ x : Exploration, x.Explored fit origin counted (places.foldl go x) ∧
        ∀ p ∈ places, ∀ u, origin.Advances u p → goal u (places.foldl go x)
  | [], _, x => ⟨.refl x, fun _ h => absurd h List.not_mem_nil⟩
  | p :: rest, each, x => by
    obtain ⟨u, advances, first⟩ := each p List.mem_cons_self
    obtain ⟨explored, goals⟩ := @explored_foldl go goal mono rest
      (fun p h => each p (List.mem_cons_of_mem _ h)) (go x p)
    refine ⟨(first x).1.trans explored, fun p' member v advances' => ?_⟩
    rcases List.mem_cons.1 member with rfl | member
    · rw [advances'.unique advances rfl]
      exact mono (first x).2 explored.toExtends
    · exact goals p' member v advances'

theorem situation_eq (advances : origin.Advances u p) :
    situation [] counted left p =
      (if counted then left else 0, (origin.position + u.length, [])) := by
  simp [situation, Place.mark, advances.position]

/-- A place is done once it was marked, found, and all passes from it were followed. -/
theorem explored_of_mark {pass : Place → List Place} (real : Realizes pass fit)
    (advances : origin.Advances u p)
    (h : (x.mark (situation [] counted (left + 1) p)).Explored fit origin counted y)
    (found : y.Reaches origin u)
    (passes : ∀ q ∈ pass p, ∀ v, origin.Advances v q → y.Visited origin counted left v) :
    x.Explored fit origin counted y ∧ y.Visited origin counted (left + 1) u := by
  have done : y.Done fit origin counted (if counted then left + 1 else 0) u := by
    refine ⟨found, fun w rest split fits => ?_⟩
    have here : p.after = w ++ rest := List.append_cancel_left (advances.after.symm.trans split)
    obtain ⟨q, member, further⟩ := real.complete here (advances.before ▸ fits)
    have visited := passes q member _ (advances.trans further)
    cases counted with
    | false => exact visited
    | true => exact visited
  have marked : y.Tried origin (if counted then left + 1 else 0) u := by
    apply h.tried
    rw [situation_eq advances]
    exact Std.HashSet.mem_insert_self
  refine ⟨⟨(extends_mark _ x).trans h.toExtends, fun l v rest split tried => ?_⟩, ?_⟩
  · rcases h.done l v rest split tried with tried | done'
    · rw [situation_eq advances] at tried
      rcases Std.HashSet.mem_insert.1 tried with same | tried
      · simp only [beq_iff_eq, Prod.mk.injEq, Nat.add_left_cancel_iff, and_true] at same
        have equal : u = v := (List.append_inj (advances.after.symm.trans split) same.2).1
        rw [← same.1, ← equal]
        exact .inr done
      · exact .inl tried
    · exact .inr done'
  · rw [Visited, if_neg (by simp)]
    exact marked

end

end Exploration

section Completeness

open Exploration

variable {greedy counted : Bool} {pass : Place → List Place} {fit : Fit} {origin : Place}

/-- Exploring keeps the invariant and comes by the place that it starts from. Where the number
of passes left is not counted, it has to be large enough never to run out. -/
theorem explore_explored (real : Realizes pass fit)
    (progress : counted = false → ∀ before w after, fit before w after → w ≠ []) :
    ∀ (left : Nat) (x : Exploration) (p : Place) (u : List Char), origin.Advances u p →
      (counted = false → p.after.length < left) →
      x.Explored fit origin counted (explore [] greedy pass counted left x p) ∧
        (explore [] greedy pass counted left x p).Visited origin counted left u
  | 0, x, p, u, advances, enough => by
    cases counted with
    | false => exact absurd (enough rfl) (Nat.not_lt_zero _)
    | true => exact ⟨explored_emit p x, p, List.mem_cons_self, advances⟩
  | left + 1, x, p, u, advances, enough => by
    have passes := @explored_foldl fit origin counted (explore [] greedy pass counted left)
      (fun v y => y.Visited origin counted left v) (fun visited more => visited.mono more) (pass p)
      (by
        intro q member
        obtain ⟨w, further, fits⟩ := real.sound member
        refine ⟨u ++ w, advances.trans further, fun x => ?_⟩
        refine explore_explored real progress left x q _ (advances.trans further)
          fun uncounted => ?_
        have := List.length_pos_iff.2 (progress uncounted _ _ _ fits)
        have := enough uncounted
        have := congrArg List.length further.after
        simp only [List.length_append] at this
        omega)
    rw [explore_succ]
    split
    · rename_i tried
      refine ⟨.refl x, ?_⟩
      rw [Visited, if_neg (by simp), Tried, ← situation_eq advances]
      exact Std.HashSet.mem_iff_contains.2 tried
    · split
      · obtain ⟨explored, visited⟩ := passes (x.mark (situation [] counted (left + 1) p))
        refine explored_of_mark real advances (explored.trans (explored_emit p _)) ?_ ?_
        · exact ⟨p, List.mem_cons_self, advances⟩
        · intro q member v advances'
          exact (visited q member v advances').mono (extends_emit p _)
      · obtain ⟨explored, visited⟩ := passes ((x.mark (situation [] counted (left + 1) p)).emit p)
        refine explored_of_mark real advances ((explored_emit p _).trans explored) ?_ visited
        exact Reaches.mono ⟨p, List.mem_cons_self, advances⟩ explored.toExtends

/-- Everything that was tried is done. -/
def Finished (fit : Fit) (origin : Place) (counted : Bool) (y : Exploration) : Prop :=
  ∀ left u rest, origin.after = u ++ rest → y.Tried origin left u →
    y.Done fit origin counted left u

theorem Finished.of_explored {x y : Exploration} (fresh : x.tried = ∅)
    (h : x.Explored fit origin counted y) : Finished fit origin counted y := by
  intro left u rest split tried
  rcases h.done left u rest split tried with tried | done
  · rw [Exploration.Tried, fresh] at tried
    exact absurd tried Std.HashSet.not_mem_empty
  · exact done

/-- From a place that the search came by, all that passes lead to is found. -/
theorem Finished.reaches {y : Exploration} (finished : Finished fit origin counted y) :
    ∀ {count left : Nat} {u w rest : List Char}, (counted = true → count ≤ left) →
      origin.after = u ++ (w ++ rest) → y.Visited origin counted left u →
      Repeats fit count (u.reverse ++ origin.before) w rest → y.Reaches origin (u ++ w) := by
  intro count
  induction count with
  | zero =>
    intro left u w rest _ split visited covered
    cases covered
    rw [List.append_nil]
    rw [Visited] at visited
    split at visited
    · exact visited
    · exact (finished _ u _ split visited).1
  | succ count ih =>
    intro left u w rest bound split visited covered
    obtain ⟨s, t, rfl, first, others⟩ := covered
    have tried : y.Tried origin (if counted then left else 0) u := by
      rw [Visited, if_neg] at visited
      · exact visited
      · rintro ⟨hc, rfl⟩
        exact absurd (bound hc) (Nat.not_succ_le_zero count)
    rw [List.append_assoc] at split
    have next := (finished _ u _ split tried).2 s (t ++ rest) split first
    rw [← List.append_assoc]
    refine @ih ((if counted then left else 0) - 1) _ _ rest ?_ ?_ next ?_
    · rintro rfl
      simp only [if_true]
      have := bound rfl
      omega
    · rw [split, List.append_assoc]
    · simpa [List.append_assoc] using others

theorem Realizes.nonempty (real : Realizes pass fit) :
    Realizes (fun p => (pass p).filter fun q => q.position ≠ p.position) fit.nonempty where
  sound := by
    intro p q member
    obtain ⟨member, moved⟩ := List.mem_filter.1 member
    obtain ⟨w, advances, fits⟩ := real.sound member
    exact ⟨w, advances, mt advances.position_eq_iff.2 (by simpa using moved), fits⟩
  complete := by
    rintro p w rest split ⟨nonempty, fits⟩
    obtain ⟨q, member, advances⟩ := real.complete split fits
    refine ⟨q, List.mem_filter.2 ⟨member, ?_⟩, advances⟩
    simpa using mt advances.position_eq_iff.1 nonempty

theorem exploreMany_explored (real : Realizes pass fit) (x : Exploration) {p : Place}
    {u : List Char} (advances : origin.Advances u p) :
    x.Explored fit.nonempty origin false (exploreMany [] greedy pass x p) ∧
      (exploreMany [] greedy pass x p).Visited origin false 0 u :=
  explore_explored real.nonempty (fun _ _ _ _ fits => fits.1) (p.after.length + 1) x p u advances
    fun _ => Nat.lt_succ_self _

/-- What a first pass from the place after `u` leads to was found, if it is the place itself,
and come by, if it is another one. -/
def Begun (fit : Fit) (origin : Place) (u : List Char) (y : Exploration) : Prop :=
  ∀ w rest, origin.after = u ++ (w ++ rest) → fit (u.reverse ++ origin.before) w rest →
    if w = [] then y.Reaches origin u else y.Visited origin false 0 (u ++ w)

theorem Begun.mono {u : List Char} {x y : Exploration} (h : Begun fit origin u x)
    (more : x.Extends y) : Begun fit origin u y := by
  intro w rest split fits
  have begun := h w rest split fits
  split at begun
  · rename_i empty
    rw [if_pos empty]
    exact begun.mono more
  · rename_i nonempty
    rw [if_neg nonempty]
    exact begun.mono more

theorem exploreSome_explored (greedy : Bool) (real : Realizes pass fit) (x : Exploration)
    {p : Place}
    {u : List Char} (advances : origin.Advances u p) :
    x.Explored fit.nonempty origin false (exploreSome [] greedy pass x p) ∧
      Begun fit origin u (exploreSome [] greedy pass x p) := by
  obtain ⟨explored, goals⟩ := @explored_foldl fit.nonempty origin false
    (fun x q => if q.position = p.position then x.emit q else exploreMany [] greedy pass x q)
    (fun v y => if v = u then y.Reaches origin u else y.Visited origin false 0 v)
    (by
      intro v x y goal more
      split at goal
      · exact if_pos ‹v = u› ▸ goal.mono more
      · exact if_neg ‹¬v = u› ▸ goal.mono more)
    (pass p)
    (by
      intro q member
      obtain ⟨w, further, _⟩ := real.sound member
      refine ⟨u ++ w, advances.trans further, fun x => ?_⟩
      by_cases stays : w = []
      · rw [if_pos (further.position_eq_iff.2 stays), if_pos (by simp [stays])]
        refine ⟨explored_emit q x, q, List.mem_cons_self, ?_⟩
        simpa [stays] using advances.trans further
      · rw [if_neg (mt further.position_eq_iff.1 stays), if_neg (by simp [stays])]
        exact exploreMany_explored real x (advances.trans further))
    x
  refine ⟨explored, fun w rest split fits => ?_⟩
  have here : p.after = w ++ rest := List.append_cancel_left (advances.after.symm.trans split)
  obtain ⟨q, member, further⟩ := real.complete here (advances.before ▸ fits)
  simpa [exploreSome] using goals q member _ (advances.trans further)

theorem Finished.reaches_of_begun {y : Exploration}
    (finished : Finished fit.nonempty origin false y) {count : Nat} {u w rest : List Char}
    (split : origin.after = u ++ (w ++ rest)) (begun : Begun fit origin u y)
    (covered : Repeats fit (count + 1) (u.reverse ++ origin.before) w rest) :
    y.Reaches origin (u ++ w) := by
  obtain ⟨m, nonempty⟩ := covered.nonempty
  cases m with
  | zero =>
    cases nonempty
    obtain ⟨s, t, empty, first, _⟩ := covered
    obtain ⟨rfl, rfl⟩ := List.append_eq_nil_iff.1 empty.symm
    simpa using begun [] rest split first
  | succ m =>
    obtain ⟨s, t, rfl, ⟨moved, first⟩, others⟩ := nonempty
    have visited := begun s (t ++ rest) (by simpa using split) first
    rw [if_neg moved] at visited
    rw [← List.append_assoc]
    refine @Finished.reaches _ _ _ _ finished m 0 _ _ rest (fun h => nomatch h) ?_ visited ?_
    · simpa using split
    · simpa using others

theorem Place.Advances.of_mark {p q : Place} {u v : List Char} (h₁ : origin.Advances u p)
    (h₂ : origin.Advances v q) (same : q.mark [] = p.mark []) : origin.Advances u q := by
  have position : p.position = q.position := (Prod.mk.inj same).1.symm
  rwa [h₁.unique h₂ position]

theorem repeatExactly_complete (real : Realizes pass fit) :
    ∀ (count : Nat) {places : List Place} {u w rest : List Char} {p : Place},
      (∀ p ∈ places, ∃ u, origin.Advances u p) → p ∈ places → origin.Advances u p →
      origin.after = u ++ (w ++ rest) →
      Repeats fit count (u.reverse ++ origin.before) w rest →
      ∃ q ∈ repeatExactly [] pass count places, origin.Advances (u ++ w) q
  | 0, _, u, w, rest, p, _, member, advances, _, covered => by
    cases covered
    exact ⟨p, member, by simpa using advances⟩
  | count + 1, [], _, _, _, _, _, member, _, _, _ => absurd member List.not_mem_nil
  | count + 1, first :: others, u, w, rest, p, all, member, advances, split, covered => by
    obtain ⟨s, t, rfl, fits, covered⟩ := covered
    have ends : ∀ q ∈ distinctPlaces [] ((first :: others).flatMap pass),
        ∃ u, origin.Advances u q := by
      intro q kept
      obtain ⟨p, start, step⟩ := List.mem_flatMap.1 (mem_of_mem_distinctPlaces kept)
      obtain ⟨u, advances⟩ := all p start
      obtain ⟨w, further, _⟩ := real.sound step
      exact ⟨u ++ w, advances.trans further⟩
    have here : p.after = s ++ (t ++ rest) := by
      rw [List.append_assoc] at split
      exact List.append_cancel_left (advances.after.symm.trans split)
    obtain ⟨q, step, further⟩ := real.complete here (advances.before ▸ fits)
    obtain ⟨kept, isKept, same⟩ :=
      exists_mem_distinctPlaces [] (List.mem_flatMap.2 ⟨p, member, step⟩)
    obtain ⟨v, advances'⟩ := ends kept isKept
    have reached := (advances.trans further).of_mark advances' same
    rw [← List.append_assoc]
    exact repeatExactly_complete real count ends isKept reached (by simpa using split)
      (by simpa using covered)

end Completeness

/-! ### Loops as wholes -/

theorem foldl_sound {go : Exploration → Place → Exploration} {reach : Place → Place → Prop}
    {x : Exploration} {places : List Place} {q : Place} (fresh : x.found = [])
    (h : ∀ x p, ∀ q ∈ (go x p).found, q ∈ x.found ∨ reach p q)
    (member : q ∈ (places.foldl go x).found) : ∃ p ∈ places, reach p q := by
  rcases mem_found_foldl h places x q member with member | found
  · rw [fresh] at member
    exact absurd member List.not_mem_nil
  · exact found

/-- Every place that a loop leads to is reached by passes, as many as the loop allows. -/
theorem loopOutcomes_sound {references : List Nat} {greedy : Bool} {pass : Place → List Place}
    {least : Nat} {most : Option Nat} {emptyPass : EmptyPass} {p q : Place}
    (member : q ∈ loopOutcomes references greedy pass least most emptyPass p) :
    ∃ count, Allowed least most count ∧ Chain pass count p q := by
  replace member := List.mem_reverse.1 (mem_of_mem_distinctPlaces member)
  have starts : ∀ {count : Nat} {start : Place},
      start ∈ repeatExactly references pass count [p] → Chain pass count p start := by
    intro count start h
    obtain ⟨_, only, chain⟩ := repeatExactly_sound count [p] start h
    exact List.mem_singleton.1 only ▸ chain
  match most, emptyPass with
  | some most, emptyPass =>
    obtain ⟨start, begun, count, bound, chain⟩ :=
      foldl_sound rfl (explore_sound (most - least)) member
    exact ⟨min least most + count, ⟨Nat.le_add_right .., by omega⟩, (starts begun).trans chain⟩
  | none, .refused =>
    obtain ⟨start, begun, count, chain⟩ := foldl_sound rfl exploreMany_sound member
    exact ⟨least + count, Nat.le_add_right .., (starts begun).trans chain⟩
  | none, .endsLoop =>
    match least with
    | 0 =>
      have any : ∀ {count : Nat}, Chain pass count p q →
          ∃ count, Allowed 0 none count ∧ Chain pass count p q :=
        fun chain => ⟨_, Nat.zero_le _, chain⟩
      dsimp only at member
      split at member
      · rcases Exploration.mem_found_emit member with rfl | member
        · exact @any 0 rfl
        · rcases exploreSome_sound _ _ q member with fresh | ⟨count, chain⟩
          · exact absurd fresh List.not_mem_nil
          · exact any chain
      · rcases exploreSome_sound _ _ q member with found | ⟨count, chain⟩
        · rcases Exploration.mem_found_emit found with rfl | fresh
          · exact @any 0 rfl
          · exact absurd fresh List.not_mem_nil
        · exact any chain
    | least + 1 =>
      obtain ⟨start, begun, count, chain⟩ := foldl_sound rfl exploreSome_sound member
      refine ⟨least + (count + 1), ?_, (starts begun).trans chain⟩
      show least + 1 ≤ least + (count + 1)
      omega

section Loop

open Exploration

variable {greedy : Bool} {pass : Place → List Place} {fit : Fit} {least : Nat}
  {most : Option Nat} {emptyPass : EmptyPass}

/-- Passes that cover texts one by one cover them one after the other. -/
theorem Chain.repeats
    (sound : ∀ {p q : Place}, q ∈ pass p → ∃ w, p.Advances w q ∧ fit p.before w q.after) :
    ∀ {count : Nat} {p q : Place}, Chain pass count p q →
      ∃ w, p.Advances w q ∧ Repeats fit count p.before w q.after
  | 0, p, _, rfl => ⟨[], .refl p, rfl⟩
  | count + 1, p, q, ⟨m, step, chain⟩ => by
    obtain ⟨u, first, fits⟩ := sound step
    obtain ⟨v, others, covered⟩ := chain.repeats sound
    exact ⟨u ++ v, first.trans others, u, v, rfl, others.after ▸ fits, first.before ▸ covered⟩

/-- From every place after `count` passes all further passes are followed, so that the loop
leads wherever they lead. -/
theorem loop_reaches_of_starts (counted : Bool) (follow : Fit)
    (goal : List Char → Exploration → Prop) (real : Realizes pass fit)
    {go : Exploration → Place → Exploration} {count further : Nat} {p : Place}
    {w rest : List Char}
    (mono : ∀ {u x y}, goal u x → Extends x y → goal u y)
    (each : ∀ x m u, p.Advances u m → x.Explored follow p counted (go x m) ∧ goal u (go x m))
    (reaches : ∀ {y : Exploration} {u v : List Char}, Finished follow p counted y → goal u y →
      p.after = u ++ (v ++ rest) → Repeats fit further (u.reverse ++ p.before) v rest →
      y.Reaches p (u ++ v))
    (split : p.after = w ++ rest) (covered : Repeats fit (count + further) p.before w rest) :
    ((repeatExactly [] pass count [p]).foldl go {}).Reaches p w := by
  obtain ⟨u, v, rfl, front, back⟩ := covered.split
  have splits : p.after = [] ++ (u ++ (v ++ rest)) := by simpa using split
  have single : ∀ q ∈ [p], ∃ u, p.Advances u q :=
    fun q only => ⟨[], List.mem_singleton.1 only ▸ .refl p⟩
  obtain ⟨start, begun, advances⟩ := repeatExactly_complete real count single
    List.mem_cons_self (.refl p) splits (by simpa using front)
  have starts : ∀ m ∈ repeatExactly [] pass count [p], ∃ u, p.Advances u m ∧
      ∀ x, x.Explored follow p counted (go x m) ∧ goal u (go x m) := by
    intro m member
    obtain ⟨_, only, chain⟩ := repeatExactly_sound count [p] m member
    obtain ⟨u, advances, _⟩ := (List.mem_singleton.1 only ▸ chain).repeats real.sound
    exact ⟨u, advances, fun x => each x m u advances⟩
  obtain ⟨explored, goals⟩ := @explored_foldl _ _ _ go goal mono _ starts {}
  exact reaches (.of_explored rfl explored) (goals start begun u (by simpa using advances))
    (by simpa using split) back

theorem exists_mem_distinctPlaces_of_reaches {y : Exploration} {p : Place} {w : List Char}
    (all : ∀ q ∈ distinctPlaces [] y.found.reverse, ∃ v, p.Advances v q)
    (h : y.Reaches p w) : ∃ q ∈ distinctPlaces [] y.found.reverse, p.Advances w q := by
  obtain ⟨q, found, advances⟩ := h
  obtain ⟨kept, isKept, same⟩ :=
    exists_mem_distinctPlaces [] (List.mem_reverse.2 found)
  obtain ⟨v, advances'⟩ := all kept isKept
  exact ⟨kept, isKept, advances.of_mark advances' same⟩

/-- If passes lead exactly to the ends of certain texts, then the loop leads exactly to the
ends of the allowed repetitions of these texts. -/
theorem Realizes.loop (real : Realizes pass fit) :
    Realizes (loopOutcomes [] greedy pass least most emptyPass)
      (fun before w after =>
        ∃ count, Allowed least most count ∧ Repeats fit count before w after) := by
  have sound : ∀ {p q : Place}, q ∈ loopOutcomes [] greedy pass least most emptyPass p →
      ∃ w, p.Advances w q ∧
        ∃ count, Allowed least most count ∧ Repeats fit count p.before w q.after := by
    intro p q member
    obtain ⟨count, allowed, chain⟩ := loopOutcomes_sound member
    obtain ⟨w, advances, covered⟩ := chain.repeats real.sound
    exact ⟨w, advances, count, allowed, covered⟩
  refine ⟨sound, ?_⟩
  rintro p w rest split ⟨count, allowed, covered⟩
  have all : ∀ q ∈ loopOutcomes [] greedy pass least most emptyPass p, ∃ v, p.Advances v q :=
    fun q member => (sound member).imp fun _ h => h.1
  match most, emptyPass with
  | some most, emptyPass =>
    refine exists_mem_distinctPlaces_of_reaches all ?_
    obtain ⟨further, rfl⟩ := Nat.exists_eq_add_of_le allowed.1
    have bound : further ≤ most - least := by
      have := allowed.2
      omega
    exact loop_reaches_of_starts true fit (fun u y => y.Visited p true (most - least) u) real
      (fun visited more => visited.mono more)
      (fun x m u advances => @explore_explored _ true _ _ _ real (fun h => nomatch h)
        (most - least) x m u advances fun h => nomatch h)
      (fun finished visited split covered =>
        finished.reaches (fun _ => bound) split visited covered)
      split covered
  | none, .refused =>
    refine exists_mem_distinctPlaces_of_reaches all ?_
    obtain ⟨further, rfl⟩ := Nat.exists_eq_add_of_le (show least ≤ count from allowed)
    exact loop_reaches_of_starts false fit.nonempty (fun u y => y.Visited p false 0 u) real
      (fun visited more => visited.mono more)
      (fun x m u advances => exploreMany_explored real x advances)
      (fun finished visited split covered => by
        obtain ⟨_, covered⟩ := covered.nonempty
        exact finished.reaches (fun h => nomatch h) split visited covered)
      split covered
  | none, .endsLoop =>
    match least with
    | 0 =>
      refine exists_mem_distinctPlaces_of_reaches all ?_
      have splits : p.after = [] ++ (w ++ rest) := split
      have begun : ∀ {x : Exploration}, x.tried = ∅ → count ≠ 0 →
          (exploreSome [] greedy pass x p).Reaches p w := by
        intro x fresh some
        obtain ⟨explored, begun⟩ := exploreSome_explored greedy real x (.refl p)
        obtain ⟨further, rfl⟩ := Nat.exists_eq_succ_of_ne_zero some
        exact (Finished.of_explored fresh explored).reaches_of_begun splits begun covered
      have stays : count = 0 → w = [] := by
        rintro rfl
        exact covered
      dsimp only
      split
      · by_cases zero : count = 0
        · exact ⟨p, List.mem_cons_self, stays zero ▸ .refl p⟩
        · exact (begun rfl zero).mono (extends_emit p _)
      · by_cases zero : count = 0
        · obtain ⟨explored, _⟩ := exploreSome_explored greedy real
            (Exploration.emit p {}) (.refl p)
          refine Reaches.mono ?_ explored.toExtends
          exact ⟨p, List.mem_cons_self, stays zero ▸ .refl p⟩
        · exact begun rfl zero
    | least + 1 =>
      refine exists_mem_distinctPlaces_of_reaches all ?_
      obtain ⟨further, rfl⟩ := Nat.exists_eq_add_of_le (show least + 1 ≤ count from allowed)
      exact loop_reaches_of_starts false fit.nonempty (fun u y => Begun fit p u y) real
        (fun begun more => begun.mono more)
        (fun x m u advances => exploreSome_explored _ real x advances)
        (fun finished begun split covered => finished.reaches_of_begun split begun covered)
        split (by rwa [Nat.add_assoc, Nat.add_comm 1] at covered)

end Loop

end PathTemplate
