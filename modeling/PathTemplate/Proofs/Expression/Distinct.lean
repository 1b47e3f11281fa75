/-
Lists of places without repetitions.

`distinctPlaces` keeps of several places with one mark the first one. Here that is said by recursion
on the list (`unseen`), which gives what the kept places of `a ++ b` are, and when two lists keep the
same places (`SameDistinct`).

* `head?_distinctPlaces`: the preferred place is kept.
* `distinctPlaces_of_nodup`: a list without repetitions is kept as it is.
* `SameDistinct.append`, `SameDistinct.flatMap`, `sameDistinct_absorb`: lists that keep the same
  places may stand for one another, and places that occurred before do not count.
-/

import PathTemplate.Proofs.Expression.Exploration

namespace PathTemplate

section Distinct

variable (references : List Nat)

/-- The places of a list whose marks are not among those seen and did not occur before. -/
def unseen : (seen : List Place.Mark) → List Place → List Place
  | _, [] => []
  | seen, place :: places =>
    if place.mark references ∈ seen then unseen seen places
    else place :: unseen (place.mark references :: seen) places

/-- The marks of the places. -/
def marks (places : List Place) : List Place.Mark := places.map (Place.mark references)

variable {references} {seen seen' : List Place.Mark} {places more : List Place}

attribute [local simp] unseen

/-- Only which marks were seen matters. -/
theorem unseen_congr (same : ∀ mark, mark ∈ seen ↔ mark ∈ seen') :
    unseen references seen places = unseen references seen' places := by
  induction places generalizing seen seen' with
  | nil => rfl
  | cons place places ih =>
    simp only [unseen, same]
    split
    · exact ih same
    · refine congrArg _ (ih fun mark => ?_)
      simp only [List.mem_cons, same]

theorem unseen_append : unseen references seen (places ++ more) =
    unseen references seen places ++ unseen references (marks references places ++ seen) more := by
  induction places generalizing seen with
  | nil => rfl
  | cons place places ih =>
    simp only [List.cons_append, unseen, marks, List.map_cons]
    split
    · rename_i known
      rw [ih]
      refine congrArg _ (unseen_congr fun mark => ?_)
      simp only [marks, List.mem_append, List.mem_cons]
      constructor
      · rintro (inside | before)
        · exact .inr (.inl inside)
        · exact .inr (.inr before)
      · rintro (rfl | inside | before)
        · exact .inr known
        · exact .inl inside
        · exact .inr before
    · rw [ih, List.cons_append]
      refine congrArg (_ :: _ ++ ·) (unseen_congr fun mark => ?_)
      simp only [marks, List.mem_append, List.mem_cons]
      exact or_left_comm

theorem distinctPlaces_eq_unseen :
    distinctPlaces references places = unseen references [] places := by
  have fold (state : Std.HashSet Place.Mark × List Place) {seen : List Place.Mark}
      (same : ∀ mark, state.1.contains mark = true ↔ mark ∈ seen) :
      (places.foldl (keepDistinct references) state).2.reverse =
        state.2.reverse ++ unseen references seen places := by
    induction places generalizing state seen with
    | nil => exact (List.append_nil _).symm
    | cons place places ih =>
      rw [List.foldl_cons, unseen]
      by_cases known : state.1.contains (place.mark references) = true
      · rw [keepDistinct, if_pos known, if_pos ((same _).1 known)]
        exact ih state same
      · rw [keepDistinct, if_neg known, if_neg fun member => known ((same _).2 member)]
        refine (@ih _ (place.mark references :: seen) fun mark => ?_).trans ?_
        · simp only [Std.HashSet.contains_insert, Bool.or_eq_true, beq_iff_eq, same, List.mem_cons]
          exact or_congr eq_comm Iff.rfl
        · rw [List.reverse_cons, List.append_assoc]
          rfl
  rw [distinctPlaces_eq_foldl]
  exact fold (∅, []) (by simp)

/-- The preferred place stays the preferred one. -/
theorem head?_distinctPlaces : (distinctPlaces references places).head? = places.head? := by
  rw [distinctPlaces_eq_unseen]
  cases places with
  | nil => rfl
  | cons place places => simp

/-! ### Lists that keep the same places -/

theorem unseen_eq_filter : unseen references seen places =
    (unseen references [] places).filter fun place => place.mark references ∉ seen := by
  induction places generalizing seen with
  | nil => rfl
  | cons place places ih =>
    rw [unseen, unseen, if_neg List.not_mem_nil, ih, @ih [place.mark references]]
    by_cases known : place.mark references ∈ seen
    · rw [if_pos known, List.filter_cons_of_neg (by simpa using known), List.filter_filter]
      refine List.filter_congr fun other _ => ?_
      by_cases same : other.mark references = place.mark references
      · simp [same, known]
      · simp [same]
    · rw [if_neg known, ih, List.filter_cons_of_pos (by simpa using known), List.filter_filter]
      refine congrArg _ (List.filter_congr fun other _ => ?_)
      simp [Bool.and_comm]

theorem mem_marks_unseen {mark : Place.Mark} :
    mark ∈ marks references (unseen references [] places) ↔ mark ∈ marks references places := by
  induction places with
  | nil => rfl
  | cons place places ih =>
    rw [unseen, if_neg List.not_mem_nil, unseen_eq_filter]
    simp only [marks, List.map_cons, List.mem_cons, List.mem_map, List.mem_filter] at ih ⊢
    by_cases same : mark = place.mark references
    · simp [same]
    · simp only [same, false_or]
      rw [← ih]
      constructor
      · rintro ⟨other, ⟨member, _⟩, found⟩
        exact ⟨other, member, found⟩
      · rintro ⟨other, member, found⟩
        exact ⟨other, ⟨member, by simpa [found] using same⟩, found⟩

variable (references) in
/-- Of both lists the same places are kept. -/
def SameDistinct (places more : List Place) : Prop :=
  unseen references [] places = unseen references [] more

variable {others further : List Place}

theorem SameDistinct.refl (places : List Place) : SameDistinct references places places := rfl

theorem SameDistinct.symm (same : SameDistinct references places others) :
    SameDistinct references others places := Eq.symm same

theorem SameDistinct.trans (first : SameDistinct references places others)
    (second : SameDistinct references others further) : SameDistinct references places further :=
  Eq.trans first second

theorem SameDistinct.distinctPlaces_eq (same : SameDistinct references places others) :
    distinctPlaces references places = distinctPlaces references others := by
  rw [distinctPlaces_eq_unseen, distinctPlaces_eq_unseen]
  exact same

theorem SameDistinct.mem_marks (same : SameDistinct references places others)
    {mark : Place.Mark} : mark ∈ marks references places ↔ mark ∈ marks references others := by
  rw [← mem_marks_unseen, same, mem_marks_unseen]

theorem SameDistinct.append (left : SameDistinct references places others)
    (right : SameDistinct references more further) :
    SameDistinct references (places ++ more) (others ++ further) := by
  unfold SameDistinct
  rw [unseen_append, unseen_append, left]
  refine congrArg _ ?_
  rw [unseen_eq_filter, @unseen_eq_filter _ _ further, right]
  refine List.filter_congr fun place _ => ?_
  simp [left.mem_marks]

/-- Places that occurred before do not count. -/
theorem sameDistinct_absorb
    (known : ∀ mark ∈ marks references more, mark ∈ marks references places) :
    SameDistinct references (places ++ more) places := by
  have none : ∀ {seen}, (∀ mark ∈ marks references more, mark ∈ seen) →
      unseen references seen more = [] := by
    intro seen known
    rw [unseen_eq_filter, List.filter_eq_nil_iff]
    intro place member
    have mark : place.mark references ∈ marks references more :=
      mem_marks_unseen.1 (List.mem_map_of_mem member)
    simpa using known _ mark
  unfold SameDistinct
  rw [unseen_append, none fun mark member => List.mem_append_left _ (known mark member),
    List.append_nil]

theorem SameDistinct.flatMap {list list' : Place → List Place}
    (same : ∀ place ∈ places, SameDistinct references (list place) (list' place)) :
    SameDistinct references (places.flatMap list) (places.flatMap list') := by
  induction places with
  | nil => exact .refl _
  | cons place places ih =>
    obtain ⟨here, others⟩ := List.forall_mem_cons.1 same
    rw [List.flatMap_cons, List.flatMap_cons]
    exact here.append (ih others)

end Distinct

end PathTemplate
