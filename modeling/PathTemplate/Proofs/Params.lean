/-
Parameters and their bindings.

`Params.ofList` puts bindings in order, later ones in place of earlier ones. Where no name is bound
twice, every name has the value of its binding; and parameters that give every name the same value
are the same.
-/

import PathTemplate.Params

namespace PathTemplate

namespace Params

variable {bindings : List (Name × Value)} {name : Name}

theorem lookup_eq_none_of_notMem (fresh : name ∉ bindings.map Prod.fst) :
    bindings.lookup name = none := by
  refine List.lookup_eq_none_iff.2 fun binding member => bne_iff_ne.2 ?_
  rintro rfl
  exact fresh (List.mem_map_of_mem member)

/-- Where no name is bound twice, a name has the value of its binding. -/
theorem get?_ofList (nodup : (bindings.map Prod.fst).Nodup) :
    (ofList bindings).get? name = bindings.lookup name := by
  suffices ∀ params : Params,
      (bindings.foldl (fun params binding => params.insert binding.1 binding.2) params).get? name =
        (bindings.lookup name).or (params.get? name) by
    rw [ofList, this, show ({} : Params).get? name = none from rfl, Option.or_none]
  induction bindings with
  | nil => exact fun _ => rfl
  | cons binding bindings ih =>
    intro params
    obtain ⟨other, value⟩ := binding
    obtain ⟨fresh, nodup⟩ := List.nodup_cons.1 nodup
    rw [List.foldl_cons, ih nodup, List.lookup_cons]
    by_cases same : name = other
    · subst same
      rw [lookup_eq_none_of_notMem fresh, get?_insert_self, beq_self_eq_true, Option.none_or]
      rfl
    · rw [get?_insert_of_ne value params same, beq_eq_false_iff_ne.2 same]

/-- A value that a name has was bound to it. -/
theorem mem_of_get?_ofList {value : Value} (present : (ofList bindings).get? name = some value) :
    (name, value) ∈ bindings := by
  suffices ∀ params : Params,
      (bindings.foldl (fun params binding => params.insert binding.1 binding.2) params).get? name =
        some value → params.get? name = some value ∨ (name, value) ∈ bindings from
    (this {} present).resolve_left nofun
  clear present
  induction bindings with
  | nil => exact fun _ => .inl
  | cons binding bindings ih =>
    intro params present
    rcases ih _ present with before | member
    · obtain ⟨other, bound⟩ := binding
      by_cases same : name = other
      · subst same
        rw [get?_insert_self] at before
        cases before
        exact .inr List.mem_cons_self
      · rw [get?_insert_of_ne bound params same] at before
        exact .inl before
    · exact .inr (List.mem_cons_of_mem _ member)

/-- A name that comes before all bound ones is not bound. -/
theorem lookup_eq_none_of_before (least : ∀ entry ∈ bindings, name.before entry.1 = true) :
    bindings.lookup name = none := by
  refine lookup_eq_none_of_notMem fun member => ?_
  obtain ⟨entry, present, rfl⟩ := List.mem_map.1 member
  have before := least entry present
  rw [Name.before_irrefl] at before
  cases before

/-- Bindings in order that give every name the same value are the same. -/
theorem entries_eq_of_lookup {entries others : List (Name × Value)}
    (ordered : entries.Pairwise fun a b => a.1.before b.1 = true)
    (ordered' : others.Pairwise fun a b => a.1.before b.1 = true)
    (same : ∀ name, entries.lookup name = others.lookup name) : entries = others := by
  induction entries generalizing others with
  | nil =>
    cases others with
    | nil => rfl
    | cons b others => exact absurd (same b.1) (by rw [List.lookup_cons_self]; nofun)
  | cons a entries ih =>
    cases others with
    | nil => exact absurd (same a.1) (by rw [List.lookup_cons_self]; nofun)
    | cons b others =>
      obtain ⟨name, value⟩ := a
      obtain ⟨name', value'⟩ := b
      obtain ⟨least, orderedRest⟩ := List.pairwise_cons.1 ordered
      obtain ⟨least', orderedRest'⟩ := List.pairwise_cons.1 ordered'
      -- If one of the two first names came before the other, the other bindings would not have it.
      have first : name.before name' = false := Bool.eq_false_iff.2 fun before => by
        have absent : ((name', value') :: others).lookup name = none :=
          lookup_eq_none_of_before (List.forall_mem_cons.2
            ⟨before, fun entry member => Name.before_trans before (least' entry member)⟩)
        rw [← same name, List.lookup_cons_self] at absent
        cases absent
      have second : name'.before name = false := Bool.eq_false_iff.2 fun before => by
        have absent : ((name, value) :: entries).lookup name' = none :=
          lookup_eq_none_of_before (List.forall_mem_cons.2
            ⟨before, fun entry member => Name.before_trans before (least entry member)⟩)
        rw [same name', List.lookup_cons_self] at absent
        cases absent
      obtain rfl := Name.eq_of_not_before first second
      have values := same name
      rw [List.lookup_cons_self, List.lookup_cons_self] at values
      obtain rfl := Option.some.inj values
      refine congrArg _ (ih orderedRest orderedRest' fun other => ?_)
      by_cases here : other = name
      · rw [here, lookup_eq_none_of_before least, lookup_eq_none_of_before least']
      · have there := same other
        rwa [List.lookup_cons, List.lookup_cons, beq_eq_false_iff_ne.2 here] at there

/-- Parameters that give every name the same value are the same. -/
theorem eq_of_get? {params other : Params} (same : ∀ name, params.get? name = other.get? name) :
    params = other := by
  obtain ⟨entries, ordered⟩ := params
  obtain ⟨others, ordered'⟩ := other
  obtain rfl := entries_eq_of_lookup ordered ordered' same
  rfl

end Params

end PathTemplate
