/-
Parameters in a hash table are a finite map.

`TableLibrary.IsLawful` is what a hash table promises for what hashes and compares as a name does;
names, owned or borrowed, do so (`Name.standsFor_probe`, `Name.standsFor_borrowed`).
`TableLibrary.Holds` says which value every name has, by the bindings made so far; a step keeps it,
and so does a run.

* `TableLibrary.getName?_run`: whatever is done, a table tells the bindings made last, and those of
  the parameters in order.
-/

import Mathlib.Data.List.Dedup
import Mathlib.Data.List.Perm.Subperm
import PathTemplate.Proofs.Params
import PathTemplate.Renderer
import PathTemplate.Table

namespace PathTemplate

/-! ### Hashing and comparing -/

/-- What is searched for is hashed as the name and is equivalent to it alone. -/
structure Probe.StandsFor (probe : Probe) (name : Name) : Prop where
  hashed : probe.hashed = name.hashed
  isEquivalent : ∀ other, probe.isEquivalent other = true ↔ other = name

theorem Name.standsFor_probe (name : Name) : name.probe.StandsFor name where
  hashed := rfl
  isEquivalent := fun _ => decide_eq_true_iff.trans eq_comm

theorem Name.borrowed_inj {a b : Name} : a.borrowed = b.borrowed ↔ a = b := by
  cases a <;> cases b <;> simp [Name.borrowed]

/-- A borrowed name stands for the name that it was borrowed from. -/
theorem Name.standsFor_borrowed (name : Name) : name.borrowed.probe.StandsFor name where
  hashed := rfl
  isEquivalent := fun _ => decide_eq_true_iff.trans (Name.borrowed_inj.trans eq_comm)

/-! ### Tables -/

namespace TableLibrary

variable {Table : Type}

/-- What a hash table promises, provided that it is searched with what stands for a name. -/
structure IsLawful (library : TableLibrary Table) : Prop where
  get?_empty {probe : Probe} : library.get? probe library.empty = none
  get?_withCapacity {probe : Probe} {capacity : Nat} :
    library.get? probe (library.withCapacity capacity) = none
  get?_insert {probe : Probe} {name other : Name} {value : Value} {table : Table} :
    probe.StandsFor other → library.get? probe (library.insert name value table).1 =
      if other = name then some value else library.get? probe table
  replaced {name : Name} {value : Value} {table : Table} :
    (library.insert name value table).2 = library.get? name.probe table
  /-- An iteration meets what look-up finds, and no name twice. -/
  mem_entries {name : Name} {value : Value} {table : Table} :
    (name, value) ∈ library.entries table ↔ library.get? name.probe table = some value
  nodup_entries {table : Table} : ((library.entries table).map Prod.fst).Nodup
  size_eq {table : Table} : library.size table = (library.entries table).length
  /-- Tables are equal that have as many bindings, if one finds those of the other. -/
  isEqual_iff {table other : Table} : library.isEqual table other = true ↔
    library.size table = library.size other ∧
      ∀ binding ∈ library.entries table, library.get? binding.1.probe other = some binding.2

end TableLibrary

/-- The bindings that were made, with those of a step. -/
def ParamsStep.log (bindings : List (Name × Value)) : ParamsStep → List (Name × Value)
  | .insert name value | .with_ name value => bindings ++ [(name, value)]
  | .collect bindings => bindings

/-- The bindings that were made since the parameters were new, the last one last. -/
def ParamsStep.logged (steps : List ParamsStep) : List (Name × Value) :=
  steps.foldl ParamsStep.log []

/-- The value bound last to a name. -/
def lastBound? (bindings : List (Name × Value)) (name : Name) : Option Value :=
  bindings.reverse.lookup name

section LastBound

variable {bindings : List (Name × Value)} {name other : Name} {value : Value}

theorem lastBound?_append : lastBound? (bindings ++ [(name, value)]) other =
    if other = name then some value else lastBound? bindings other := by
  rw [lastBound?, List.reverse_append, List.reverse_singleton, List.singleton_append,
    List.lookup_cons]
  by_cases same : other = name
  · simp [same]
  · rw [beq_eq_false_iff_ne.2 same, if_neg same]
    rfl

/-- A name has a value if it was bound at all. -/
theorem isSome_lastBound? : (lastBound? bindings name).isSome = true ↔
    name ∈ bindings.map Prod.fst := by
  rw [← not_iff_not, Bool.not_eq_true, Option.isSome_eq_false_iff, Option.isNone_iff_eq_none,
    lastBound?, List.lookup_eq_none_iff]
  simp only [List.mem_reverse, List.mem_map, bne_iff_ne]
  constructor
  · rintro absent ⟨binding, member, rfl⟩
    exact absent binding member rfl
  · rintro absent binding member rfl
    exact absent ⟨binding, member, rfl⟩

end LastBound

namespace Params

variable {params : Params} {bindings : List (Name × Value)} {name : Name}

theorem get?_insert (value : Value) (other : Name) : (params.insert name value).get? other =
    if other = name then some value else params.get? other := by
  by_cases same : other = name
  · rw [same, get?_insert_self, if_pos rfl]
  · rw [get?_insert_of_ne value params same, if_neg same]

/-- Where no name is bound twice, look-up finds every binding. -/
theorem lookup_eq_some_iff_mem (nodup : (bindings.map Prod.fst).Nodup) {value : Value} :
    bindings.lookup name = some value ↔ (name, value) ∈ bindings := by
  rw [← get?_ofList nodup]
  refine ⟨mem_of_get?_ofList, fun member => ?_⟩
  obtain ⟨before, after, rfl⟩ := List.append_of_mem member
  rw [get?_ofList nodup, List.lookup_append, lookup_eq_none_of_notMem, List.lookup_cons_self]
  · rfl
  · rw [List.map_append, List.map_cons] at nodup
    exact fun early => (List.nodup_append.1 nodup).2.2 _ early _ List.mem_cons_self rfl

end Params

namespace TableLibrary

variable {Table : Type} {library : TableLibrary Table} {table other : Table}
  {bindings : List (Name × Value)}

/-- Whatever stands for a name finds the value bound to it last. -/
def Holds (library : TableLibrary Table) (table : Table) (bindings : List (Name × Value)) : Prop :=
  ∀ ⦃probe : Probe⦄ ⦃name : Name⦄, probe.StandsFor name →
    library.get? probe table = lastBound? bindings name

section Lawful

variable (lawful : library.IsLawful)
include lawful

theorem holds_with (holds : library.Holds table bindings) (name : Name) (value : Value) :
    library.Holds (library.with_ name value table) (bindings ++ [(name, value)]) := by
  intro probe other stands
  rw [with_, lawful.get?_insert stands, lastBound?_append, holds stands]

theorem holds_insertAll (holds : library.Holds table bindings) (more : List (Name × Value)) :
    library.Holds
      (more.foldl (fun table binding => library.with_ binding.1 binding.2 table) table)
      (bindings ++ more) := by
  induction more generalizing table bindings with
  | nil => rwa [List.append_nil]
  | cons binding more ih =>
    have first := ih (holds_with lawful holds binding.1 binding.2)
    rwa [List.append_assoc] at first

theorem holds_collect (bindings : List (Name × Value)) :
    library.Holds (library.collect bindings) bindings := by
  have new : library.Holds library.empty [] := fun _ _ _ => lawful.get?_empty
  exact holds_insertAll lawful new bindings

/-- One step. -/
theorem holds_step (holds : library.Holds table bindings) (step : ParamsStep) :
    library.Holds (library.step table step) (step.log bindings) := by
  cases step with
  | insert name value | with_ name value => exact holds_with lawful holds name value
  | collect bindings => exact holds_collect lawful bindings

/-- A run. -/
theorem holds_run (holds : library.Holds table bindings) (steps : List ParamsStep) :
    library.Holds (library.run table steps) (steps.foldl ParamsStep.log bindings) := by
  induction steps generalizing table bindings with
  | nil => exact holds
  | cons step steps ih => exact ih (holds_step lawful holds step)

/-- New parameters have no bindings, whatever room there is for them. -/
theorem holds_new (new : table = library.empty ∨ ∃ room, table = library.withCapacity room)
    (steps : List ParamsStep) :
    library.Holds (library.run table steps) (ParamsStep.logged steps) := by
  have none : library.Holds table [] := by
    intro probe name _
    rcases new with rfl | ⟨room, rfl⟩
    · exact lawful.get?_empty
    · exact lawful.get?_withCapacity
  exact holds_run lawful none steps

theorem mem_entries_iff (holds : library.Holds table bindings) {name : Name} {value : Value} :
    (name, value) ∈ library.entries table ↔ lastBound? bindings name = some value := by
  rw [lawful.mem_entries, holds name.standsFor_probe]

/-- A table has as many bindings as names were bound. -/
theorem size_of_holds (holds : library.Holds table bindings) :
    library.size table = (bindings.map Prod.fst).dedup.length := by
  rw [lawful.size_eq, ← List.length_map Prod.fst]
  refine List.Perm.length_eq
    ((List.perm_ext_iff_of_nodup lawful.nodup_entries (List.nodup_dedup _)).2 fun name => ?_)
  rw [List.mem_dedup, ← @isSome_lastBound? bindings name, Option.isSome_iff_exists, List.mem_map]
  constructor
  · rintro ⟨⟨_, value⟩, present, rfl⟩
    exact ⟨value, (mem_entries_iff lawful holds).1 present⟩
  · rintro ⟨value, bound⟩
    exact ⟨_, (mem_entries_iff lawful holds).2 bound, rfl⟩

/-- Tables that list the same bindings give every name the same value. -/
theorem getName?_eq_iff : (∀ name, library.getName? name table = library.getName? name other) ↔
    (library.entries table).Perm (library.entries other) := by
  rw [List.perm_ext_iff_of_nodup (.of_map _ lawful.nodup_entries) (.of_map _ lawful.nodup_entries)]
  constructor
  · rintro same ⟨name, value⟩
    rw [lawful.mem_entries, lawful.mem_entries]
    exact iff_of_eq (congrArg (· = some value) (same name))
  · refine fun same name => Option.ext fun value => ?_
    exact lawful.mem_entries.symm.trans ((same (name, value)).trans lawful.mem_entries)

/-- Tables are equal that give every name the same value. -/
theorem isEqual_iff_getName? : library.isEqual table other = true ↔
    ∀ name, library.getName? name table = library.getName? name other := by
  rw [lawful.isEqual_iff, lawful.size_eq, lawful.size_eq, getName?_eq_iff lawful]
  constructor
  · rintro ⟨length, found⟩
    have part : library.entries table ⊆ library.entries other :=
      fun binding member => lawful.mem_entries.2 (found binding member)
    exact (List.subperm_of_subset (.of_map _ lawful.nodup_entries) part).perm_of_length_le
      (Nat.le_of_eq length.symm)
  · exact fun same => ⟨same.length_eq,
      fun binding member => lawful.mem_entries.1 (same.mem_iff.1 member)⟩

/-- A table holds the parameters that have the same values. -/
theorem get?_params (name : Name) :
    (library.params table).get? name = library.getName? name table := by
  rw [params, Params.get?_ofList lawful.nodup_entries]
  refine Option.ext fun value => ?_
  exact (Params.lookup_eq_some_iff_mem lawful.nodup_entries).trans lawful.mem_entries

end Lawful

end TableLibrary

/-! ### The ordered bindings as a table -/

namespace Params

variable {params : Params} {name : Name}

/-- The ordered bindings, searched as a table with this hash function is: the names that hash as
what is searched for are compared with it. -/
def search? (hash : List HashPiece → Nat) (probe : Probe) (params : Params) : Option Value :=
  (params.entries.find? fun binding =>
    hash binding.1.hashed = hash probe.hashed && probe.isEquivalent binding.1).map (·.2)

/-- The ordered bindings as a hash table. -/
def library (hash : List HashPiece → Nat) : TableLibrary Params where
  empty := default
  withCapacity _ := default
  insert name value params := (params.insert name value, params.get? name)
  get? := search? hash
  size := size
  entries := entries
  isEqual params other := params.size = other.size &&
    params.entries.all fun binding => search? hash binding.1.probe other = some binding.2

/-- A search finds what look-up does. -/
theorem search?_of_standsFor (hash : List HashPiece → Nat) {probe : Probe}
    (stands : probe.StandsFor name) : search? hash probe params = params.get? name := by
  rw [search?, get?]
  induction params.entries with
  | nil => rfl
  | cons binding entries ih =>
    obtain ⟨other, value⟩ := binding
    rw [List.find?_cons, List.lookup_cons]
    by_cases same : name = other
    · subst same
      simp [stands.hashed, (stands.isEquivalent name).2 rfl]
    · have apart : probe.isEquivalent other = false :=
        Bool.eq_false_iff.2 fun takes => same ((stands.isEquivalent other).1 takes).symm
      rw [apart, Bool.and_false, beq_eq_false_iff_ne.2 same]
      exact ih

theorem nodup_entries (params : Params) : (params.entries.map Prod.fst).Nodup := by
  refine List.pairwise_map.2 (params.ordered.imp fun before same => ?_)
  rw [same, Name.before_irrefl] at before
  cases before

theorem library_isLawful (hash : List HashPiece → Nat) : (library hash).IsLawful where
  get?_empty := rfl
  get?_withCapacity := rfl
  get?_insert := by
    intro probe name other value params stands
    change search? hash probe (params.insert name value) = _
    rw [search?_of_standsFor hash stands, get?_insert]
    exact congrArg _ (search?_of_standsFor hash stands).symm
  replaced := by
    intro name value params
    exact (search?_of_standsFor hash name.standsFor_probe).symm
  mem_entries := by
    intro name value params
    change (name, value) ∈ params.entries ↔ search? hash name.probe params = some value
    rw [search?_of_standsFor hash name.standsFor_probe]
    exact (lookup_eq_some_iff_mem params.nodup_entries).symm
  nodup_entries := by
    intro params
    exact params.nodup_entries
  size_eq := rfl
  isEqual_iff := by
    intro params other
    change (_ && _) = true ↔ _
    rw [Bool.and_eq_true, decide_eq_true_iff, List.all_eq_true]
    simp only [decide_eq_true_eq]
    rfl

/-- The steps on parameters are those on the table. -/
theorem run_library (hash : List HashPiece → Nat) (steps : List ParamsStep) :
    (library hash).run params steps = steps.foldl apply params := by
  have same : (library hash).step = apply := by
    funext params step
    cases step <;> rfl
  rw [TableLibrary.run, same]

/-- So they tell the binding made last. -/
theorem get?_run (steps : List ParamsStep) (name : Name) :
    (steps.foldl apply {}).get? name = lastBound? (ParamsStep.logged steps) name := by
  have new : (library fun _ => 0).Holds {} [] := fun _ _ _ => rfl
  have holds := TableLibrary.holds_run (library_isLawful _) new steps
  rw [run_library] at holds
  rw [← search?_of_standsFor (fun _ => 0) name.standsFor_probe]
  exact holds name.standsFor_probe

end Params

namespace TableLibrary

/-- Whatever is inserted and collected into new parameters, a name has the value bound to it last,
however it is asked for; inserting returns the value that it replaces; there are as many bindings
as names were bound, and an iteration lists each of them once. Tables are equal if they hold
the same bindings, and then they render alike. -/
theorem getName?_run {Table : Type} {library : TableLibrary Table} (lawful : library.IsLawful)
    {start : Table} (new : start = library.empty ∨ ∃ room, start = library.withCapacity room)
    (steps : List ParamsStep) :
    let table := library.run start steps
    (∀ name, library.getName? name table = lastBound? (ParamsStep.logged steps) name) ∧
    (∀ name value, (library.insert name value table).2 = library.getName? name table) ∧
    (∀ text, library.getText? text table = library.getName? (.explicit text) table) ∧
    (∀ index, library.getOrdinal? index table = library.getName? (.ordinal index) table) ∧
    (∀ text, library.contains text table = true ↔
      .explicit text ∈ (ParamsStep.logged steps).map Prod.fst) ∧
    library.size table = ((ParamsStep.logged steps).map Prod.fst).dedup.length ∧
    (∀ text index value,
      library.getOrdinal? index (library.with_ (.explicit text) value table) =
          library.getOrdinal? index table ∧
        library.getText? text (library.with_ (.ordinal index) value table) =
          library.getText? text table) ∧
    ((library.entries table).map Prod.fst).Nodup ∧
    (∀ name value, (name, value) ∈ library.entries table ↔
      library.getName? name table = some value) ∧
    (∀ name, (library.params table).get? name = library.getName? name table) ∧
    library.params table = steps.foldl Params.apply {} ∧
    ∀ start' steps', (start' = library.empty ∨ ∃ room, start' = library.withCapacity room) →
      let other := library.run start' steps'
      (library.isEqual table other = true ↔
        ∀ name, library.getName? name table = library.getName? name other) ∧
      (library.isEqual table other = true → ∀ renderer : Renderer,
        renderer.render (library.params table) = renderer.render (library.params other)) := by
  have holds := holds_new lawful new steps
  intro table
  have text_eq (text : String) {table : Table} {bindings : List (Name × Value)}
      (holds : library.Holds table bindings) :
      library.getText? text table = lastBound? bindings (.explicit text) :=
    holds (Name.standsFor_borrowed (.explicit text))
  have ordinal_eq (index : Nat) {table : Table} {bindings : List (Name × Value)}
      (holds : library.Holds table bindings) :
      library.getOrdinal? index table = lastBound? bindings (.ordinal index) :=
    holds (Name.standsFor_borrowed (.ordinal index))
  refine ⟨fun name => holds name.standsFor_probe, fun _ _ => lawful.replaced, fun text => ?_,
    fun index => ?_, fun text => ?_, size_of_holds lawful holds, fun text index value => ⟨?_, ?_⟩,
    lawful.nodup_entries, fun _ _ => lawful.mem_entries, get?_params lawful, ?_,
    fun start' steps' new' => ⟨?_, ?_⟩⟩
  · rw [text_eq text holds]
    exact (holds (Name.standsFor_probe _)).symm
  · rw [ordinal_eq index holds]
    exact (holds (Name.standsFor_probe _)).symm
  · rw [contains, text_eq text holds, isSome_lastBound?]
  · rw [ordinal_eq index (holds_with lawful holds _ _), ordinal_eq index holds, lastBound?_append,
      if_neg nofun]
  · rw [text_eq text (holds_with lawful holds _ _), text_eq text holds, lastBound?_append,
      if_neg nofun]
  · refine Params.eq_of_get? fun name => ?_
    rw [get?_params lawful, Params.get?_run]
    exact holds name.standsFor_probe
  · exact isEqual_iff_getName? lawful
  · intro equal renderer
    have same : library.params table = library.params (library.run start' steps') :=
      Params.eq_of_get? fun name => by
        rw [get?_params lawful, get?_params lawful]
        exact (isEqual_iff_getName? lawful).1 equal name
    rw [same]

/-- The explicit name `0` and the ordinal 0, where all names hash alike. -/
theorem getName?_run_collisions :
    let library := Params.library List.length
    let steps : List ParamsStep :=
      [.with_ (.explicit "b") (.single "lost"), .collect [(.explicit "0", .single "x")],
        .insert (.ordinal 0) (.repeated ["y", "z"]), .with_ (.explicit "0") (.single "w")]
    library.IsLawful ∧
      library.getText? "0" (library.run library.empty steps) = some (.single "w") ∧
      library.getOrdinal? 0 (library.run library.empty steps) = some (.repeated ["y", "z"]) ∧
      library.contains "b" (library.run library.empty steps) = false ∧
      library.size (library.run library.empty steps) = 2 := by
  intro library steps
  have lawful : library.IsLawful := Params.library_isLawful _
  obtain ⟨last, _, texts, ordinals, contained, size, _⟩ :=
    getName?_run lawful (.inl rfl : library.empty = _ ∨ _) steps
  refine ⟨lawful, ?_, ?_, ?_, size.trans (by decide)⟩
  · rw [texts, last]
    decide
  · rw [ordinals, last]
    decide
  · refine Bool.eq_false_iff.2 fun found => ?_
    exact absurd ((contained "b").1 found) (by decide)

end TableLibrary

end PathTemplate
