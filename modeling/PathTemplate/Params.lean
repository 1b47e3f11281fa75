/-
Parameters: a finite map from names to values.

The bindings are kept in the order of the names, so that equal maps are equal values.
`get?_insert_self` and `get?_insert_of_ne` say what inserting does to look-up.
-/

import PathTemplate.Name

namespace PathTemplate

/-- The value of a parameter: one text, or one text for each occurrence. -/
inductive Value where
  | single (text : String)
  | repeated (texts : List String)
deriving DecidableEq, Repr, Inhabited

namespace Value

/-- The text of a single value. -/
def text? : Value → Option String
  | .single text => some text
  | .repeated _ => none

/-- The texts of a repeated value. -/
def texts? : Value → Option (List String)
  | .single _ => none
  | .repeated texts => some texts

end Value

/-- Names with their values. -/
structure Params where
  /-- The bindings in the order of their names. -/
  entries : List (Name × Value) := []
  ordered : entries.Pairwise fun a b => a.1.before b.1 = true := by exact .nil
deriving DecidableEq, Repr

namespace Params

instance : Inhabited Params := ⟨{}⟩

/-- The binding of `name`, put in its place among ordered ones. -/
def place (name : Name) (value : Value) : List (Name × Value) → List (Name × Value)
  | [] => [(name, value)]
  | (other, old) :: rest =>
    if name.before other then (name, value) :: (other, old) :: rest
    else if other.before name then (other, old) :: place name value rest
    else (name, value) :: rest

theorem mem_place {name : Name} {value : Value} {entry : Name × Value} :
    ∀ {entries : List (Name × Value)},
      entry ∈ place name value entries → entry = (name, value) ∨ entry ∈ entries
  | [], h => by simpa [place] using h
  | (other, old) :: rest, h => by
    unfold place at h
    split at h
    · simpa using h
    · split at h
      · rcases List.mem_cons.1 h with h | h
        · exact .inr (h ▸ List.mem_cons_self)
        · exact (mem_place h).imp_right (List.mem_cons_of_mem _)
      · exact (List.mem_cons.1 h).imp_right (List.mem_cons_of_mem _)

theorem ordered_place {name : Name} {value : Value} :
    ∀ {entries : List (Name × Value)},
      entries.Pairwise (fun a b => a.1.before b.1 = true) →
      (place name value entries).Pairwise fun a b => a.1.before b.1 = true
  | [], _ => by simp [place]
  | (other, old) :: rest, h => by
    obtain ⟨least, h⟩ := List.pairwise_cons.1 h
    unfold place
    split
    · rename_i before
      refine List.pairwise_cons.2 ⟨fun entry member => ?_, List.pairwise_cons.2 ⟨least, h⟩⟩
      rcases List.mem_cons.1 member with rfl | member
      · exact before
      · exact Name.before_trans before (least _ member)
    · rename_i notBefore
      split
      · rename_i after
        refine List.pairwise_cons.2 ⟨fun entry member => ?_, ordered_place h⟩
        rcases mem_place member with rfl | member
        · exact after
        · exact least _ member
      · rename_i notAfter
        have same : name = other := Name.eq_of_not_before (by simpa using notBefore)
          (by simpa using notAfter)
        exact List.pairwise_cons.2 ⟨fun entry member => same ▸ least _ member, h⟩

/-- The value of a name. -/
def get? (params : Params) (name : Name) : Option Value := params.entries.lookup name

/-- The map with a value for a name, in place of the name's old one. -/
def insert (name : Name) (value : Value) (params : Params) : Params :=
  { entries := place name value params.entries, ordered := ordered_place params.ordered }

/-- The map of a list of bindings, of which later ones replace earlier ones. -/
def ofList (bindings : List (Name × Value)) : Params :=
  bindings.foldl (fun params binding => params.insert binding.1 binding.2) {}

/-- The number of names with a value. -/
def size (params : Params) : Nat := params.entries.length

/-- The name has a value. -/
def contains (params : Params) (name : Name) : Bool := (params.get? name).isSome

private theorem lookup_place_self (name : Name) (value : Value) :
    ∀ entries : List (Name × Value), (place name value entries).lookup name = some value
  | [] => by simp [place]
  | (other, old) :: rest => by
    unfold place
    split
    · simp
    · split
      · rename_i after
        have differ : (name == other) = false := by
          rw [beq_eq_false_iff_ne]
          rintro rfl
          simp [Name.before_irrefl] at after
        simp only [List.lookup_cons, differ, lookup_place_self name value rest]
      · simp

private theorem lookup_place_of_ne {name other : Name} (value : Value)
    (differ : (other == name) = false) :
    ∀ entries : List (Name × Value),
      (place name value entries).lookup other = entries.lookup other
  | [] => by simp [place, List.lookup_cons, differ]
  | (third, old) :: rest => by
    unfold place
    split
    · simp only [List.lookup_cons, differ]
    · split
      · simp only [List.lookup_cons, lookup_place_of_ne value differ rest]
      · rename_i notBefore notAfter
        have same : name = third := Name.eq_of_not_before (by simpa using notBefore)
          (by simpa using notAfter)
        simp only [List.lookup_cons, ← same, differ]

@[simp] theorem get?_insert_self (name : Name) (value : Value) (params : Params) :
    (params.insert name value).get? name = some value :=
  lookup_place_self name value params.entries

@[simp] theorem get?_insert_of_ne {name other : Name} (value : Value) (params : Params)
    (h : other ≠ name) : (params.insert name value).get? other = params.get? other :=
  lookup_place_of_ne value (beq_eq_false_iff_ne.2 h) params.entries

end Params

end PathTemplate
