/-
Parameters in a hash table.

A table finds a name by what the name feeds to the hasher and by comparing it with the names that
fed the same. It is searched with an owned name or with a borrowed one, and both are hashed and
compared by functions of their own. The table is a parameter: `TableLibrary` has what parameters use
of it, and `TableLibrary.step` is what they do with it.
-/

import PathTemplate.Params

namespace PathTemplate

/-- A name whose text is borrowed. -/
inductive NameRef where
  | explicit (text : String)
  | ordinal (index : Nat)
deriving DecidableEq, Repr

/-- A piece of what is fed to a hasher. -/
inductive HashPiece where
  | byte (value : Nat)
  | text (value : String)
  | word (value : Nat)
deriving DecidableEq, Repr

/-- A byte for the form of the name, and then its text or its index. -/
def NameRef.hashed : NameRef → List HashPiece
  | .explicit text => [.byte 0, .text text]
  | .ordinal index => [.byte 1, .word index]

/-- The name, borrowed. -/
def Name.borrowed : Name → NameRef
  | .explicit text => .explicit text
  | .ordinal index => .ordinal index

/-- A name is hashed as the borrowed one, so that both are found in the same place. -/
def Name.hashed (name : Name) : List HashPiece := name.borrowed.hashed

/-- The borrowed name is that of `name`. -/
def NameRef.isEquivalent (ref : NameRef) (name : Name) : Bool := ref = name.borrowed

/-- What a table is searched with. -/
structure Probe where
  /-- What it feeds to the hasher. -/
  hashed : List HashPiece
  /-- It takes the name in the table for its own. -/
  isEquivalent : Name → Bool

/-- A table is searched with the name itself. -/
def Name.probe (name : Name) : Probe := { hashed := name.hashed, isEquivalent := (name = ·) }

/-- A table is searched with the borrowed name. -/
def NameRef.probe (ref : NameRef) : Probe := { hashed := ref.hashed, isEquivalent := ref.isEquivalent }

/-- Hash tables of values by names. -/
structure TableLibrary (Table : Type) where
  empty : Table
  /-- An empty table with room for so many bindings. -/
  withCapacity : Nat → Table
  /-- The table with a value for a name, and the value that it replaces. -/
  insert : Name → Value → Table → Table × Option Value
  get? : Probe → Table → Option Value
  size : Table → Nat
  /-- The bindings as an iteration lists them. -/
  entries : Table → List (Name × Value)
  isEqual : Table → Table → Bool

/-- A change of parameters. -/
inductive ParamsStep where
  /-- A value for a name; the caller gets the value that it replaces. -/
  | insert (name : Name) (value : Value)
  /-- A value for a name; the caller gets the parameters. -/
  | with_ (name : Name) (value : Value)
  /-- New parameters from a list of bindings. -/
  | collect (bindings : List (Name × Value))
deriving Repr

/-- The parameters after a step. -/
def Params.apply (params : Params) : ParamsStep → Params
  | .insert name value | .with_ name value => params.insert name value
  | .collect bindings => .ofList bindings

namespace TableLibrary

variable {Table : Type} (library : TableLibrary Table)

/-- The value of an explicit name. -/
def getText? (text : String) (table : Table) : Option Value :=
  library.get? (NameRef.explicit text).probe table

/-- The value of an ordinal name. -/
def getOrdinal? (index : Nat) (table : Table) : Option Value :=
  library.get? (NameRef.ordinal index).probe table

/-- The value of a name. -/
def getName? (name : Name) (table : Table) : Option Value := library.get? name.probe table

/-- The explicit name has a value. -/
def contains (text : String) (table : Table) : Bool := (library.getText? text table).isSome

/-- The table with a value for a name. -/
def with_ (name : Name) (value : Value) (table : Table) : Table :=
  (library.insert name value table).1

/-- The table of a list of bindings, inserted one after the other. -/
def collect (bindings : List (Name × Value)) : Table :=
  bindings.foldl (fun table binding => library.with_ binding.1 binding.2 table) library.empty

/-- The table after a step. -/
def step (table : Table) : ParamsStep → Table
  | .insert name value => (library.insert name value table).1
  | .with_ name value => library.with_ name value table
  | .collect bindings => library.collect bindings

/-- The table after some steps. -/
def run (table : Table) (steps : List ParamsStep) : Table := steps.foldl library.step table

/-- The parameters that a table holds. -/
def params (table : Table) : Params := .ofList (library.entries table)

end TableLibrary

end PathTemplate
