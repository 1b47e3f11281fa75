/-
The interchange form of tokens, names and values.

`Data` is a tree of texts, numbers, lists and named fields. Each type has `toData` and an
`ofData?` that reads it back; names, values and tokens are told apart by their shape alone.
-/

import PathTemplate.Params
import PathTemplate.Token

namespace PathTemplate

/-- A tree of data. -/
inductive Data where
  | null
  | bool (value : Bool)
  | natural (value : Nat)
  /-- A number that is no natural number. -/
  | number
  | text (value : String)
  | list (elements : List Data)
  | fields (entries : List (String × Data))
deriving Repr, Inhabited

namespace Data

/-- The value of a field, if exactly one field has this name. -/
def field? (entries : List (String × Data)) (name : String) : Option Data :=
  match entries.filter (·.1 = name) with
  | [entry] => some entry.2
  | _ => none

/-- The texts of a list of texts. -/
def texts? : List Data → Option (List String)
  | [] => some []
  | .text value :: rest => (texts? rest).map (value :: ·)
  | _ :: _ => none

/-- The text of a tree that is one. -/
def text? : Data → Option String
  | .text value => some value
  | _ => none

end Data

/-- Ordinals are less than this. -/
def ordinalLimit : Nat := Nat.pow 2 64

namespace Name

/-- A natural number or a text. -/
def toData : Name → Data
  | .ordinal index => .natural index
  | .explicit text => .text text

def ofData? : Data → Option Name
  | .natural index => if index < ordinalLimit then some (.ordinal index) else none
  | .text value => some (.explicit value)
  | _ => none

end Name

namespace Modifier

/-- The symbol. -/
def toData (modifier : Modifier) : Data := .text modifier.symbol

/-- The symbol, or the symbol as the only field, with nothing in it. -/
def ofData? : Data → Option Modifier
  | .text value => ofSymbol? value
  | .fields [(symbol, .null)] => ofSymbol? symbol
  | _ => none

end Modifier

namespace Key

/-- The five fields by name. -/
def toData (key : Key) : Data :=
  .fields
    [("name", key.name.toData), ("prefix", .text key.lead), ("suffix", .text key.trail),
      ("pattern", .text key.pattern), ("modifier", key.modifier.toData)]

/-- A key from its five fields. -/
def ofFields? (name lead trail pattern modifier : Data) : Option Key := do
  return {
    name := ← Name.ofData? name
    lead := ← lead.text?
    trail := ← trail.text?
    pattern := ← pattern.text?
    modifier := ← Modifier.ofData? modifier }

/-- The five fields by name, among others that mean nothing, or a list of the five. -/
def ofData? : Data → Option Key
  | .fields entries => do
    ofFields? (← Data.field? entries "name") (← Data.field? entries "prefix")
      (← Data.field? entries "suffix") (← Data.field? entries "pattern")
      (← Data.field? entries "modifier")
  | .list [name, lead, trail, pattern, modifier] => ofFields? name lead trail pattern modifier
  | _ => none

end Key

namespace Token

/-- A text for a literal, fields for a key. -/
def toData : Token → Data
  | .literal text => .text text
  | .key k => k.toData

def ofData? : Data → Option Token
  | .text value => some (.literal value)
  | data => (Key.ofData? data).map .key

end Token

/-- The list of the tokens. -/
def tokensToData (tokens : List Token) : Data := .list (tokens.map Token.toData)

/-- The tokens of a list, if each element is one. -/
def tokensOfData? : Data → Option (List Token)
  | .list elements => elements.mapM Token.ofData?
  | _ => none

namespace Value

/-- A text, or a list of texts. -/
def toData : Value → Data
  | .single text => .text text
  | .repeated texts => .list (texts.map .text)

def ofData? : Data → Option Value
  | .text value => some (.single value)
  | .list elements => (Data.texts? elements).map .repeated
  | _ => none

end Value

namespace Params

/-- The list of the bindings, each as a list of name and value. -/
def toData (params : Params) : Data :=
  .list (params.entries.map fun (name, value) => .list [name.toData, value.toData])

end Params

end PathTemplate
