/-
Items: the grammar of path patterns.

The lexemes of a pattern divide into items: a character, an escaped character, a key such as
`:name(pattern)?` or `*`, and a group such as `{text:name(pattern)text}+`. What stands at the
heart of a key or a group is its core. A key and a group are followed by their modifier, which
is taken whenever the next lexeme can be read as one.

`Item.next` reads one item. `items` reads all of them and says why it stopped, unless it
stopped at the end of the pattern.
-/

import PathTemplate.Lexeme
import PathTemplate.Modifier
import PathTemplate.Name

namespace PathTemplate

/-- Why a text is no path pattern. -/
inductive ParseError where
  /-- The text does not divide into lexemes. -/
  | lexeme (fault : Lexeme.Fault)
  /-- Another lexeme than the one found at `index` has to stand there. -/
  | unexpected (found : Lexeme.Kind) (index : Nat) (expected : Lexeme.Kind)
  /-- The name at `index` was given to a parameter before. -/
  | duplicateName (name : Name) (index : Nat)
deriving DecidableEq, Repr

/-- What the error says to the author of the pattern. -/
def ParseError.message : ParseError → String
  | .lexeme fault => fault.message
  | .unexpected found index expected =>
    s!"Unexpected {found.label} at {index}, expected {expected.label}"
  | .duplicateName name index => s!"Duplicate name '{name.shown}' at {index}"

/-- The expression that a bare asterisk stands for. -/
def wildcardPattern : String := ".*"

/-- What a key or a group captures; `index` is the place of the core in the pattern. -/
inductive Core where
  | named (name : String) (index : Nat) (pattern : Option String)
  | unnamed (pattern : String) (index : Nat)
deriving DecidableEq, Repr

/-- A part of a pattern. -/
inductive Item where
  /-- A character that stands for itself. -/
  | plain (text : String)
  /-- A character after a backslash. -/
  | escaped (text : String)
  /-- A parameter outside braces. -/
  | key (core : Core) (modifier : Modifier)
  /-- Braces around a text, a core that may be missing, and a text after the core. -/
  | group (lead : String) (core : Option Core) (trail : String) (modifier : Modifier)
deriving DecidableEq, Repr

namespace Item

/-- The modifier at the beginning, and the lexemes after it. -/
def leadingModifier : List Lexeme → Modifier × List Lexeme
  | [] => (.once, [])
  | lexeme :: rest =>
    match lexeme.kind with
    | .modifier | .asterisk => ((Modifier.ofSymbol? lexeme.value).getD .once, rest)
    | _ => (.once, lexeme :: rest)

/-- The core at the beginning, and the lexemes after it. -/
def leadingCore? : List Lexeme → Option (Core × List Lexeme)
  | ⟨.name, index, name⟩ :: ⟨.pattern, _, pattern⟩ :: rest =>
    some (.named name index (some pattern), rest)
  | ⟨.name, index, name⟩ :: rest => some (.named name index none, rest)
  | ⟨.pattern, index, pattern⟩ :: rest => some (.unnamed pattern index, rest)
  | ⟨.asterisk, index, _⟩ :: rest => some (.unnamed wildcardPattern index, rest)
  | _ => none

/-- The lexeme is a character, escaped or not. -/
def isText (lexeme : Lexeme) : Bool := lexeme.kind = .plain || lexeme.kind = .escaped

/-- The characters at the beginning, as one text, and the lexemes after them. -/
def leadingText (lexemes : List Lexeme) : String × List Lexeme :=
  (String.join ((lexemes.takeWhile isText).map Lexeme.value), lexemes.dropWhile isText)

/-- The next lexeme is not of the expected kind. -/
def unexpected (lexemes : List Lexeme) (expected : Lexeme.Kind) : ParseError :=
  match lexemes with
  | lexeme :: _ => .unexpected lexeme.kind lexeme.index expected
  | [] => .unexpected .finish 0 expected

/-- The group whose opening brace was read, and the lexemes after it. -/
def groupBody (lexemes : List Lexeme) : Except ParseError (Item × List Lexeme) :=
  let (lead, afterLead) := leadingText lexemes
  let (core, afterCore) :=
    match leadingCore? afterLead with
    | some (core, rest) => (some core, rest)
    | none => (none, afterLead)
  let (trail, afterTrail) := leadingText afterCore
  match afterTrail with
  | ⟨.closing, _, _⟩ :: rest =>
    let (modifier, rest) := leadingModifier rest
    .ok (.group lead core trail modifier, rest)
  | _ => .error (unexpected afterTrail .closing)

/-- The first item and the lexemes after it, or nothing at the end of the pattern. -/
def next (lexemes : List Lexeme) : Except ParseError (Option (Item × List Lexeme)) :=
  match leadingCore? lexemes with
  | some (core, rest) =>
    let (modifier, rest) := leadingModifier rest
    .ok (some (.key core modifier, rest))
  | none =>
    match lexemes with
    | ⟨.plain, _, text⟩ :: rest => .ok (some (.plain text, rest))
    | ⟨.escaped, _, text⟩ :: rest => .ok (some (.escaped text, rest))
    | ⟨.opening, _, _⟩ :: rest => (groupBody rest).map some
    | ⟨.finish, _, _⟩ :: _ => .ok none
    | _ => .error (unexpected lexemes .finish)

/-- At most `bound` items, and the error at which reading stopped. -/
def upTo : (bound : Nat) → List Lexeme → List Item × Option ParseError
  | 0, lexemes => ([], some (unexpected lexemes .finish))
  | bound + 1, lexemes =>
    match next lexemes with
    | .error error => ([], some error)
    | .ok none => ([], none)
    | .ok (some (item, rest)) =>
      let (items, stop) := upTo bound rest
      (item :: items, stop)

end Item

/-- The items of a pattern up to the first place where none can be read, and the error there.
Every item covers at least one lexeme, so that their number is a bound. -/
def items (lexemes : List Lexeme) : List Item × Option ParseError :=
  Item.upTo (lexemes.length + 1) lexemes

end PathTemplate
