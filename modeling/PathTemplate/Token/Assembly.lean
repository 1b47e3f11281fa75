/-
The tokens of a path pattern.

Characters, escaped characters and plain groups join to literal texts; keys and other groups
become keys. Each key claims its name: an explicit name may be claimed once, and unnamed keys
take the ordinals in order. A decoration claims nothing.

`tokensOf` reads a pattern. Where the pattern has several errors, it gives the one at which
reading from left to right stops first.
-/

import PathTemplate.Item
import PathTemplate.Lexeme.Reader
import PathTemplate.Options
import PathTemplate.Escape

namespace PathTemplate

/-- Tokens under construction. -/
structure Assembly where
  /-- The tokens so far, newest first. -/
  tokens : List Token := []
  /-- Text after the last token. -/
  text : String := ""
  /-- The character directly before the next item, not yet part of `text`. -/
  held : String := ""
  /-- The ordinal of the next unnamed key. -/
  ordinal : Nat := 0
  /-- The names that keys have claimed. -/
  names : List Name := []
deriving Repr

namespace Assembly

/-- The held character becomes part of the text. -/
def release (assembly : Assembly) : Assembly :=
  { assembly with text := assembly.text ++ assembly.held, held := "" }

/-- The text, if there is any, becomes a token. -/
def flush (options : Options) (assembly : Assembly) : Assembly :=
  if assembly.text = "" then assembly
  else
    { assembly with
      tokens := .literal (options.encodePart assembly.text) :: assembly.tokens
      text := "" }

/-- Take a name for the key at `index`. -/
def claim (name : Name) (index : Nat) (assembly : Assembly) : Except ParseError Assembly :=
  if assembly.names.contains name then .error (.duplicateName name index)
  else .ok { assembly with names := name :: assembly.names }

/-- Take the name of a core; an unnamed one takes the next ordinal. -/
def claimFor (core : Core) (assembly : Assembly) : Except ParseError (Name × Assembly) :=
  match core with
  | .named name index _ => do
    let assembly ← assembly.claim (.explicit name) index
    pure (.explicit name, assembly)
  | .unnamed _ index => do
    let name := .ordinal assembly.ordinal
    let assembly ← { assembly with ordinal := assembly.ordinal + 1 }.claim name index
    pure (name, assembly)

/-- The expression for the values of a core. -/
def patternFor (options : Options) : Core → String
  | .named _ _ (some pattern) => pattern
  | .named _ _ none => defaultPattern options.delimiter
  | .unnamed pattern _ => pattern

def push (key : Key) (assembly : Assembly) : Assembly :=
  { assembly with tokens := .key key :: assembly.tokens }

/-- The text is one that keys take as their own when it directly precedes them. -/
def isLead (options : Options) (text : String) : Bool :=
  text.toList.all options.prefixes.toList.contains

/-- Add a key outside braces. -/
def addKey (options : Options) (core : Core) (modifier : Modifier) (assembly : Assembly) :
    Except ParseError Assembly := do
  let (lead, assembly) :=
    if isLead options assembly.held then (assembly.held, { assembly with held := "" })
    else ("", assembly.release)
  let (name, assembly) ← (assembly.flush options).claimFor core
  pure <| assembly.push
    { name, lead := options.encodePart lead, pattern := patternFor options core, modifier }

/-- Add a group. Without a core and a modifier it is mere text, and without a core and a text
it is nothing. -/
def addGroup (options : Options) (lead : String) (core : Option Core) (trail : String)
    (modifier : Modifier) (assembly : Assembly) : Except ParseError Assembly :=
  let assembly := assembly.release
  let leadPart := options.encodePart lead
  let trailPart := options.encodePart trail
  match core with
  | some core => do
    let (name, assembly) ← (assembly.flush options).claimFor core
    pure <| assembly.push
      { name, lead := leadPart, trail := trailPart, pattern := patternFor options core, modifier }
  | none =>
    if modifier = .once then .ok { assembly with text := assembly.text ++ lead }
    else if lead = "" then .ok assembly
    else
      .ok <| (assembly.flush options).push
        { name := .explicit "", lead := leadPart, trail := trailPart, pattern := "", modifier }

/-- Add an item. -/
def add (options : Options) (assembly : Assembly) : Item → Except ParseError Assembly
  | .plain text => .ok { assembly.release with held := text }
  | .escaped text =>
    let assembly := assembly.release
    .ok { assembly with text := assembly.text ++ text }
  | .key core modifier => assembly.addKey options core modifier
  | .group lead core trail modifier => assembly.addGroup options lead core trail modifier

/-- The tokens, the last text included. -/
def finish (options : Options) (assembly : Assembly) : List Token :=
  (assembly.release.flush options).tokens.reverse

end Assembly

/-- The tokens of items, or the error with which reading the items stopped. -/
def tokensOfItems (options : Options) (items : List Item) (stop : Option ParseError) :
    Except ParseError (List Token) := do
  let assembly ← items.foldlM (Assembly.add options) {}
  match stop with
  | some error => .error error
  | none => .ok (assembly.finish options)

/-- The tokens of lexemes. -/
def tokensOfLexemes (options : Options) (lexemes : List Lexeme) :
    Except ParseError (List Token) :=
  let (items, stop) := items lexemes
  tokensOfItems options items stop

/-- The tokens of a path pattern. -/
def tokensOf (options : Options) (pattern : String) : Except ParseError (List Token) :=
  match lexemes pattern with
  | .error fault => .error (.lexeme fault)
  | .ok lexemes => tokensOfLexemes options lexemes

end PathTemplate
