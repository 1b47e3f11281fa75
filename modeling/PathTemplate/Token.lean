/-
Tokens: what a path pattern consists of.

A pattern is a list of tokens: literal texts, and keys that stand for the parameters. A key
has a custom or default expression for its values and texts written before and after each
value. A key with an empty expression is a decoration: its texts may be optional or
repeated, and nothing is captured.
-/

import PathTemplate.Name
import PathTemplate.Modifier

namespace PathTemplate

/-- A parameter of a pattern. `lead` is written before each value and `trail` after it;
`pattern` is the source text of an expression, empty for a decoration. -/
structure Key where
  name : Name
  lead : String := ""
  trail : String := ""
  pattern : String
  modifier : Modifier := .once
deriving DecidableEq, Repr, Inhabited

/-- The key captures a value. -/
def Key.isCapturing (key : Key) : Bool := key.pattern ≠ ""

/-- A literal text or a key. -/
inductive Token where
  | literal (text : String)
  | key (key : Key)
deriving DecidableEq, Repr, Inhabited

namespace Token

/-- The key of a token that is one. -/
def key? : Token → Option Key
  | .key k => some k
  | .literal _ => none

end Token

/-- The keys among the tokens, in order. -/
def keysOf (tokens : List Token) : List Key := tokens.filterMap Token.key?

/-- The keys that capture a value, in order. -/
def capturingKeys (tokens : List Token) : List Key := (keysOf tokens).filter Key.isCapturing

end PathTemplate
