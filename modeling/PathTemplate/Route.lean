/-
Routes: the expression that matches the paths of a pattern.

`Route.sourceOf` writes the expression of a token list: every literal as itself, every key as
a capture group with the texts around it, and a tail that says where a path may end.
`Route.ofTokens` compiles it. The keys of a route describe its capture groups in order.
-/

import PathTemplate.Escape
import PathTemplate.Expression
import PathTemplate.Item
import PathTemplate.Options

namespace PathTemplate

/-- Why no route, matcher or renderer could be made. -/
inductive BuildError where
  | options (error : OptionsError)
  | parse (error : ParseError)
  /-- This text was refused as an expression. -/
  | expression (source : String)
deriving DecidableEq, Repr

/-- An expression and the keys of its capture groups. -/
structure Route where
  expression : Expression
  /-- The expression without the flag for letter case, fit to be part of another one. -/
  source : String
  /-- The first key belongs to group 1, and so on. -/
  keys : List Key
deriving DecidableEq, Repr, Inhabited

namespace Route

/-- A source text with the flag that makes letter case irrelevant, unless it is relevant. -/
def flagged (sensitive : Bool) (source : String) : String :=
  if sensitive then source else "(?i)" ++ source

/-- The expression of a key with the texts around it. -/
def keySource (options : Options) (key : Key) : String :=
  let lead := escape (options.encodeLiteral key.lead)
  let trail := escape (options.encodeLiteral key.trail)
  let modifier := key.modifier.symbol
  let pattern := pinShorthands key.pattern
  if pattern = "" then "(?:" ++ lead ++ trail ++ ")" ++ modifier
  else if lead = "" && trail = "" then
    if key.modifier.isRepeating then "((?:" ++ pattern ++ ")" ++ modifier ++ ")"
    else "(" ++ pattern ++ ")" ++ modifier
  else if key.modifier.isRepeating then
    "(?:" ++ lead ++ "((?:" ++ pattern ++ ")(?:" ++ trail ++ lead ++ "(?:" ++ pattern ++ "))*)" ++
      trail ++ ")" ++ (if key.modifier = .zeroOrMore then "?" else "")
  else "(?:" ++ lead ++ "(" ++ pattern ++ ")" ++ trail ++ ")" ++ modifier

/-- The expression of a token. -/
def tokenSource (options : Options) : Token → String
  | .literal text => escape (options.encodeLiteral text)
  | .key key => keySource options key

/-- The class of the delimiters. -/
def delimiterClass (options : Options) : String := (characterClass? options.delimiter).getD ""

/-- The expression of the places where a text counts as ended. -/
def endSource (options : Options) : String :=
  match characterClass? options.endsWith with
  | some cls => cls ++ "|$"
  | none => "$"

/-- The tokens end with a delimiter, or there are none. -/
def endsDelimited (options : Options) (tokens : List Token) : Bool :=
  match tokens.getLast? with
  | none => true
  | some (.literal text) => text.toList.getLast?.any options.delimiter.toList.contains
  | some (.key _) => false

/-- The tail of an expression whose matches end where the text does. -/
def closedTail (options : Options) : String :=
  (if options.strict then "" else delimiterClass options ++ "?") ++
    if options.endsWith = "" then "$" else "(?=" ++ endSource options ++ ")"

/-- The tail of an expression whose matches may end before any delimiter. -/
def openTail (options : Options) (tokens : List Token) : String :=
  (if options.strict then ""
    else "(?:" ++ delimiterClass options ++ "(?=" ++ endSource options ++ "))?") ++
  if endsDelimited options tokens then ""
  else "(?=" ++ delimiterClass options ++ "|" ++ endSource options ++ ")"

/-- The expression of a token list. -/
def sourceOf (options : Options) (tokens : List Token) : String :=
  (if options.fromStart then "^" else "") ++
    String.join (tokens.map (tokenSource options)) ++
    if options.toEnd then closedTail options else openTail options tokens

/-- The route with this source text and these keys. -/
def compile (sensitive : Bool) (source : String) (keys : List Key) :
    Except BuildError Route :=
  match Expression.compile? (flagged sensitive source) with
  | some expression => .ok { expression, source, keys }
  | none => .error (.expression (flagged sensitive source))

/-- The route of a token list. -/
def ofTokens (options : Options) (tokens : List Token) : Except BuildError Route := do
  options.check.mapError .options
  compile options.sensitive (sourceOf options tokens) (capturingKeys tokens)

/-- The route matches somewhere in the text. -/
def isMatch (route : Route) (text : String) : Bool := route.expression.isMatch text

end Route

end PathTemplate
