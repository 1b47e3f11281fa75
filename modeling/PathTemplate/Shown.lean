/-
Options, keys, matchers and renderers as they are shown to a programmer.
-/

import PathTemplate.Matcher
import PathTemplate.Renderer
import PathTemplate.Text.Quoted

namespace PathTemplate

/-- A record: its name, its fields, and whether it has others that are not shown. -/
def shownRecord (name : String) (fields : List (String × String)) (more : Bool) : String :=
  let fields := fields.map fun (field, value) => field ++ ": " ++ value
  let fields := if more then fields ++ [".."] else fields
  name ++ " \x7B " ++ String.intercalate ", " fields ++ " \x7D"

/-- A list in brackets. -/
def shownList (elements : List String) : String :=
  "[" ++ String.intercalate ", " elements ++ "]"

/-- A value inside a constructor. -/
def shownCase (name value : String) : String := name ++ "(" ++ value ++ ")"

/-- A truth value in words. -/
def shownBool (value : Bool) : String := if value then "true" else "false"

/-- The options with their values; the encoders and the decoder are not shown. -/
def Options.shown (options : Options) : String :=
  shownRecord "PathOptions"
    [("delimiter", quoted options.delimiter),
      ("prefixes", quoted options.prefixes),
      ("sensitive", shownBool options.sensitive),
      ("strict", shownBool options.strict),
      ("start", shownBool options.fromStart),
      ("end", shownBool options.toEnd),
      ("ends_with", quoted options.endsWith),
      ("validate", shownBool options.validate)]
    true

/-- A name with its kind. -/
def Name.shownWithKind : Name → String
  | .ordinal index => shownCase "Ordinal" (toString index)
  | .explicit text => shownCase "Explicit" (quoted text)

/-- A key with all its fields. -/
def Key.shown (key : Key) : String :=
  shownRecord "Key"
    [("name", key.name.shownWithKind),
      ("prefix", quoted key.lead),
      ("suffix", quoted key.trail),
      ("pattern", quoted key.pattern),
      ("modifier", key.modifier.label)]
    false

/-- A token with its kind. -/
def Token.shown : Token → String
  | .literal text => shownCase "Literal" (quoted text)
  | .key k => shownCase "Key" k.shown

/-- A matcher: its expression and its keys. -/
def Matcher.shown (matcher : Matcher) : String :=
  shownRecord "PathMatcher"
    [("regex", quoted matcher.expression.source),
      ("keys", shownList (matcher.keys.map Key.shown))]
    true

/-- A renderer: its tokens and whether it validates. -/
def Renderer.shown (renderer : Renderer) : String :=
  shownRecord "PathRenderer"
    [("tokens", shownList (renderer.tokens.map Token.shown)),
      ("validate", shownBool renderer.validates)]
    true

end PathTemplate
