/-
Rendering: from parameters to a path.

A renderer writes the tokens of a pattern with the values of the parameters in place of the
keys. If it validates, each encoded value has to match the expression of its key in full.
Rendering gives a whole path or the first error, never a part of a path.
-/

import PathTemplate.Params
import PathTemplate.Route.Input

namespace PathTemplate

/-- Why a path cannot be rendered. -/
inductive RenderError where
  /-- Several values were given for a key that occurs at most once. -/
  | unexpectedRepeat (name : Name)
  /-- No value was given for a key that occurs at least once. -/
  | emptyRepeat (name : Name)
  /-- The value does not match the pattern of its key. -/
  | mismatch (name : Name) (pattern value : String)
  /-- One of several values does not match the pattern of their key. -/
  | repeatedMismatch (name : Name) (pattern value : String)
  /-- The name has no value. -/
  | missingValue (name : Name) (repeating : Bool)
deriving DecidableEq, Repr

namespace RenderError

def name : RenderError → Name
  | .unexpectedRepeat name => name
  | .emptyRepeat name => name
  | .mismatch name _ _ => name
  | .repeatedMismatch name _ _ => name
  | .missingValue name _ => name

def message (error : RenderError) : String :=
  let shown := error.name.shown
  match error with
  | .unexpectedRepeat _ => s!"Expected \"{shown}\" to not repeat, but got an array"
  | .emptyRepeat _ => s!"Expected \"{shown}\" to not be empty"
  | .mismatch _ pattern value =>
    s!"Expected \"{shown}\" to match \"{pattern}\", but got \"{value}\""
  | .repeatedMismatch _ pattern value =>
    s!"Expected all \"{shown}\" to match \"{pattern}\", but got \"{value}\""
  | .missingValue _ repeating =>
    let form := if repeating then "an array" else "a string"
    s!"Expected \"{shown}\" to be {form}"

end RenderError

/-- Renders paths from parameters. -/
structure Renderer where
  /-- The tokens, each key with the expression that its values have to match, if any. -/
  parts : List (Token × Option Expression)
  encode : String → Key → String
deriving Inhabited

namespace Renderer

/-- The expression that values of the key match in full. -/
def validatorSource (sensitive : Bool) (key : Key) : String :=
  Route.flagged sensitive ("^(?:" ++ pinShorthands key.pattern ++ ")$")

/-- The validator of a key. -/
def validator (sensitive : Bool) (key : Key) : Except BuildError Expression :=
  match Expression.compile? (validatorSource sensitive key) with
  | some expression => .ok expression
  | none => .error (.expression (validatorSource sensitive key))

/-- A token with its validator: keys have one if values are to be validated. -/
def part (options : Options) : Token → Except BuildError (Token × Option Expression)
  | .literal text => .ok (.literal text, none)
  | .key key =>
    if options.validate then
      (validator options.sensitive key).map fun expression => (.key key, some expression)
    else .ok (.key key, none)

/-- The renderer of a token list. -/
def ofTokens (options : Options) (tokens : List Token) : Except BuildError Renderer := do
  let parts ← tokens.mapM (part options)
  return { parts, encode := options.encodeValue }

/-- The renderer of a pattern. -/
def ofPattern (options : Options) (pattern : String) : Except BuildError Renderer := do
  let tokens ← (tokensOf options pattern).mapError .parse
  ofTokens options tokens

/-- The tokens that the renderer writes. -/
def tokens (renderer : Renderer) : List Token := renderer.parts.map (·.1)

/-- The renderer validates some values. -/
def validates (renderer : Renderer) : Bool := renderer.parts.any (·.2.isSome)

/-- The encoded value matches, if it has to. -/
def passes (validator : Option Expression) (segment : String) : Bool :=
  validator.all (·.isMatch segment)

/-- One occurrence of a key. -/
def segment (key : Key) (encoded : String) : String := key.lead ++ encoded ++ key.trail

/-- The occurrences of a repeated key. -/
def renderRepeated (encode : String → Key → String) (key : Key)
    (validator : Option Expression) : List String → Except RenderError String
  | [] => .ok ""
  | text :: rest =>
    let encoded := encode text key
    if passes validator encoded then
      (renderRepeated encode key validator rest).map (segment key encoded ++ ·)
    else .error (.repeatedMismatch key.name key.pattern encoded)

/-- What stands for a key in the path. -/
def renderKey (encode : String → Key → String) (key : Key) (validator : Option Expression) :
    Option Value → Except RenderError String
  | some (.repeated texts) =>
    if !key.modifier.isRepeating then .error (.unexpectedRepeat key.name)
    else if texts.isEmpty && !key.modifier.isOptional then .error (.emptyRepeat key.name)
    else renderRepeated encode key validator texts
  | some (.single text) =>
    let encoded := encode text key
    if passes validator encoded then .ok (segment key encoded)
    else .error (.mismatch key.name key.pattern encoded)
  | none =>
    if key.modifier.isOptional then .ok ""
    else .error (.missingValue key.name key.modifier.isRepeating)

/-- What stands for a token in the path. -/
def renderPart (encode : String → Key → String) (params : Params) :
    Token × Option Expression → Except RenderError String
  | (.literal text, _) => .ok text
  | (.key key, validator) => renderKey encode key validator (params.get? key.name)

/-- The path for these parameters. -/
def render (renderer : Renderer) (params : Params) : Except RenderError String := do
  let texts ← renderer.parts.mapM (renderPart renderer.encode params)
  return String.join texts

end Renderer

end PathTemplate
