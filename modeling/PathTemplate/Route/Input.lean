/-
What routes are made of: patterns, expressions, other routes, and lists of all these.

The route of a list has the expressions of its members as alternatives, the first one first,
and their keys one after the other.
-/

import PathTemplate.Route.GroupScan
import PathTemplate.Token.Assembly

namespace PathTemplate

/-- What a route can be made of. -/
inductive RouteInput where
  | pattern (text : String)
  /-- An expression that was written elsewhere. -/
  | expression (expression : Expression)
  | route (route : Route)
  | list (members : List RouteInput)
deriving Inhabited

namespace Route

/-- The route of a pattern. -/
def ofPattern (options : Options) (pattern : String) : Except BuildError Route := do
  let tokens ← (tokensOf options pattern).mapError .parse
  ofTokens options tokens

/-- The expression with the given ones as alternatives. Each is a group of its own, so that
flags in one mean nothing to the next. -/
def alternatives (sources : List String) : String :=
  "(?:" ++ String.intercalate "|" (sources.map fun source => "(?:" ++ source ++ ")") ++ ")"

/-- The route that matches where one of the members does. -/
def ofMembers (options : Options) (members : List Route) : Except BuildError Route :=
  compile options.sensitive (alternatives (members.map Route.source)) (members.flatMap Route.keys)

mutual

/-- The route of an input, under options known to be sound. -/
def ofInputChecked (options : Options) : RouteInput → Except BuildError Route
  | .pattern text => ofPattern options text
  | .expression expression => .ok (ofExpression expression)
  | .route route => .ok route
  | .list members => do ofMembers options (← ofInputsChecked options members)

/-- The routes of several inputs, or the first error. -/
def ofInputsChecked (options : Options) : List RouteInput → Except BuildError (List Route)
  | [] => .ok []
  | input :: rest => do
    let route ← ofInputChecked options input
    return route :: (← ofInputsChecked options rest)

end

/-- The route of an input. -/
def ofInput (options : Options) (input : RouteInput) : Except BuildError Route := do
  options.check.mapError .options
  ofInputChecked options input

end Route

end PathTemplate
