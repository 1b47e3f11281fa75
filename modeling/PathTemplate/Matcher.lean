/-
Matching: from a path to parameters.

A matcher finds a match of a route and makes a parameter of each group that took part. The
capture of a repeated key holds all its occurrences, with the text after one and the text
before the next between them; `pieces` takes it apart there.
-/

import PathTemplate.Params
import PathTemplate.Route.Input

namespace PathTemplate

/-- The pieces of a text between the occurrences of a separator, found from left to right
without overlap. The first `covered` characters belong to the separator found last. -/
def pieces (separator : List Char) (covered : Nat) : List Char → List (List Char)
  | [] => [[]]
  | c :: rest =>
    match covered with
    | covered + 1 => pieces separator covered rest
    | 0 =>
      if separator.isPrefixOf (c :: rest) then [] :: pieces separator (separator.length - 1) rest
      else
        match pieces separator 0 rest with
        | [] => [[c]]
        | piece :: others => (c :: piece) :: others

/-- What stands between two occurrences of a key. -/
def Key.separator (key : Key) : String := key.trail ++ key.lead

/-- The occurrences of a repeated key in what it captured. -/
def Key.occurrences (key : Key) (captured : String) : List String :=
  if key.separator = "" then [captured]
  else (pieces key.separator.toList 0 captured.toList).map String.ofList

/-- The value of a key that captured a text. -/
def Key.value (decode : String → Key → String) (key : Key) (captured : String) : Value :=
  if key.modifier.isRepeating then
    .repeated ((key.occurrences captured).map fun text => decode text key)
  else .single (decode captured key)

/-- What a path was matched to. -/
structure PathMatch where
  /-- The matched text. -/
  path : String
  /-- The number of bytes before it. -/
  index : Nat
  params : Params
deriving DecidableEq, Repr

/-- Matches paths. -/
structure Matcher where
  expression : Expression
  /-- The first key belongs to group 1, and so on. -/
  keys : List Key
  decode : String → Key → String
deriving Inhabited

namespace Matcher

/-- The matcher of a route, with the decoder of the options. -/
def ofRoute (options : Options) (route : Route) : Matcher :=
  { expression := route.expression, keys := route.keys, decode := options.decodeValue }

/-- The matcher of an input. -/
def ofInput (options : Options) (input : RouteInput) : Except BuildError Matcher :=
  (Route.ofInput options input).map (ofRoute options)

/-- The parameters of the groups from `number` on, which belong to these keys. -/
def bindings (decode : String → Key → String) (group? : Nat → Option String) :
    (number : Nat) → List Key → List (Name × Value)
  | _, [] => []
  | number, key :: keys =>
    ((group? number).map fun captured => (key.name, key.value decode captured)).toList ++
      bindings decode group? (number + 1) keys

/-- The first match in a text, if there is one. -/
def run (matcher : Matcher) (text : String) : Option PathMatch :=
  (matcher.expression.captures? text).map fun captures =>
    { path := captures.whole
      index := captures.skipped.foldl (fun size c => size + c.utf8Size) 0
      params := .ofList (bindings matcher.decode captures.group? 1 matcher.keys) }

end Matcher

end PathTemplate
