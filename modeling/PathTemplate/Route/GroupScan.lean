/-
The capture groups of an expression, found in its source text.

The scan passes over escapes and bracket classes and stops at each opening parenthesis. A
parenthesis before `?<name>` or `?P<name>` opens a named group, one before any other question
mark opens none, and all others open an unnamed group.
-/

import PathTemplate.Route

namespace PathTemplate

namespace Route

/-- The first character of the name of a scanned group. -/
def isScanNameStart (c : Char) : Bool := c.isAlpha || c == '_'

/-- A later character of the name of a scanned group. -/
def isScanNameContinue (c : Char) : Bool := c.isAlphanum || c == '_'

/-- The number of characters after `[` up to the bracket that closes the class; none if no
bracket closes it. An escape covers any character but a line feed. -/
def classLength? : List Char → Option Nat
  | [] => none
  | ']' :: _ => some 1
  | '\\' :: c :: rest => if c = '\n' then none else (classLength? rest).map (· + 2)
  | '\\' :: [] => none
  | _ :: rest => (classLength? rest).map (· + 1)

/-- The name that `<name>` at the beginning gives. -/
def scannedName? : List Char → Option (List Char)
  | '<' :: c :: rest =>
    if isScanNameStart c && (rest.dropWhile isScanNameContinue).head? = some '>' then
      some (c :: rest.takeWhile isScanNameContinue)
    else none
  | _ => none

/-- What an opening parenthesis before these characters opens, and how many of them belong to
the opening. -/
def scanOpening : List Char → Option Name × Nat
  | '?' :: rest =>
    let afterLetter := if rest.head? = some 'P' then rest.tail else rest
    match scannedName? afterLetter with
    | some name =>
      (some (.explicit (String.ofList name)), 1 + (rest.length - afterLetter.length) + name.length + 2)
    | none => (none, 1)
  | _ => (none, 0)

/-- The names of the groups that a text opens, from the ordinal `next` on; the first `covered`
characters belong to what was read before. -/
def scanFrom (next covered : Nat) : List Char → List Name
  | [] => []
  | c :: rest =>
    match covered with
    | covered + 1 => scanFrom next covered rest
    | 0 =>
      match c with
      | '\\' => if rest.head? = some '\n' then scanFrom next 0 rest else scanFrom next 1 rest
      | '[' => scanFrom next ((classLength? rest).getD 0) rest
      | '(' =>
        match scanOpening rest with
        | (some name, length) => name :: scanFrom next length rest
        | (none, 0) => .ordinal next :: scanFrom (next + 1) 0 rest
        | (none, length) => scanFrom next length rest
      | _ => scanFrom next 0 rest

/-- The names of the capture groups of an expression. -/
def scanGroups (source : String) : List Name := scanFrom 0 0 source.toList

/-- Keys with these names and nothing else. -/
def bareKeys (names : List Name) : List Key := names.map fun name => { name, pattern := "" }

/-- The route of an expression that was written elsewhere. -/
def ofExpression (expression : Expression) : Route :=
  { expression, source := expression.source, keys := bareKeys (scanGroups expression.source) }

end Route

end PathTemplate
