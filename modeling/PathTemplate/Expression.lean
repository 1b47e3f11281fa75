/-
Compiled expressions.

`Expression.compile?` reads the source text of an expression, or refuses it. A compiled
expression keeps its source; `isMatch` says whether it matches somewhere in a text, and
`captures?` finds the first match with what its groups captured.
-/

import PathTemplate.Expression.Match
import PathTemplate.Expression.Reader
import PathTemplate.Expression.Settle

namespace PathTemplate

/-- An expression that was accepted. -/
structure Expression where
  source : String
  expr : Expr
deriving DecidableEq, Repr, Inhabited

/-- A match: where it begins, and the texts of the whole match and of the groups. -/
structure Captures where
  /-- The text before the match. -/
  skipped : List Char
  /-- The matched text. -/
  whole : String
  /-- The text that a group captured, if it took part. -/
  group? : Nat → Option String

namespace Expression

/-- The expression that a text describes. -/
def expr? (source : List Char) : Option Expr := do
  let reader ← (← ({} : Reader).read source).finish
  let size := source.foldl (fun size c => size + c.utf8Size) 0
  if reader.referred.all (· < size / 2) then reader.level.expr.settled? else none

/-- The expression with this source text, if it is one. -/
def compile? (source : String) : Option Expression :=
  (expr? source.toList).map fun expr => { source, expr }

/-- The expression matches somewhere in the text. -/
def isMatch (expression : Expression) (text : String) : Bool :=
  (expression.expr.search? text.toList).isSome

/-- The first match in the text. -/
def captures? (expression : Expression) (text : String) : Option Captures :=
  (expression.expr.search? text.toList).map fun (start, stop) =>
    { skipped := start.before.reverse
      whole := String.ofList (start.after.take (stop.position - start.position))
      group? := fun number => (stop.capture? number).map fun c => String.ofList c.text }

end Expression

end PathTemplate
