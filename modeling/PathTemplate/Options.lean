/-
Options: how patterns are read, matched and rendered.
-/

import PathTemplate.Token

namespace PathTemplate

/-- The choices that a pattern is read, matched and rendered by. -/
structure Options where
  /-- The characters that separate segments; no default value contains one. -/
  delimiter : String := "/#?"
  /-- The characters that belong to a parameter they directly precede. -/
  prefixes : String := "./"
  /-- Letter case matters. -/
  sensitive : Bool := false
  /-- No delimiter is tolerated after the path. -/
  strict : Bool := false
  /-- A match begins at the beginning of the text. -/
  fromStart : Bool := true
  /-- A match ends at the end of the text. -/
  toEnd : Bool := true
  /-- Further characters that count as the end of the text. -/
  endsWith : String := ""
  /-- Rendered values have to match the expressions of their keys. -/
  validate : Bool := true
  /-- Applied to the texts of a pattern as it is read. -/
  encodePart : String → String := id
  /-- Applied to the texts of tokens as they become an expression. -/
  encodeLiteral : String → String := id
  /-- Applied to each value that is rendered. -/
  encodeValue : String → Key → String := fun value _ => value
  /-- Applied to each value that is captured. -/
  decodeValue : String → Key → String := fun value _ => value
deriving Inhabited

/-- What can be wrong with options. -/
inductive OptionsError where
  | emptyDelimiter
deriving DecidableEq, Repr

def OptionsError.message : OptionsError → String
  | .emptyDelimiter => "delimiter must contain at least one character"

/-- Options are sound if they name a delimiter. -/
def Options.check (options : Options) : Except OptionsError Unit :=
  if options.delimiter = "" then .error .emptyDelimiter else .ok ()

theorem Options.check_eq_ok_iff {options : Options} :
    options.check = .ok () ↔ options.delimiter ≠ "" := by
  unfold check
  split <;> simp_all

/-- The choices that someone makes; all others are left as they are. -/
structure OptionsChange where
  delimiter : Option String := none
  prefixes : Option String := none
  sensitive : Option Bool := none
  strict : Option Bool := none
  fromStart : Option Bool := none
  toEnd : Option Bool := none
  endsWith : Option String := none
  validate : Option Bool := none
  encodePart : Option (String → String) := none
  encodeLiteral : Option (String → String) := none
  encodeValue : Option (String → Key → String) := none
  decodeValue : Option (String → Key → String) := none
deriving Inhabited

/-- The options with the choices of the change in place of theirs. -/
def OptionsChange.apply (change : OptionsChange) (options : Options) : Options where
  delimiter := change.delimiter.getD options.delimiter
  prefixes := change.prefixes.getD options.prefixes
  sensitive := change.sensitive.getD options.sensitive
  strict := change.strict.getD options.strict
  fromStart := change.fromStart.getD options.fromStart
  toEnd := change.toEnd.getD options.toEnd
  endsWith := change.endsWith.getD options.endsWith
  validate := change.validate.getD options.validate
  encodePart := change.encodePart.getD options.encodePart
  encodeLiteral := change.encodeLiteral.getD options.encodeLiteral
  encodeValue := change.encodeValue.getD options.encodeValue
  decodeValue := change.decodeValue.getD options.decodeValue

end PathTemplate
