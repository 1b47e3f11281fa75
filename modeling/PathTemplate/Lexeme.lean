/-
Lexemes of a path pattern.

A pattern such as `/users/:id(\d+)?` divides into lexemes: single characters, escaped
characters, names, custom patterns in parentheses, and the signs `{ } * + ?`. Each lexeme
knows at which character of the pattern it begins. `Lexeme.written` is the text that a lexeme
stands for, so that the lexemes of a pattern, written one after the other, give it back.
-/

namespace PathTemplate

namespace Lexeme

/-- What a lexeme is. -/
inductive Kind where
  /-- The sign `{`. -/
  | opening
  /-- The sign `}`. -/
  | closing
  /-- A custom pattern; its value is the text between the parentheses. -/
  | pattern
  /-- A parameter name; its value does not include the colon. -/
  | name
  /-- Any other character. -/
  | plain
  /-- A character after a backslash; its value does not include the backslash. -/
  | escaped
  /-- One of the signs `+` and `?`. -/
  | modifier
  /-- The sign `*`. -/
  | asterisk
  /-- A character at which no lexeme can begin. -/
  | invalid
  /-- The end of the pattern. -/
  | finish
deriving DecidableEq, Repr, Inhabited

/-- The kind as error messages name it. -/
def Kind.label : Kind → String
  | .opening => "OPEN"
  | .closing => "CLOSE"
  | .pattern => "PATTERN"
  | .name => "NAME"
  | .plain => "CHAR"
  | .escaped => "ESCAPED_CHAR"
  | .modifier => "MODIFIER"
  | .asterisk => "ASTERISK"
  | .invalid => "INVALID_CHAR"
  | .finish => "END"

/-- Different kinds have different labels. -/
theorem Kind.label_inj {a b : Kind} : a.label = b.label ↔ a = b := by
  cases a <;> cases b <;> decide

end Lexeme

/-- A lexeme: its kind, the number of characters before it, and its value. -/
structure Lexeme where
  kind : Lexeme.Kind
  index : Nat
  value : String
deriving DecidableEq, Repr, Inhabited

namespace Lexeme

/-- The text that a lexeme of this kind and value stands for. -/
def Kind.spell (value : List Char) : Kind → List Char
  | .name => ':' :: value
  | .pattern => '(' :: value ++ [')']
  | .escaped => '\\' :: value
  | .finish => []
  | _ => value

/-- The text that the lexeme stands for. -/
def written (lexeme : Lexeme) : List Char := lexeme.kind.spell lexeme.value.toList

/-- Why no lexeme can be read at some place. -/
inductive Fault where
  /-- A colon without a name. -/
  | missingName (index : Nat)
  /-- A custom pattern may not begin with a question mark, which stands at `index`. -/
  | questionMarkFirst (index : Nat)
  /-- Custom patterns are ASCII. -/
  | nonAscii (character : Char) (index : Nat)
  /-- A group inside a custom pattern has to begin with `(?`. -/
  | capturingGroup (index : Nat)
  /-- A custom pattern without its closing parenthesis. -/
  | unbalancedPattern (index : Nat)
  /-- A custom pattern with nothing in it. -/
  | missingPattern (index : Nat)
  /-- A backslash with nothing after it. -/
  | unfinishedEscape (index : Nat)
deriving DecidableEq, Repr

namespace Fault

/-- The character to which the fault points. -/
def index : Fault → Nat
  | .missingName index => index
  | .questionMarkFirst index => index
  | .nonAscii _ index => index
  | .capturingGroup index => index
  | .unbalancedPattern index => index
  | .missingPattern index => index
  | .unfinishedEscape index => index

/-- What the fault says to the author of the pattern. -/
def message : Fault → String
  | .missingName index => s!"Missing parameter name at {index}"
  | .questionMarkFirst index => s!"Pattern cannot start with \"?\" at {index}"
  | .nonAscii character index => s!"Invalid character '{character}' at {index}"
  | .capturingGroup index => s!"Capturing groups are not allowed at {index}"
  | .unbalancedPattern index => s!"Unbalanced pattern at {index}"
  | .missingPattern index => s!"Missing pattern at {index}"
  | .unfinishedEscape index => s!"Unexpected end of input after escape at {index}"

end Fault

end Lexeme

end PathTemplate
