/-
Texts as parts of expressions.

`escape` writes a text so that an expression matches exactly that text; `escapeInClass` does
so for the inside of a bracket class, and `characterClass` writes the class of the characters
of a text. `pinShorthands` narrows the shorthands `\d` and `\w` of a custom pattern to ASCII.
-/

namespace PathTemplate

/-- The characters that may have a meaning of their own in an expression. -/
def syntaxCharacters : List Char :=
  ['.', '+', '*', '?', '=', '^', '!', ':', '$', '{', '}', '(', ')', '[', ']', '|', '/', '\\']

/-- The characters that have a meaning of their own only between brackets. -/
def classSyntaxCharacters : List Char := ['-', '&', '~']

/-- Put a backslash before each character that `special` holds of. -/
def escapeWhere (special : Char → Bool) (text : List Char) : List Char :=
  text.flatMap fun c => if special c then ['\\', c] else [c]

/-- An expression for exactly this text. -/
def escape (text : String) : String :=
  String.ofList (escapeWhere syntaxCharacters.contains text.toList)

/-- The characters of the text as members of a bracket class. -/
def escapeInClass (text : String) : String :=
  String.ofList
    (escapeWhere (fun c => syntaxCharacters.contains c || classSyntaxCharacters.contains c)
      text.toList)

/-- The bracket class of the characters of a text; there is none without characters. -/
def characterClass? (text : String) : Option String :=
  if text = "" then none else some ("[" ++ escapeInClass text ++ "]")

/-- The expression for the values of a key that has no custom pattern: one or more characters
that do not separate segments, as few as possible. -/
def defaultPattern (delimiter : String) : String :=
  "[^" ++ escapeInClass delimiter ++ "]+?"

/-- What stands for a backslash and `c` once shorthands are pinned; `inClass` says that the last
bracket opened a class. -/
def pinEscape (inClass : Bool) (c : Char) : List Char :=
  match c, inClass with
  | 'd', false => ['[', '0', '-', '9', ']']
  | 'D', false => ['[', '^', '0', '-', '9', ']']
  | 'w', false => ['[', '0', '-', '9', 'A', '-', 'Z', 'a', '-', 'z', '_', ']']
  | 'W', false => ['[', '^', '0', '-', '9', 'A', '-', 'Z', 'a', '-', 'z', '_', ']']
  | 'd', true => ['0', '-', '9']
  | 'w', true => ['0', '-', '9', 'A', '-', 'Z', 'a', '-', 'z', '_']
  | c, _ => ['\\', c]

/-- `pinShorthands` over characters. -/
def pinFrom (inClass : Bool) : List Char → List Char
  | [] => []
  | '\\' :: c :: rest => pinEscape inClass c ++ pinFrom inClass rest
  | c :: rest =>
    let inClass := if c = '[' then true else if c = ']' then false else inClass
    c :: pinFrom inClass rest

/-- The pattern with the shorthands for digits and word characters, and outside brackets their
complements, written out as ASCII classes. -/
def pinShorthands (pattern : String) : String :=
  String.ofList (pinFrom false pattern.toList)

/-- The pattern holds a backslash, so that `pinShorthands` may have something to do. -/
def hasEscape (pattern : String) : Bool := pattern.toList.contains '\\'

end PathTemplate
