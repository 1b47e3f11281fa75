/-
Dividing a pattern into lexemes.

`Lexeme.first` reads the lexeme that begins with a given character and says how many further
characters it covers. `lexemes` reads a whole pattern and stops at the first fault;
`lenientLexemes` takes the character at which a fault begins for a lexeme of its own and goes
on. Both end with one lexeme of kind `finish`.
-/

import PathTemplate.Lexeme
import PathTemplate.Text.Identifier

namespace PathTemplate

namespace Lexeme

/-- The name at the beginning of a text, empty if there is none. -/
def leadingName : List Char → List Char
  | [] => []
  | c :: rest => if isNameStart c then c :: rest.takeWhile isNameContinue else []

/-- The text of a custom pattern up to the parenthesis that closes it. The pattern was opened
at `start`; the text goes on at `index`, inside `depth` groups of the pattern. -/
def patternBody (start : Nat) : (index depth : Nat) → List Char → Except Fault (List Char)
  | _, _, [] => .error (.unbalancedPattern start)
  | index, depth, c :: rest =>
    if 0x80 ≤ c.toNat then .error (.nonAscii c index)
    else if c = '\\' then
      match rest with
      | [] => .error (.unbalancedPattern start)
      | escaped :: rest =>
        (patternBody start (index + 2) depth rest).map fun body => c :: escaped :: body
    else if c = ')' then
      match depth with
      | 0 => .ok []
      | depth + 1 => (patternBody start (index + 1) depth rest).map (c :: ·)
    else if c = '(' then
      if rest.head? = some '?' then
        (patternBody start (index + 1) (depth + 1) rest).map (c :: ·)
      else .error (.capturingGroup index)
    else (patternBody start (index + 1) depth rest).map (c :: ·)

/-- The custom pattern whose opening parenthesis stands at `index`, before `rest`. -/
def customPattern (index : Nat) (rest : List Char) : Except Fault (List Char) :=
  if rest.head? = some '?' then .error (.questionMarkFirst (index + 1))
  else
    match patternBody index (index + 1) 0 rest with
    | .error fault => .error fault
    | .ok [] => .error (.missingPattern index)
    | .ok body => .ok body

/-- The lexeme that begins with `c` at `index`, before `rest`, and the number of characters
of `rest` that it covers. -/
def first (index : Nat) (c : Char) (rest : List Char) : Except Fault (Lexeme × Nat) :=
  let single (kind : Kind) : Lexeme × Nat := (⟨kind, index, String.singleton c⟩, 0)
  match c with
  | '*' => .ok (single .asterisk)
  | '+' => .ok (single .modifier)
  | '?' => .ok (single .modifier)
  | '{' => .ok (single .opening)
  | '}' => .ok (single .closing)
  | '\\' =>
    match rest with
    | [] => .error (.unfinishedEscape index)
    | escaped :: _ => .ok (⟨.escaped, index, String.singleton escaped⟩, 1)
  | ':' =>
    match leadingName rest with
    | [] => .error (.missingName index)
    | name => .ok (⟨.name, index, String.ofList name⟩, name.length)
  | '(' =>
    match customPattern index rest with
    | .error fault => .error fault
    | .ok body => .ok (⟨.pattern, index, String.ofList body⟩, body.length + 1)
  | _ => .ok (single .plain)

/-- The lexemes of the text that begins at `index`, of which the first `covered` characters
belong to the lexeme before. -/
def strictFrom (index covered : Nat) : List Char → Except Fault (List Lexeme)
  | [] => .ok [⟨.finish, index, ""⟩]
  | c :: rest =>
    match covered with
    | covered + 1 => strictFrom (index + 1) covered rest
    | 0 =>
      match first index c rest with
      | .error fault => .error fault
      | .ok (lexeme, further) => (strictFrom (index + 1) further rest).map (lexeme :: ·)

/-- As `strictFrom`, but a character at which no lexeme can begin is a lexeme of kind
`invalid`. -/
def lenientFrom (index covered : Nat) : List Char → List Lexeme
  | [] => [⟨.finish, index, ""⟩]
  | c :: rest =>
    match covered with
    | covered + 1 => lenientFrom (index + 1) covered rest
    | 0 =>
      match first index c rest with
      | .error _ => ⟨.invalid, index, String.singleton c⟩ :: lenientFrom (index + 1) 0 rest
      | .ok (lexeme, further) => lexeme :: lenientFrom (index + 1) further rest

end Lexeme

/-- The lexemes of a pattern, or the first fault in it. -/
def lexemes (pattern : String) : Except Lexeme.Fault (List Lexeme) :=
  Lexeme.strictFrom 0 0 pattern.toList

/-- The lexemes of a pattern, faulty characters included. -/
def lenientLexemes (pattern : String) : List Lexeme :=
  Lexeme.lenientFrom 0 0 pattern.toList

end PathTemplate
