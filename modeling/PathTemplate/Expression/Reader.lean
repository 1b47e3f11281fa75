/-
Reading expressions, one character at a time.

`Reader.step` is one step of a machine with a stack: its frames are the groups that are open,
its mode says what has been read of a construct that is not finished. Because every step reads
one character and looks at nothing else, reading a text is reading its parts one after the
other (`Reader.read_append`).

The dialect: alternatives, sequences, `? * + {n} {n,} {n,m} {,m}` with a further `?` or `+`,
groups that capture or not, named groups, flags, looking ahead and behind, atomic groups,
references back to groups, escapes, bracket classes, and comments. Conditional groups, the
escape `\K` and Unicode properties by name are refused.
-/

import PathTemplate.Expression.Basic
import PathTemplate.Expression.Bracket
import PathTemplate.Number.Digits

namespace PathTemplate

/-- The flags that change how an expression is read. -/
structure Flags where
  /-- `i`: letter case does not matter. -/
  fold : Bool := false
  /-- `m`: `^` and `$` match at every line. -/
  lines : Bool := false
  /-- `s`: the dot matches a line feed too. -/
  dotAll : Bool := false
  /-- `U`: loops are lazy, and greedy with a question mark. -/
  swapGreed : Bool := false
  /-- `x`: blanks and comments between the parts mean nothing. -/
  spaced : Bool := false
deriving DecidableEq, Repr, Inhabited

namespace Flags

/-- The flags with one of them set or cleared; nothing if no flag has this letter. -/
def update? (flags : Flags) (on : Bool) : Char → Option Flags
  | 'i' => some { flags with fold := on }
  | 'm' => some { flags with lines := on }
  | 's' => some { flags with dotAll := on }
  | 'U' => some { flags with swapGreed := on }
  | 'x' => some { flags with spaced := on }
  | 'u' => if on then some flags else none
  | _ => none

end Flags

/-- The branches of a group that were read so far. -/
structure Level where
  /-- The branches before the last `|`. -/
  earlier : Option Expr := none
  /-- The branch that is being read. -/
  branch : Expr := .empty
deriving DecidableEq, Repr, Inhabited

namespace Level

/-- What the branches say together. -/
def expr (level : Level) : Expr :=
  match level.earlier with
  | some earlier => .alt earlier level.branch
  | none => level.branch

/-- The branch goes on with `expr`. -/
def push (expr : Expr) (level : Level) : Level :=
  { level with branch := level.branch.append expr }

/-- A further branch begins. -/
def split (level : Level) : Level := { earlier := some level.expr, branch := .empty }

end Level

/-- What a parenthesis opened. -/
inductive Opener where
  /-- A group that captures nothing; these flags hold again after it. -/
  | plain (restored : Flags)
  | capture (number : Nat)
  | ahead (negated : Bool)
  | behind (negated : Bool)
  | atomic
deriving DecidableEq, Repr

/-- The group as an expression. -/
def Opener.wrap : Opener → Expr → Expr
  | .plain _, inner => inner
  | .capture number, inner => .group number inner
  | .ahead negated, inner => .ahead negated inner
  | .behind negated, inner => .behind negated inner
  | .atomic, inner => .atomic inner

/-- A group that is open, and the level around it. -/
structure Frame where
  opener : Opener
  around : Level
deriving DecidableEq, Repr

/-- The part read last, to which the next characters may belong. -/
inductive Pending where
  | nothing
  /-- A quantifier may follow. -/
  | atom (expr : Expr)
  /-- A quantifier was read: a question mark or a plus sign may follow. -/
  | counted (least : Nat) (most : Option Nat) (expr : Expr)
  /-- A quantifier and a question mark were read: a plus sign may follow. -/
  | reluctant (expr : Expr)
deriving DecidableEq, Repr

/-- The construct that is being read. -/
inductive Mode where
  /-- None: a part was read, and perhaps its quantifier. -/
  | ready (pending : Pending)
  /-- After an atom, a brace and these characters, the last one first. -/
  | brace (atom : Expr) (text : List Char)
  /-- After a backslash, in a class if there is one. -/
  | escape (cls : Option ClassReader)
  /-- A decimal reference. -/
  | reference (number : Nat)
  /-- After `\k`. -/
  | referenceOpen
  /-- The name of a reference that ends with `close`; the last character first. -/
  | referenceName (close : Char) (text : List Char)
  /-- After `\x`, `\u` or `\U`. -/
  | hexOpen (cls : Option ClassReader) (digits : Nat)
  /-- This many hexadecimal digits are still to be read. -/
  | hex (cls : Option ClassReader) (digits : Nat) (value : Nat)
  /-- Hexadecimal digits in braces. -/
  | hexBrace (cls : Option ClassReader) (digits : Nat) (value : Nat)
  /-- A bracket class. -/
  | bracket (cls : ClassReader)
  /-- After a parenthesis and these characters, the last one first. -/
  | opener (pending : Pending) (text : List Char)
  /-- The name of a group, the last character first. -/
  | groupName (text : List Char)
  /-- Flags; `off` after a dash, `dash` directly after it, `begun` after any character. -/
  | flags (flags : Flags) (off dash begun : Bool)
  /-- A comment in parentheses. -/
  | comment (pending : Pending) (escaped : Bool)
  /-- A comment up to the end of the line. -/
  | lineComment (pending : Pending)
deriving DecidableEq, Repr

/-- The reader of an expression. -/
structure Reader where
  mode : Mode := .ready .nothing
  level : Level := {}
  /-- The open groups, innermost first. -/
  frames : List Frame := []
  flags : Flags := {}
  /-- The number of capture groups that were opened. -/
  opened : Nat := 0
  /-- The named groups, the last one first. -/
  names : List (List Char × Nat) := []
  /-- The greatest number that a decimal reference has, if there is one. -/
  referred : Option Nat := none
deriving DecidableEq, Repr, Inhabited

/-- Letters, digits and the underscore: the characters of group names. -/
def isGroupNameCharacter (c : Char) : Bool :=
  if c.toNat < 0x80 then c.isAlphanum || c == '_' else isWordCharacter c

/-- The value of a hexadecimal digit. -/
def hexValue? (c : Char) : Option Nat :=
  if c.isDigit then some (digitValue c)
  else if 'a' ≤ c && c ≤ 'f' then some (c.toNat - 'a'.toNat + 10)
  else if 'A' ≤ c && c ≤ 'F' then some (c.toNat - 'A'.toNat + 10)
  else none

/-- The number that decimal digits write, if it fits 64 bits. -/
def count? (digits : List Char) : Option Nat := (natural? digits).filter (· < Nat.pow 2 64)

/-- The character with this code point. -/
def scalar? (code : Nat) : Option Char :=
  if code.isValidChar then some (Char.ofNat code) else none

/-- Blanks that mean nothing where the flag `x` holds. -/
def isSpacing (c : Char) : Bool := c == ' ' || c == '\r' || c == '\n' || c == '\t'

/-- The text without blanks at its beginning and its end. -/
def trimSpacing (text : List Char) : List Char :=
  ((text.dropWhile isSpacing).reverse.dropWhile isSpacing).reverse

/-- The least and greatest number of passes that stand between braces. -/
def passes? (text : List Char) : Option (Nat × Option Nat) :=
  let least := trimSpacing (text.takeWhile (· ≠ ','))
  match text.dropWhile (· ≠ ',') with
  | [] => (count? least).map fun n => (n, some n)
  | _ :: most =>
    let least := if least.isEmpty then some 0 else count? least
    match least, trimSpacing most with
    | some least, [] => some (least, none)
    | some least, most => (count? most).map fun most => (least, some most)
    | none, _ => none

/-- The groups that may be open inside one another. -/
def nestingLimit : Nat := 63

namespace Reader

/-- The reader in another mode. -/
def enter (mode : Mode) (reader : Reader) : Reader := { reader with mode }

/-- The loop that was read, greedy unless the flags or a question mark say otherwise. -/
def loop (reader : Reader) (least : Nat) (most : Option Nat) (reluctant : Bool) (expr : Expr) :
    Expr :=
  .loop least most (reader.flags.swapGreed == reluctant) .refused expr

/-- The part that a pending one becomes when nothing more belongs to it. -/
def part (reader : Reader) : Pending → Expr
  | .nothing => .empty
  | .atom expr => expr
  | .counted least most expr => reader.loop least most false expr
  | .reluctant expr => expr

/-- The pending part becomes part of the branch. -/
def flush (pending : Pending) (reader : Reader) : Reader :=
  { reader with
    level := reader.level.push (reader.part pending)
    mode := .ready .nothing }

/-- An atom was read after the pending part. -/
def atom (pending : Pending) (expr : Expr) (reader : Reader) : Reader :=
  (reader.flush pending).enter (.ready (.atom expr))

/-- A character that stands for itself. -/
def literal (c : Char) (reader : Reader) : Reader :=
  reader.atom .nothing (.character reader.flags.fold c)

/-- The atom and `{text` turned out to be characters that stand for themselves. -/
def spellBrace (atom : Expr) (text : List Char) (reader : Reader) : Reader :=
  let text := if reader.flags.spaced then text.filter (!isSpacing ·) else text
  ('{' :: text.reverse).foldl
    (fun reader c =>
      match reader.mode with
      | .ready pending => reader.atom pending (.character reader.flags.fold c)
      | _ => reader)
    (reader.enter (.ready (.atom atom)))

/-- The pending part was quantified. -/
def quantify (pending : Pending) (least : Nat) (most : Option Nat) (reader : Reader) :
    Option Reader :=
  match pending with
  | .atom expr =>
    if expr.isRepeatable then some (reader.enter (.ready (.counted least most expr))) else none
  | _ => none

/-- A group was opened; what was pending is finished. -/
def openGroup (opener : Opener) (reader : Reader) : Option Reader :=
  if reader.frames.length < nestingLimit then
    some
      { reader with
        frames := ⟨opener, reader.level⟩ :: reader.frames
        level := {}
        mode := .ready .nothing }
  else none

/-- A group that captures was opened. -/
def openCapture (reader : Reader) : Option Reader :=
  let number := reader.opened + 1
  { reader with opened := number }.openGroup (.capture number)

/-- Named groups do not go together with decimal references, unless the level has several
branches. -/
def levelAllowed (reader : Reader) : Bool :=
  reader.level.earlier.isSome || reader.referred.isNone || reader.names.isEmpty

/-- A parenthesis closed the innermost group. -/
def closeGroup (reader : Reader) : Option Reader :=
  match reader.frames with
  | [] => none
  | frame :: frames =>
    if reader.levelAllowed then
      some
        { reader with
          frames
          level := frame.around
          flags :=
            match frame.opener with
            | .plain restored => restored
            | _ => reader.flags
          mode := .ready (.atom (frame.opener.wrap reader.level.expr)) }
    else none

/-- The group with this number is open. -/
def isOpen (number : Nat) (reader : Reader) : Bool :=
  number = 0 || reader.frames.any fun frame => frame.opener = .capture number

/-- A reference back to a group, which has to be one that was opened before. From inside the
group nothing was captured yet. -/
def refer (number : Nat) (reader : Reader) : Option Reader :=
  if number ≤ reader.opened then
    some (reader.atom .nothing (if reader.isOpen number then .never else .back number))
  else none

/-- A decimal reference was read. -/
def referDecimal (number : Nat) (reader : Reader) : Option Reader :=
  { reader with referred := some (max number (reader.referred.getD 0)) }.refer number

/-- A reference by name was read; the last character comes first. -/
def referNamed (text : List Char) (reader : Reader) : Option Reader :=
  let name := text.reverse
  match reader.names.lookup name with
  | some number => reader.refer number
  | none =>
    match count? name with
    | some number => reader.refer number
    | none => none

/-- A symbol of a class was read. -/
def classSymbol (cls : ClassReader) (symbol : ClassSymbol) (reader : Reader) : Option Reader :=
  match cls.step symbol with
  | none => none
  | some (.more cls) => some (reader.enter (.bracket cls))
  | some (.done set) => some (reader.atom .nothing (.one set))

/-- An escape gave a character, which stands for itself. -/
def escaped (cls : Option ClassReader) (fold : Bool) (c : Char) (reader : Reader) :
    Option Reader :=
  match cls with
  | none => some (reader.atom .nothing (.character fold c))
  | some cls => reader.classSymbol cls (.quoted c)

/-- A shorthand was read. -/
def shorthand (cls : Option ClassReader) (set : CharSet) (reader : Reader) : Option Reader :=
  match cls with
  | none => some (reader.atom .nothing (.one set))
  | some cls => reader.classSymbol cls (.shorthand set)

/-- The set that `\h` and its complement stand for was read. -/
def hexShorthand (cls : Option ClassReader) (set : CharSet) (reader : Reader) : Option Reader :=
  match cls with
  | none => some (reader.atom .nothing (.one set))
  | some cls => reader.classSymbol cls (.nested set)

/-- The character after a backslash. -/
def stepEscape (cls : Option ClassReader) (c : Char) (reader : Reader) : Option Reader :=
  let edge (kind : Edge) : Option Reader :=
    match cls with
    | none => some (reader.atom .nothing (.edge kind))
    | some cls => reader.classSymbol cls (.quoted c)
  if c.isDigit then
    if cls.isSome then none else some (reader.enter (.reference (digitValue c)))
  else
    match c with
    | 'k' => if cls.isSome then reader.escaped cls false c else some (reader.enter .referenceOpen)
    | 'A' => edge .textStart
    | 'z' => edge .textEnd
    | 'B' => edge .noWordBoundary
    | 'b' => if cls.isSome then reader.escaped cls false '\x08' else edge .wordBoundary
    | 'd' => reader.shorthand cls .digit
    | 'D' => reader.shorthand cls (.compl .digit)
    | 's' => reader.shorthand cls .blank
    | 'S' => reader.shorthand cls (.compl .blank)
    | 'w' => reader.shorthand cls .word
    | 'W' => reader.shorthand cls (.compl .word)
    | 'h' => reader.hexShorthand cls .hexDigit
    | 'H' => reader.hexShorthand cls (.compl .hexDigit)
    | 'x' => some (reader.enter (.hexOpen cls 2))
    | 'u' => some (reader.enter (.hexOpen cls 4))
    | 'U' => some (reader.enter (.hexOpen cls 8))
    | 'a' => reader.escaped cls false '\x07'
    | 'f' => reader.escaped cls false '\x0C'
    | 'n' => reader.escaped cls false '\n'
    | 'r' => reader.escaped cls false '\r'
    | 't' => reader.escaped cls false '\t'
    | 'v' => reader.escaped cls false '\x0B'
    | 'e' => reader.escaped cls false '\x1B'
    | 'G' =>
      if cls.isSome then reader.escaped cls false c
      else some (reader.atom .nothing (.atomic (.edge .textStart)))
    | 'K' => if cls.isSome then reader.escaped cls false c else none
    | c => if c.isAlpha then none else reader.escaped cls false c

/-- A character where none of the longer constructs is being read. -/
def stepReady (pending : Pending) (c : Char) (reader : Reader) : Option Reader :=
  let flags := reader.flags
  let base := reader.flush pending
  let quantifier (least : Nat) (most : Option Nat) : Option Reader :=
    reader.quantify pending least most
  if flags.spaced && isSpacing c then
    match pending with
    | .reluctant _ => some base
    | _ => some reader
  else
    match c with
    | '?' =>
      match pending with
      | .counted least most expr =>
        some (reader.enter (.ready (.reluctant (reader.loop least most true expr))))
      | _ => quantifier 0 (some 1)
    | '*' => quantifier 0 none
    | '+' =>
      match pending with
      | .counted least most expr =>
        some (reader.flush (.atom (.atomic (reader.loop least most false expr))))
      | .reluctant expr => some (reader.flush (.atom (.atomic expr)))
      | _ => quantifier 1 none
    | '{' =>
      match pending with
      | .atom expr => some (reader.enter (.brace expr []))
      | _ => some (base.literal c)
    | '.' => some (base.atom .nothing (.one (if flags.dotAll then .all else .compl (.single '\n'))))
    | '^' => some (base.atom .nothing (.edge (if flags.lines then .lineStart else .textStart)))
    | '$' => some (base.atom .nothing (.edge (if flags.lines then .lineEnd else .textEnd)))
    | '[' => some (base.enter (.bracket { fold := flags.fold }))
    | '\\' => some (base.enter (.escape none))
    | '(' => some (reader.enter (.opener pending []))
    | ')' => base.closeGroup
    | '|' => some { base with level := base.level.split }
    | '#' =>
      if flags.spaced then
        match pending with
        | .reluctant _ => some (base.enter (.lineComment .nothing))
        | _ => some (reader.enter (.lineComment pending))
      else some (base.literal c)
    | c => some (base.literal c)

/-- A character of a list of flags. -/
def stepFlags (flags : Flags) (off dash begun : Bool) (c : Char) (reader : Reader) :
    Option Reader :=
  if flags.spaced && isSpacing c then some (reader.enter (.flags flags off false true))
  else if c = '-' then
    if off then none else some (reader.enter (.flags flags true true true))
  else if c = ')' then
    if dash || !begun then none
    else if reader.frames.length < nestingLimit then
      some { reader with flags, mode := .ready (.atom .empty) }
    else none
  else if c = ':' then
    if dash then none
    else { reader with flags }.openGroup (.plain reader.flags)
  else
    match flags.update? (!off) c with
    | some flags => some (reader.enter (.flags flags off false true))
    | none => none

/-- A character after a parenthesis and `text`, whose last character comes first. -/
def stepOpener (pending : Pending) (text : List Char) (c : Char) (reader : Reader) :
    Option Reader :=
  let base := reader.flush pending
  match text with
  | [] =>
    if c = '?' then some (reader.enter (.opener pending ['?']))
    else if reader.flags.spaced && isSpacing c then some reader
    else
      match base.openCapture with
      | some reader => reader.stepReady .nothing c
      | none => none
  | ['?'] =>
    match c with
    | '#' =>
      some <| match pending with
        | .reluctant _ => base.enter (.comment .nothing false)
        | _ => reader.enter (.comment pending false)
    | '=' => base.openGroup (.ahead false)
    | '!' => base.openGroup (.ahead true)
    | '>' => base.openGroup .atomic
    | '<' => some (base.enter (.opener .nothing ['<', '?']))
    | 'P' => some (base.enter (.opener .nothing ['P', '?']))
    | '(' => none
    | c => base.stepFlags base.flags false false false c
  | ['<', '?'] =>
    match c with
    | '=' => base.openGroup (.behind false)
    | '!' => base.openGroup (.behind true)
    | c => if isGroupNameCharacter c then some (base.enter (.groupName [c])) else none
  | ['P', '?'] =>
    match c with
    | '<' => some (base.enter (.groupName []))
    | '=' => some (base.enter (.referenceName ')' []))
    | _ => none
  | _ => none

/-- A character of the name of a group. -/
def stepGroupName (text : List Char) (c : Char) (reader : Reader) : Option Reader :=
  if isGroupNameCharacter c then some (reader.enter (.groupName (c :: text)))
  else if c = '>' && !text.isEmpty then
    { reader with names := (text.reverse, reader.opened + 1) :: reader.names }.openCapture
  else none

/-- A character after `{`. -/
def stepBrace (atom : Expr) (text : List Char) (c : Char) (reader : Reader) : Option Reader :=
  if c.isDigit || c = ',' || (reader.flags.spaced && isSpacing c) then
    some (reader.enter (.brace atom (c :: text)))
  else
    let spelled : Option Reader :=
      let reader := reader.spellBrace atom text
      match reader.mode with
      | .ready pending => reader.stepReady pending c
      | _ => none
    if c = '}' then
      match passes? text.reverse with
      | some (least, most) => reader.quantify (.atom atom) least most
      | none => spelled
    else spelled

/-- The hexadecimal number of a character was read. -/
def hexDone (cls : Option ClassReader) (value : Nat) (reader : Reader) : Option Reader :=
  match scalar? value with
  | some c => reader.escaped cls reader.flags.fold c
  | none => none

/-- A character after `\x`, `\u` or `\U`. -/
def stepHexOpen (cls : Option ClassReader) (digits : Nat) (c : Char) (reader : Reader) :
    Option Reader :=
  if c = '{' then some (reader.enter (.hexBrace cls 0 0))
  else
    match hexValue? c with
    | some value => some (reader.enter (.hex cls (digits - 1) value))
    | none => none

/-- A further hexadecimal digit. -/
def stepHex (cls : Option ClassReader) (digits value : Nat) (c : Char) (reader : Reader) :
    Option Reader :=
  match hexValue? c with
  | some digit =>
    let value := value * 16 + digit
    if digits ≤ 1 then reader.hexDone cls value else some (reader.enter (.hex cls (digits - 1) value))
  | none => none

/-- A further hexadecimal digit in braces, or the brace after them. -/
def stepHexBrace (cls : Option ClassReader) (digits value : Nat) (c : Char) (reader : Reader) :
    Option Reader :=
  if c = '}' && 0 < digits then reader.hexDone cls value
  else
    match hexValue? c with
    | some digit =>
      if digits < 8 then some (reader.enter (.hexBrace cls (digits + 1) (value * 16 + digit)))
      else none
    | none => none

/-- A character of a reference by name. -/
def stepReferenceName (close : Char) (text : List Char) (c : Char) (reader : Reader) :
    Option Reader :=
  if isGroupNameCharacter c then some (reader.enter (.referenceName close (c :: text)))
  else if c = close && !text.isEmpty then reader.referNamed text
  else none

/-- The reader after one more character; nothing if the text cannot go on so. -/
def step (reader : Reader) (c : Char) : Option Reader :=
  match reader.mode with
  | .ready pending => reader.stepReady pending c
  | .brace atom text => reader.stepBrace atom text c
  | .escape cls => reader.stepEscape cls c
  | .reference number =>
    if c.isDigit then some (reader.enter (.reference (number * 10 + digitValue c)))
    else
      match reader.referDecimal number with
      | some reader =>
        match reader.mode with
        | .ready pending => reader.stepReady pending c
        | _ => none
      | none => none
  | .referenceOpen =>
    match c with
    | '<' => some (reader.enter (.referenceName '>' []))
    | '\'' => some (reader.enter (.referenceName '\'' []))
    | _ => none
  | .referenceName close text => reader.stepReferenceName close text c
  | .hexOpen cls digits => reader.stepHexOpen cls digits c
  | .hex cls digits value => reader.stepHex cls digits value c
  | .hexBrace cls digits value => reader.stepHexBrace cls digits value c
  | .bracket cls =>
    if c = '\\' then some (reader.enter (.escape (some cls)))
    else reader.classSymbol cls (.plain c)
  | .opener pending text => reader.stepOpener pending text c
  | .groupName text => reader.stepGroupName text c
  | .flags flags off dash begun => reader.stepFlags flags off dash begun c
  | .comment pending escaped =>
    if escaped then some (reader.enter (.comment pending false))
    else if c = '\\' then some (reader.enter (.comment pending true))
    else if c = ')' then some (reader.enter (.ready pending))
    else some reader
  | .lineComment pending =>
    if c = '\n' then some (reader.enter (.ready pending)) else some reader

/-- The reader after a text. -/
def read (reader : Reader) (text : List Char) : Option Reader := text.foldlM step reader

/-- Reading a text is reading its parts one after the other. -/
theorem read_append (reader : Reader) (a b : List Char) :
    reader.read (a ++ b) = (reader.read a).bind fun reader => reader.read b := by
  simp [read, List.foldlM_append]

/-- The reader at the end of the text, if the text may end there. -/
def finish (reader : Reader) : Option Reader :=
  let ended :=
    match reader.mode with
    | .ready pending | .lineComment pending => some (reader.flush pending)
    | .brace atom text =>
      let reader := reader.spellBrace atom text
      match reader.mode with
      | .ready pending => some (reader.flush pending)
      | _ => none
    | .reference number =>
      match reader.referDecimal number with
      | some reader =>
        match reader.mode with
        | .ready pending => some (reader.flush pending)
        | _ => none
      | none => none
    | _ => none
  match ended with
  | some reader => if reader.frames.isEmpty && reader.levelAllowed then some reader else none
  | none => none

end Reader

end PathTemplate
