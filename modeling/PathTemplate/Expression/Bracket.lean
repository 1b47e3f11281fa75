/-
Reading bracket classes, such as `[a-z\d]`, one symbol at a time.

A class holds characters, ranges, shorthands, named ASCII sets and further classes, and `&&`,
`--` and `~~` combine what stands before them with what follows. Whether a sign has a meaning
depends on what was read before it, and sometimes on the sign after it; `OpenClass.Stage` says
what has been read and not yet decided.
-/

import PathTemplate.Expression.CharSet

namespace PathTemplate

/-- What a bracket class is read from. -/
inductive ClassSymbol where
  /-- A character as it stands. -/
  | plain (c : Char)
  /-- A character that an escape gives; it never has a meaning of its own. -/
  | quoted (c : Char)
  /-- The set of a shorthand. -/
  | shorthand (set : CharSet)
  /-- The set of a class written in place. -/
  | nested (set : CharSet)
deriving DecidableEq, Repr

namespace OpenClass

/-- A member that may yet turn out to begin a range. -/
inductive Member where
  | character (c : Char)
  | shorthand (set : CharSet)
deriving DecidableEq, Repr

/-- The operators on sets. -/
inductive Operator where
  | intersection
  | difference
  | symmetricDifference
deriving DecidableEq, Repr

/-- How far the reading of a class has come. -/
inductive Stage where
  /-- Nothing was read but the bracket, and perhaps the caret after it. -/
  | opened (caret : Bool)
  /-- Only dashes were read. -/
  | dashes
  /-- Nothing is undecided. -/
  | between
  /-- A member was read; a dash may make it the beginning of a range. -/
  | member (first : Member)
  /-- A member and a dash were read. -/
  | dash (first : Member)
  /-- The first half of an operator was read, or a mere character. -/
  | half (sign : Char)
  /-- A bracket was read: a further class, or a named set. -/
  | bracket
  /-- A bracket, a colon and these characters were read, the last one first. -/
  | named (text : List Char)
  /-- A colon was read after that. -/
  | nameEnd (text : List Char)
deriving DecidableEq, Repr

end OpenClass

/-- A class whose closing bracket was not read yet. -/
structure OpenClass where
  negated : Bool := false
  /-- The members since the last operator. -/
  members : CharSet := .none
  /-- The last operator and what it applies to. -/
  left : Option (CharSet × OpenClass.Operator) := none
  stage : OpenClass.Stage := .opened false
deriving DecidableEq, Repr

namespace OpenClass

/-- What the operator makes of two sets. -/
def Operator.apply : Operator → CharSet → CharSet → CharSet
  | .intersection => CharSet.inter
  | .difference => CharSet.diff
  | .symmetricDifference => CharSet.symmDiff

/-- The operator of which a doubled sign consists. -/
def operator? : Char → Option Operator
  | '&' => some .intersection
  | '-' => some .difference
  | '~' => some .symmetricDifference
  | _ => none

/-- The set that a member adds. -/
def Member.set : Member → CharSet
  | .character c => .single c
  | .shorthand set => set

/-- The class with further members. -/
def add (set : CharSet) (cls : OpenClass) : OpenClass :=
  { cls with members := .union cls.members set }

/-- The class at another stage of its reading. -/
def enter (stage : Stage) (cls : OpenClass) : OpenClass := { cls with stage }

/-- The members, and what the last operator makes of them. -/
def operand (fold : Bool) (cls : OpenClass) : CharSet :=
  match cls.left with
  | some (left, operator) => operator.apply (left.foldIf fold) (cls.members.foldIf fold)
  | none => cls.members

/-- The set that the class describes. -/
def set (fold : Bool) (cls : OpenClass) : CharSet :=
  ((cls.operand fold).foldIf fold).complIf cls.negated

/-- What was read so far becomes the left side of an operator. -/
def operate (fold : Bool) (operator : Operator) (cls : OpenClass) : OpenClass :=
  { cls with
    members := .none
    left := some (cls.operand fold, operator)
    stage := .between }

/-- A member that was undecided is one, and the dash after it too; a half operator is a
character that may begin a range. -/
def settle (cls : OpenClass) : OpenClass :=
  match cls.stage with
  | .member first => (cls.add first.set).enter .between
  | .dash first => ((cls.add first.set).add (.single '-')).enter .between
  | .half sign => (cls.add (.single sign)).enter .between
  | _ => cls.enter .between

/-- A class in which these characters were read. -/
def ofCharacters (characters : List Char) : OpenClass :=
  match characters.reverse with
  | [] => {}
  | last :: earlier =>
    { members := earlier.foldr (fun c rest => .union rest (.single c)) .none
      stage := .member (.character last) }

/-- The set of the members from `first` to `last`. -/
def range? (first : Member) (last : Char) : Option CharSet :=
  match first with
  | .character c => if c ≤ last then some (.range c last) else none
  | .shorthand _ => none

/-- The set that `[:text:]` names; the text comes last character first. -/
def named? (fold : Bool) (text : List Char) : Option CharSet :=
  match text.reverse with
  | '^' :: name => (CharSet.named? name).map fun set => .compl (set.foldIf fold)
  | name => CharSet.named? name

end OpenClass

/-- The reader of a bracket class. -/
structure ClassReader where
  /-- Letter case does not matter in the class. -/
  fold : Bool
  /-- The classes around the current one, nearest first. -/
  outer : List OpenClass := []
  current : OpenClass := {}
deriving DecidableEq, Repr

namespace ClassReader

/-- The reader after a symbol, or the set of the class that the symbol closed. -/
inductive Result where
  | more (reader : ClassReader)
  | done (set : CharSet)
deriving Repr

/-- Go on with the current class in another state. -/
def continueWith (reader : ClassReader) (current : OpenClass) : Option Result :=
  some (.more { reader with current })

/-- Close the current class. -/
def close (reader : ClassReader) : Result :=
  let set := reader.current.settle.set reader.fold
  match reader.outer with
  | [] => .done set
  | parent :: outer =>
    .more { reader with outer, current := (parent.add set).enter .between }

/-- Read a symbol where no earlier one is undecided. -/
def readFresh (reader : ClassReader) : ClassSymbol → Option Result
  | .plain ']' => some reader.close
  | .plain '[' => continueWith reader (reader.current.enter .bracket)
  | .plain c =>
    if (OpenClass.operator? c).isSome then continueWith reader (reader.current.enter (.half c))
    else continueWith reader (reader.current.enter (.member (.character c)))
  | .quoted c => continueWith reader (reader.current.enter (.member (.character c)))
  | .shorthand set => continueWith reader (reader.current.enter (.member (.shorthand set)))
  | .nested set => continueWith reader ((reader.current.add set).enter .between)

/-- Read a symbol after a member that may begin a range. -/
def readAfterMember (reader : ClassReader) (first : OpenClass.Member) (symbol : ClassSymbol) :
    Option Result :=
  if symbol = .plain '-' then continueWith reader (reader.current.enter (.dash first))
  else { reader with current := reader.current.settle }.readFresh symbol

/-- Read a symbol after a member and a dash. -/
def readAfterDash (reader : ClassReader) (first : OpenClass.Member) :
    ClassSymbol → Option Result
  | .plain ']' => some reader.close
  | .plain '-' =>
    continueWith reader <|
      ((reader.current.add first.set).enter .between).operate reader.fold .difference
  | .plain '[' => none
  | .plain c | .quoted c =>
    match OpenClass.range? first c with
    | some range => continueWith reader ((reader.current.add range).enter .between)
    | none => none
  | .shorthand _ | .nested _ => none

/-- Read a symbol at the beginning of the current class. -/
def readOpened (reader : ClassReader) (caret : Bool) : ClassSymbol → Option Result
  | .plain '^' =>
    if caret then continueWith reader (reader.current.enter (.member (.character '^')))
    else continueWith reader { reader.current with negated := true, stage := .opened true }
  | .plain '-' => continueWith reader ((reader.current.add (.single '-')).enter .dashes)
  | .plain ']' =>
    if reader.outer.isEmpty then
      continueWith reader ((reader.current.add (.single ']')).enter .between)
    else none
  | symbol => reader.readFresh symbol

/-- Read a symbol inside a class that begins, after its bracket, with these characters. -/
def readInside (reader : ClassReader) (characters : List Char) (symbol : ClassSymbol) :
    Option Result :=
  let parent := reader.current.enter .between
  let inner := OpenClass.ofCharacters characters
  let reader := { reader with outer := parent :: reader.outer, current := inner }
  match inner.stage with
  | .member first => reader.readAfterMember first symbol
  | _ => reader.readOpened false symbol

/-- The reader after one more symbol; nothing if the class is faulty. -/
def step (reader : ClassReader) (symbol : ClassSymbol) : Option Result :=
  match reader.current.stage with
  | .opened caret => reader.readOpened caret symbol
  | .dashes =>
    if symbol = .plain '-' then continueWith reader (reader.current.add (.single '-'))
    else reader.readFresh symbol
  | .between => reader.readFresh symbol
  | .member first => reader.readAfterMember first symbol
  | .dash first => reader.readAfterDash first symbol
  | .half sign =>
    match OpenClass.operator? sign with
    | some operator =>
      if symbol = .plain sign then
        continueWith reader ((reader.current.enter .between).operate reader.fold operator)
      else reader.readAfterMember (.character sign) symbol
    | none => reader.readAfterMember (.character sign) symbol
  | .bracket =>
    if symbol = .plain ':' then continueWith reader (reader.current.enter (.named []))
    else reader.readInside [] symbol
  | .named text =>
    match symbol with
    | .plain c =>
      if c = ':' then continueWith reader (reader.current.enter (.nameEnd text))
      else if c.isAlpha || (c = '^' && text.isEmpty) then
        continueWith reader (reader.current.enter (.named (c :: text)))
      else reader.readInside (':' :: text.reverse) symbol
    | _ => reader.readInside (':' :: text.reverse) symbol
  | .nameEnd text =>
    match symbol, OpenClass.named? reader.fold text with
    | .plain ']', some set => continueWith reader ((reader.current.add set).enter .between)
    | _, _ => reader.readInside (':' :: text.reverse ++ [':']) symbol

end ClassReader

end PathTemplate
