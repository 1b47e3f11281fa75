/-
Text codecs: ready-made functions for the encoders and decoders of options.
-/

import PathTemplate.Escape
import PathTemplate.Options

namespace PathTemplate

namespace Codec

/-- Apply a function to the characters of a text. -/
def onCharacters (f : List Char → List Char) (text : String) : String :=
  String.ofList (f text.toList)

/-- ASCII letters become capital. -/
def upper : String → String := onCharacters (List.map Char.toUpper)

/-- ASCII letters become small. -/
def lower : String → String := onCharacters (List.map Char.toLower)

/-- The text between angle brackets. -/
def wrap (text : String) : String := "<" ++ text ++ ">"

/-- The text twice. -/
def double (text : String) : String := text ++ text

/-- The characters in opposite order. -/
def reverse : String → String := onCharacters List.reverse

/-- Every space becomes `%20`. -/
def space : String → String :=
  onCharacters fun text => text.flatMap fun c => if c = ' ' then ['%', '2', '0'] else [c]

/-- `%20` becomes a space, read from left to right. -/
def unspaceCharacters : List Char → List Char
  | '%' :: '2' :: '0' :: rest => ' ' :: unspaceCharacters rest
  | c :: rest => c :: unspaceCharacters rest
  | [] => []

/-- Every `%20` becomes a space. -/
def unspace : String → String := onCharacters unspaceCharacters

/-- Letters, digits and the signs `-._~`, which a percent encoding leaves alone. -/
def isUnreserved (c : Char) : Bool :=
  c.isAlphanum || c == '-' || c == '.' || c == '_' || c == '~'

/-- A byte as a percent sign and two capital hexadecimal digits. -/
def percentByte (byte : UInt8) : List Char :=
  let digit (value : Nat) : Char := (Nat.digitChar value).toUpper
  ['%', digit (byte.toNat / 16), digit (byte.toNat % 16)]

/-- Every byte of a character that is not unreserved becomes a percent sign and its value. -/
def percent : String → String :=
  onCharacters fun text => text.flatMap fun c =>
    if isUnreserved c then [c] else (String.utf8EncodeChar c).flatMap percentByte

/-- The key to which a value belongs, before the value. -/
def withKey (text : String) (key : Key) : String :=
  String.intercalate "|" [key.lead, key.name.shown, key.trail, key.pattern, key.modifier.symbol] ++
    "=" ++ text

/-- Capital letters for the values of the key `q`. -/
def upperForQ (text : String) (key : Key) : String :=
  if key.name = .explicit "q" then upper text else text

/-- The codec for texts with this name; texts stay as they are if there is none. -/
def named : String → String → String
  | "upper" => upper
  | "lower" => lower
  | "wrap" => wrap
  | "double" => double
  | "reverse" => reverse
  | "empty" => fun _ => ""
  | "escape" => escape
  | "space" => space
  | "unspace" => unspace
  | "percent" => percent
  | _ => id

/-- The codec for values with this name. -/
def namedForValues : String → String → Key → String
  | "key" => withKey
  | "q_only" => upperForQ
  | name => fun text _ => named name text

end Codec

end PathTemplate
