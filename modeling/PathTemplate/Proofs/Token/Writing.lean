/-
Writing patterns, and reading them back.

A `Part` of a pattern is a text, a key or a decoration. `Part.written` writes it in full: keys and
decorations in braces, and a backslash before every character of a text. Written one after the
other, parts are read back as what they are, whatever stands next to what.

* `lexemes_written`: the lexemes of what is written for parts, ...
* `items_written`: ... the items of these lexemes, ...
* `exists_assembly`: ... and the tokens of these items.
* `tokensOf_written`: the tokens of what is written for parts are those of the parts.
-/

import PathTemplate.Proofs.Token.Lexing
import PathTemplate.Proofs.Token.Names

namespace PathTemplate

/-! ### Parts -/

open Lexeme (Sign spelled placed IsRead AreRead StopsName)

/-- A name that can be written after a colon. -/
structure WrittenName where
  text : String
  nonempty : text ≠ ""
  whole : Lexeme.leadingName text.toList = text.toList

/-- A custom pattern that between parentheses is one lexeme. -/
structure WrittenPattern where
  text : String
  alone : ∃ index, lexemes ("(" ++ text ++ ")") = .ok [⟨.pattern, 0, text⟩, ⟨.finish, index, ""⟩]

/-- What is written for the values of a key. -/
inductive Heart where
  | named (name : WrittenName) (pattern : Option WrittenPattern)
  | unnamed (pattern : WrittenPattern)

/-- A part of a pattern: a text, a key between two texts, or a text that may be missing or be
repeated. -/
inductive Part where
  | literal (text : String) (nonempty : text ≠ "")
  | key (lead : String) (heart : Heart) (trail : String) (modifier : Modifier)
  | decoration (text : String) (modifier : Modifier) (nonempty : text ≠ "")
      (notOnce : modifier ≠ .once)

/-- The text with a backslash before every character. -/
def backslashed (text : String) : String := String.ofList (text.toList.flatMap fun c => ['\\', c])

/-- A custom pattern between parentheses. -/
def WrittenPattern.written (pattern : WrittenPattern) : String := "(" ++ pattern.text ++ ")"

def Heart.written : Heart → String
  | .named name none => ":" ++ name.text
  | .named name (some pattern) => ":" ++ name.text ++ pattern.written
  | .unnamed pattern => pattern.written

namespace Part

/-- The part in full. -/
def written : Part → String
  | .literal text _ => backslashed text
  | .key lead heart trail modifier =>
    "\x7b" ++ backslashed lead ++ heart.written ++ backslashed trail ++ "\x7d" ++ modifier.symbol
  | .decoration text modifier _ _ => "\x7b" ++ backslashed text ++ "\x7d" ++ modifier.symbol

def isLiteral : Part → Bool
  | .literal .. => true
  | _ => false

/-- The first part is a literal. -/
def beginsLiteral (parts : List Part) : Bool := parts.head?.any isLiteral

/-- No two literals stand side by side. -/
def areApart : List Part → Bool
  | [] => true
  | part :: parts => !(part.isLiteral && beginsLiteral parts) && areApart parts

/-- The name that the part gives to its key. -/
def name? : Part → Option String
  | .key _ (.named name _) _ _ => some name.text
  | _ => none

/-- The tokens of parts, `ordinal` being that of the next unnamed key. -/
def tokens (options : Options) : (ordinal : Nat) → List Part → List Token
  | _, [] => []
  | ordinal, .literal text _ :: parts => .literal text :: tokens options ordinal parts
  | ordinal, .key lead (.named name pattern) trail modifier :: parts =>
    .key { name := .explicit name.text, lead, trail, modifier,
           pattern := pattern.elim (defaultPattern options.delimiter) WrittenPattern.text } ::
      tokens options ordinal parts
  | ordinal, .key lead (.unnamed pattern) trail modifier :: parts =>
    .key { name := .ordinal ordinal, lead, trail, modifier, pattern := pattern.text } ::
      tokens options (ordinal + 1) parts
  | ordinal, .decoration text modifier _ _ :: parts =>
    .key { name := .explicit "", lead := text, pattern := "", modifier } ::
      tokens options ordinal parts

end Part

/-! ### The lexemes of parts -/

/-- The signs of a text with a backslash before every character. -/
def escapes (text : String) : List Sign := text.toList.map fun c => (.escaped, String.singleton c)

def Heart.signs : Heart → List Sign
  | .named name none => [(.name, name.text)]
  | .named name (some pattern) => [(.name, name.text), (.pattern, pattern.text)]
  | .unnamed pattern => [(.pattern, pattern.text)]

def Modifier.signs : Modifier → List Sign
  | .once => []
  | .zeroOrMore => [(.asterisk, "*")]
  | modifier => [(.modifier, modifier.symbol)]

def Part.signs : Part → List Sign
  | .literal text _ => escapes text
  | .key lead heart trail modifier => (.opening, "\x7b") ::
      (escapes lead ++ (heart.signs ++ (escapes trail ++ ((.closing, "\x7d") :: modifier.signs))))
  | .decoration text modifier _ _ =>
    (.opening, "\x7b") :: (escapes text ++ ((.closing, "\x7d") :: modifier.signs))

section Signs

theorem spelled_escapes (text : String) : spelled (escapes text) = (backslashed text).toList := by
  simp [spelled, escapes, backslashed, Lexeme.Kind.spell, List.flatMap_map]

theorem spelled_modifier (modifier : Modifier) :
    spelled modifier.signs = modifier.symbol.toList := by
  cases modifier <;> rfl

theorem spelled_heart (heart : Heart) : spelled heart.signs = heart.written.toList := by
  cases heart with
  | named name pattern =>
    cases pattern <;>
      simp [Heart.signs, Heart.written, WrittenPattern.written, spelled, Lexeme.Kind.spell]
  | unnamed pattern =>
    simp [Heart.signs, Heart.written, WrittenPattern.written, spelled, Lexeme.Kind.spell]

theorem spelled_part (part : Part) : spelled part.signs = part.written.toList := by
  have opening (signs : List Sign) :
      spelled ((.opening, "\x7b") :: signs) = '{' :: spelled signs := rfl
  have closing (signs : List Sign) :
      spelled ((.closing, "\x7d") :: signs) = '}' :: spelled signs := rfl
  cases part with
  | literal text _ => exact spelled_escapes text
  | key lead heart trail modifier =>
    simp [Part.signs, Part.written, opening, closing, Lexeme.spelled_append, spelled_escapes,
      spelled_heart, spelled_modifier]
  | decoration text modifier _ _ =>
    simp [Part.signs, Part.written, opening, closing, Lexeme.spelled_append, spelled_escapes,
      spelled_modifier]

theorem spelled_parts (parts : List Part) :
    spelled (parts.flatMap Part.signs) = (String.join (parts.map Part.written)).toList := by
  induction parts with
  | nil => rfl
  | cons part parts ih =>
    rw [List.flatMap_cons, Lexeme.spelled_append, spelled_part, ih, List.map_cons, String.join_cons,
      String.toList_append]

theorem areRead_escapes (text : String) (rest : List Char) : AreRead (escapes text) rest := by
  unfold escapes
  induction text.toList with
  | nil => trivial
  | cons c chars ih => exact ⟨Lexeme.isRead_escaped c, ih⟩

theorem areRead_modifier (modifier : Modifier) (rest : List Char) :
    AreRead modifier.signs rest := by
  cases modifier with
  | once => trivial
  | optional => exact ⟨⟨'?', [], rfl, fun _ => rfl⟩, trivial⟩
  | oneOrMore => exact ⟨⟨'+', [], rfl, fun _ => rfl⟩, trivial⟩
  | zeroOrMore => exact ⟨⟨'*', [], rfl, fun _ => rfl⟩, trivial⟩

theorem isRead_pattern (pattern : WrittenPattern) (rest : List Char) :
    IsRead (.pattern, pattern.text) rest := by
  obtain ⟨_, alone⟩ := pattern.alone
  exact Lexeme.isRead_pattern alone

theorem areRead_heart (heart : Heart) {rest : List Char} (stops : StopsName rest) :
    AreRead heart.signs rest := by
  cases heart with
  | named name pattern =>
    cases pattern with
    | none => exact ⟨Lexeme.isRead_name name.nonempty name.whole stops, trivial⟩
    | some pattern =>
      refine ⟨Lexeme.isRead_name name.nonempty name.whole ?_, isRead_pattern pattern rest, trivial⟩
      rintro c ⟨⟩
      decide
  | unnamed pattern => exact ⟨isRead_pattern pattern rest, trivial⟩

theorem areRead_part (part : Part) (rest : List Char) : AreRead part.signs rest := by
  have ending (modifier : Modifier) : AreRead ((.closing, "\x7d") :: modifier.signs) rest :=
    ⟨⟨'}', [], rfl, fun _ => rfl⟩, areRead_modifier modifier rest⟩
  cases part with
  | literal text _ => exact areRead_escapes text rest
  | key lead heart trail modifier =>
    refine ⟨⟨'{', [], rfl, fun _ => rfl⟩, Lexeme.areRead_append (areRead_escapes _ _)
      (Lexeme.areRead_append (areRead_heart heart ?_)
        (Lexeme.areRead_append (areRead_escapes _ _) (ending modifier)))⟩
    rw [Lexeme.spelled_append, spelled_escapes, backslashed, String.toList_ofList]
    -- What follows a name is a backslash or the closing brace.
    cases trail.toList <;> rintro c ⟨⟩ <;> decide
  | decoration text modifier _ _ =>
    exact ⟨⟨'{', [], rfl, fun _ => rfl⟩,
      Lexeme.areRead_append (areRead_escapes _ _) (ending modifier)⟩

theorem areRead_parts (parts : List Part) : AreRead (parts.flatMap Part.signs) [] := by
  induction parts with
  | nil => trivial
  | cons part parts ih => exact Lexeme.areRead_append (areRead_part part _) ih

/-- The lexemes of what is written for parts are those of the parts. -/
theorem lexemes_written (parts : List Part) : lexemes (String.join (parts.map Part.written)) =
    .ok (placed 0 (parts.flatMap Part.signs) ++
      [⟨.finish, (spelled (parts.flatMap Part.signs)).length, ""⟩]) := by
  have read := Lexeme.strictFrom_spelled (areRead_parts parts) 0
  rw [List.append_nil, spelled_parts, Nat.zero_add] at read
  rw [lexemes, read, spelled_parts]
  rfl

end Signs

/-! ### The items of parts -/

/-- The core that is written at `index`. -/
def Heart.core (index : Nat) : Heart → Core
  | .named name pattern => .named name.text index (pattern.map WrittenPattern.text)
  | .unnamed pattern => .unnamed pattern.text index

/-- The items of a part that is written at `index`. -/
def Part.items (index : Nat) : Part → List Item
  | .literal text _ => text.toList.map fun c => .escaped (String.singleton c)
  | .key lead heart trail modifier =>
    [.group lead (some (heart.core (index + (1 + (spelled (escapes lead)).length)))) trail modifier]
  | .decoration text modifier _ _ => [.group text none "" modifier]

/-- The items of parts that are written at `index`, one after the other. -/
def Part.itemsFrom : (index : Nat) → List Part → List Item
  | _, [] => []
  | index, part :: parts =>
    part.items index ++ itemsFrom (index + (spelled part.signs).length) parts

/-- The lexemes begin as those of a part do, or the pattern ends. -/
def BeginsPart (lexemes : List Lexeme) : Prop :=
  ∃ lexeme rest, lexemes = lexeme :: rest ∧
    (lexeme.kind = .escaped ∨ lexeme.kind = .opening ∨ lexeme.kind = .finish)

namespace Item

variable {more : List Lexeme}

/-- A text is read up to the first lexeme that is none. -/
theorem leadingText_placed (text : String) (index : Nat)
    (stops : ∃ lexeme rest, more = lexeme :: rest ∧ isText lexeme = false) :
    leadingText (placed index (escapes text) ++ more) = (text, more) := by
  obtain ⟨lexeme, rest, rfl, other⟩ := stops
  have texts (index : Nat) (chars : List Char) : ∀ found ∈ placed index
      (chars.map fun c => (Lexeme.Kind.escaped, String.singleton c)), isText found = true := by
    induction chars generalizing index with
    | nil => nofun
    | cons c chars ih => exact List.forall_mem_cons.2 ⟨rfl, ih _⟩
  have values (index : Nat) (chars : List Char) : String.join ((placed index
      (chars.map fun c => (Lexeme.Kind.escaped, String.singleton c))).map Lexeme.value) =
        String.ofList chars := by
    induction chars generalizing index with
    | nil => rfl
    | cons c chars ih =>
      rw [List.map_cons, placed, List.map_cons, String.join_cons, ih]
      exact String.toList_inj.1 (by simp)
  have all := texts index text.toList
  rw [leadingText, escapes, List.takeWhile_append_of_pos all, List.dropWhile_append_of_pos all,
    List.takeWhile_cons_of_neg (Bool.eq_false_iff.1 other),
    List.dropWhile_cons_of_neg (Bool.eq_false_iff.1 other), List.append_nil, values,
    String.ofList_toList]

theorem leadingCore?_placed (heart : Heart) (index : Nat)
    (stops : ∃ lexeme rest, more = lexeme :: rest ∧
      (lexeme.kind = .escaped ∨ lexeme.kind = .closing)) :
    leadingCore? (placed index heart.signs ++ more) = some (heart.core index, more) := by
  cases heart with
  | named name pattern =>
    cases pattern with
    | none =>
      obtain ⟨⟨kind, place, value⟩, rest, rfl, rfl | rfl⟩ := stops <;> rfl
    | some pattern => rfl
  | unnamed pattern => rfl

theorem leadingModifier_placed (modifier : Modifier) (index : Nat) (begins : BeginsPart more) :
    leadingModifier (placed index modifier.signs ++ more) = (modifier, more) := by
  cases modifier with
  | once =>
    obtain ⟨⟨kind, place, value⟩, rest, rfl, rfl | rfl | rfl⟩ := begins <;> rfl
  | optional => rfl
  | oneOrMore => rfl
  | zeroOrMore => rfl

/-- After the closing brace the modifier is read. -/
theorem groupBody_closing {lexemes afterCore : List Lexeme} {lead trail : String}
    {core : Option Core} {afterLead : List Lexeme} (modifier : Modifier) {index : Nat}
    (begins : BeginsPart more) (first : leadingText lexemes = (lead, afterLead))
    (heart : leadingCore? afterLead = none ∧ core = none ∧ afterCore = afterLead ∨
      ∃ found, leadingCore? afterLead = some (found, afterCore) ∧ core = some found)
    (second : leadingText afterCore =
      (trail, placed index ((.closing, "\x7d") :: modifier.signs) ++ more)) :
    groupBody lexemes = .ok (.group lead core trail modifier, more) := by
  have closing : placed index ((.closing, "\x7d") :: modifier.signs) ++ more =
      ⟨.closing, index, "\x7d"⟩ :: (placed (index + 1) modifier.signs ++ more) := rfl
  rw [closing] at second
  have last := leadingModifier_placed modifier (index + 1) begins
  rw [groupBody, first]
  rcases heart with ⟨none, rfl, rfl⟩ | ⟨found, some, rfl⟩
  · simp only [none, second, last]
  · simp only [some, second, last]

section Group

variable (modifier : Modifier) (index : Nat) (begins : BeginsPart more)
include begins

theorem groupBody_key (lead : String) (heart : Heart) (trail : String) :
    groupBody (placed index (escapes lead ++ (heart.signs ++ (escapes trail ++
      ((.closing, "\x7d") :: modifier.signs)))) ++ more) =
        .ok (.group lead (some (heart.core (index + (spelled (escapes lead)).length))) trail
          modifier,
          more) := by
  simp only [Lexeme.placed_append, List.append_assoc]
  refine groupBody_closing modifier begins (leadingText_placed lead index ?_)
    (.inr ⟨_, leadingCore?_placed heart _ ?_, rfl⟩)
    (leadingText_placed trail _ ⟨_, _, rfl, rfl⟩)
  · cases heart with
    | named name pattern => cases pattern <;> exact ⟨_, _, rfl, rfl⟩
    | unnamed pattern => exact ⟨_, _, rfl, rfl⟩
  · unfold escapes
    cases trail.toList
    · exact ⟨_, _, rfl, .inr rfl⟩
    · exact ⟨_, _, rfl, .inl rfl⟩

theorem groupBody_decoration (text : String) :
    groupBody (placed index (escapes text ++ ((.closing, "\x7d") :: modifier.signs)) ++ more) =
      .ok (.group text none "" modifier, more) := by
  simp only [Lexeme.placed_append, List.append_assoc]
  exact groupBody_closing modifier begins (leadingText_placed text index ⟨_, _, rfl, rfl⟩)
    (.inl ⟨rfl, rfl, rfl⟩) rfl

end Group

/-! ### Items one after the other -/

theorem upTo_cons {bound : Nat} {lexemes rest : List Lexeme} {item : Item}
    (first : next lexemes = .ok (some (item, rest))) :
    upTo (bound + 1) lexemes = (item :: (upTo bound rest).1, (upTo bound rest).2) := by
  rw [upTo, first]

theorem beginsPart_placed (parts : List Part) (index size : Nat) :
    BeginsPart (placed index (parts.flatMap Part.signs) ++ [⟨.finish, size, ""⟩]) := by
  cases parts with
  | nil => exact ⟨_, _, rfl, .inr (.inr rfl)⟩
  | cons part parts =>
    cases part with
    | literal text nonempty =>
      obtain ⟨c, chars, begins⟩ := List.exists_cons_of_ne_nil fun none =>
        nonempty (String.toList_eq_nil_iff.1 none)
      rw [List.flatMap_cons, Part.signs, escapes, begins]
      exact ⟨_, _, rfl, .inl rfl⟩
    | key => exact ⟨_, _, rfl, .inr (.inl rfl)⟩
    | decoration => exact ⟨_, _, rfl, .inr (.inl rfl)⟩

theorem upTo_escapes (bound index : Nat) (chars : List Char) :
    upTo (bound + chars.length) (placed index
        (chars.map fun c => (Lexeme.Kind.escaped, String.singleton c)) ++ more) =
      ((chars.map fun c => .escaped (String.singleton c)) ++ (upTo bound more).1,
        (upTo bound more).2) := by
  induction chars generalizing index with
  | nil => rfl
  | cons c chars ih =>
    rw [List.length_cons, ← Nat.add_assoc, List.map_cons, placed, List.cons_append,
      @upTo_cons _ _ _ (.escaped (String.singleton c)) rfl, ih]
    rfl

/-- The lexemes of a part are its items. -/
theorem upTo_part (part : Part) (bound index : Nat) (begins : BeginsPart more) :
    upTo (bound + (part.items index).length) (placed index part.signs ++ more) =
      (part.items index ++ (upTo bound more).1, (upTo bound more).2) := by
  have group {rest : List Lexeme} {item : Item} (body : groupBody rest = .ok (item, more)) :
      next (⟨.opening, index, "\x7b"⟩ :: rest) = .ok (some (item, more)) :=
    congrArg (Except.map some) body
  cases part with
  | literal text _ =>
    simp only [Part.items, List.length_map]
    exact upTo_escapes bound index text.toList
  | key lead heart trail modifier =>
    have body := groupBody_key modifier (index + 1) begins lead heart trail
    rw [Nat.add_assoc] at body
    exact upTo_cons (group body)
  | decoration text modifier =>
    exact upTo_cons (group (groupBody_decoration modifier (index + 1) begins text))

/-- The lexemes of parts are their items, up to the end of the pattern. -/
theorem upTo_placed (parts : List Part) (index size bound : Nat)
    (enough : (Part.itemsFrom index parts).length < bound) :
    upTo bound (placed index (parts.flatMap Part.signs) ++ [⟨.finish, size, ""⟩]) =
      (Part.itemsFrom index parts, none) := by
  induction parts generalizing index bound with
  | nil =>
    obtain ⟨bound, rfl⟩ := Nat.exists_eq_add_one.2 enough
    rfl
  | cons part parts ih =>
    rw [Part.itemsFrom, List.length_append, Nat.add_comm] at enough
    obtain ⟨rest, rfl⟩ := Nat.exists_eq_add_of_lt enough
    have further := ih (index + (spelled part.signs).length)
      ((Part.itemsFrom (index + (spelled part.signs).length) parts).length + rest + 1) (by omega)
    have split : (Part.itemsFrom (index + (spelled part.signs).length) parts).length +
        (part.items index).length + rest + 1 =
          (Part.itemsFrom (index + (spelled part.signs).length) parts).length + rest + 1 +
            (part.items index).length := by omega
    rw [List.flatMap_cons, Lexeme.placed_append, List.append_assoc, split,
      upTo_part part _ _ (beginsPart_placed parts _ _), further]
    rfl

end Item

theorem length_items_le (part : Part) (index : Nat) :
    (part.items index).length ≤ part.signs.length := by
  cases part <;> simp [Part.items, Part.signs, escapes]

theorem length_itemsFrom_le (parts : List Part) (index : Nat) :
    (Part.itemsFrom index parts).length ≤ (parts.flatMap Part.signs).length := by
  induction parts generalizing index with
  | nil => exact Nat.le_refl _
  | cons part parts ih =>
    rw [Part.itemsFrom, List.flatMap_cons, List.length_append, List.length_append]
    exact Nat.add_le_add (length_items_le part index) (ih _)

theorem length_placed (signs : List Sign) (index : Nat) :
    (placed index signs).length = signs.length := by
  induction signs generalizing index with
  | nil => rfl
  | cons sign signs ih => exact congrArg (· + 1) (ih _)

/-- The items of what is written for parts are those of the parts. -/
theorem items_written (parts : List Part) (size : Nat) :
    items (placed 0 (parts.flatMap Part.signs) ++ [⟨.finish, size, ""⟩]) =
      (Part.itemsFrom 0 parts, none) := by
  refine Item.upTo_placed parts 0 size _ ?_
  have bound := length_itemsFrom_le parts 0
  rw [List.length_append, length_placed]
  exact Nat.lt_succ_of_le (Nat.le_trans bound (Nat.le_add_right _ _))

/-! ### The tokens of parts -/

namespace Assembly

variable {options : Options} {assembly : Assembly}

/-- The names of parts can still be claimed, and so can all further ordinals. -/
structure IsFree (assembly : Assembly) (parts : List Part) : Prop where
  ordinals : ∀ k ≥ assembly.ordinal, .ordinal k ∉ assembly.names
  explicit : ∀ text ∈ parts.filterMap Part.name?, .explicit text ∉ assembly.names

theorem flush_same : (assembly.flush options).text = "" ∧
    (assembly.flush options).held = assembly.held ∧
      (assembly.flush options).ordinal = assembly.ordinal ∧
        (assembly.flush options).names = assembly.names := by
  unfold flush
  split
  · rename_i empty
    exact ⟨empty, rfl, rfl, rfl⟩
  · exact ⟨rfl, rfl, rfl, rfl⟩

theorem finish_eq (held : assembly.held = "") :
    assembly.finish options = (assembly.flush options).tokens.reverse := by
  rw [finish, release_eq held]

/-- Where nothing is left of the text, all tokens are there. -/
theorem finish_of_empty (held : assembly.held = "") (empty : assembly.text = "") :
    assembly.finish options = assembly.tokens.reverse := by
  rw [finish_eq held, flush, if_pos empty]

/-- Escaped characters become text. -/
theorem foldlM_escapes (held : assembly.held = "") (chars : List Char) :
    (chars.map fun c => Item.escaped (String.singleton c)).foldlM (add options) assembly =
      .ok { assembly with text := assembly.text ++ String.ofList chars } := by
  induction chars generalizing assembly with
  | nil =>
    simp
    rfl
  | cons c chars ih =>
    have first : add options assembly (.escaped (String.singleton c)) =
        .ok { assembly with text := assembly.text ++ String.singleton c } := by
      rw [add, release_eq held]
    have joined : assembly.text ++ String.singleton c ++ String.ofList chars =
        assembly.text ++ String.ofList (c :: chars) := String.toList_inj.1 (by simp)
    have others := @ih { assembly with text := assembly.text ++ String.singleton c } held
    rw [joined] at others
    rw [List.map_cons, List.foldlM_cons, first]
    exact others

section Adding

variable (encode : ∀ text, options.encodePart text = text) (held : assembly.held = "")
  (lead trail : String) (modifier : Modifier) (index : Nat)
include encode held

/-- A name that was not claimed before is claimed for its key. -/
theorem add_named {text : String} (pattern : Option String)
    (free : .explicit text ∉ assembly.names) :
    add options assembly (.group lead (some (.named text index pattern)) trail modifier) =
      .ok ({ assembly.flush options with names := .explicit text :: assembly.names }.push
        { name := .explicit text, lead, trail, modifier,
          pattern := patternFor options (.named text index pattern) }) := by
  obtain ⟨_, _, _, names⟩ := @flush_same options assembly
  have unclaimed : assembly.names.contains (.explicit text) = false := by simp [free]
  simp only [add, addGroup, release_eq held, encode, claimFor, claim, names, unclaimed,
    Bool.false_eq_true, if_false]
  rfl

/-- An unnamed key takes the next ordinal. -/
theorem add_unnamed (pattern : String) (free : .ordinal assembly.ordinal ∉ assembly.names) :
    add options assembly (.group lead (some (.unnamed pattern index)) trail modifier) =
      .ok ({ assembly.flush options with
        names := .ordinal assembly.ordinal :: assembly.names
        ordinal := assembly.ordinal + 1 }.push
          { name := .ordinal assembly.ordinal, lead, trail, modifier, pattern }) := by
  obtain ⟨_, _, ordinal, names⟩ := @flush_same options assembly
  have unclaimed : assembly.names.contains (.ordinal assembly.ordinal) = false := by simp [free]
  simp only [add, addGroup, release_eq held, encode, claimFor, claim, ordinal, names, unclaimed,
    Bool.false_eq_true, if_false]
  rfl

theorem add_decoration {text : String} (nonempty : text ≠ "") (notOnce : modifier ≠ .once) :
    add options assembly (.group text none "" modifier) = .ok ((assembly.flush options).push
      { name := .explicit "", lead := text, pattern := "", modifier }) := by
  simp only [add, addGroup, release_eq held, encode, notOnce, nonempty, if_false]

omit encode in
/-- A key stands after the tokens that were there before. -/
theorem finish_push {next : Assembly} (held' : next.held = "") (empty : next.text = "")
    (tokens : next.tokens = (assembly.flush options).tokens) (key : Key) :
    (next.push key).finish options = assembly.finish options ++ [.key key] := by
  have last := @finish_of_empty options (next.push key) held' empty
  rw [last, push, tokens, finish_eq held, List.reverse_cons]

end Adding

/-- The parts can be put together: nothing is held back, their names can be claimed, and no text
is taken together with another. -/
structure Admits (assembly : Assembly) (parts : List Part) : Prop extends
    assembly.IsFree parts where
  held : assembly.held = ""
  distinct : (parts.filterMap Part.name?).Nodup
  after : assembly.text = "" ∨ Part.beginsLiteral parts = false
  apart : Part.areApart parts = true

/-- What the part has to leave behind for the parts after it: its token, and the names. -/
def Leaves (options : Options) (assembly : Assembly) (part : Part) (parts : List Part)
    (next : Assembly) : Prop :=
  next.Admits parts ∧ next.finish options ++ Part.tokens options next.ordinal parts =
    assembly.finish options ++ Part.tokens options assembly.ordinal (part :: parts)

section Step

variable {part : Part} {parts : List Part}

theorem Admits.rest (admits : assembly.Admits (part :: parts)) :
    (parts.filterMap Part.name?).Nodup ∧ Part.areApart parts = true ∧
      (part.isLiteral = true → Part.beginsLiteral parts = false) := by
  obtain ⟨_, _, distinct, _, apart⟩ := admits
  simp only [Part.areApart, Bool.and_eq_true, Bool.not_eq_true', Bool.and_eq_false_imp] at apart
  refine ⟨?_, apart.2, apart.1⟩
  rw [List.filterMap_cons] at distinct
  split at distinct
  · exact distinct
  · exact (List.nodup_cons.1 distinct).2

/-- A part that becomes a key: it is left to say which names are claimed then. -/
theorem Admits.push (admits : assembly.Admits (part :: parts)) {names : List Name} {ordinal : Nat}
    {key : Key} (ordinals : ∀ k ≥ ordinal, .ordinal k ∉ names)
    (explicit : ∀ text ∈ parts.filterMap Part.name?, .explicit text ∉ names)
    (tokens : Part.tokens options assembly.ordinal (part :: parts) =
      .key key :: Part.tokens options ordinal parts) :
    Leaves options assembly part parts ({ assembly.flush options with names, ordinal }.push key) := by
  obtain ⟨empty, held, _, _⟩ := @flush_same options assembly
  obtain ⟨distinct, apart, _⟩ := admits.rest
  have held' := held.trans admits.held
  refine ⟨⟨⟨ordinals, explicit⟩, held', distinct, .inl empty, apart⟩, ?_⟩
  rw [finish_push admits.held, tokens, List.append_assoc]
  · rfl
  · exact held'
  · exact empty
  · rfl

theorem Admits.literal {text : String} {nonempty : text ≠ ""}
    (admits : assembly.Admits (.literal text nonempty :: parts))
    (encode : ∀ text, options.encodePart text = text) :
    Leaves options assembly (.literal text nonempty) parts
      { assembly with text := assembly.text ++ String.ofList text.toList } := by
  obtain ⟨distinct, apart, notLiteral⟩ := admits.rest
  have none : assembly.text = "" := admits.after.resolve_right (by
    simp [Part.beginsLiteral, Part.isLiteral])
  refine ⟨⟨⟨admits.ordinals, admits.explicit⟩, admits.held, distinct, .inr (notLiteral rfl), apart⟩,
    ?_⟩
  rw [@finish_eq _ { assembly with text := assembly.text ++ String.ofList text.toList } admits.held,
    finish_of_empty admits.held none]
  simp only [none, flush, String.empty_append, String.ofList_toList, nonempty, if_false, encode,
    List.reverse_cons, List.append_assoc]
  rfl

theorem Admits.named {lead trail : String} {name : WrittenName}
    {pattern : Option WrittenPattern} {modifier : Modifier} (index : Nat)
    (admits : assembly.Admits (.key lead (.named name pattern) trail modifier :: parts))
    (encode : ∀ text, options.encodePart text = text) :
    ∃ next, add options assembly (.group lead
        (some (.named name.text index (pattern.map WrittenPattern.text))) trail modifier) = .ok next ∧
      Leaves options assembly (.key lead (.named name pattern) trail modifier) parts next := by
  have unclaimed := admits.explicit name.text (by simp [Part.name?])
  have fresh : name.text ∉ parts.filterMap Part.name? := (List.nodup_cons.1 admits.distinct).1
  have added := add_named encode admits.held lead trail modifier index
    (pattern.map WrittenPattern.text) unclaimed
  refine ⟨_, added, admits.push (fun k later => ?_) (fun text member => ?_) ?_⟩
  · obtain ⟨_, _, ordinal, _⟩ := @flush_same options assembly
    rw [ordinal] at later
    exact List.not_mem_cons_of_ne_of_not_mem (by simp) (admits.ordinals k later)
  · refine List.not_mem_cons_of_ne_of_not_mem (fun same => ?_)
      (admits.explicit text (List.mem_cons_of_mem _ member))
    cases same
    exact fresh member
  · obtain ⟨_, _, ordinal, _⟩ := @flush_same options assembly
    rw [ordinal]
    cases pattern <;> rfl

theorem Admits.unnamed {lead trail : String} {pattern : WrittenPattern} {modifier : Modifier}
    (index : Nat) (admits : assembly.Admits (.key lead (.unnamed pattern) trail modifier :: parts))
    (encode : ∀ text, options.encodePart text = text) :
    ∃ next, add options assembly
        (.group lead (some (.unnamed pattern.text index)) trail modifier) = .ok next ∧
      Leaves options assembly (.key lead (.unnamed pattern) trail modifier) parts next := by
  have unclaimed := admits.ordinals assembly.ordinal (Nat.le_refl _)
  have added := add_unnamed encode admits.held lead trail modifier index pattern.text unclaimed
  refine ⟨_, added, admits.push (fun k later => ?_) (fun text member => ?_) rfl⟩
  · refine List.not_mem_cons_of_ne_of_not_mem (fun same => ?_) (admits.ordinals k (by omega))
    injection same
    omega
  · exact List.not_mem_cons_of_ne_of_not_mem (by simp) (admits.explicit text member)

theorem Admits.decoration {text : String} {modifier : Modifier} {nonempty : text ≠ ""}
    {notOnce : modifier ≠ .once}
    (admits : assembly.Admits (.decoration text modifier nonempty notOnce :: parts))
    (encode : ∀ text, options.encodePart text = text) :
    ∃ next, add options assembly (.group text none "" modifier) = .ok next ∧
      Leaves options assembly (.decoration text modifier nonempty notOnce) parts next := by
  obtain ⟨_, _, ordinal, names⟩ := @flush_same options assembly
  refine ⟨_, add_decoration encode admits.held modifier nonempty notOnce, ?_⟩
  refine @Admits.push options assembly _ parts admits (assembly.flush options).names
    (assembly.flush options).ordinal _ ?_ ?_ ?_
  · rw [names, ordinal]
    exact admits.ordinals
  · rw [names]
    exact admits.explicit
  · rw [ordinal]
    rfl

/-- One part. -/
theorem Admits.exists_next (admits : assembly.Admits (part :: parts))
    (encode : ∀ text, options.encodePart text = text) (index : Nat) :
    ∃ next, (part.items index).foldlM (add options) assembly = .ok next ∧
      Leaves options assembly part parts next := by
  have single (item : Item) :
      [item].foldlM (add options) assembly = add options assembly item := by
    rw [List.foldlM_cons]
    cases add options assembly item <;> rfl
  cases part with
  | literal text nonempty => exact ⟨_, foldlM_escapes admits.held text.toList, admits.literal encode⟩
  | key lead heart trail modifier =>
    cases heart with
    | named name pattern =>
      obtain ⟨next, added, leaves⟩ := admits.named _ encode
      exact ⟨next, (single _).trans added, leaves⟩
    | unnamed pattern =>
      obtain ⟨next, added, leaves⟩ := admits.unnamed _ encode
      exact ⟨next, (single _).trans added, leaves⟩
  | decoration text modifier nonempty notOnce =>
    obtain ⟨next, added, leaves⟩ := admits.decoration encode
    exact ⟨next, (single _).trans added, leaves⟩

end Step

/-- The parts become their tokens, after those that were there before. -/
theorem Admits.exists_assembly {parts : List Part} (admits : assembly.Admits parts)
    (encode : ∀ text, options.encodePart text = text) (index : Nat) :
    ∃ last, (Part.itemsFrom index parts).foldlM (add options) assembly = .ok last ∧
      last.finish options = assembly.finish options ++
        Part.tokens options assembly.ordinal parts := by
  induction parts generalizing assembly index with
  | nil => exact ⟨assembly, rfl, (List.append_nil _).symm⟩
  | cons part parts ih =>
    obtain ⟨next, added, others, same⟩ := admits.exists_next encode index
    obtain ⟨last, assembled, finish⟩ := ih others (index + (spelled part.signs).length)
    refine ⟨last, ?_, finish.trans same⟩
    rw [Part.itemsFrom, List.foldlM_append, added]
    exact assembled

end Assembly

/-- What is written for parts is read back as the parts: literals, keys with their texts, patterns
and modifiers, unnamed ones numbered in order, and decorations, with no two parts taken together and
none taken apart. -/
theorem tokensOf_written {options : Options} {parts : List Part}
    (encode : ∀ text, options.encodePart text = text)
    (distinct : (parts.filterMap Part.name?).Nodup) (apart : Part.areApart parts = true) :
    tokensOf options (String.join (parts.map Part.written)) =
      .ok (Part.tokens options 0 parts) := by
  have admits : ({} : Assembly).Admits parts :=
    ⟨⟨fun _ _ => List.not_mem_nil, fun _ _ => List.not_mem_nil⟩, rfl, distinct, .inl rfl, apart⟩
  obtain ⟨last, assembled, finish⟩ := admits.exists_assembly encode 0
  rw [tokensOf, lexemes_written]
  simp only [tokensOfLexemes, items_written, tokensOfItems, assembled]
  exact congrArg Except.ok finish

/-- A literal, a named key that may be missing, a repeated decoration and an unnamed key. -/
theorem tokensOf_written_parts :
    tokensOf {} "\\/\x7b\\.:id(\\d)\\:\x7d?\x7b\\x\x7d*\x7b((?:a))\x7d" = .ok [.literal "/",
      .key { name := .explicit "id", lead := ".", trail := ":", pattern := "\\d",
             modifier := .optional },
      .key { name := .explicit "", lead := "x", pattern := "", modifier := .zeroOrMore },
      .key { name := .ordinal 0, pattern := "(?:a)" }] := by
  have digit : lexemes "(\\d)" = .ok [⟨.pattern, 0, "\\d"⟩, ⟨.finish, 4, ""⟩] :=
    toOption_eq_some_iff.1 (by decide +kernel)
  have group : lexemes "((?:a))" = .ok [⟨.pattern, 0, "(?:a)"⟩, ⟨.finish, 7, ""⟩] :=
    toOption_eq_some_iff.1 (by decide +kernel)
  let name : WrittenName := ⟨"id", by decide, by decide +kernel⟩
  exact @tokensOf_written {} [.literal "/" (by decide),
    .key "." (.named name (some ⟨"\\d", 4, digit⟩)) ":" .optional,
    .decoration "x" .zeroOrMore (by decide) (by decide),
    .key "" (.unnamed ⟨"(?:a)", 7, group⟩) "" .once] (fun _ => rfl)
      (List.pairwise_singleton _ _) rfl

end PathTemplate
