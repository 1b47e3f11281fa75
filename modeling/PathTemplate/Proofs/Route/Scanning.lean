/-
Keys of expressions that were written elsewhere.

The scan for capture groups does not read an expression as the engine does. It knows escapes and
takes a bracket class to end with the first bracket that has no backslash before it, it knows no
comments, and names of groups are ASCII. `isScanned` says of a source text that none of this makes a
difference, and where it holds the scan finds the groups of the engine.

* `seen_of_read`: what the scan still finds is what the engine still opens.
* `scanGroups_eq_of_isScanned`: the keys of an expression are its groups, in the order of their
  numbers.
* `scanGroups_bracket_first`: a class that begins with a closing bracket misleads the scan.
-/

import PathTemplate.Proofs.Reading.Numbering
import PathTemplate.Route.GroupScan

namespace PathTemplate

namespace Route

/-! ### Where the scan and the engine agree -/

/-- Names as keys have them: groups without a name take the ordinals in order. -/
def numbered : (next : Nat) → List (Option (List Char)) → List Name
  | _, [] => []
  | next, none :: names => .ordinal next :: numbered (next + 1) names
  | next, some name :: names => .explicit (String.ofList name) :: numbered next names

/-- The engine reads `c` as something that the scan knows. In a class, `shut` says that a closing
bracket came after the last opening one, which ends the class for the scan. -/
def readsAlike (shut : Bool) (spaced : Bool) (c : Char) (rest : List Char) : Mode → Bool
  | .bracket _ => !(shut && c = '(')
  | .escape (some _) => c ≠ '\n'
  | .comment _ escaped => escaped || (c ≠ '(' && c ≠ '[')
  | .lineComment _ => c ≠ '(' && c ≠ '[' && c ≠ '\\'
  | .opener _ [] => !(spaced && isSpacing c) || (rest.dropWhile isSpacing).head? ≠ some '?'
  | .opener _ ['<', '?'] => c = '=' || c = '!' || isScanNameStart c
  | .groupName [] => isScanNameStart c
  | .groupName _ => isScanNameContinue c || c = '>'
  | _ => true

/-- A closing bracket came after the last opening one, in the class that is being read. -/
def shutAfter (shut : Bool) (c : Char) (mode : Mode) : Bool :=
  match mode with
  | .bracket _ => if c = ']' then true else if c = '[' then false else shut
  | mode => mode.inClass && shut

/-- So it reads the whole text. -/
def isScannedFrom : Reader → (shut : Bool) → List Char → Bool
  | _, _, [] => true
  | reader, shut, c :: rest =>
    readsAlike shut reader.flags.spaced c rest reader.mode &&
      (reader.step c).elim true fun next => isScannedFrom next (shutAfter shut c reader.mode) rest

/-- The scan finds the groups of this source text: comments hold no parentheses or brackets, names
of groups are ASCII identifiers, no blanks stand between a parenthesis and a question mark, and no
parenthesis stands in a class after a closing bracket. -/
def isScanned (source : String) : Bool := isScannedFrom {} false source.toList

/-! ### The scan, sign by sign -/

/-- What is found after an opening parenthesis. -/
def afterParenthesis (next : Nat) (text : List Char) : List Name :=
  match scanOpening text with
  | (some name, length) => name :: scanFrom next length text
  | (none, 0) => .ordinal next :: scanFrom (next + 1) 0 text
  | (none, length) => scanFrom next length text

/-- What is found in a class, up to the bracket that closes it and after that. -/
def inClass (next : Nat) (shut : Bool) (text : List Char) : List Name :=
  if shut then scanFrom next 0 text else scanFrom next ((classLength? text).getD 0) text

section Scan

variable {next : Nat} {c : Char} {text : List Char}

theorem scanFrom_backslash : scanFrom next 0 ('\\' :: text) = scanFrom next 1 text := by
  cases text with
  | nil => rfl
  | cons c text =>
    by_cases feed : c = '\n'
    · subst feed
      rfl
    · simp [scanFrom, feed]

/-- All other characters mean nothing to the scan. -/
theorem scanFrom_other (notEscape : c ≠ '\\') (notClass : c ≠ '[') (notGroup : c ≠ '(') :
    scanFrom next 0 (c :: text) = scanFrom next 0 text := by
  rw [scanFrom.eq_def]
  simp only

theorem classLength?_cons (notClose : c ≠ ']') (notEscape : c ≠ '\\') :
    classLength? (c :: text) = (classLength? text).map (· + 1) := by
  rw [classLength?.eq_def]
  split <;> simp_all

theorem afterParenthesis_of_ne_mark (notMark : text.head? ≠ some '?') :
    afterParenthesis next text = .ordinal next :: scanFrom (next + 1) 0 text := by
  have plain : scanOpening text = (none, 0) := by
    unfold scanOpening
    split
    · exact absurd rfl notMark
    · rfl
  simp only [afterParenthesis, plain]

theorem afterParenthesis_of_no_name
    (none : scannedName? (if text.head? = some 'P' then text.tail else text) = none) :
    afterParenthesis next ('?' :: text) = scanFrom next 0 text := by
  simp only [afterParenthesis, scanOpening, none]
  rfl

theorem scannedName?_of_ends (start : isScanNameStart c = true)
    (ends : (text.dropWhile isScanNameContinue).head? = some '>') :
    scannedName? ('<' :: c :: text) = some (c :: text.takeWhile isScanNameContinue) := by
  simp only [scannedName?, start, ends, decide_true, Bool.and_self, if_true]

/-- A name in angle brackets is that of the group. -/
theorem afterParenthesis_of_name (letter : Bool) (start : isScanNameStart c = true)
    (ends : (text.dropWhile isScanNameContinue).head? = some '>') :
    afterParenthesis next ('?' :: ((if letter then ['P'] else []) ++ '<' :: c :: text)) =
      .explicit (String.ofList (c :: text.takeWhile isScanNameContinue)) ::
        scanFrom next ((text.takeWhile isScanNameContinue).length + 1) text := by
  have name := scannedName?_of_ends start ends
  cases letter with
  | true =>
    simp only [afterParenthesis, scanOpening, if_true, List.cons_append, List.nil_append,
      List.head?_cons, List.tail_cons, name]
    refine congrArg _ ?_
    have length : 1 + (('P' :: '<' :: c :: text).length - ('<' :: c :: text).length) +
        (c :: text.takeWhile isScanNameContinue).length + 2 =
          (text.takeWhile isScanNameContinue).length + 1 + 4 := by
      simp only [List.length_cons]
      omega
    rw [length]
    rfl
  | false =>
    simp only [afterParenthesis, scanOpening, Bool.false_eq_true, if_false, List.nil_append,
      List.head?_cons, Option.some.injEq, show ('<' : Char) ≠ 'P' by decide, name]
    refine congrArg _ ?_
    have length : 1 + (('<' :: c :: text).length - ('<' :: c :: text).length) +
        (c :: text.takeWhile isScanNameContinue).length + 2 =
          (text.takeWhile isScanNameContinue).length + 1 + 3 := by
      simp only [List.length_cons]
      omega
    rw [length]
    rfl

end Scan

/-! ### The scan beside the engine -/

/-- What the scan still finds where a reader in this mode still reads the text. -/
def seen (next : Nat) (shut : Bool) : Mode → List Char → List Name
  | .escape none, text | .comment _ true, text => scanFrom next 1 text
  | .escape (some _), text => inClass next shut text.tail
  | .bracket _, text | .hexOpen (some _) _, text | .hex (some _) .., text
  | .hexBrace (some _) .., text =>
    inClass next shut text
  | .opener _ read, text => afterParenthesis next (read.reverse ++ text)
  | .groupName read, text =>
    .explicit (String.ofList (read.reverse ++ text.takeWhile isScanNameContinue)) ::
      scanFrom next ((text.takeWhile isScanNameContinue).length + 1) text
  | _, text => scanFrom next 0 text

/-- The name of a reference ends with one of the signs that the reader knows. -/
def isKnown : Mode → Bool
  | .referenceName close _ => close = '>' || close = '\'' || close = ')'
  | _ => true

/-- The scan goes on where the reader is in this mode. -/
structure GoesOn (names : List Name) (next : Nat) (shut : Bool) (mode : Mode) (text : List Char) :
    Prop where
  names : names = seen next shut mode text
  known : isKnown mode = true

/-- The scan is not in the middle of anything. -/
def isCalm : Mode → Bool
  | .referenceName close read => isKnown (.referenceName close read)
  | .escape _ | .comment _ true | .bracket _ | .hexOpen (some _) _ | .hex (some _) ..
  | .hexBrace (some _) .. | .opener .. | .groupName _ => false
  | _ => true

section Beside

variable {reader after last : Reader} {next : Nat} {shut : Bool} {c : Char} {text : List Char}

theorem seen_of_isCalm {mode : Mode} (calm : isCalm mode = true) :
    seen next shut mode text = scanFrom next 0 text := by
  cases mode with
  | escape | bracket | opener | groupName => cases calm
  | hexOpen cls | hex cls | hexBrace cls =>
    cases cls with
    | none => rfl
    | some cls => cases calm
  | comment pending escaped =>
    cases escaped with
    | true => cases calm
    | false => rfl
  | _ => rfl

theorem isKnown_of_isCalm {mode : Mode} (calm : isCalm mode = true) : isKnown mode = true := by
  cases mode with
  | referenceName => exact calm
  | _ => rfl

/-- The character means nothing to the scan outside of classes. -/
def IsOther (c : Char) : Prop := c ≠ '\\' ∧ c ≠ '[' ∧ c ≠ '('

instance : Decidable (IsOther c) := inferInstanceAs (Decidable (_ ∧ _ ∧ _))

theorem isOther_of {good : Char → Bool} (sign : good c = true) (escape : good '\\' = false)
    (cls : good '[' = false) (group : good '(' = false) : IsOther c := by
  refine ⟨?_, ?_, ?_⟩
  · rintro rfl
    exact absurd sign (Bool.eq_false_iff.1 escape)
  · rintro rfl
    exact absurd sign (Bool.eq_false_iff.1 cls)
  · rintro rfl
    exact absurd sign (Bool.eq_false_iff.1 group)

theorem isOther_of_blank {spaced : Bool} (blank : (spaced && isSpacing c) = true) : IsOther c :=
  isOther_of (Bool.and_eq_true_iff.1 blank).2 rfl rfl rfl

theorem isOther_of_hex (digit : (hexValue? c).isSome = true) : IsOther c :=
  @isOther_of c (fun c => (hexValue? c).isSome) digit rfl rfl rfl

theorem isOther_of_flag (flag : (c.isAlpha || c = '-' || isSpacing c) = true) : IsOther c :=
  @isOther_of c (fun c => c.isAlpha || c = '-' || isSpacing c) flag rfl rfl rfl

/-- A step that leaves the scan where it is. -/
theorem goesOn_of_other {names : List Name} {mode : Mode} (other : IsOther c)
    (same : names = scanFrom next 0 (c :: text)) (calm : isCalm mode = true) :
    GoesOn names next shut mode text where
  names := by rw [same, scanFrom_other other.1 other.2.1 other.2.2, seen_of_isCalm calm]
  known := isKnown_of_isCalm calm

/-- A name that has begun is one for the scan, and ends. -/
def NameEnds (text : List Char) : Prop := (text.dropWhile isScanNameContinue).head? = some '>'

/-- What the scan looks ahead to from where the reader is: the end of a name, or of a class. -/
def Continues : Mode → List Char → Prop
  | .groupName [], text =>
    ∃ c rest, text = c :: rest ∧ isScanNameStart c = true ∧ NameEnds rest
  | .groupName _, text => NameEnds text
  | .escape (some _), text =>
    ∃ c rest, text = c :: rest ∧ c ≠ '\n' ∧ (classLength? rest).isSome = true
  | .bracket _, text | .hexOpen (some _) _, text | .hex (some _) .., text
  | .hexBrace (some _) .., text => (classLength? text).isSome = true
  | _, _ => True

theorem isScanNameContinue_of_start (start : isScanNameStart c = true) :
    isScanNameContinue c = true := by
  simp only [isScanNameStart, isScanNameContinue, Char.isAlphanum, Bool.or_eq_true] at start ⊢
  rcases start with letter | line
  · exact .inl (.inl letter)
  · exact .inr line

/-- The names that the step gives are found, and the scan goes on. -/
def Gives (names : List Name) (next : Nat) (opens : List (Option (List Char))) (shut : Bool)
    (mode : Mode) (text : List Char) : Prop :=
  ∃ others, names = numbered next opens ++ others ∧
    GoesOn others (next + opens.count none) shut mode text

theorem GoesOn.gives {names : List Name} {mode : Mode} (h : GoesOn names next shut mode text) :
    Gives names next [] shut mode text := ⟨names, rfl, h⟩

/-! ### Classes -/

theorem inClass_other (notEscape : c ≠ '\\') (notClass : shut = true → c ≠ '[')
    (notClose : c ≠ ']') (notGroup : shut = true → c ≠ '(')
    (closes : (classLength? text).isSome = true) :
    inClass next shut (c :: text) = inClass next shut text := by
  cases shut with
  | true => exact scanFrom_other notEscape (notClass rfl) (notGroup rfl)
  | false =>
    obtain ⟨length, closes⟩ := Option.isSome_iff_exists.1 closes
    simp only [inClass, Bool.false_eq_true, if_false, classLength?_cons notClose notEscape, closes]
    rfl

theorem inClass_escape {rest : List Char} (notFeed : c ≠ '\n') :
    inClass next shut ('\\' :: c :: rest) = inClass next shut rest := by
  cases shut with
  | true => exact scanFrom_backslash
  | false =>
    simp only [inClass, Bool.false_eq_true, if_false, classLength?, notFeed]
    cases classLength? rest with
    | none => exact scanFrom_backslash
    | some length => rfl

/-- A member of a class, which may be a bracket. -/
theorem inClass_member {cls : ClassReader} (plain : c ≠ '\\')
    (alike : readsAlike shut spaced c text (.bracket cls) = true)
    (closes : (classLength? text).isSome = true) :
    inClass next shut (c :: text) = inClass next (shutAfter shut c (.bracket cls)) text := by
  by_cases close : c = ']'
  · subst close
    cases shut <;> rfl
  by_cases opens : c = '['
  · subst opens
    cases shut with
    | true => rfl
    | false => exact inClass_other (by decide) (by decide) (by decide) (by decide) closes
  · simp only [shutAfter, close, opens, if_false]
    refine inClass_other plain (fun _ => opens) close ?_ closes
    rintro rfl rfl
    cases alike

/-- What means nothing to the scan elsewhere, means nothing in a class. -/
theorem inClass_plain (other : IsOther c) (notClose : c ≠ ']')
    (closes : (classLength? text).isSome = true) :
    inClass next shut (c :: text) = inClass next shut text :=
  inClass_other other.1 (fun _ => other.2.1) notClose (fun _ => other.2.2) closes

/-- A digit in a class is no bracket. -/
theorem inClass_hex (digit : (hexValue? c).isSome = true)
    (closes : (classLength? text).isSome = true) :
    inClass next shut (c :: text) = inClass next shut text := by
  refine inClass_plain (isOther_of_hex digit) ?_ closes
  rintro rfl
  cases digit

/-! ### One step -/

/-- Behind a parenthesis and a question mark, what is no name means nothing to the scan. -/
theorem afterParenthesis_mark (notAngle : c ≠ '<') (notLetter : c ≠ 'P') :
    afterParenthesis next ('?' :: c :: text) = scanFrom next 0 (c :: text) := by
  refine afterParenthesis_of_no_name ?_
  simp only [List.head?_cons, Option.some.injEq, notLetter, if_false]
  unfold scannedName?
  split <;> simp_all

theorem afterParenthesis_angle (notStart : isScanNameStart c = false) :
    afterParenthesis next ('?' :: '<' :: c :: text) = scanFrom next 0 (c :: text) := by
  refine (afterParenthesis_of_no_name ?_).trans (scanFrom_other (by decide) (by decide) (by decide))
  simp [scannedName?, notStart]

/-- Where a construct goes on, so does the scan. -/
theorem goesOn_of_turns {flags : Flags} {mode mode' : Mode} (turns : mode.Turns flags c mode')
    (known : isKnown mode = true) (alike : readsAlike shut flags.spaced c text mode = true)
    (continues : Continues mode' text) :
    GoesOn (seen next shut mode (c :: text)) next (shutAfter shut c mode) mode' text := by
  cases turns with
  | parenthesis sign | bracket sign | mark sign | angle sign | letter sign =>
    subst sign
    exact ⟨rfl, rfl⟩
  | backslash sign | commentEscape sign =>
    subst sign
    exact ⟨scanFrom_backslash, rfl⟩
  | number | referenceOpen | commentEscaped | memberEscaped => exact ⟨rfl, rfl⟩
  | blank blank => exact goesOn_of_other (isOther_of_blank blank) rfl rfl
  | line _ sign | brace sign | lineEnd sign | commentEnd sign =>
    exact goesOn_of_other (by rw [sign]; decide) rfl rfl
  | count more =>
    refine goesOn_of_other ?_ rfl rfl
    rcases Bool.or_eq_true_iff.1 more with more | blank
    · exact @isOther_of c (fun c => c.isDigit || c = ',') more rfl rfl rfl
    · exact isOther_of_blank blank
  | digit digit => exact goesOn_of_other (isOther_of digit rfl rfl rfl) rfl rfl
  | referenceName closes =>
    rcases closes with ⟨sign, rfl⟩ | ⟨sign, rfl⟩
    · exact goesOn_of_other (by rw [sign]; decide) rfl rfl
    · exact goesOn_of_other (by rw [sign]; decide) rfl rfl
  | referenceMore more => exact goesOn_of_other (isOther_of more rfl rfl rfl) rfl known
  | @hexOpen cls => cases cls <;> exact ⟨rfl, rfl⟩
  | @hex cls _ _ _ digit | @hexMore cls _ _ _ _ digit | @hexBraceMore cls _ _ _ _ digit =>
    cases cls with
    | none => exact goesOn_of_other (isOther_of_hex digit) rfl rfl
    | some cls => exact ⟨inClass_hex digit continues, rfl⟩
  | @hexBrace cls _ sign =>
    cases cls with
    | none => exact goesOn_of_other (by rw [sign]; decide) rfl rfl
    | some cls =>
      exact ⟨inClass_plain (by rw [sign]; decide) (by rw [sign]; decide) continues, rfl⟩
  | member plain => exact ⟨inClass_member plain alike continues, rfl⟩
  | memberEscape sign =>
    subst sign
    obtain ⟨d, rest, rfl, notFeed, -⟩ := continues
    exact ⟨inClass_escape notFeed, rfl⟩
  | memberHex digit =>
    exact ⟨inClass_hex digit continues, rfl⟩
  | memberHexBrace sign =>
    exact ⟨inClass_plain (by rw [sign]; decide) (by rw [sign]; decide) continues, rfl⟩
  | gap blank =>
    have notMark (text : List Char) (first : text.head? ≠ some '?') :
        seen next shut (.opener .nothing []) text = .ordinal next :: scanFrom (next + 1) 0 text :=
      afterParenthesis_of_ne_mark first
    have other := isOther_of_blank blank
    have later : text.head? ≠ some '?' := by
      simp only [readsAlike, blank, Bool.not_true, Bool.false_or, decide_eq_true_eq] at alike
      rintro begins
      obtain ⟨rest, rfl⟩ := List.head?_eq_some_iff.1 begins
      exact alike rfl
    have here : (c :: text).head? ≠ some '?' := by
      rw [List.head?_cons, ne_eq, Option.some.injEq]
      rintro rfl
      simp [isSpacing] at blank
    refine ⟨?_, rfl⟩
    change afterParenthesis next (c :: text) = afterParenthesis next text
    rw [afterParenthesis_of_ne_mark here, afterParenthesis_of_ne_mark later,
      scanFrom_other other.1 other.2.1 other.2.2]
  | flags flag other =>
    have notAngle : c ≠ '<' := by
      rintro rfl
      cases flag
    exact goesOn_of_other (isOther_of_flag flag) (afterParenthesis_mark notAngle other) rfl
  | flagsMore flag => exact goesOn_of_other (isOther_of_flag flag) rfl rfl
  | nameFirst first =>
    have start : isScanNameStart c = true := by
      have either : (c = '=' ∨ c = '!') ∨ isScanNameStart c = true := by
        simpa [readsAlike] using alike
      refine either.resolve_left ?_
      rintro (rfl | rfl) <;> cases first
    exact ⟨afterParenthesis_of_name false start continues, rfl⟩
  | nameOpen sign =>
    subst sign
    obtain ⟨d, rest, rfl, start, ends⟩ := continues
    refine ⟨(afterParenthesis_of_name true start ends).trans ?_, rfl⟩
    simp [seen, isScanNameContinue_of_start start]
    rfl
  | @nameMore read name =>
    have more : isScanNameContinue c = true := by
      cases read with
      | nil => exact isScanNameContinue_of_start alike
      | cons d read =>
        have either : isScanNameContinue c = true ∨ c = '>' := by simpa [readsAlike] using alike
        refine either.resolve_right ?_
        rintro rfl
        cases name
    refine ⟨?_, rfl⟩
    simp [seen, more]
    rfl
  | nameReference sign =>
    subst sign
    have none : afterParenthesis next ('?' :: 'P' :: '=' :: text) = scanFrom next 0 ('=' :: text) :=
      (afterParenthesis_of_no_name rfl).trans (scanFrom_other (by decide) (by decide) (by decide))
    exact @goesOn_of_other next false '=' text _ (.referenceName ')' []) (by decide) none rfl
  | comment sign =>
    refine goesOn_of_other (by rw [sign]; decide) (afterParenthesis_mark ?_ ?_) rfl
    · rw [sign]
      decide
    · rw [sign]
      decide
  | commentMore plain =>
    have plain' : c ≠ '(' ∧ c ≠ '[' := by simpa [readsAlike] using alike
    exact goesOn_of_other ⟨plain, plain'.2, plain'.1⟩ rfl rfl
  | lineMore =>
    have plain : (c ≠ '(' ∧ c ≠ '[') ∧ c ≠ '\\' := by simpa [readsAlike] using alike
    exact goesOn_of_other ⟨plain.2, plain.1.2, plain.1.1⟩ rfl rfl

/-- A part without groups that is complete leaves the scan where it is, or ends a class for it. -/
theorem goesOn_of_completes {mode : Mode} {e e' : Expr} (completes : mode.Completes c e)
    (known : isKnown mode = true) :
    GoesOn (seen next shut mode (c :: text)) next (shutAfter shut c mode) (.ready (.atom e')) text := by
  cases completes with
  | sign plain =>
    have other : IsOther c := by
      refine ⟨?_, ?_, ?_⟩ <;> rintro rfl <;> simp at plain
    exact goesOn_of_other other rfl rfl
  | escape => exact ⟨rfl, rfl⟩
  | hex digit => exact goesOn_of_other (isOther_of_hex digit) rfl rfl
  | hexBrace sign => exact goesOn_of_other (by rw [sign]; decide) rfl rfl
  | bracket sign =>
    subst sign
    exact ⟨by cases shut <;> rfl, rfl⟩
  | reference closes =>
    subst closes
    have closes : (c = '>' ∨ c = '\'') ∨ c = ')' := by simpa [isKnown] using known
    refine goesOn_of_other ?_ rfl rfl
    rcases closes with (rfl | rfl) | rfl <;> decide

/-- What is read of a part means nothing to the scan. -/
theorem seen_of_isPart {mode : Mode} (part : mode.isPart = true) :
    seen next shut mode text = scanFrom next 0 text := by
  cases mode with
  | ready | brace => rfl
  | _ => cases part

theorem shutAfter_of_isPart {mode : Mode} (part : mode.isPart = true) :
    shutAfter shut c mode = false := by
  cases mode with
  | ready | brace => rfl
  | _ => cases part

/-- Behind what opens a group that has no name, the scan goes on. -/
theorem seen_of_isMarked {mode : Mode} (marked : mode.isMarked = true) (notAngle : c ≠ '<')
    (notLetter : c ≠ 'P') (notStart : isScanNameStart c = false) :
    seen next shut mode (c :: text) = scanFrom next 0 (c :: text) := by
  unfold Mode.isMarked at marked
  split at marked
  · exact afterParenthesis_mark notAngle notLetter
  · exact afterParenthesis_angle notStart
  · rfl
  · cases marked

theorem readsAlike_opener {spaced : Bool} (pending : Pending) (read : List Char) :
    readsAlike shut spaced c text (.opener pending read) =
      readsAlike shut spaced c text (.opener .nothing read) := by
  unfold readsAlike
  split <;> split <;> simp_all

/-- One step of the reader, and of the scan beside it. -/
theorem gives_of_moves (moves : reader.Moves c after) (known : isKnown reader.mode = true)
    (alike : readsAlike shut reader.flags.spaced c text reader.mode = true)
    (continues : Continues after.mode text) :
    Gives (seen next shut reader.mode (c :: text)) next (reader.mode.opens reader.flags.spaced c)
      (shutAfter shut c reader.mode) after.mode text := by
  induction moves generalizing next with
  | turns turns =>
    rw [turns.opens]
    exact (goesOn_of_turns turns known alike continues).gives
  | completes completes =>
    rw [completes.opens]
    exact (goesOn_of_completes completes known).gives
  | counts part _ sign =>
    rw [Mode.opens_of_isPart part, seen_of_isPart part]
    refine (goesOn_of_other ?_ rfl rfl).gives
    refine ⟨?_, ?_, ?_⟩ <;> rintro rfl <;> simp at sign
  | reluctant mode sign | possessive mode sign =>
    rw [mode]
    exact (goesOn_of_other (by rw [sign]; decide) rfl rfl).gives
  | splits mode sign =>
    dsimp only
    rw [mode]
    exact (goesOn_of_other (by rw [sign]; decide) rfl rfl).gives
  | opens marked sign opened =>
    obtain rfl := Reader.openGroup_eq_some opened
    have plain : IsOther c ∧ c ≠ '<' ∧ c ≠ 'P' ∧ isScanNameStart c = false := by
      simp only [List.mem_cons, List.not_mem_nil, or_false] at sign
      rcases sign with rfl | rfl | rfl | rfl <;> decide
    rw [Mode.opens_of_isMarked marked]
    refine (goesOn_of_other plain.1 ?_ rfl).gives
    exact seen_of_isMarked marked plain.2.1 plain.2.2.1 plain.2.2.2
  | @names reader _ read mode _ sign opened =>
    subst sign
    rw [mode, (Reader.openCapture_eq_some opened).2]
    refine ⟨scanFrom next 0 text, ?_, rfl, rfl⟩
    simp [seen, Mode.opens, numbered, show isGroupNameCharacter '>' = false from rfl,
      show isScanNameContinue '>' = false from rfl]
    rfl
  | closes mode sign closed =>
    obtain ⟨_, _, _, _, rfl⟩ := Reader.closeGroup_eq_some closed
    rw [mode]
    exact (goesOn_of_other (by rw [sign]; decide) rfl rfl).gives
  | sets marked sign =>
    have plain : IsOther c ∧ c ≠ '<' ∧ c ≠ 'P' ∧ isScanNameStart c = false := by
      rw [sign]
      decide
    rw [Mode.opens_of_isMarked marked]
    refine (goesOn_of_other plain.1 ?_ rfl).gives
    exact seen_of_isMarked marked plain.2.1 plain.2.2.1 plain.2.2.2
  | @resolves reader base after resolved _ ih =>
    obtain ⟨pending, ready⟩ := Reader.isReady_resolved resolved
    rw [ready] at ih
    rcases Reader.isPart_of_resolved resolved with part | ⟨number, mode⟩
    · rw [Mode.opens_of_isPart part, seen_of_isPart part, shutAfter_of_isPart part]
      exact ih rfl rfl continues
    · rw [mode]
      exact ih rfl rfl continues
  | flushes mode _ ih =>
    rw [mode]
    exact ih rfl rfl continues
  | @flushesOpener reader after pending read mode _ ih =>
    have same : (Mode.opener pending read).opens reader.flags.spaced c =
        (Mode.opener .nothing read).opens reader.flags.spaced c := by
      cases read <;> rfl
    rw [mode, readsAlike_opener] at alike
    rw [mode, same]
    exact ih rfl alike continues
  | @captures reader base after mode sign visible opened _ ih =>
    have first := @afterParenthesis_of_ne_mark next (c :: text) (by simpa using sign)
    have one : (Mode.opener .nothing []).opens reader.flags.spaced c = [none] := by
      simp [Mode.opens, sign, visible]
    rw [(Reader.openCapture_eq_some opened).2] at ih
    obtain ⟨others, same, goes⟩ := @ih (next + 1) rfl rfl continues
    rw [mode, one]
    exact ⟨others, first.trans (congrArg _ same), goes⟩

/-- A text may not end in a class or in the name of a group. -/
theorem continues_of_finish (ends : last.finish.isSome = true) : Continues last.mode [] := by
  cases mode : last.mode with
  | groupName | bracket => simp [Reader.finish, mode] at ends
  | escape cls | hexOpen cls | hex cls | hexBrace cls => simp [Reader.finish, mode] at ends
  | _ => trivial

theorem seen_of_finish (ends : last.finish.isSome = true) : seen next shut last.mode [] = [] := by
  cases mode : last.mode with
  | groupName | bracket | opener => simp [Reader.finish, mode] at ends
  | escape cls | hexOpen cls | hex cls | hexBrace cls | comment => simp [Reader.finish, mode] at ends
  | _ => rfl

theorem isSome_classLength?_cons (notEscape : c ≠ '\\')
    (closes : (classLength? text).isSome = true) : (classLength? (c :: text)).isSome = true := by
  by_cases close : c = ']'
  · rw [close]
    rfl
  · rw [classLength?_cons close notEscape, Option.isSome_map]
    exact closes

theorem nameEnds_cons (more : isScanNameContinue c = true) (ends : NameEnds text) :
    NameEnds (c :: text) := by
  rw [NameEnds, List.dropWhile_cons, if_pos more]
  exact ends

theorem continues_of_turns {flags : Flags} {mode mode' : Mode} (turns : mode.Turns flags c mode')
    (alike : readsAlike shut flags.spaced c text mode = true) (continues : Continues mode' text) :
    Continues mode (c :: text) := by
  cases turns with
  | @nameMore read name =>
    cases read with
    | nil => exact ⟨c, text, rfl, alike, continues⟩
    | cons d read =>
      have either : isScanNameContinue c = true ∨ c = '>' := by simpa [readsAlike] using alike
      refine nameEnds_cons (either.resolve_right ?_) continues
      rintro rfl
      cases name
  | member plain => exact isSome_classLength?_cons plain continues
  | memberEscape sign =>
    subst sign
    obtain ⟨d, rest, rfl, notFeed, closes⟩ := continues
    simpa [Continues, classLength?, notFeed] using closes
  | memberEscaped => exact ⟨c, text, rfl, by simpa [readsAlike] using alike, continues⟩
  | memberHex digit => exact isSome_classLength?_cons (isOther_of_hex digit).1 continues
  | memberHexBrace sign => exact isSome_classLength?_cons (by rw [sign]; decide) continues
  | @hexOpen cls =>
    cases cls with
    | none => trivial
    | some cls => exact ⟨c, text, rfl, by simpa [readsAlike] using alike, continues⟩
  | @hex cls _ _ _ digit | @hexMore cls _ _ _ _ digit | @hexBraceMore cls _ _ _ _ digit =>
    cases cls with
    | none => trivial
    | some cls => exact isSome_classLength?_cons (isOther_of_hex digit).1 continues
  | @hexBrace cls _ sign =>
    cases cls with
    | none => trivial
    | some cls => exact isSome_classLength?_cons (by rw [sign]; decide) continues
  | _ => trivial

theorem continues_of_completes {mode : Mode} {e : Expr} (completes : mode.Completes c e) :
    Continues mode (c :: text) := by
  cases completes with
  | bracket sign =>
    subst sign
    rfl
  | _ => trivial

/-- What comes after a step, comes before it: the scan looks ahead only in names and in classes. -/
theorem continues_of_moves (moves : reader.Moves c after)
    (alike : readsAlike shut reader.flags.spaced c text reader.mode = true)
    (continues : Continues after.mode text) : Continues reader.mode (c :: text) := by
  have ofPart {mode : Mode} (part : mode.isPart = true) : Continues mode (c :: text) := by
    cases mode with
    | ready | brace => trivial
    | _ => cases part
  have ofMarked {mode : Mode} (marked : mode.isMarked = true) : Continues mode (c :: text) := by
    cases mode with
    | opener | flags => trivial
    | _ => cases marked
  cases moves with
  | turns turns => exact continues_of_turns turns alike continues
  | completes completes => exact continues_of_completes completes
  | counts part => exact ofPart part
  | opens marked | sets marked => exact ofMarked marked
  | @names _ _ read mode named sign =>
    subst sign
    rw [mode]
    cases read with
    | nil => exact absurd rfl named
    | cons => rfl
  | resolves resolved =>
    rcases Reader.isPart_of_resolved resolved with part | ⟨number, mode⟩
    · exact ofPart part
    · rw [mode]
      trivial
  | reluctant mode | possessive mode | splits mode | closes mode | flushes mode
  | flushesOpener mode | captures mode =>
    rw [mode]
    trivial

/-- What the scan looks ahead to comes, where the text is read to its end. -/
theorem continues_of_read (read : reader.read text = some last) (ends : last.finish.isSome = true)
    (alike : isScannedFrom reader shut text = true) : Continues reader.mode text := by
  induction text generalizing reader shut with
  | nil =>
    cases read
    exact continues_of_finish ends
  | cons c text ih =>
    rw [Reader.read_cons] at read
    obtain ⟨after, step, read⟩ := Option.bind_eq_some_iff.1 read
    simp only [isScannedFrom, step, Option.elim_some, Bool.and_eq_true] at alike
    obtain ⟨here, later⟩ := alike
    have continues := ih read later
    exact continues_of_moves (Reader.moves_of_step step) here continues

theorem numbered_append {names more : List (Option (List Char))} :
    numbered next (names ++ more) =
      numbered next names ++ numbered (next + names.count none) more := by
  induction names generalizing next with
  | nil => rfl
  | cons name names ih =>
    cases name with
    | none =>
      rw [List.cons_append, numbered, ih, numbered, List.count_cons_self, Nat.add_right_comm,
        Nat.add_assoc]
      rfl
    | some name =>
      rw [List.cons_append, numbered, ih, numbered, List.count_cons_of_ne (by simp)]
      rfl

/-- What the scan still finds is what the engine still opens. -/
theorem seen_of_read (read : reader.read text = some last) (ends : last.finish.isSome = true)
    (known : isKnown reader.mode = true) (alike : isScannedFrom reader shut text = true) :
    seen next shut reader.mode text = numbered next (reader.opensIn text) := by
  induction text generalizing reader shut next with
  | nil =>
    cases read
    exact seen_of_finish ends
  | cons c text ih =>
    rw [Reader.read_cons] at read
    obtain ⟨after, step, read⟩ := Option.bind_eq_some_iff.1 read
    simp only [isScannedFrom, step, Option.elim_some, Bool.and_eq_true] at alike
    obtain ⟨here, later⟩ := alike
    obtain ⟨names, same, goes⟩ := @gives_of_moves _ _ next _ _ _ (Reader.moves_of_step step) known here
      (continues_of_read read ends later)
    rw [same, goes.names, ih read goes.known later, Reader.opensIn, step, Option.elim_some,
      numbered_append]

end Beside

/-- The keys of an expression that was written elsewhere are its capture groups, in the order of
their numbers: a group with a name has its own, and the others have the ordinals in order. -/
theorem scanGroups_eq_of_isScanned {source : String} {expression : Expression}
    (compiled : Expression.compile? source = some expression) (alike : isScanned source = true) :
    ∃ names, Expression.groupNames? source = some names ∧
      expression.expr.groups = List.range' 1 names.length ∧
      (ofExpression expression).keys.map Key.name = numbered 0 names := by
  obtain ⟨names, groups⟩ := Expression.groups_of_compile? compiled
  obtain ⟨expr, described, rfl⟩ := Option.map_eq_some_iff.1 compiled
  simp only [Expression.expr?, Option.bind_eq_bind, Option.bind_eq_some_iff] at described
  obtain ⟨reader, read, last, finish, -⟩ := described
  refine ⟨_, names, groups, ?_⟩
  have found : scanFrom 0 0 source.toList = numbered 0 (({} : Reader).opensIn source.toList) :=
    @seen_of_read {} reader 0 false _ read (by rw [finish]; rfl) rfl alike
  rw [← found, ofExpression, bareKeys, List.map_map]
  exact List.map_id _

/-- Parentheses that open no capture group, between some that do. -/
theorem scanGroups_eq_of_isScanned_mixed :
    ∃ expression, Expression.compile? "(?<a>\\()([()[:digit:][x]])(?#\\()(?=b)(?i:(?P<c_1>\\d))(\\))" =
      some expression ∧ expression.expr.groups = [1, 2, 3, 4] ∧
      (ofExpression expression).keys.map Key.name =
        [.explicit "a", .ordinal 0, .explicit "c_1", .ordinal 1] := by
  have compiled := Eq.symm <| Option.some_get <| show (Expression.compile?
    "(?<a>\\()([()[:digit:][x]])(?#\\()(?=b)(?i:(?P<c_1>\\d))(\\))").isSome by decide +kernel
  obtain ⟨names, known, groups, keys⟩ := scanGroups_eq_of_isScanned compiled (by decide +kernel)
  obtain rfl : [some ['a'], none, some ['c', '_', '1'], none] = names :=
    Option.some.inj (Eq.trans (by decide +kernel) known)
  exact ⟨_, compiled, groups, keys.trans (by decide +kernel)⟩

/-- A closing bracket directly after the opening one is a member of the class. The scan takes it
for the end, and a parenthesis in the class for that of a group. -/
theorem scanGroups_bracket_first :
    ∃ expression, Expression.compile? "[](](x)" = some expression ∧
      Expression.groupNames? "[](](x)" = some [none] ∧ expression.expr.groups = [1] ∧
      (ofExpression expression).keys.map Key.name = [.ordinal 0, .ordinal 1] := by
  have compiled := Eq.symm <| Option.some_get <|
    show (Expression.compile? "[](](x)").isSome by decide +kernel
  exact ⟨_, compiled, by decide +kernel, by decide +kernel, by decide +kernel⟩

end Route

end PathTemplate
