/-
What a character does to a reader, as a list of moves.

`Reader.step` is a program. `Reader.Moves` is what it does, as a relation: a character leads from one
mode to another, completes a part, opens or closes a group, and before it does so, what was being
read may turn out to be complete. `Reader.moves_of_step` says that a step is such a move, so that
what holds of each move holds of every step, with one case for each rule.

* `Mode.Turns`: the modes between which a character leads where nothing else happens.
* `Mode.Completes`: the parts without groups that a character completes.
* `Reader.Moves`, `Reader.moves_of_step`: all that a step can do.
* `Reader.finish_eq_some`: what the end of a text does.
-/

import PathTemplate.Proofs.Reading.Resolved

namespace PathTemplate

/-! ### Classes -/

namespace ClassReader

variable {cls : ClassReader} {symbol : ClassSymbol} {set : CharSet}

theorem readFresh_done (h : cls.readFresh symbol = some (.done set)) : symbol = .plain ']' := by
  unfold readFresh at h
  repeat' split at h
  all_goals first
    | rfl
    | cases h

theorem readAfterMember_done {first : OpenClass.Member}
    (h : cls.readAfterMember first symbol = some (.done set)) : symbol = .plain ']' := by
  unfold readAfterMember at h
  split at h
  · cases h
  · exact readFresh_done h

theorem readInside_done {characters : List Char}
    (h : cls.readInside characters symbol = some (.done set)) : symbol = .plain ']' := by
  simp only [readInside] at h
  split at h
  · exact readAfterMember_done h
  · unfold readOpened at h
    repeat' split at h
    all_goals first
      | exact readFresh_done h
      | cases h

/-- Only a bracket closes a class. -/
theorem step_done (h : cls.step symbol = some (.done set)) : symbol = .plain ']' := by
  unfold step at h
  split at h
  case h_1 =>
    unfold readOpened at h
    repeat' split at h
    all_goals first
      | exact readFresh_done h
      | cases h
  case h_5 =>
    unfold readAfterDash at h
    repeat' split at h
    all_goals first
      | rfl
      | cases h
  all_goals repeat' split at h
  all_goals first
    | exact readFresh_done h
    | exact readAfterMember_done h
    | exact readInside_done h
    | cases h

end ClassReader

/-! ### Moves -/

namespace Mode

/-- The next character is the second one of an escape. -/
def isQuoting : Mode → Bool
  | .escape _ | .comment _ true => true
  | _ => false

/-- A bracket class is being read. -/
def inClass : Mode → Bool
  | .bracket _ | .escape (some _)
  | .hexOpen (some _) _ | .hex (some _) .. | .hexBrace (some _) .. =>
    true
  | _ => false

/-- After the parenthesis of a group that is not open yet. -/
def isOpening : Mode → Bool
  | .opener .. | .flags .. => true
  | _ => false

/-- A part was read, though a further character may belong to it. -/
def isPart : Mode → Bool
  | .ready _ | .brace .. => true
  | _ => false

/-- What is pending while this is read. -/
def pending : Mode → Pending
  | .ready pending | .opener pending _ | .comment pending _ | .lineComment pending => pending
  | .brace atom _ => .atom atom
  | _ => .nothing

/-- No part and no group begins or ends here. -/
def isInner : Mode → Bool
  | .ready _ | .brace .. | .reference _ | .opener .. | .groupName _ | .flags .. => false
  | _ => true

/-- After what shows that a group does not capture. -/
def isMarked : Mode → Bool
  | .opener .nothing ['?'] | .opener .nothing ['<', '?'] | .flags .. => true
  | _ => false

theorem isInner_of_isPart {mode : Mode} (part : mode.isPart = true) : mode.isInner = false := by
  cases mode with
  | ready | brace => rfl
  | _ => cases part

theorem isInner_of_isMarked {mode : Mode} (marked : mode.isMarked = true) :
    mode.isInner = false := by
  cases mode with
  | opener | flags => rfl
  | _ => cases marked

/-- The modes between which `c` leads where nothing else happens. -/
inductive Turns (flags : Flags) (c : Char) : Mode → Mode → Prop
  | blank {pending : Pending} (blank : (flags.spaced && isSpacing c) = true) :
    Turns flags c (.ready pending) (.ready pending)
  | parenthesis {pending : Pending} (sign : c = '(') :
    Turns flags c (.ready pending) (.opener pending [])
  | bracket {cls : ClassReader} (sign : c = '[') : Turns flags c (.ready .nothing) (.bracket cls)
  | backslash (sign : c = '\\') : Turns flags c (.ready .nothing) (.escape none)
  | line {pending : Pending} (spaced : flags.spaced = true) (sign : c = '#') :
    Turns flags c (.ready pending) (.lineComment pending)
  | brace {e : Expr} (sign : c = '{') : Turns flags c (.ready (.atom e)) (.brace e [])
  | count {e : Expr} {text : List Char}
    (more : (c.isDigit || c = ',' || (flags.spaced && isSpacing c)) = true) :
    Turns flags c (.brace e text) (.brace e (c :: text))
  | number {number : Nat} (digit : c.isDigit = true) :
    Turns flags c (.escape none) (.reference number)
  | digit {number longer : Nat} (digit : c.isDigit = true) :
    Turns flags c (.reference number) (.reference longer)
  | referenceOpen : Turns flags c (.escape none) .referenceOpen
  | referenceName {close : Char} (closes : c = '<' ∧ close = '>' ∨ c = '\'' ∧ close = '\'') :
    Turns flags c .referenceOpen (.referenceName close [])
  | referenceMore {close : Char} {text : List Char} (more : isGroupNameCharacter c = true) :
    Turns flags c (.referenceName close text) (.referenceName close (c :: text))
  | hexOpen {cls : Option ClassReader} {digits : Nat} :
    Turns flags c (.escape cls) (.hexOpen cls digits)
  | hex {cls : Option ClassReader} {digits fewer value : Nat} (digit : (hexValue? c).isSome = true) :
    Turns flags c (.hexOpen cls digits) (.hex cls fewer value)
  | hexMore {cls : Option ClassReader} {digits fewer value longer : Nat}
    (digit : (hexValue? c).isSome = true) :
    Turns flags c (.hex cls digits value) (.hex cls fewer longer)
  | hexBrace {cls : Option ClassReader} {digits : Nat} (sign : c = '{') :
    Turns flags c (.hexOpen cls digits) (.hexBrace cls 0 0)
  | hexBraceMore {cls : Option ClassReader} {digits more value longer : Nat}
    (digit : (hexValue? c).isSome = true) :
    Turns flags c (.hexBrace cls digits value) (.hexBrace cls more longer)
  | member {cls longer : ClassReader} (plain : c ≠ '\\') :
    Turns flags c (.bracket cls) (.bracket longer)
  | memberEscape {cls : ClassReader} (sign : c = '\\') :
    Turns flags c (.bracket cls) (.escape (some cls))
  | memberEscaped {cls longer : ClassReader} : Turns flags c (.escape (some cls)) (.bracket longer)
  | memberHex {cls longer : ClassReader} {digits value : Nat} (digit : (hexValue? c).isSome = true) :
    Turns flags c (.hex (some cls) digits value) (.bracket longer)
  | memberHexBrace {cls longer : ClassReader} {digits value : Nat} (sign : c = '\x7D') :
    Turns flags c (.hexBrace (some cls) digits value) (.bracket longer)
  | mark {pending : Pending} (sign : c = '?') :
    Turns flags c (.opener pending []) (.opener pending ['?'])
  | gap {pending : Pending} (blank : (flags.spaced && isSpacing c) = true) :
    Turns flags c (.opener pending []) (.opener pending [])
  | angle (sign : c = '<') : Turns flags c (.opener .nothing ['?']) (.opener .nothing ['<', '?'])
  | letter (sign : c = 'P') : Turns flags c (.opener .nothing ['?']) (.opener .nothing ['P', '?'])
  | flags {set : Flags} {off dash begun : Bool}
    (flag : (c.isAlpha || c = '-' || isSpacing c) = true) (other : c ≠ 'P') :
    Turns flags c (.opener .nothing ['?']) (.flags set off dash begun)
  | flagsMore {set more : Flags} {off dash begun off' dash' begun' : Bool}
    (flag : (c.isAlpha || c = '-' || isSpacing c) = true) :
    Turns flags c (.flags set off dash begun) (.flags more off' dash' begun')
  | nameFirst (first : isGroupNameCharacter c = true) :
    Turns flags c (.opener .nothing ['<', '?']) (.groupName [c])
  | nameOpen (sign : c = '<') : Turns flags c (.opener .nothing ['P', '?']) (.groupName [])
  | nameMore {text : List Char} (more : isGroupNameCharacter c = true) :
    Turns flags c (.groupName text) (.groupName (c :: text))
  | nameReference (sign : c = '=') :
    Turns flags c (.opener .nothing ['P', '?']) (.referenceName ')' [])
  | comment {pending : Pending} (sign : c = '#') :
    Turns flags c (.opener pending ['?']) (.comment pending false)
  | commentMore {pending : Pending} (plain : c ≠ '\\') :
    Turns flags c (.comment pending false) (.comment pending false)
  | commentEscape {pending : Pending} (sign : c = '\\') :
    Turns flags c (.comment pending false) (.comment pending true)
  | commentEscaped {pending : Pending} :
    Turns flags c (.comment pending true) (.comment pending false)
  | commentEnd {pending : Pending} (sign : c = ')') :
    Turns flags c (.comment pending false) (.ready pending)
  | lineMore {pending : Pending} : Turns flags c (.lineComment pending) (.lineComment pending)
  | lineEnd {pending : Pending} (sign : c = '\n') :
    Turns flags c (.lineComment pending) (.ready pending)

/-- The parts without groups that `c` completes. -/
inductive Completes (c : Char) : Mode → Expr → Prop
  | sign {e : Expr} (plain : c ∉ ['(', ')', '[', '\\']) (free : e.groups = []) :
    Completes c (.ready .nothing) e
  | escape {e : Expr} (free : e.groups = []) : Completes c (.escape none) e
  | hex {e : Expr} {digits value : Nat} (digit : (hexValue? c).isSome = true)
    (free : e.groups = []) : Completes c (.hex none digits value) e
  | hexBrace {e : Expr} {digits value : Nat} (sign : c = '\x7D') (free : e.groups = []) :
    Completes c (.hexBrace none digits value) e
  | bracket {cls : ClassReader} {set : CharSet} (sign : c = ']') :
    Completes c (.bracket cls) (.one set)
  | reference {close : Char} {text : List Char} {e : Expr} (closes : c = close)
    (refers : e = .never ∨ ∃ number, e = .back number) : Completes c (.referenceName close text) e

section Pending

variable {flags : Flags} {c : Char} {mode next : Mode} {e : Expr}

/-- What is pending stays so. -/
theorem Turns.pending (turns : mode.Turns flags c next) : next.pending = mode.pending := by
  cases turns <;> rfl

theorem Completes.pending (completes : mode.Completes c e) : mode.pending = .nothing := by
  cases completes <;> rfl

theorem pending_of_isMarked (marked : mode.isMarked = true) : mode.pending = .nothing := by
  unfold isMarked at marked
  split at marked <;> first | rfl | cases marked

end Pending

end Mode

namespace Reader

/-- What a step on `c` can do. What was being read may first turn out to be complete. -/
inductive Moves (c : Char) : Reader → Reader → Prop
  | turns {reader : Reader} {mode : Mode} (turns : reader.mode.Turns reader.flags c mode) :
    Moves c reader (reader.enter mode)
  | completes {reader : Reader} {e : Expr} (completes : reader.mode.Completes c e) :
    Moves c reader (reader.atom .nothing e)
  | counts {reader : Reader} {least : Nat} {most : Option Nat} {e : Expr}
    (part : reader.mode.isPart = true) (pending : reader.mode.pending = .atom e)
    (sign : c ∈ ['?', '*', '+', '\x7D']) :
    Moves c reader (reader.enter (.ready (.counted least most e)))
  | reluctant {reader : Reader} {least : Nat} {most : Option Nat} {e : Expr}
    (mode : reader.mode = .ready (.counted least most e)) (sign : c = '?') :
    Moves c reader (reader.enter (.ready (.reluctant (reader.loop least most true e))))
  | possessive {reader : Reader} {pending : Pending} (mode : reader.mode = .ready pending)
    (sign : c = '+') : Moves c reader (reader.flush (.atom (.atomic (reader.part pending))))
  | splits {reader : Reader} (mode : reader.mode = .ready .nothing) (sign : c = '|') :
    Moves c reader { reader with level := reader.level.split }
  | opens {reader next : Reader} {opener : Opener} {flags : Flags}
    (marked : reader.mode.isMarked = true) (sign : c ∈ ['=', '!', '>', ':'])
    (opened : { reader with flags }.openGroup opener = some next)
    (plain : ∀ number, opener ≠ .capture number) : Moves c reader next
  | names {reader next : Reader} {text : List Char} (mode : reader.mode = .groupName text)
    (named : text ≠ []) (sign : c = '>')
    (opened : { reader with
      names := (text.reverse, reader.opened + 1) :: reader.names }.openCapture = some next) :
    Moves c reader next
  | closes {reader next : Reader} (mode : reader.mode = .ready .nothing) (sign : c = ')')
    (closed : reader.closeGroup = some next) : Moves c reader next
  | sets {reader : Reader} {flags : Flags} (marked : reader.mode.isMarked = true)
    (sign : c = ')') : Moves c reader { reader with flags, mode := .ready (.atom .empty) }
  | resolves {reader base next : Reader} (resolved : reader.resolved = some base)
    (moves : Moves c base next) : Moves c reader next
  | flushes {reader next : Reader} {pending : Pending} (mode : reader.mode = .ready pending)
    (moves : Moves c (reader.flush pending) next) : Moves c reader next
  | flushesOpener {reader next : Reader} {pending : Pending} {text : List Char}
    (mode : reader.mode = .opener pending text)
    (moves : Moves c ((reader.flush pending).enter (.opener .nothing text)) next) :
    Moves c reader next
  | captures {reader base next : Reader} (mode : reader.mode = .opener .nothing [])
    (sign : c ≠ '?') (visible : (reader.flags.spaced && isSpacing c) = false)
    (opened : reader.openCapture = some base) (moves : Moves c base next) : Moves c reader next

section Moves

variable {reader next : Reader} {c : Char}

theorem classSymbol_cases {cls : ClassReader} {symbol : ClassSymbol}
    (h : reader.classSymbol cls symbol = some next) :
    (∃ longer, next = reader.enter (.bracket longer)) ∨
      symbol = .plain ']' ∧ ∃ set, next = reader.atom .nothing (.one set) := by
  unfold classSymbol at h
  split at h <;> cases h
  · exact .inl ⟨_, rfl⟩
  · rename_i done
    exact .inr ⟨ClassReader.step_done done, _, rfl⟩

theorem openGroup_eq_some {opener : Opener} (h : reader.openGroup opener = some next) :
    next =
      { reader with
        frames := ⟨opener, reader.level⟩ :: reader.frames
        level := {}
        mode := .ready .nothing } := by
  unfold openGroup at h
  split at h <;> cases h
  rfl

theorem openCapture_eq_some (h : reader.openCapture = some next) :
    reader.opened < next.opened ∧ next.mode = .ready .nothing := by
  obtain rfl := openGroup_eq_some h
  exact ⟨Nat.lt_succ_self _, rfl⟩

theorem closeGroup_eq_some (h : reader.closeGroup = some next) :
    ∃ frame frames flags, reader.frames = frame :: frames ∧
      next =
        { reader with
          frames, flags
          level := frame.around
          mode := .ready (.atom (frame.opener.wrap reader.level.expr)) } := by
  unfold closeGroup at h
  split at h
  · cases h
  · rename_i here
    split at h <;> cases h
    exact ⟨_, _, _, here, rfl⟩

theorem isPart_of_resolved (h : reader.resolved = some next) :
    reader.mode.isPart = true ∨ ∃ number, reader.mode = .reference number := by
  unfold resolved at h
  cases mode : reader.mode with
  | ready | brace => exact .inl rfl
  | reference number => exact .inr ⟨number, rfl⟩
  | _ => simp [mode] at h

theorem isInner_of_resolved (h : reader.resolved = some next) : reader.mode.isInner = false := by
  rcases isPart_of_resolved h with part | ⟨number, mode⟩
  · exact Mode.isInner_of_isPart part
  · rw [mode]
    rfl

/-- Nothing happens. -/
theorem Moves.stays (turns : reader.mode.Turns reader.flags c reader.mode) : Moves c reader reader :=
  .turns turns

/-- What follows a backslash in a class is no bracket that closes it. -/
theorem moves_classSymbol {cls : ClassReader} {symbol : ClassSymbol} (notClose : symbol ≠ .plain ']')
    (turns : ∀ longer, reader.mode.Turns reader.flags c (.bracket longer))
    (h : reader.classSymbol cls symbol = some next) : Moves c reader next := by
  obtain ⟨longer, rfl⟩ := (classSymbol_cases h).resolve_right fun close => notClose close.1
  exact .turns (turns longer)

theorem moves_stepEscape {cls : Option ClassReader} (mode : reader.mode = .escape cls)
    (h : reader.stepEscape cls c = some next) : Moves c reader next := by
  have turns {mode' : Mode} (turns : (Mode.escape cls).Turns reader.flags c mode') :
      Moves c reader (reader.enter mode') := .turns (mode ▸ turns)
  cases cls with
  | none =>
    have part {e : Expr} (free : e.groups = []) : Moves c reader (reader.atom .nothing e) :=
      .completes (mode ▸ .escape free)
    simp only [stepEscape, escaped, shorthand, hexShorthand] at h
    repeat' split at h
    all_goals first
      | contradiction
      | (cases h; exact part rfl)
      | (cases h; exact turns .referenceOpen)
      | (cases h; exact turns .hexOpen)
      | (cases h; exact turns (.number (by assumption)))
  | some cls =>
    have member {symbol : ClassSymbol} (notClose : symbol ≠ .plain ']')
        (h : reader.classSymbol cls symbol = some next) : Moves c reader next :=
      moves_classSymbol notClose (fun _ => mode ▸ .memberEscaped) h
    simp only [stepEscape, Option.isSome_some, if_true] at h
    repeat' split at h
    all_goals first
      | contradiction
      | exact member (by simp) h
      | (cases h; exact turns .hexOpen)

/-- A hexadecimal number is that of a part, or of a member of a class. -/
theorem moves_hexDone {cls : Option ClassReader} {value : Nat}
    (part : cls = none → ∀ {e : Expr}, e.groups = [] → reader.mode.Completes c e)
    (member : ∀ {inner}, cls = some inner → ∀ longer,
      reader.mode.Turns reader.flags c (.bracket longer))
    (h : reader.hexDone cls value = some next) : Moves c reader next := by
  unfold hexDone at h
  split at h
  · cases cls with
    | none =>
      cases h
      exact .completes (part rfl rfl)
    | some cls => exact moves_classSymbol (by simp) (member rfl) h
  · cases h

theorem moves_stepHexOpen {cls : Option ClassReader} {digits : Nat}
    (mode : reader.mode = .hexOpen cls digits) (h : reader.stepHexOpen cls digits c = some next) :
    Moves c reader next := by
  unfold stepHexOpen at h
  split at h
  · rename_i sign
    cases h
    exact .turns (mode ▸ .hexBrace sign)
  · split at h <;> cases h
    rename_i digit
    exact .turns (mode ▸ .hex (by rw [digit]; rfl))

theorem moves_stepHex {cls : Option ClassReader} {digits value : Nat}
    (mode : reader.mode = .hex cls digits value) (h : reader.stepHex cls digits value c = some next) :
    Moves c reader next := by
  simp only [stepHex] at h
  split at h
  · rename_i found
    have digit : (hexValue? c).isSome = true := by rw [found]; rfl
    split at h
    · refine moves_hexDone ?_ ?_ h
      · rintro rfl e free
        exact mode ▸ .hex digit free
      · rintro cls rfl longer
        exact mode ▸ .memberHex digit
    · cases h
      exact .turns (mode ▸ .hexMore digit)
  · cases h

theorem moves_stepHexBrace {cls : Option ClassReader} {digits value : Nat}
    (mode : reader.mode = .hexBrace cls digits value)
    (h : reader.stepHexBrace cls digits value c = some next) : Moves c reader next := by
  unfold stepHexBrace at h
  split at h
  · rename_i closes
    obtain ⟨sign, -⟩ : c = '\x7D' ∧ 0 < digits := by simpa using closes
    refine moves_hexDone ?_ ?_ h
    · rintro rfl e free
      exact mode ▸ .hexBrace sign free
    · rintro cls rfl longer
      exact mode ▸ .memberHexBrace sign
  · repeat' split at h
    all_goals cases h
    rename_i digit _
    exact .turns (mode ▸ .hexBraceMore (by rw [digit]; rfl))

theorem moves_stepReferenceName {close : Char} {text : List Char}
    (mode : reader.mode = .referenceName close text)
    (h : reader.stepReferenceName close text c = some next) : Moves c reader next := by
  have refers (closes : c = close) {number : Nat} (h : reader.refer number = some next) :
      Moves c reader next := by
    obtain ⟨e, rfl, which⟩ := refer_eq_some h
    exact .completes (mode ▸ .reference closes which)
  simp only [stepReferenceName, referNamed] at h
  split at h
  · rename_i more
    cases h
    exact .turns (mode ▸ .referenceMore more)
  · split at h
    · rename_i closes
      obtain ⟨closes, -⟩ : c = close ∧ _ := by simpa using closes
      repeat' split at h
      all_goals first
        | exact refers closes h
        | cases h
    · cases h

theorem moves_quantify {pending : Pending} {least : Nat} {most : Option Nat}
    (part : reader.mode.isPart = true) (mode : reader.mode.pending = pending)
    (sign : c ∈ ['?', '*', '+', '\x7D']) (h : reader.quantify pending least most = some next) :
    Moves c reader next := by
  unfold quantify at h
  repeat' split at h
  all_goals cases h
  exact .counts part mode sign

theorem moves_stepReady {pending : Pending} (ready : reader.mode = .ready pending)
    (h : reader.stepReady pending c = some next) : Moves c reader next := by
  have part : reader.mode.isPart = true := by rw [ready]; rfl
  have held : reader.mode.pending = pending := by rw [ready]; rfl
  have then_ {next : Reader} (moves : Moves c (reader.flush pending) next) : Moves c reader next :=
    .flushes ready moves
  have sign {e : Expr} (plain : c ∉ ['(', ')', '[', '\\']) (free : e.groups = []) :
      Moves c reader ((reader.flush pending).atom .nothing e) :=
    then_ (.completes (.sign plain free))
  unfold stepReady at h
  by_cases blank : (reader.flags.spaced && isSpacing c) = true
  · simp only [blank, if_true] at h
    split at h <;> cases h
    · exact then_ (.stays (.blank blank))
    · exact .stays (ready ▸ .blank blank)
  · simp only [blank, Bool.false_eq_true, if_false] at h
    split at h
    case h_1 =>
      split at h
      · cases h
        exact .reluctant ready rfl
      · exact moves_quantify part held (by decide) h
    case h_2 => exact moves_quantify part held (by decide) h
    case h_3 =>
      split at h
      · cases h
        exact .possessive ready rfl
      · cases h
        exact .possessive ready rfl
      · exact moves_quantify part held (by decide) h
    case h_4 =>
      split at h <;> cases h
      · exact .turns (ready ▸ .brace rfl)
      · exact sign (by decide) rfl
    case h_8 => cases h; exact then_ (.turns (.bracket rfl))
    case h_9 => cases h; exact then_ (.turns (.backslash rfl))
    case h_10 => cases h; exact .turns (ready ▸ .parenthesis rfl)
    case h_11 => exact then_ (.closes rfl rfl h)
    case h_12 => cases h; exact then_ (.splits rfl rfl)
    case h_13 =>
      split at h
      · rename_i spaced
        split at h <;> cases h
        · exact then_ (.turns (.line spaced rfl))
        · exact .turns (ready ▸ .line spaced rfl)
      · cases h
        exact sign (by decide) rfl
    all_goals
      cases h
      exact sign (by simp_all) rfl

theorem moves_stepBrace {e : Expr} {text : List Char} (mode : reader.mode = .brace e text)
    (h : reader.stepBrace e text c = some next) : Moves c reader next := by
  obtain ⟨pending, ready⟩ := spellBrace_ready e text reader
  have resolved : reader.resolved = some (reader.spellBrace e text) := by
    simp only [Reader.resolved, mode]
  simp only [stepBrace, ready] at h
  split at h
  · rename_i more
    cases h
    exact .turns (mode ▸ .count more)
  · split at h
    · rename_i close
      split at h
      · exact moves_quantify (by rw [mode]; rfl) (by rw [mode]; rfl) (by rw [close]; decide) h
      · exact .resolves resolved (moves_stepReady ready h)
    · exact .resolves resolved (moves_stepReady ready h)

theorem isFlagSign_of_update? {flags set : Flags} {on : Bool} (h : flags.update? on c = some set) :
    (c.isAlpha || c = '-' || isSpacing c) = true ∧ c ≠ 'P' := by
  unfold Flags.update? at h
  split at h
  all_goals first
    | exact ⟨by decide, by decide⟩
    | cases h

/-- Where a list of flags begins, as where it goes on. -/
theorem moves_stepFlags {flags : Flags} {off dash begun : Bool}
    (marked : reader.mode.isMarked = true)
    (turns : ∀ {set off dash begun}, (c.isAlpha || c = '-' || isSpacing c) = true → c ≠ 'P' →
      reader.mode.Turns reader.flags c (.flags set off dash begun))
    (h : reader.stepFlags flags off dash begun c = some next) : Moves c reader next := by
  unfold stepFlags at h
  split at h
  · rename_i blank
    obtain ⟨-, blank⟩ := Bool.and_eq_true_iff.1 blank
    cases h
    exact .turns (turns (by rw [blank, Bool.or_true]) (by rintro rfl; cases blank))
  · split at h
    · rename_i sign
      split at h <;> cases h
      exact .turns (turns (by rw [sign]; rfl) (by rw [sign]; decide))
    · split at h
      · rename_i sign
        repeat' split at h
        all_goals cases h
        exact .sets marked sign
      · split at h
        · rename_i sign
          split at h
          · cases h
          · exact .opens marked (by rw [sign]; decide) h (by simp)
        · split at h <;> cases h
          rename_i update
          obtain ⟨flag, other⟩ := isFlagSign_of_update? update
          exact .turns (turns flag other)

theorem moves_stepOpener {pending : Pending} {text : List Char}
    (mode : reader.mode = .opener pending text) (h : reader.stepOpener pending text c = some next) :
    Moves c reader next := by
  have then_ {next : Reader}
      (moves : Moves c ((reader.flush pending).enter (.opener .nothing text)) next) :
      Moves c reader next := .flushesOpener mode moves
  simp only [stepOpener] at h
  split at h
  case h_1 =>
    split at h
    · rename_i sign
      cases h
      exact .turns (mode ▸ .mark sign)
    · rename_i sign
      split at h
      · rename_i blank
        cases h
        exact .stays (mode ▸ .gap blank)
      · rename_i visible
        split at h
        · rename_i opened
          obtain ⟨-, ready⟩ := openCapture_eq_some opened
          exact then_ (.captures rfl sign (Bool.eq_false_iff.2 visible) opened
            (moves_stepReady ready h))
        · cases h
  case h_2 =>
    split at h
    case h_1 =>
      split at h <;> cases h
      · exact then_ (.turns (.comment rfl))
      · exact .turns (mode ▸ .comment rfl)
    case h_5 => cases h; exact then_ (.turns (.angle rfl))
    case h_6 => cases h; exact then_ (.turns (.letter rfl))
    case h_7 => cases h
    case h_8 => exact then_ (moves_stepFlags rfl .flags h)
    all_goals exact then_ (.opens rfl (by decide) h (by simp))
  case h_3 =>
    split at h
    · exact then_ (.opens rfl (by decide) h (by simp))
    · exact then_ (.opens rfl (by decide) h (by simp))
    · split at h <;> cases h
      rename_i first
      exact then_ (.turns (.nameFirst first))
  case h_4 =>
    split at h <;> cases h
    · exact then_ (.turns (.nameOpen rfl))
    · exact then_ (.turns (.nameReference rfl))
  case h_5 => cases h

theorem moves_stepGroupName {text : List Char} (mode : reader.mode = .groupName text)
    (h : reader.stepGroupName text c = some next) : Moves c reader next := by
  unfold stepGroupName at h
  split at h
  · rename_i more
    cases h
    exact .turns (mode ▸ .nameMore more)
  · split at h
    · rename_i closes
      obtain ⟨sign, named⟩ : c = '>' ∧ text ≠ [] := by simpa using closes
      exact .names mode named sign h
    · cases h

/-- A step is one of the moves. -/
theorem moves_of_step (h : reader.step c = some next) : Moves c reader next := by
  unfold step at h
  cases mode : reader.mode with
  | ready pending => rw [mode] at h; exact moves_stepReady mode h
  | brace e text => rw [mode] at h; exact moves_stepBrace mode h
  | escape cls => rw [mode] at h; exact moves_stepEscape mode h
  | reference number =>
    rw [mode] at h
    dsimp only at h
    split at h
    · rename_i digit
      cases h
      exact .turns (mode ▸ .digit digit)
    · split at h
      · rename_i base found
        obtain ⟨e, ready⟩ := ready_of_refer found
        simp only [ready] at h
        have resolved : reader.resolved = some base := by
          simpa only [Reader.resolved, mode] using found
        exact .resolves resolved (moves_stepReady ready h)
      · cases h
  | referenceOpen =>
    rw [mode] at h
    dsimp only at h
    split at h <;> cases h
    · exact .turns (mode ▸ .referenceName (.inl ⟨rfl, rfl⟩))
    · exact .turns (mode ▸ .referenceName (.inr ⟨rfl, rfl⟩))
  | referenceName close text => rw [mode] at h; exact moves_stepReferenceName mode h
  | hexOpen cls digits => rw [mode] at h; exact moves_stepHexOpen mode h
  | hex cls digits value => rw [mode] at h; exact moves_stepHex mode h
  | hexBrace cls digits value => rw [mode] at h; exact moves_stepHexBrace mode h
  | bracket cls =>
    rw [mode] at h
    dsimp only at h
    split at h
    · rename_i sign
      cases h
      exact .turns (mode ▸ .memberEscape sign)
    · rename_i plain
      rcases classSymbol_cases h with ⟨longer, rfl⟩ | ⟨sign, set, rfl⟩
      · exact .turns (mode ▸ .member plain)
      · cases sign
        exact .completes (mode ▸ .bracket rfl)
  | opener pending text => rw [mode] at h; exact moves_stepOpener mode h
  | groupName text => rw [mode] at h; exact moves_stepGroupName mode h
  | flags flags off dash begun =>
    rw [mode] at h
    refine moves_stepFlags (by rw [mode]; rfl) ?_ h
    intro set off dash begun flag other
    exact mode ▸ .flagsMore flag
  | comment pending escaped =>
    rw [mode] at h
    dsimp only at h
    cases escaped with
    | true =>
      cases h
      exact .turns (mode ▸ .commentEscaped)
    | false =>
      simp only [Bool.false_eq_true, if_false] at h
      split at h
      · rename_i sign
        cases h
        exact .turns (mode ▸ .commentEscape sign)
      · rename_i plain
        split at h <;> cases h
        · rename_i sign
          exact .turns (mode ▸ .commentEnd sign)
        · exact .stays (mode ▸ .commentMore plain)
  | lineComment pending =>
    rw [mode] at h
    dsimp only at h
    split at h <;> cases h
    · rename_i sign
      exact .turns (mode ▸ .lineEnd sign)
    · exact .stays (mode ▸ .lineMore)

/-- Within a construct a character leads to another mode, or completes what was being read. -/
theorem Moves.within (moves : Moves c reader next) (inner : reader.mode.isInner = true) :
    (∃ mode, reader.mode.Turns reader.flags c mode ∧ next = reader.enter mode) ∨
      ∃ e, reader.mode.Completes c e ∧ next = reader.atom .nothing e := by
  cases moves with
  | turns turns => exact .inl ⟨_, turns, rfl⟩
  | completes completes => exact .inr ⟨_, completes, rfl⟩
  | counts part => simp [Mode.isInner_of_isPart part] at inner
  | opens marked | sets marked => simp [Mode.isInner_of_isMarked marked] at inner
  | resolves resolved => simp [isInner_of_resolved resolved] at inner
  | reluctant mode | possessive mode | splits mode | names mode | closes mode | flushes mode
  | flushesOpener mode | captures mode =>
    rw [mode] at inner
    cases inner

/-- At the end of a text what is pending is finished, and no group is open. -/
theorem finish_eq_some (h : reader.finish = some next) :
    ∃ base, (reader.resolved = some base ∨ base = reader) ∧
      next = base.flush base.mode.pending ∧ base.frames = [] := by
  cases line : reader.mode.isLineComment with
  | false =>
    obtain ⟨base, resolved, rfl, frames⟩ := finish_resolved h line
    obtain ⟨pending, ready⟩ := isReady_resolved resolved
    rw [flushed_eq ready] at frames ⊢
    exact ⟨base, .inl resolved, by rw [ready]; rfl, frames⟩
  | true =>
    cases mode : reader.mode with
    | lineComment pending =>
      simp only [finish, mode] at h
      split at h <;> cases h
      rename_i ended
      refine ⟨reader, .inr rfl, by rw [mode]; rfl, ?_⟩
      exact List.isEmpty_iff.1 (Bool.and_eq_true_iff.1 ended).1
    | _ => rw [mode] at line; cases line

end Moves

end Reader

end PathTemplate
