/-
How many groups are open while a pattern is read.

The lexer counts the parentheses of a custom pattern that have no backslash before them. Where the
engine is neither in a class nor in an escape, it takes them for those of groups, and
`Reader.counts_of_step` says that a step of it changes the number of groups just so. That no step
opens a capture group is part of it: this takes a parenthesis without a question mark after it, or a
name, which is foreign to the lexer.
-/

import PathTemplate.Proofs.Reading.Nesting

namespace PathTemplate

namespace Mode

/-- The name of a group, a reference or a comment is being read, none of which the lexer knows. -/
def isForeign : Mode → Bool
  | .groupName _ | .reference _ | .referenceOpen | .referenceName ..
  | .comment .. | .lineComment _ =>
    true
  | _ => false

@[simp] theorem isOpening_ready (pending : Pending) : (ready pending).isOpening = false := rfl

@[simp] theorem isOpening_opener (pending : Pending) (text : List Char) :
    (opener pending text).isOpening = true := rfl

section Moves

variable {flags : Flags} {c : Char} {mode next : Mode} {e : Expr}

theorem Turns.inClass (turns : mode.Turns flags c next) (inside : mode.inClass = true) :
    next.inClass = true := by
  cases turns with
  | member | memberEscape | memberEscaped | memberHex | memberHexBrace => rfl
  | @hexOpen cls | @hex cls | @hexMore cls | @hexBrace cls | @hexBraceMore cls =>
    cases cls with
    | none => cases inside
    | some => rfl
  | _ => cases inside

theorem Completes.inClass (completes : mode.Completes c e) (inside : mode.inClass = true) :
    mode.isQuoting = false ∧ c = ']' ∧ ∃ set, e = .one set := by
  cases completes with
  | bracket sign => exact ⟨rfl, sign, _, rfl⟩
  | _ => cases inside

/-- Where the reader and the lexer are in the same constructs, a character opens a group, or it is
no parenthesis for either of them. -/
theorem Turns.counted (turns : mode.Turns flags c next) (spaced : flags.spaced = false)
    (own : mode.isForeign = false) (own' : next.isForeign = false) :
    (∃ pending, c = '(' ∧ mode = .ready pending ∧ next = .opener pending []) ∨
      next.isOpening = mode.isOpening ∧
        ((mode.isQuoting || mode.inClass) = true ∨ c ≠ '(' ∧ c ≠ ')') := by
  have other {good : Char → Bool} (sign : good c = true) (open_ : good '(' = false)
      (close : good ')' = false) : c ≠ '(' ∧ c ≠ ')' :=
    ⟨by rintro rfl; simp [open_] at sign, by rintro rfl; simp [close] at sign⟩
  cases turns with
  | parenthesis sign => exact .inl ⟨_, sign, rfl, rfl⟩
  | hexOpen | member | memberEscape | memberEscaped | memberHex | memberHexBrace =>
    exact .inr ⟨rfl, .inl rfl⟩
  | hex digit | hexMore digit | hexBraceMore digit =>
    exact .inr ⟨rfl, .inr (@other (fun c => (hexValue? c).isSome) digit rfl rfl)⟩
  | bracket sign | backslash sign | brace sign | hexBrace sign | mark sign | angle sign
  | letter sign =>
    subst sign
    exact .inr ⟨rfl, .inr (by decide)⟩
  | flags flag | flagsMore flag =>
    exact .inr ⟨rfl, .inr (@other (fun c => c.isAlpha || c = '-' || isSpacing c) flag rfl rfl)⟩
  | count more =>
    rw [spaced, Bool.false_and, Bool.or_false] at more
    exact .inr ⟨rfl, .inr (@other (fun c => c.isDigit || c = ',') more rfl rfl)⟩
  | blank blank | gap blank => simp [spaced] at blank
  | _ => simp [isForeign] at own own'

theorem Turns.begins {pending : Pending} (turns : mode.Turns flags c (.opener pending []))
    (spaced : flags.spaced = false) : c = '(' := by
  cases turns with
  | parenthesis sign => exact sign
  | gap blank => simp [spaced] at blank

theorem Completes.counted (completes : mode.Completes c e) (own : mode.isForeign = false) :
    mode.isOpening = false ∧ ((mode.isQuoting || mode.inClass) = true ∨ c ≠ '(' ∧ c ≠ ')') := by
  cases completes with
  | sign plain => exact ⟨rfl, .inr ⟨by rintro rfl; simp at plain, by rintro rfl; simp at plain⟩⟩
  | escape | bracket => exact ⟨rfl, .inl rfl⟩
  | hex digit =>
    refine ⟨rfl, .inr ⟨?_, ?_⟩⟩
    · rintro rfl
      cases digit
    · rintro rfl
      cases digit
  | hexBrace sign =>
    subst sign
    exact ⟨rfl, .inr (by decide)⟩
  | reference => cases own

theorem isOpening_of_isPart (part : mode.isPart = true) :
    mode.isOpening = false ∧ (mode.isQuoting || mode.inClass) = false := by
  cases mode with
  | ready | brace => exact ⟨rfl, rfl⟩
  | _ => cases part

theorem isOpening_of_isMarked (marked : mode.isMarked = true) : mode.isOpening = true := by
  cases mode with
  | opener | flags => rfl
  | _ => cases marked

end Moves

end Mode

namespace Reader

variable {reader next : Reader} {c : Char}

/-- Nothing but the mode changes, and the class stays open. -/
def Lists (reader next : Reader) : Prop :=
  ∃ mode : Mode, mode.inClass = true ∧ next = reader.enter mode

/-- In a class nothing but the mode changes, until a bracket closes the class. -/
theorem step_inClass (inside : reader.mode.inClass = true) (h : reader.step c = some next) :
    reader.Lists next ∨
      reader.mode.isQuoting = false ∧ c = ']' ∧ ∃ set, next = reader.atom .nothing (.one set) := by
  have inner : reader.mode.isInner = true := by
    cases mode : reader.mode <;> rw [mode] at inside <;> first | rfl | cases inside
  rcases (moves_of_step h).within inner with ⟨mode, turns, rfl⟩ | ⟨e, completes, rfl⟩
  · exact .inl ⟨mode, turns.inClass inside, rfl⟩
  · obtain ⟨quiet, close, set, rfl⟩ := completes.inClass inside
    exact .inr ⟨quiet, close, set, rfl⟩

/-! ### Counting groups -/

/-- The groups that the lexer takes for open: those that are, and the one whose parenthesis was
read. -/
def unclosed (reader : Reader) : Nat :=
  reader.frames.length + if reader.mode.isOpening then 1 else 0

/-- What a step does to the groups that opens none which captures. -/
structure Counts (c : Char) (reader next : Reader) : Prop where
  opened : next.opened = reader.opened
  /-- A parenthesis counts unless it is escaped or in a class. -/
  unclosed : next.mode.isForeign = false →
    (reader.mode.isQuoting || reader.mode.inClass) = true ∧ next.unclosed = reader.unclosed ∨
    (reader.mode.isQuoting || reader.mode.inClass) = false ∧
      next.unclosed + (if c = ')' then 1 else 0) = reader.unclosed + (if c = '(' then 1 else 0)
  begins : ∀ pending, next.mode = .opener pending [] → c = '('

/-- The step leaves the groups as they are. -/
structure Stays (reader next : Reader) : Prop where
  opened : next.opened = reader.opened
  frames : next.frames = reader.frames
  mode : next.mode.isOpening = false

section Counting

variable {base : Reader}

/-- A character that is no parenthesis for the engine, nor for the lexer. -/
theorem counts_silent (opened : next.opened = reader.opened)
    (unclosed : next.unclosed = reader.unclosed)
    (silent : (reader.mode.isQuoting || reader.mode.inClass) = true ∨ c ≠ '(' ∧ c ≠ ')')
    (begins : ∀ pending, next.mode = .opener pending [] → c = '(') : Counts c reader next where
  opened := opened
  unclosed := by
    intro _
    by_cases quiet : (reader.mode.isQuoting || reader.mode.inClass) = true
    · exact .inl ⟨quiet, unclosed⟩
    · obtain ⟨notOpen, notClose⟩ := silent.resolve_left quiet
      refine .inr ⟨Bool.eq_false_iff.2 quiet, ?_⟩
      rw [if_neg notOpen, if_neg notClose, unclosed]
  begins := begins

theorem Stays.counts (stays : reader.Stays next) (opening : reader.mode.isOpening = false)
    (silent : (reader.mode.isQuoting || reader.mode.inClass) = true ∨ c ≠ '(' ∧ c ≠ ')') :
    Counts c reader next := by
  refine counts_silent stays.opened ?_ silent fun pending mode => ?_
  · simp only [Reader.unclosed, stays.frames, stays.mode, opening]
  · have plain := stays.mode
    rw [mode] at plain
    cases plain

theorem stays_of_escape {cls : Option ClassReader} (mode : reader.mode = .escape cls)
    (h : reader.step c = some next) : reader.Stays next := by
  rcases (moves_of_step h).within (by rw [mode]; rfl) with ⟨mode', turns, rfl⟩ | ⟨e, -, rfl⟩
  · refine ⟨rfl, rfl, ?_⟩
    rw [mode] at turns
    change mode'.isOpening = false
    cases turns <;> rfl
  · exact ⟨rfl, rfl, rfl⟩

/-- After the parenthesis of a group that is not open yet, any further one is heard. -/
theorem heard_of_isOpening {mode : Mode} (opening : mode.isOpening = true) :
    (mode.isQuoting || mode.inClass) = false := by
  cases mode with
  | opener | flags => rfl
  | _ => cases opening

/-- Nothing is said of the groups where something foreign begins. -/
theorem counts_foreign (opened : next.opened = reader.opened)
    (foreign : next.mode.isForeign = true) :
    Counts c reader next where
  opened := opened
  unclosed := fun own => absurd foreign (Bool.eq_false_iff.1 own)
  begins := by
    intro pending mode
    rw [mode] at foreign
    cases foreign

/-- A step that goes on from a reader with the same groups. -/
theorem Counts.after (h : Counts c base next) (opened : base.opened = reader.opened)
    (unclosed : base.unclosed = reader.unclosed)
    (heard : (base.mode.isQuoting || base.mode.inClass) =
      (reader.mode.isQuoting || reader.mode.inClass)) : Counts c reader next where
  opened := h.opened.trans opened
  unclosed := by
    rw [← unclosed, ← heard]
    exact h.unclosed
  begins := h.begins

theorem Moves.counts_groups (moves : Moves c reader next)
    (mark : ∀ pending, reader.mode = .opener pending [] → c = '?')
    (spaced : reader.flags.spaced = false) (own : reader.mode.isForeign = false) :
    Counts c reader next := by
  induction moves with
  | @turns reader mode turns =>
    cases foreign : mode.isForeign with
    | true => exact counts_foreign rfl foreign
    | false =>
      rcases turns.counted spaced own foreign with ⟨pending, rfl, before, rfl⟩ | ⟨same, silent⟩
      · refine ⟨rfl, fun _ => .inr ⟨by rw [before]; rfl, ?_⟩, fun _ _ => rfl⟩
        simp [Reader.unclosed, enter, before]
      · refine counts_silent rfl ?_ silent fun pending begun => ?_
        · simp only [Reader.unclosed, enter, same]
        · obtain rfl : mode = .opener pending [] := begun
          exact turns.begins spaced
  | completes completes =>
    obtain ⟨opening, silent⟩ := completes.counted own
    exact Stays.counts ⟨rfl, rfl, rfl⟩ opening silent
  | counts part _ sign =>
    refine Stays.counts ⟨rfl, rfl, rfl⟩ (Mode.isOpening_of_isPart part).1 (.inr ⟨?_, ?_⟩)
    · rintro rfl
      simp at sign
    · rintro rfl
      simp at sign
  | reluctant mode sign | possessive mode sign =>
    subst sign
    exact Stays.counts ⟨rfl, rfl, rfl⟩ (by rw [mode]; rfl) (.inr (by decide))
  | splits mode sign =>
    subst sign
    exact Stays.counts ⟨rfl, rfl, by rw [mode]; rfl⟩ (by rw [mode]; rfl) (.inr (by decide))
  | opens marked sign opened =>
    obtain rfl := openGroup_eq_some opened
    have opening := Mode.isOpening_of_isMarked marked
    refine ⟨rfl, fun _ => .inr ⟨heard_of_isOpening opening, ?_⟩, fun _ begun => by cases begun⟩
    have other : c ≠ '(' ∧ c ≠ ')' := by
      refine ⟨?_, ?_⟩ <;> rintro rfl <;> simp at sign
    simp [Reader.unclosed, opening, other]
  | names mode =>
    rw [mode] at own
    cases own
  | closes mode sign closed =>
    obtain ⟨frame, frames, flags, here, rfl⟩ := closeGroup_eq_some closed
    refine ⟨rfl, fun _ => .inr ⟨by rw [mode]; rfl, ?_⟩, fun _ begun => by cases begun⟩
    simp [Reader.unclosed, sign, mode, here]
  | sets marked sign =>
    have opening := Mode.isOpening_of_isMarked marked
    refine ⟨rfl, fun _ => .inr ⟨heard_of_isOpening opening, ?_⟩, fun _ begun => by cases begun⟩
    simp [Reader.unclosed, sign, opening]
  | @resolves reader base next resolved _ ih =>
    have part : reader.mode.isPart = true := by
      refine (isPart_of_resolved resolved).resolve_right ?_
      rintro ⟨number, mode⟩
      rw [mode] at own
      cases own
    obtain ⟨opening, heard⟩ := Mode.isOpening_of_isPart part
    obtain ⟨pending, ready⟩ := isReady_resolved resolved
    obtain ⟨mode, level, referred, rfl⟩ := resolved_same resolved
    obtain rfl : mode = .ready pending := ready
    refine (ih (fun _ begun => by cases begun) spaced rfl).after rfl ?_ heard.symm
    simp [Reader.unclosed, opening]
  | flushes mode _ ih =>
    refine (ih (fun _ begun => by cases begun) spaced rfl).after rfl ?_ (by rw [mode]; rfl)
    simp [Reader.unclosed, flush, mode]
  | flushesOpener mode _ ih =>
    refine (ih ?_ spaced rfl).after rfl ?_ (by rw [mode]; rfl)
    · intro _ same
      cases same
      exact mark _ mode
    · simp [Reader.unclosed, enter, flush, mode]
  | captures mode sign => exact absurd (mark _ mode) sign

/-- A step opens no capture group, if the parenthesis of a group has a question mark after it and
groups have no names. -/
theorem counts_of_step (mark : ∀ pending, reader.mode = .opener pending [] → c = '?')
    (spaced : reader.flags.spaced = false) (own : reader.mode.isForeign = false)
    (h : reader.step c = some next) : Counts c reader next :=
  (moves_of_step h).counts_groups mark spaced own

end Counting

end Reader

end PathTemplate
