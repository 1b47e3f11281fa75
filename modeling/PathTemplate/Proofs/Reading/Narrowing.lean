/-
Readers that go on in the same way with the digits and word characters of ASCII.

`Reader.Narrows` relates a reader to one whose expressions are those of the first, narrowed.
`Reader.Narrows.step` says that a step keeps this up, and `Reader.Narrows.finish` that both texts
may end or neither. There is one lemma for each function of the reader.
-/

import PathTemplate.Proofs.Reading.Brackets
import PathTemplate.Proofs.Reading.Pinning

namespace PathTemplate

inductive Pending.Narrows : Pending → Pending → Prop where
  | nothing : Narrows .nothing .nothing
  | atom {e e' : Expr} : e.Narrows e' → Narrows (.atom e) (.atom e')
  | counted (least : Nat) (most : Option Nat) {e e' : Expr} : e.Narrows e' →
      Narrows (.counted least most e) (.counted least most e')
  | reluctant {e e' : Expr} : e.Narrows e' → Narrows (.reluctant e) (.reluctant e')

structure Level.Narrows (level level' : Level) : Prop where
  earlier : Option.Rel Expr.Narrows level.earlier level'.earlier
  branch : level.branch.Narrows level'.branch

structure Frame.Narrows (frame frame' : Frame) : Prop where
  opener : frame'.opener = frame.opener
  around : frame.around.Narrows frame'.around

inductive Mode.Narrows : Mode → Mode → Prop where
  | ready {p p' : Pending} : p.Narrows p' → Narrows (.ready p) (.ready p')
  | brace {e e' : Expr} (text : List Char) :
      e.Narrows e' → Narrows (.brace e text) (.brace e' text)
  | escape {cls cls' : Option ClassReader} : Option.Rel ClassReader.Narrows cls cls' →
      Narrows (.escape cls) (.escape cls')
  | reference (number : Nat) : Narrows (.reference number) (.reference number)
  | referenceOpen : Narrows .referenceOpen .referenceOpen
  /-- Neither a backslash nor a bracket ends a name. -/
  | referenceName {close : Char} (text : List Char) : close ≠ '\\' → close ≠ '[' →
      Narrows (.referenceName close text) (.referenceName close text)
  | hexOpen {cls cls' : Option ClassReader} (digits : Nat) :
      Option.Rel ClassReader.Narrows cls cls' → Narrows (.hexOpen cls digits) (.hexOpen cls' digits)
  | hex {cls cls' : Option ClassReader} (digits value : Nat) :
      Option.Rel ClassReader.Narrows cls cls' →
      Narrows (.hex cls digits value) (.hex cls' digits value)
  | hexBrace {cls cls' : Option ClassReader} (digits value : Nat) :
      Option.Rel ClassReader.Narrows cls cls' →
      Narrows (.hexBrace cls digits value) (.hexBrace cls' digits value)
  | bracket {cls cls' : ClassReader} : cls.Narrows cls' → Narrows (.bracket cls) (.bracket cls')
  | opener {p p' : Pending} (text : List Char) : p.Narrows p' →
      Narrows (.opener p text) (.opener p' text)
  | groupName (text : List Char) : Narrows (.groupName text) (.groupName text)
  | flags (flags : Flags) (off dash begun : Bool) :
      Narrows (.flags flags off dash begun) (.flags flags off dash begun)
  | comment {p p' : Pending} (escaped : Bool) : p.Narrows p' →
      Narrows (.comment p escaped) (.comment p' escaped)
  | lineComment {p p' : Pending} : p.Narrows p' → Narrows (.lineComment p) (.lineComment p')

/-- A class is being read in which only a bracket or a dash may follow. -/
def Mode.isStuck : Mode → Bool
  | .bracket cls | .escape (some cls)
  | .hexOpen (some cls) _ | .hex (some cls) .. | .hexBrace (some cls) .. => cls.isStuck
  | _ => false

theorem Level.Narrows.expr {level level' : Level} (h : level.Narrows level') :
    level.expr.Narrows level'.expr := by
  obtain ⟨earlier, branch⟩ := h
  unfold Level.expr
  generalize level.earlier = before at earlier
  generalize level'.earlier = before' at earlier
  cases earlier with
  | none => exact branch
  | some first => exact first.alt branch

theorem Opener.narrows_wrap (opener : Opener) {e e' : Expr} (h : e.Narrows e') :
    (opener.wrap e).Narrows (opener.wrap e') := by
  cases opener with
  | plain => exact h
  | capture number => exact .group number h
  | ahead negated => exact .ahead negated h
  | behind negated => exact .behind negated h
  | atomic => exact .atomic h

namespace Reader

/-- Apart from its mode, the second reader is what the first one is, narrowed. -/
structure Parallels (reader reader' : Reader) : Prop where
  level : reader.level.Narrows reader'.level
  frames : List.Forall₂ Frame.Narrows reader.frames reader'.frames
  flags : reader'.flags = reader.flags
  opened : reader'.opened = reader.opened
  names : reader'.names = reader.names
  referred : reader'.referred = reader.referred

/-- The second reader goes on as the first one does, narrowed. -/
structure Narrows (reader reader' : Reader) : Prop extends Parallels reader reader' where
  mode : reader.mode.Narrows reader'.mode

/-- What is read in the same way, unless it faults in a class where a shorthand and a dash were
read. -/
def NarrowsTo (stuck : Bool) (o o' : Option Reader) : Prop :=
  (stuck = true → o.isSome = true) → Option.Rel Narrows o o'

section Narrows

variable {reader reader' : Reader} {c : Char} {stuck : Bool}

theorem NarrowsTo.rel {o o' : Option Reader} (h : NarrowsTo false o o') : Option.Rel Narrows o o' :=
  h fun stuck => absurd stuck Bool.false_ne_true

theorem NarrowsTo.none : NarrowsTo stuck none none := fun _ => .none

theorem Narrows.narrowsTo (h : reader.Narrows reader') :
    NarrowsTo stuck (some reader) (some reader') :=
  fun _ => .some h

theorem Parallels.enter (h : reader.Parallels reader') {mode mode' : Mode}
    (modes : mode.Narrows mode') : (reader.enter mode).Narrows (reader'.enter mode') :=
  ⟨⟨h.level, h.frames, h.flags, h.opened, h.names, h.referred⟩, modes⟩

theorem Parallels.loop (h : reader.Parallels reader') (least : Nat) (most : Option Nat)
    (reluctant : Bool) {e e' : Expr} (inner : e.Narrows e') :
    (reader.loop least most reluctant e).Narrows (reader'.loop least most reluctant e') := by
  unfold Reader.loop
  rw [h.flags]
  exact inner.loop ..

theorem Parallels.part (h : reader.Parallels reader') {p p' : Pending} (pending : p.Narrows p') :
    (reader.part p).Narrows (reader'.part p') := by
  cases pending with
  | nothing => exact .empty
  | atom inner => exact inner
  | counted least most inner => exact h.loop _ _ _ inner
  | reluctant inner => exact inner

theorem Parallels.push (h : reader.Parallels reader') {e e' : Expr} (part : e.Narrows e')
    {mode mode' : Mode} (modes : mode.Narrows mode') :
    ({ reader with level := reader.level.push e, mode } : Reader).Narrows
      { reader' with level := reader'.level.push e', mode := mode' } :=
  ⟨⟨⟨h.level.earlier, h.level.branch.append part⟩, h.frames, h.flags, h.opened, h.names,
    h.referred⟩, modes⟩

theorem Parallels.flush (h : reader.Parallels reader') {p p' : Pending} (pending : p.Narrows p') :
    (reader.flush p).Narrows (reader'.flush p') :=
  h.push (h.part pending) (.ready .nothing)

theorem Parallels.atom (h : reader.Parallels reader') {e e' : Expr} (inner : e.Narrows e') :
    (reader.atom .nothing e).Narrows (reader'.atom .nothing e') :=
  (h.flush .nothing).enter (.ready (.atom inner))

theorem Parallels.one (h : reader.Parallels reader') {set set' : CharSet}
    (sets : set.Narrows set') :
    (reader.atom .nothing (.one set)).Narrows (reader'.atom .nothing (.one set')) :=
  h.atom (.one sets)

theorem Parallels.literal (h : reader.Parallels reader') (c : Char) :
    (reader.literal c).Narrows (reader'.literal c) := by
  unfold Reader.literal
  rw [h.flags]
  exact h.atom (.character _ c)

theorem Parallels.classSymbol (h : reader.Parallels reader') {cls cls' : ClassReader}
    (classes : cls.Narrows cls') {symbol : ClassSymbol} (fixed : symbol.IsFixed) :
    NarrowsTo cls.isStuck (reader.classSymbol cls symbol) (reader'.classSymbol cls' symbol) := by
  intro free
  have narrows := classes.step fixed
  unfold Reader.classSymbol at free ⊢
  cases result : cls.step symbol with
  | none =>
    rw [result] at free narrows
    have none : cls.isStuck = false := Bool.eq_false_iff.2 fun stuck => by cases free stuck
    cases result' : cls'.step symbol with
    | none => exact .none
    | some result' =>
      rw [result', none] at narrows
      cases narrows nofun
  | some result =>
    rw [result] at narrows
    cases result' : cls'.step symbol with
    | none =>
      rw [result'] at narrows
      cases narrows fun _ => rfl
    | some result' =>
      rw [result'] at narrows
      cases narrows fun _ => rfl with
      | some results =>
        cases results with
        | more classes => exact .some (h.enter (.bracket classes))
        | done sets => exact .some (h.one sets)

section Escapes

variable {cls cls' : Option ClassReader}

/-- Where no class is read nothing is stuck. -/
abbrev isStuckIn (cls : Option ClassReader) : Bool := cls.any ClassReader.isStuck

theorem Parallels.escaped (h : reader.Parallels reader')
    (classes : Option.Rel ClassReader.Narrows cls cls') (fold : Bool) (d : Char) :
    NarrowsTo (isStuckIn cls) (reader.escaped cls fold d) (reader'.escaped cls' fold d) := by
  cases classes with
  | none => exact (h.atom (.character fold d)).narrowsTo
  | some classes => exact h.classSymbol classes trivial

theorem Parallels.shorthand (h : reader.Parallels reader')
    (classes : Option.Rel ClassReader.Narrows cls cls') {set : CharSet}
    (fixed : set.narrowed = set) :
    NarrowsTo (isStuckIn cls) (reader.shorthand cls set) (reader'.shorthand cls' set) := by
  cases classes with
  | none => exact (h.one (CharSet.narrows_self fixed)).narrowsTo
  | some classes => exact h.classSymbol classes fixed

theorem Parallels.hexShorthand (h : reader.Parallels reader')
    (classes : Option.Rel ClassReader.Narrows cls cls') {set : CharSet}
    (fixed : set.narrowed = set) :
    NarrowsTo (isStuckIn cls) (reader.hexShorthand cls set) (reader'.hexShorthand cls' set) := by
  cases classes with
  | none => exact (h.one (CharSet.narrows_self fixed)).narrowsTo
  | some classes => exact h.classSymbol classes fixed

theorem Parallels.stepEscape (h : reader.Parallels reader')
    (classes : Option.Rel ClassReader.Narrows cls cls') (other : c ∉ pinnedShorthands) :
    NarrowsTo (isStuckIn cls) (reader.stepEscape cls c) (reader'.stepEscape cls' c) := by
  have inClass : cls'.isSome = cls.isSome := by cases classes <;> rfl
  simp only [Reader.stepEscape, inClass]
  repeat' split
  all_goals first
    | exact .none
    | exact absurd (by decide) other
    | exact (h.atom (.edge _)).narrowsTo
    | exact h.classSymbol (by cases classes; assumption) trivial
    | exact h.escaped classes _ _
    | exact h.shorthand classes rfl
    | exact h.hexShorthand classes rfl
    | exact (h.enter (.reference _)).narrowsTo
    | exact (h.enter .referenceOpen).narrowsTo
    | exact (h.enter (.hexOpen _ classes)).narrowsTo
    | exact (h.atom (.atomic (.edge _))).narrowsTo
    | cases classes

end Escapes

theorem Parallels.quantify (h : reader.Parallels reader') {p p' : Pending}
    (pending : p.Narrows p') (least : Nat) (most : Option Nat) :
    NarrowsTo stuck (reader.quantify p least most) (reader'.quantify p' least most) := by
  unfold Reader.quantify
  cases pending with
  | atom inner =>
    dsimp only
    rw [inner.isRepeatable]
    split
    · exact (h.enter (.ready (.counted least most inner))).narrowsTo
    · exact .none
  | nothing | counted | reluctant => exact .none

theorem Parallels.openGroup (h : reader.Parallels reader') (opener : Opener) :
    NarrowsTo stuck (reader.openGroup opener) (reader'.openGroup opener) := by
  unfold Reader.openGroup
  rw [← h.frames.length_eq]
  split
  · refine Narrows.narrowsTo ⟨⟨⟨.none, .empty⟩, .cons ⟨rfl, h.level⟩ h.frames, h.flags, h.opened,
      h.names, h.referred⟩, .ready .nothing⟩
  · exact .none

theorem Parallels.openCapture (h : reader.Parallels reader') :
    NarrowsTo stuck reader.openCapture reader'.openCapture := by
  have raised : ({ reader with opened := reader.opened + 1 } : Reader).Parallels
      { reader' with opened := reader.opened + 1 } :=
    ⟨h.level, h.frames, h.flags, rfl, h.names, h.referred⟩
  simp only [Reader.openCapture, h.opened]
  exact raised.openGroup _

theorem Parallels.levelAllowed (h : reader.Parallels reader') :
    reader'.levelAllowed = reader.levelAllowed := by
  have earlier : reader'.level.earlier.isSome = reader.level.earlier.isSome := by
    have earlier := h.level.earlier
    generalize reader.level.earlier = before at earlier
    generalize reader'.level.earlier = before' at earlier
    cases earlier <;> rfl
  simp only [Reader.levelAllowed, earlier, h.referred, h.names]

theorem Parallels.closeGroup (h : reader.Parallels reader') :
    NarrowsTo stuck reader.closeGroup reader'.closeGroup := by
  have frames := h.frames
  unfold Reader.closeGroup
  rw [h.levelAllowed, h.flags]
  generalize reader.frames = open_ at frames
  generalize reader'.frames = open_' at frames
  cases frames with
  | nil => exact .none
  | @cons frame frame' _ _ here rest =>
    dsimp only
    rw [here.opener]
    split
    · exact Narrows.narrowsTo ⟨⟨here.around, rest, rfl, h.opened, h.names, h.referred⟩,
        .ready (.atom (frame.opener.narrows_wrap h.level.expr))⟩
    · exact .none

theorem Parallels.split (h : reader.Parallels reader') :
    ({ reader with level := reader.level.split, mode := .ready .nothing } : Reader).Narrows
      { reader' with level := reader'.level.split, mode := .ready .nothing } :=
  ⟨⟨⟨.some h.level.expr, .empty⟩, h.frames, h.flags, h.opened, h.names, h.referred⟩,
    .ready .nothing⟩

theorem Parallels.stepReady (h : reader.Parallels reader') {p p' : Pending}
    (pending : p.Narrows p') (ready : reader.mode = .ready p) (ready' : reader'.mode = .ready p') :
    NarrowsTo stuck (reader.stepReady p c) (reader'.stepReady p' c) := by
  have base := (h.flush pending).toParallels
  have stay : reader.Narrows reader' := ⟨h, by rw [ready, ready']; exact .ready pending⟩
  unfold Reader.stepReady
  simp only [h.flags]
  by_cases blank : (reader.flags.spaced && isSpacing c) = true
  · simp only [blank, if_true]
    cases pending with
    | reluctant inner => exact (base.enter (.ready .nothing)).narrowsTo
    | nothing | atom | counted => exact stay.narrowsTo
  · simp only [blank, Bool.false_eq_true, if_false]
    split
    case h_1 =>
      cases pending with
      | counted least most inner =>
        exact (h.enter (.ready (.reluctant (h.loop _ _ _ inner)))).narrowsTo
      | nothing => exact h.quantify .nothing _ _
      | atom inner => exact h.quantify (.atom inner) _ _
      | reluctant inner => exact h.quantify (.reluctant inner) _ _
    case h_2 => exact h.quantify pending _ _
    case h_3 =>
      cases pending with
      | counted least most inner =>
        exact (h.flush (.atom (.atomic (h.loop _ _ _ inner)))).narrowsTo
      | nothing => exact h.quantify .nothing _ _
      | atom inner => exact h.quantify (.atom inner) _ _
      | reluctant inner => exact (h.flush (.atom (.atomic inner))).narrowsTo
    case h_4 =>
      cases pending with
      | atom inner => exact (h.enter (.brace [] inner)).narrowsTo
      | nothing | counted | reluctant => exact (base.literal _).narrowsTo
    case h_5 =>
      refine (base.one (CharSet.narrows_self ?_)).narrowsTo
      split <;> rfl
    case h_6 => exact (base.atom (.edge _)).narrowsTo
    case h_7 => exact (base.atom (.edge _)).narrowsTo
    case h_8 =>
      have fresh (fold : Bool) : ClassReader.Narrows { fold } { fold } :=
        ⟨⟨rfl, .nil⟩, .same ⟨rfl, CharSet.narrows_self rfl, .none⟩ rfl trivial⟩
      exact (base.enter (.bracket (fresh _))).narrowsTo
    case h_9 => exact (base.enter (.escape .none)).narrowsTo
    case h_10 => exact (h.enter (.opener [] pending)).narrowsTo
    case h_11 => exact base.closeGroup
    case h_12 => exact base.split.narrowsTo
    case h_13 =>
      split
      · cases pending with
        | reluctant => exact (base.enter (.lineComment .nothing)).narrowsTo
        | nothing => exact (h.enter (.lineComment .nothing)).narrowsTo
        | atom inner => exact (h.enter (.lineComment (.atom inner))).narrowsTo
        | counted least most inner =>
          exact (h.enter (.lineComment (.counted least most inner))).narrowsTo
      · exact (base.literal _).narrowsTo
    case h_14 => exact (base.literal _).narrowsTo

/-- Readers between two parts go on in the same way. -/
theorem Narrows.stepReady (h : reader.Narrows reader') {p p' : Pending}
    (ready : reader.mode = .ready p) (ready' : reader'.mode = .ready p') :
    NarrowsTo stuck (reader.stepReady p c) (reader'.stepReady p' c) := by
  have modes := h.mode
  rw [ready, ready'] at modes
  cases modes with
  | ready pending => exact h.toParallels.stepReady pending ready ready'

theorem Parallels.stepFlags (h : reader.Parallels reader') (flags : Flags)
    (off dash begun : Bool) :
    NarrowsTo stuck (reader.stepFlags flags off dash begun c)
      (reader'.stepFlags flags off dash begun c) := by
  have changed : ({ reader with flags } : Reader).Parallels { reader' with flags } :=
    ⟨h.level, h.frames, rfl, h.opened, h.names, h.referred⟩
  unfold Reader.stepFlags
  simp only [h.flags, ← h.frames.length_eq]
  repeat' split
  all_goals first
    | exact .none
    | exact (h.enter (.flags _ _ _ _)).narrowsTo
    | exact (changed.enter (.ready (.atom .empty))).narrowsTo
    | exact changed.openGroup _

/-- One after the other, where the first is no class. -/
theorem NarrowsTo.bind {o o' : Option Reader} {f f' : Reader → Option Reader}
    (first : NarrowsTo false o o')
    (rest : ∀ next next', o = some next → o' = some next' → next.Narrows next' →
      NarrowsTo stuck (f next) (f' next')) :
    NarrowsTo stuck (o.bind f) (o'.bind f') := by
  intro free
  cases first.rel with
  | none => exact .none
  | some narrows => exact rest _ _ rfl rfl narrows free

theorem stepOpener_capture (reader : Reader) {pending : Pending} (mark : c ≠ '?')
    (visible : (reader.flags.spaced && isSpacing c) = false) :
    reader.stepOpener pending [] c =
      (reader.flush pending).openCapture.bind fun opened => opened.stepReady .nothing c := by
  simp only [stepOpener, mark, visible, Bool.false_eq_true, if_false]
  cases (reader.flush pending).openCapture <;> rfl

theorem Parallels.stepOpener (h : reader.Parallels reader') {p p' : Pending}
    (pending : p.Narrows p') {text : List Char} (mode : reader.mode = .opener p text)
    (mode' : reader'.mode = .opener p' text) :
    NarrowsTo stuck (reader.stepOpener p text c) (reader'.stepOpener p' text c) := by
  have base := (h.flush pending).toParallels
  have stay : reader.Narrows reader' := ⟨h, by rw [mode, mode']; exact .opener _ pending⟩
  cases text with
  | nil =>
    by_cases mark : c = '?'
    · simp only [Reader.stepOpener, mark, if_true]
      exact (h.enter (.opener _ pending)).narrowsTo
    · cases visible : (reader.flags.spaced && isSpacing c) with
      | true =>
        simp only [Reader.stepOpener, h.flags, mark, visible, if_false, if_true]
        exact stay.narrowsTo
      | false =>
        rw [stepOpener_capture reader mark visible,
          stepOpener_capture reader' mark (h.flags.symm ▸ visible)]
        refine base.openCapture.bind fun next next' opens opens' narrows => ?_
        exact narrows.stepReady (openCapture_eq_some opens).2 (openCapture_eq_some opens').2
  | cons first text =>
    simp only [Reader.stepOpener]
    split
    case h_2 =>
      split
      case h_1 =>
        cases pending with
        | reluctant => exact (base.enter (.comment false .nothing)).narrowsTo
        | nothing => exact (h.enter (.comment false .nothing)).narrowsTo
        | atom inner => exact (h.enter (.comment false (.atom inner))).narrowsTo
        | counted least most inner =>
          exact (h.enter (.comment false (.counted least most inner))).narrowsTo
      case h_2 => exact base.openGroup (.ahead _)
      case h_3 => exact base.openGroup (.ahead _)
      case h_4 => exact base.openGroup .atomic
      case h_5 => exact (base.enter (.opener _ .nothing)).narrowsTo
      case h_6 => exact (base.enter (.opener _ .nothing)).narrowsTo
      case h_7 => exact .none
      case h_8 => exact base.flags ▸ base.stepFlags _ _ _ _
    all_goals repeat' split
    all_goals first
      | exact .none
      | exact base.openGroup (.behind _)
      | exact (base.enter (.groupName _)).narrowsTo
      | exact (base.enter (.referenceName _ (by decide) (by decide))).narrowsTo
      | contradiction

theorem Parallels.stepGroupName (h : reader.Parallels reader') (text : List Char) :
    NarrowsTo stuck (reader.stepGroupName text c) (reader'.stepGroupName text c) := by
  have named : ({ reader with names := (text.reverse, reader.opened + 1) :: reader.names } :
      Reader).Parallels
        { reader' with names := (text.reverse, reader'.opened + 1) :: reader'.names } :=
    ⟨h.level, h.frames, h.flags, h.opened, by rw [h.opened, h.names], h.referred⟩
  unfold Reader.stepGroupName
  repeat' split
  · exact (h.enter (.groupName _)).narrowsTo
  · exact named.openCapture
  · exact .none

theorem Narrows.flushed (h : reader.Narrows reader') : reader.flushed.Narrows reader'.flushed := by
  refine h.toParallels.flush ?_
  have modes := h.mode
  unfold Reader.pending
  generalize reader.mode = mode at modes
  generalize reader'.mode = mode' at modes
  cases modes with
  | ready pending => exact pending
  | _ => exact .nothing

theorem Narrows.took (h : reader.Narrows reader') {e e' : Expr} (inner : e.Narrows e') :
    (reader.took e).Narrows (reader'.took e') :=
  h.flushed.enter (.ready (.atom inner))

theorem Narrows.spelledOut (h : reader.Narrows reader') (fold : Bool) (text : List Char) :
    (reader.spelledOut fold text).Narrows (reader'.spelledOut fold text) := by
  induction text generalizing reader reader' with
  | nil => exact h
  | cons c text ih => exact ih (h.took (.character fold c))

theorem Parallels.spellBrace (h : reader.Parallels reader') {e e' : Expr} (inner : e.Narrows e')
    (text : List Char) : (reader.spellBrace e text).Narrows (reader'.spellBrace e' text) := by
  rw [spellBrace_eq, spellBrace_eq, h.flags]
  exact (h.enter (.ready (.atom inner))).spelledOut _ _

theorem Parallels.stepBrace (h : reader.Parallels reader') {e e' : Expr} (inner : e.Narrows e')
    (text : List Char) :
    NarrowsTo stuck (reader.stepBrace e text c) (reader'.stepBrace e' text c) := by
  obtain ⟨p, ready⟩ := spellBrace_ready e text reader
  obtain ⟨p', ready'⟩ := spellBrace_ready e' text reader'
  have spelled : NarrowsTo stuck ((reader.spellBrace e text).stepReady p c)
      ((reader'.spellBrace e' text).stepReady p' c) :=
    (h.spellBrace inner text).stepReady ready ready'
  simp only [Reader.stepBrace, h.flags, ready, ready']
  repeat' split
  all_goals first
    | exact (h.enter (.brace _ inner)).narrowsTo
    | exact h.quantify (.atom inner) _ _
    | exact spelled

theorem Parallels.isOpen (h : reader.Parallels reader') (number : Nat) :
    reader'.isOpen number = reader.isOpen number := by
  have frames := h.frames
  unfold Reader.isOpen
  generalize reader.frames = open_ at frames
  generalize reader'.frames = open_' at frames
  congr 1
  induction frames with
  | nil => rfl
  | cons here _ ih => rw [List.any_cons, List.any_cons, ih, here.opener]

theorem Parallels.refer (h : reader.Parallels reader') (number : Nat) :
    NarrowsTo stuck (reader.refer number) (reader'.refer number) := by
  unfold Reader.refer
  rw [h.opened, h.isOpen]
  split
  · refine (h.atom ?_).narrowsTo
    split
    · exact .never
    · exact .back number
  · exact .none

theorem Parallels.referDecimal (h : reader.Parallels reader') (number : Nat) :
    NarrowsTo stuck (reader.referDecimal number) (reader'.referDecimal number) := by
  have counted : ({ reader with referred := some (max number (reader.referred.getD 0)) } :
      Reader).Parallels
        { reader' with referred := some (max number (reader'.referred.getD 0)) } :=
    ⟨h.level, h.frames, h.flags, h.opened, h.names, by rw [h.referred]⟩
  exact counted.refer number

/-- Neither reader may refer to the group, or both go on after the reference with a repeatable
part. -/
theorem Parallels.referDecimal_cases (h : reader.Parallels reader') (number : Nat) :
    (reader.referDecimal number = none ∧ reader'.referDecimal number = none) ∨
    ∃ last last' e e', reader.referDecimal number = some last ∧
      reader'.referDecimal number = some last' ∧ last.mode = .ready (.atom e) ∧
      last'.mode = .ready (.atom e') ∧ last.Narrows last' := by
  have refers : Option.Rel Narrows (reader.referDecimal number) (reader'.referDecimal number) :=
    NarrowsTo.rel (h.referDecimal number)
  generalize found : reader.referDecimal number = next at refers
  generalize found' : reader'.referDecimal number = next' at refers
  cases refers with
  | none => exact .inl ⟨rfl, rfl⟩
  | some narrows =>
    obtain ⟨e, ready⟩ := ready_of_refer found
    obtain ⟨e', ready'⟩ := ready_of_refer found'
    exact .inr ⟨_, _, e, e', rfl, rfl, ready, ready', narrows⟩

theorem Parallels.referNamed (h : reader.Parallels reader') (text : List Char) :
    NarrowsTo stuck (reader.referNamed text) (reader'.referNamed text) := by
  simp only [Reader.referNamed, h.names]
  repeat' split
  · exact h.refer _
  · exact h.refer _
  · exact .none

theorem Parallels.stepReferenceName (h : reader.Parallels reader') {close : Char}
    (notSlash : close ≠ '\\') (notBracket : close ≠ '[') (text : List Char) :
    NarrowsTo stuck (reader.stepReferenceName close text c)
      (reader'.stepReferenceName close text c) := by
  unfold Reader.stepReferenceName
  repeat' split
  · exact (h.enter (.referenceName _ notSlash notBracket)).narrowsTo
  · exact h.referNamed text
  · exact .none

section Hexadecimal

variable {cls cls' : Option ClassReader} (h : reader.Parallels reader')
  (classes : Option.Rel ClassReader.Narrows cls cls')
include h classes

theorem Parallels.hexDone (value : Nat) :
    NarrowsTo (isStuckIn cls) (reader.hexDone cls value) (reader'.hexDone cls' value) := by
  unfold Reader.hexDone
  rw [h.flags]
  split
  · exact h.escaped classes _ _
  · exact .none

theorem Parallels.stepHexOpen (digits : Nat) :
    NarrowsTo (isStuckIn cls) (reader.stepHexOpen cls digits c)
      (reader'.stepHexOpen cls' digits c) := by
  unfold Reader.stepHexOpen
  repeat' split
  · exact (h.enter (.hexBrace _ _ classes)).narrowsTo
  · exact (h.enter (.hex _ _ classes)).narrowsTo
  · exact .none

theorem Parallels.stepHex (digits value : Nat) :
    NarrowsTo (isStuckIn cls) (reader.stepHex cls digits value c)
      (reader'.stepHex cls' digits value c) := by
  unfold Reader.stepHex
  repeat' split
  · exact h.hexDone classes _
  · exact (h.enter (.hex _ _ classes)).narrowsTo
  · exact .none

theorem Parallels.stepHexBrace (digits value : Nat) :
    NarrowsTo (isStuckIn cls) (reader.stepHexBrace cls digits value c)
      (reader'.stepHexBrace cls' digits value c) := by
  unfold Reader.stepHexBrace
  repeat' split
  · exact h.hexDone classes _
  · exact (h.enter (.hexBrace _ _ classes)).narrowsTo
  · exact .none
  · exact .none

end Hexadecimal

/-- A step keeps up that the second reader does what the first one does, narrowed. Shorthands for
digits and word characters are left out, which are not written in the same way. -/
theorem Narrows.step (h : reader.Narrows reader')
    (other : ∀ cls, reader.mode = .escape cls → c ∉ pinnedShorthands) :
    NarrowsTo reader.mode.isStuck (reader.step c) (reader'.step c) := by
  have around := h.toParallels
  have modes := h.mode
  unfold Reader.step
  generalize mode : reader.mode = here at modes other
  generalize mode' : reader'.mode = here' at modes
  cases modes with
  | ready pending => exact around.stepReady pending mode mode'
  | brace text inner => exact around.stepBrace inner text
  | escape classes =>
    have escapes := around.stepEscape classes (other _ rfl)
    cases classes <;> exact escapes
  | reference number =>
    dsimp only
    split
    · exact (around.enter (.reference _)).narrowsTo
    · obtain ⟨none, none'⟩ | ⟨last, last', e, e', found, found', ready, ready', narrows⟩ :=
        around.referDecimal_cases number
      · rw [none, none']
        exact .none
      · simp only [found, found', ready, ready']
        exact narrows.stepReady ready ready'
  | referenceOpen =>
    dsimp only
    repeat' split
    · exact (around.enter (.referenceName _ (by decide) (by decide))).narrowsTo
    · exact (around.enter (.referenceName _ (by decide) (by decide))).narrowsTo
    · exact .none
  | referenceName text notSlash notBracket =>
    exact around.stepReferenceName notSlash notBracket text
  | hexOpen digits classes =>
    have next := @Parallels.stepHexOpen _ _ c _ _ around classes digits
    cases classes <;> exact next
  | hex digits value classes =>
    have next := @Parallels.stepHex _ _ c _ _ around classes digits value
    cases classes <;> exact next
  | hexBrace digits value classes =>
    have next := @Parallels.stepHexBrace _ _ c _ _ around classes digits value
    cases classes <;> exact next
  | bracket classes =>
    dsimp only
    split
    · exact (around.enter (.escape (.some classes))).narrowsTo
    · exact around.classSymbol classes trivial
  | opener text pending => exact around.stepOpener pending mode mode'
  | groupName text => exact around.stepGroupName text
  | flags flags off dash begun => exact around.stepFlags flags off dash begun
  | comment escaped pending =>
    dsimp only
    repeat' split
    · exact (around.enter (.comment _ pending)).narrowsTo
    · exact (around.enter (.comment _ pending)).narrowsTo
    · exact (around.enter (.ready pending)).narrowsTo
    · exact h.narrowsTo
  | lineComment pending =>
    dsimp only
    split
    · exact (around.enter (.ready pending)).narrowsTo
    · exact h.narrowsTo

/-- Both texts may end, or neither. -/
theorem Narrows.finish (h : reader.Narrows reader') :
    Option.Rel Narrows reader.finish reader'.finish := by
  have around := h.toParallels
  have modes := h.mode
  have kept {base base' : Reader} (narrows : base.Narrows base') :
      Option.Rel Narrows
        (if (base.frames.isEmpty && base.levelAllowed) = true then some base else none)
        (if (base'.frames.isEmpty && base'.levelAllowed) = true then some base' else none) := by
    have closed : base'.frames.isEmpty = base.frames.isEmpty := by
      have length := narrows.frames.length_eq
      cases here : base.frames <;> cases here' : base'.frames <;>
        simp [here, here'] at length ⊢
    rw [closed, narrows.levelAllowed]
    split
    · exact .some narrows
    · exact .none
  have flushes {base base' : Reader} {p p' : Pending} (narrows : base.Narrows base')
      (ready : base.mode = .ready p) (ready' : base'.mode = .ready p') :
      (base.flush p).Narrows (base'.flush p') := by
    rw [← flushed_eq ready, ← flushed_eq ready']
    exact narrows.flushed
  generalize mode : reader.mode = here at modes
  generalize mode' : reader'.mode = here' at modes
  cases modes with
  | ready pending | lineComment pending =>
    simp only [Reader.finish, mode, mode']
    exact kept (around.flush pending)
  | @brace e e' text inner =>
    obtain ⟨p, ready⟩ := spellBrace_ready e text reader
    obtain ⟨p', ready'⟩ := spellBrace_ready e' text reader'
    simp only [Reader.finish, mode, mode', ready, ready']
    exact kept (flushes (around.spellBrace inner text) ready ready')
  | reference number =>
    simp only [Reader.finish, mode, mode']
    obtain ⟨none, none'⟩ | ⟨last, last', e, e', found, found', ready, ready', narrows⟩ :=
      around.referDecimal_cases number
    · rw [none, none']
      exact .none
    · simp only [found, found', ready, ready']
      exact kept (flushes narrows ready ready')
  | _ =>
    simp only [Reader.finish, mode, mode']
    exact .none

end Narrows

end Reader

end PathTemplate
