/-
Readers that go on in the same way.

`Reader.Like` relates readers whose expressions resemble one another, and `Reader.Like.step` says
that a step keeps readers alike. Nothing is said of readings that open capture groups. There is
one lemma for each function of the reader.
-/

import PathTemplate.Proofs.Reading.Progress
import PathTemplate.Proofs.Reading.Resemblance

namespace PathTemplate

/-- Which flags both readings have in common besides the one for blanks, without which they would
not go on in the same way. -/
inductive Flags.Shared where
  | none
  /-- The flags for letter case and for lines. -/
  | shown
  | all
deriving DecidableEq

/-- These flags are the same in both readings. -/
structure Flags.Agree (shared : Shared) (flags flags' : Flags) : Prop where
  spaced : flags'.spaced = flags.spaced
  shown : shared ≠ .none → flags'.fold = flags.fold ∧ flags'.lines = flags.lines
  same : shared = .all → flags' = flags

inductive Pending.Like : Pending → Pending → Prop where
  | nothing : Like .nothing .nothing
  | atom {e e' : Expr} : e.Resembles e' → Like (.atom e) (.atom e')
  | counted (least : Nat) (most : Option Nat) {e e' : Expr} : e.Resembles e' →
      Like (.counted least most e) (.counted least most e')
  | reluctant {e e' : Expr} : e.Resembles e' → Like (.reluctant e) (.reluctant e')

structure Level.Like (level level' : Level) : Prop where
  earlier : Option.Rel Expr.Resembles level.earlier level'.earlier
  branch : level.branch.Resembles level'.branch

inductive Opener.Like (shared : Flags.Shared) : Opener → Opener → Prop where
  | plain {flags flags' : Flags} :
      flags.Agree shared flags' → Like shared (.plain flags) (.plain flags')
  | ahead (negated : Bool) : Like shared (.ahead negated) (.ahead negated)
  | behind (negated : Bool) : Like shared (.behind negated) (.behind negated)
  | atomic : Like shared .atomic .atomic

structure Frame.Like (shared : Flags.Shared) (frame frame' : Frame) : Prop where
  opener : frame.opener.Like shared frame'.opener
  around : frame.around.Like frame'.around

inductive Frames.Like (shared : Flags.Shared) : List Frame → List Frame → Prop where
  | nil : Like shared [] []
  | cons {frame frame' : Frame} {frames frames' : List Frame} : frame.Like shared frame' →
      Like shared frames frames' → Like shared (frame :: frames) (frame' :: frames')

inductive Mode.Like (shared : Flags.Shared) : Mode → Mode → Prop where
  | ready {p p' : Pending} : p.Like p' → Like shared (.ready p) (.ready p')
  | brace {e e' : Expr} (text : List Char) :
      e.Resembles e' → Like shared (.brace e text) (.brace e' text)
  | escape {cls cls' : Option ClassReader} : Option.Rel ClassReader.Like cls cls' →
      Like shared (.escape cls) (.escape cls')
  | reference (number : Nat) : Like shared (.reference number) (.reference number)
  | referenceOpen : Like shared .referenceOpen .referenceOpen
  | referenceName {close : Char} (text : List Char) : close ≠ '\\' →
      Like shared (.referenceName close text) (.referenceName close text)
  | hexOpen {cls cls' : Option ClassReader} (digits : Nat) : Option.Rel ClassReader.Like cls cls' →
      Like shared (.hexOpen cls digits) (.hexOpen cls' digits)
  | hex {cls cls' : Option ClassReader} (digits value : Nat) :
      Option.Rel ClassReader.Like cls cls' →
      Like shared (.hex cls digits value) (.hex cls' digits value)
  | hexBrace {cls cls' : Option ClassReader} (digits value : Nat) :
      Option.Rel ClassReader.Like cls cls' →
      Like shared (.hexBrace cls digits value) (.hexBrace cls' digits value)
  | bracket {cls cls' : ClassReader} : cls.Like cls' → Like shared (.bracket cls) (.bracket cls')
  | opener {p p' : Pending} (text : List Char) : p.Like p' →
      Like shared (.opener p text) (.opener p' text)
  | groupName (text : List Char) : Like shared (.groupName text) (.groupName text)
  | flags {flags flags' : Flags} (off dash begun : Bool) : flags.Agree shared flags' →
      Like shared (.flags flags off dash begun) (.flags flags' off dash begun)
  | comment {p p' : Pending} (escaped : Bool) : p.Like p' →
      Like shared (.comment p escaped) (.comment p' escaped)
  | lineComment {p p' : Pending} : p.Like p' → Like shared (.lineComment p) (.lineComment p')

section Parts

variable {shared : Flags.Shared}

theorem Frames.Like.length {frames frames' : List Frame}
    (like : Frames.Like shared frames frames') :
    frames'.length = frames.length := by
  induction like with
  | nil => rfl
  | cons _ _ ih => exact congrArg (· + 1) ih

theorem Level.Like.expr {level level' : Level} (like : level.Like level') :
    level.expr.Resembles level'.expr := by
  obtain ⟨earlier, branch⟩ := like
  unfold Level.expr
  cases earlier' : level.earlier <;> cases earlier'' : level'.earlier <;>
    rw [earlier', earlier''] at earlier <;> cases earlier
  · exact branch
  · rename_i first
    exact first.alt branch

theorem Opener.Like.wrap {opener opener' : Opener} (like : opener.Like shared opener') {e e' : Expr}
    (resembles : e.Resembles e') : (opener.wrap e).Resembles (opener'.wrap e') := by
  cases like with
  | plain => exact resembles
  | ahead | behind => exact ⟨fun _ => nofun, id, nofun, resembles.own, id, resembles.groups⟩
  | atomic => exact resembles.atomic

theorem Flags.Agree.refl (shared : Flags.Shared) (flags : Flags) : flags.Agree shared flags :=
  ⟨rfl, fun _ => ⟨rfl, rfl⟩, fun _ => rfl⟩

theorem Flags.Agree.update {flags flags' : Flags} (agree : flags.Agree shared flags') (on : Bool)
    (c : Char) : Option.Rel (Flags.Agree shared) (flags.update? on c) (flags'.update? on c) := by
  obtain ⟨spaced, shown, same⟩ := agree
  unfold Flags.update?
  repeat' split
  all_goals first
    | exact .none
    | exact .some ⟨spaced, shown, same⟩
    | exact .some ⟨spaced, fun h => ⟨rfl, (shown h).2⟩, fun h => by rw [same h]⟩
    | exact .some ⟨spaced, fun h => ⟨(shown h).1, rfl⟩, fun h => by rw [same h]⟩
    | exact .some ⟨spaced, shown, fun h => by rw [same h]⟩
    | exact .some ⟨rfl, shown, fun h => by rw [same h]⟩

end Parts

namespace Reader

/-- The readers are alike apart from their modes, and no capture group was opened. -/
structure Alike (shared : Flags.Shared) (reader reader' : Reader) : Prop where
  level : reader.level.Like reader'.level
  frames : Frames.Like shared reader.frames reader'.frames
  flags : reader.flags.Agree shared reader'.flags
  opened : reader.opened = 0 ∧ reader'.opened = 0
  names : reader.names = [] ∧ reader'.names = []
  referred : reader'.referred = reader.referred

/-- The readers go on in the same way. -/
structure Like (shared : Flags.Shared) (reader reader' : Reader) : Prop
    extends Alike shared reader reader' where
  mode : reader.mode.Like shared reader'.mode

/-- Where the first reading goes on and no capture group was opened, the second one goes on in the
same way. -/
def Tracks (shared : Flags.Shared) (o o' : Option Reader) : Prop :=
  ∀ next, o = some next → next.opened = 0 → ∃ next', o' = some next' ∧ next.Like shared next'

section Like

variable {shared : Flags.Shared} {reader reader' : Reader} {c : Char}

theorem tracks_none {o' : Option Reader} : Tracks shared none o' := fun _ h => nomatch h

theorem Like.tracks (like : reader.Like shared reader') :
    Tracks shared (some reader) (some reader') := by
  rintro _ ⟨⟩ _
  exact ⟨_, rfl, like⟩

theorem Alike.enter (alike : reader.Alike shared reader') {mode mode' : Mode}
    (modes : mode.Like shared mode') : (reader.enter mode).Like shared (reader'.enter mode') :=
  ⟨⟨alike.level, alike.frames, alike.flags, alike.opened, alike.names, alike.referred⟩, modes⟩

theorem resembles_part {p p' : Pending} (like : p.Like p') :
    (reader.part p).Resembles (reader'.part p') := by
  cases like with
  | nothing => exact .refl rfl
  | atom resembles => exact resembles
  | counted least most resembles => exact resembles.loop ..
  | reluctant resembles => exact resembles

theorem Alike.push (alike : reader.Alike shared reader') {e e' : Expr} (resembles : e.Resembles e')
    {mode mode' : Mode} (modes : mode.Like shared mode') :
    ({ reader with level := reader.level.push e, mode } : Reader).Like shared
      { reader' with level := reader'.level.push e', mode := mode' } :=
  ⟨⟨⟨alike.level.earlier, alike.level.branch.append resembles⟩, alike.frames, alike.flags,
    alike.opened, alike.names, alike.referred⟩, modes⟩

theorem Alike.flush (alike : reader.Alike shared reader') {p p' : Pending} (like : p.Like p') :
    (reader.flush p).Like shared (reader'.flush p') :=
  alike.push (resembles_part like) (.ready .nothing)

theorem Alike.atom (alike : reader.Alike shared reader') {e e' : Expr}
    (resembles : e.Resembles e') :
    (reader.atom .nothing e).Like shared (reader'.atom .nothing e') :=
  (alike.flush .nothing).enter (.ready (.atom resembles))

theorem Alike.literal (alike : reader.Alike shared reader') (c : Char) :
    (reader.literal c).Like shared (reader'.literal c) := alike.atom (Expr.resembles_one _ _)

theorem Alike.classSymbol (alike : reader.Alike shared reader') {cls cls' : ClassReader}
    (like : cls.Like cls') (symbol : ClassSymbol) :
    Tracks shared (reader.classSymbol cls symbol) (reader'.classSymbol cls' symbol) := by
  unfold Reader.classSymbol
  have tracks := like.step symbol
  cases result : cls.step symbol with
  | none => exact tracks_none
  | some result =>
    obtain ⟨result', found, likes⟩ := tracks _ ‹_›
    rw [found]
    cases likes with
    | more like => exact (alike.enter (.bracket like)).tracks
    | done set set' => exact (alike.atom (Expr.resembles_one set set')).tracks

theorem Alike.escaped (alike : reader.Alike shared reader') {cls cls' : Option ClassReader}
    (like : Option.Rel ClassReader.Like cls cls') (fold fold' : Bool) (d : Char) :
    Tracks shared (reader.escaped cls fold d) (reader'.escaped cls' fold' d) := by
  cases like with
  | none => exact (alike.atom (Expr.resembles_one _ _)).tracks
  | some like => exact alike.classSymbol like _

theorem Alike.shorthand (alike : reader.Alike shared reader') {cls cls' : Option ClassReader}
    (like : Option.Rel ClassReader.Like cls cls') (set : CharSet) :
    Tracks shared (reader.shorthand cls set) (reader'.shorthand cls' set) := by
  cases like with
  | none => exact (alike.atom (Expr.resembles_one _ _)).tracks
  | some like => exact alike.classSymbol like _

theorem Alike.hexShorthand (alike : reader.Alike shared reader') {cls cls' : Option ClassReader}
    (like : Option.Rel ClassReader.Like cls cls') (set : CharSet) :
    Tracks shared (reader.hexShorthand cls set) (reader'.hexShorthand cls' set) := by
  cases like with
  | none => exact (alike.atom (Expr.resembles_one _ _)).tracks
  | some like => exact alike.classSymbol like _

theorem Alike.stepEscape (alike : reader.Alike shared reader') {cls cls' : Option ClassReader}
    (like : Option.Rel ClassReader.Like cls cls') :
    Tracks shared (reader.stepEscape cls c) (reader'.stepEscape cls' c) := by
  have edge (kind : Edge) :
      Tracks shared (some (reader.atom .nothing (.edge kind)))
        (some (reader'.atom .nothing (.edge kind))) :=
    (alike.atom (.refl rfl)).tracks
  have inClass : cls'.isSome = cls.isSome := by cases like <;> rfl
  simp only [Reader.stepEscape, inClass]
  repeat' split
  all_goals first
    | exact tracks_none
    | exact edge _
    | exact alike.classSymbol (by cases like; assumption) _
    | exact alike.escaped like _ _ _
    | exact alike.shorthand like _
    | exact alike.hexShorthand like _
    | exact (alike.enter (.reference _)).tracks
    | exact (alike.enter .referenceOpen).tracks
    | exact (alike.enter (.hexOpen _ like)).tracks
    | exact (alike.atom (Expr.Resembles.refl rfl)).tracks
    | cases like

theorem Alike.quantify (alike : reader.Alike shared reader') {p p' : Pending} (like : p.Like p')
    (least : Nat) (most : Option Nat) :
    Tracks shared (reader.quantify p least most) (reader'.quantify p' least most) := by
  unfold Reader.quantify
  cases like with
  | atom resembles =>
    dsimp only
    split
    · rename_i repeatable
      rw [if_pos (resembles.repeatable repeatable)]
      exact (alike.enter (.ready (.counted least most resembles))).tracks
    · exact tracks_none
  | nothing | counted | reluctant => exact tracks_none

theorem Alike.openGroup (alike : reader.Alike shared reader') {opener opener' : Opener}
    (like : opener.Like shared opener') :
    Tracks shared (reader.openGroup opener) (reader'.openGroup opener') := by
  unfold Reader.openGroup
  rw [alike.frames.length]
  split
  · refine Like.tracks ⟨⟨⟨.none, .refl rfl⟩, .cons ⟨like, alike.level⟩ alike.frames, alike.flags,
      alike.opened, alike.names, alike.referred⟩, .ready .nothing⟩
  · exact tracks_none

theorem Alike.closeGroup (alike : reader.Alike shared reader') :
    Tracks shared reader.closeGroup reader'.closeGroup := by
  have allowed : reader'.levelAllowed = true := by simp [levelAllowed, alike.names.2]
  have frames := alike.frames
  unfold Reader.closeGroup
  generalize reader.frames = here at frames
  generalize reader'.frames = here' at frames
  cases frames with
  | nil => exact tracks_none
  | @cons frame frame' _ _ like rest =>
    obtain ⟨opener, around⟩ := frame
    obtain ⟨opener', around'⟩ := frame'
    simp only [allowed, if_true]
    split
    · obtain ⟨opener, around⟩ := like
      refine Like.tracks ⟨⟨around, rest, ?_, alike.opened, alike.names, alike.referred⟩,
        .ready (.atom (opener.wrap alike.level.expr))⟩
      cases opener with
      | plain agree => exact agree
      | _ => exact alike.flags
    · exact tracks_none

theorem Alike.split (alike : reader.Alike shared reader') :
    ({ reader with level := reader.level.split, mode := .ready .nothing } : Reader).Like shared
      { reader' with level := reader'.level.split, mode := .ready .nothing } :=
  ⟨⟨⟨.some alike.level.expr, .refl rfl⟩, alike.frames, alike.flags, alike.opened, alike.names,
    alike.referred⟩, .ready .nothing⟩

theorem Alike.stepReady (alike : reader.Alike shared reader') {p p' : Pending} (like : p.Like p')
    (ready : reader.mode = .ready p) (ready' : reader'.mode = .ready p') :
    Tracks shared (reader.stepReady p c) (reader'.stepReady p' c) := by
  have base := (alike.flush like).toAlike
  have stay : reader.Like shared reader' := ⟨alike, by rw [ready, ready']; exact .ready like⟩
  unfold Reader.stepReady
  simp only [alike.flags.spaced]
  by_cases blank : (reader.flags.spaced && isSpacing c) = true
  · simp only [blank, if_true]
    cases like with
    | reluctant resembles => exact (base.enter (.ready .nothing)).tracks
    | nothing | atom | counted => exact stay.tracks
  · simp only [blank, Bool.false_eq_true, if_false]
    split
    case h_1 =>
      cases like with
      | counted least most resembles =>
        exact (alike.enter (.ready (.reluctant (resembles.loop ..)))).tracks
      | nothing => exact alike.quantify .nothing _ _
      | atom resembles => exact alike.quantify (.atom resembles) _ _
      | reluctant resembles => exact alike.quantify (.reluctant resembles) _ _
    case h_2 => exact alike.quantify like _ _
    case h_3 =>
      cases like with
      | counted least most resembles =>
        exact (alike.flush (.atom (resembles.loop ..).atomic)).tracks
      | nothing => exact alike.quantify .nothing _ _
      | atom resembles => exact alike.quantify (.atom resembles) _ _
      | reluctant resembles => exact (alike.flush (.atom resembles.atomic)).tracks
    case h_4 =>
      cases like with
      | atom resembles => exact (alike.enter (.brace [] resembles)).tracks
      | nothing | counted | reluctant => exact (base.literal _).tracks
    case h_5 => exact (base.atom (Expr.resembles_one _ _)).tracks
    case h_6 => exact (base.atom (Expr.resembles_edge _ _)).tracks
    case h_7 => exact (base.atom (Expr.resembles_edge _ _)).tracks
    case h_8 =>
      have fresh : ClassReader.Like { fold := reader.flags.fold } { fold := reader'.flags.fold } :=
        ⟨⟨rfl⟩, .same _⟩
      exact (base.enter (.bracket fresh)).tracks
    case h_9 => exact (base.enter (.escape .none)).tracks
    case h_10 => exact (alike.enter (.opener [] like)).tracks
    case h_11 => exact base.closeGroup
    case h_12 => exact base.split.tracks
    case h_13 =>
      split
      · cases like with
        | reluctant => exact (base.enter (.lineComment .nothing)).tracks
        | nothing => exact (alike.enter (.lineComment .nothing)).tracks
        | atom resembles => exact (alike.enter (.lineComment (.atom resembles))).tracks
        | counted least most resembles =>
          exact (alike.enter (.lineComment (.counted least most resembles))).tracks
      · exact (base.literal _).tracks
    case h_14 => exact (base.literal _).tracks

theorem Alike.stepFlags (alike : reader.Alike shared reader') {flags flags' : Flags}
    (agree : flags.Agree shared flags') (off dash begun : Bool) :
    Tracks shared (reader.stepFlags flags off dash begun c)
      (reader'.stepFlags flags' off dash begun c) := by
  have changed : ({ reader with flags } : Reader).Alike shared { reader' with flags := flags' } :=
    ⟨alike.level, alike.frames, agree, alike.opened, alike.names, alike.referred⟩
  have updated := agree.update (!off) c
  unfold Reader.stepFlags
  simp only [agree.spaced, alike.frames.length]
  generalize flags.update? (!off) c = next at updated ⊢
  generalize flags'.update? (!off) c = next' at updated ⊢
  repeat' split
  all_goals first
    | exact tracks_none
    | exact (alike.enter (.flags _ _ _ agree)).tracks
    | exact (changed.enter (.ready (.atom (.refl rfl)))).tracks
    | exact changed.openGroup (.plain alike.flags)
    | cases updated
  rename_i agree'
  exact (alike.enter (.flags _ _ _ agree')).tracks

/-- Nothing has to be shown where a capture group is opened. -/
theorem tracks_of_opened {o o' : Option Reader} (opens : ∀ next, o = some next → 0 < next.opened) :
    Tracks shared o o' :=
  fun next found none => absurd none (Nat.ne_of_gt (opens next found))

theorem Alike.stepOpener (alike : reader.Alike shared reader') {p p' : Pending} (like : p.Like p')
    {text : List Char} (mode : reader.mode = .opener p text)
    (mode' : reader'.mode = .opener p' text) :
    Tracks shared (reader.stepOpener p text c) (reader'.stepOpener p' text c) := by
  have base := (alike.flush like).toAlike
  have stay : reader.Like shared reader' := ⟨alike, by rw [mode, mode']; exact .opener _ like⟩
  simp only [Reader.stepOpener, alike.flags.spaced]
  split
  case h_1 =>
    by_cases mark : c = '?'
    · simp only [mark, if_true]
      exact (alike.enter (.opener _ like)).tracks
    · by_cases blank : (reader.flags.spaced && isSpacing c) = true
      · simp only [mark, blank, if_false, if_true]
        exact stay.tracks
      · refine tracks_of_opened fun next found => ?_
        simp only [mark, blank, Bool.false_eq_true, if_false] at found
        split at found
        · rename_i opening
          obtain ⟨more, ready⟩ := openCapture_eq_some opening
          have later := (proceeds_stepReady ready found).opened
          omega
        · cases found
  case h_2 =>
    split
    case h_1 =>
      cases like with
      | reluctant => exact (base.enter (.comment false .nothing)).tracks
      | nothing => exact (alike.enter (.comment false .nothing)).tracks
      | atom resembles => exact (alike.enter (.comment false (.atom resembles))).tracks
      | counted least most resembles =>
        exact (alike.enter (.comment false (.counted least most resembles))).tracks
    case h_2 => exact base.openGroup (.ahead _)
    case h_3 => exact base.openGroup (.ahead _)
    case h_4 => exact base.openGroup .atomic
    case h_5 => exact (base.enter (.opener _ .nothing)).tracks
    case h_6 => exact (base.enter (.opener _ .nothing)).tracks
    case h_7 => exact tracks_none
    case h_8 => exact base.stepFlags base.flags _ _ _
  all_goals repeat' split
  all_goals first
    | exact tracks_none
    | exact base.openGroup (.behind _)
    | exact (base.enter (.groupName _)).tracks
    | exact (base.enter (.referenceName _ (by decide))).tracks

theorem Alike.stepGroupName (alike : reader.Alike shared reader') (text : List Char) :
    Tracks shared (reader.stepGroupName text c) (reader'.stepGroupName text c) := by
  by_cases inName : isGroupNameCharacter c = true
  · simp only [Reader.stepGroupName, inName, if_true]
    exact (alike.enter (.groupName _)).tracks
  · refine tracks_of_opened fun next found => ?_
    simp only [Reader.stepGroupName, inName, Bool.false_eq_true, if_false] at found
    split at found
    · exact Nat.zero_lt_of_lt (openCapture_eq_some found).1
    · cases found

theorem Like.flushed (like : reader.Like shared reader') :
    reader.flushed.Like shared reader'.flushed := by
  refine like.toAlike.flush ?_
  have modes := like.mode
  unfold Reader.pending
  generalize reader.mode = mode at modes
  generalize reader'.mode = mode' at modes
  cases modes with
  | ready like => exact like
  | _ => exact .nothing

theorem Like.took (like : reader.Like shared reader') {e e' : Expr} (resembles : e.Resembles e') :
    (reader.took e).Like shared (reader'.took e') :=
  like.flushed.enter (.ready (.atom resembles))

theorem Like.spelledOut (like : reader.Like shared reader') (fold fold' : Bool) (text : List Char) :
    (reader.spelledOut fold text).Like shared (reader'.spelledOut fold' text) := by
  induction text generalizing reader reader' with
  | nil => exact like
  | cons c text ih => exact ih (like.took (Expr.resembles_one _ _))

theorem Alike.spellBrace (alike : reader.Alike shared reader') {e e' : Expr}
    (resembles : e.Resembles e') (text : List Char) :
    (reader.spellBrace e text).Like shared (reader'.spellBrace e' text) := by
  rw [spellBrace_eq, spellBrace_eq, alike.flags.spaced]
  exact (alike.enter (.ready (.atom resembles))).spelledOut _ _ _

/-- Readers between two parts go on in the same way. -/
theorem Like.stepReady (like : reader.Like shared reader') {p p' : Pending}
    (ready : reader.mode = .ready p) (ready' : reader'.mode = .ready p') :
    Tracks shared (reader.stepReady p c) (reader'.stepReady p' c) := by
  have modes := like.mode
  rw [ready, ready'] at modes
  cases modes with
  | ready pending => exact like.toAlike.stepReady pending ready ready'

theorem Alike.stepBrace (alike : reader.Alike shared reader') {e e' : Expr}
    (resembles : e.Resembles e') (text : List Char) :
    Tracks shared (reader.stepBrace e text c) (reader'.stepBrace e' text c) := by
  obtain ⟨p, ready⟩ := spellBrace_ready e text reader
  obtain ⟨p', ready'⟩ := spellBrace_ready e' text reader'
  have spelled := @Like.stepReady _ _ _ c (alike.spellBrace resembles text) _ _ ready ready'
  simp only [Reader.stepBrace, alike.flags.spaced, ready, ready']
  repeat' split
  all_goals first
    | exact (alike.enter (.brace _ resembles)).tracks
    | exact alike.quantify (.atom resembles) _ _
    | exact spelled

theorem Alike.refer (alike : reader.Alike shared reader') (number : Nat) :
    Tracks shared (reader.refer number) (reader'.refer number) := by
  unfold Reader.refer
  rw [alike.opened.1, alike.opened.2]
  split
  · rename_i first
    obtain rfl : number = 0 := Nat.le_zero.1 first
    exact (alike.atom (Expr.Resembles.refl rfl)).tracks
  · exact tracks_none

theorem Alike.referDecimal (alike : reader.Alike shared reader') (number : Nat) :
    Tracks shared (reader.referDecimal number) (reader'.referDecimal number) := by
  unfold Reader.referDecimal
  rw [alike.referred]
  have counted : ({ reader with referred := some (max number (reader.referred.getD 0)) } :
    Reader).Alike
      shared { reader' with referred := some (max number (reader.referred.getD 0)) } :=
    ⟨alike.level, alike.frames, alike.flags, alike.opened, alike.names, rfl⟩
  exact counted.refer number

theorem Alike.referNamed (alike : reader.Alike shared reader') (text : List Char) :
    Tracks shared (reader.referNamed text) (reader'.referNamed text) := by
  simp only [Reader.referNamed, alike.names.1, alike.names.2, List.lookup_nil]
  split
  · exact alike.refer _
  · exact tracks_none

theorem Alike.stepReferenceName (alike : reader.Alike shared reader') {close : Char}
    (notSlash : close ≠ '\\') (text : List Char) :
    Tracks shared (reader.stepReferenceName close text c)
      (reader'.stepReferenceName close text c) := by
  unfold Reader.stepReferenceName
  repeat' split
  · exact (alike.enter (.referenceName _ notSlash)).tracks
  · exact alike.referNamed text
  · exact tracks_none

section Hexadecimal

variable (alike : reader.Alike shared reader') {cls cls' : Option ClassReader}
  (like : Option.Rel ClassReader.Like cls cls')
include alike like

theorem Alike.hexDone (value : Nat) :
    Tracks shared (reader.hexDone cls value) (reader'.hexDone cls' value) := by
  unfold Reader.hexDone
  split
  · exact alike.escaped like _ _ _
  · exact tracks_none

theorem Alike.stepHexOpen (digits : Nat) :
    Tracks shared (reader.stepHexOpen cls digits c) (reader'.stepHexOpen cls' digits c) := by
  unfold Reader.stepHexOpen
  repeat' split
  · exact (alike.enter (.hexBrace _ _ like)).tracks
  · exact (alike.enter (.hex _ _ like)).tracks
  · exact tracks_none

theorem Alike.stepHex (digits value : Nat) :
    Tracks shared (reader.stepHex cls digits value c) (reader'.stepHex cls' digits value c) := by
  unfold Reader.stepHex
  repeat' split
  · exact alike.hexDone like _
  · exact (alike.enter (.hex _ _ like)).tracks
  · exact tracks_none

theorem Alike.stepHexBrace (digits value : Nat) :
    Tracks shared (reader.stepHexBrace cls digits value c)
      (reader'.stepHexBrace cls' digits value c) := by
  unfold Reader.stepHexBrace
  repeat' split
  · exact alike.hexDone like _
  · exact (alike.enter (.hexBrace _ _ like)).tracks
  · exact tracks_none
  · exact tracks_none

end Hexadecimal

/-- A step keeps readers alike. -/
theorem Like.step (like : reader.Like shared reader') (c : Char) :
    Tracks shared (reader.step c) (reader'.step c) := by
  have alike := like.toAlike
  have modes := like.mode
  unfold Reader.step
  generalize mode : reader.mode = here at modes
  generalize mode' : reader'.mode = here' at modes
  cases modes with
  | ready pending => exact alike.stepReady pending mode mode'
  | brace text resembles => exact alike.stepBrace resembles text
  | escape cls => exact alike.stepEscape cls
  | reference number =>
    dsimp only
    split
    · exact (alike.enter (.reference _)).tracks
    · cases found : reader.referDecimal number with
      | none => exact tracks_none
      | some last =>
        obtain ⟨e, ready⟩ := ready_of_refer found
        simp only [ready]
        refine fun next result none => ?_
        have more := (proceeds_stepReady ready result).opened
        obtain ⟨last', found', likes⟩ := alike.referDecimal number last found (by omega)
        obtain ⟨e', ready'⟩ := ready_of_refer found'
        simp only [found', ready']
        exact likes.stepReady ready ready' next result none
  | referenceOpen =>
    dsimp only
    split
    · exact (alike.enter (.referenceName _ (by decide))).tracks
    · exact (alike.enter (.referenceName _ (by decide))).tracks
    · exact tracks_none
  | referenceName text notSlash => exact alike.stepReferenceName notSlash text
  | hexOpen digits cls => exact alike.stepHexOpen cls digits
  | hex digits value cls => exact alike.stepHex cls digits value
  | hexBrace digits value cls => exact alike.stepHexBrace cls digits value
  | bracket cls =>
    dsimp only
    split
    · exact (alike.enter (.escape (.some cls))).tracks
    · exact alike.classSymbol cls _
  | opener text pending => exact alike.stepOpener pending mode mode'
  | groupName text => exact alike.stepGroupName text
  | flags off dash begun agree => exact alike.stepFlags agree off dash begun
  | comment escaped pending =>
    dsimp only
    repeat' split
    · exact (alike.enter (.comment _ pending)).tracks
    · exact (alike.enter (.comment _ pending)).tracks
    · exact (alike.enter (.ready pending)).tracks
    · exact like.tracks
  | lineComment pending =>
    dsimp only
    split
    · exact (alike.enter (.ready pending)).tracks
    · exact like.tracks

theorem Like.read (like : reader.Like shared reader') (text : List Char) :
    Tracks shared (reader.read text) (reader'.read text) := by
  induction text generalizing reader reader' with
  | nil => exact like.tracks
  | cons c text ih =>
    intro next found none
    rw [read_cons] at found
    obtain ⟨middle, first, rest⟩ := Option.bind_eq_some_iff.1 found
    have more := (rests_of_read rest).opened
    change middle.opened ≤ next.opened at more
    obtain ⟨middle', first', likes⟩ := like.step c middle first (by omega)
    obtain ⟨next', rest', likes'⟩ := ih likes next rest none
    exact ⟨next', by rw [read_cons, first']; exact rest', likes'⟩

theorem Like.resolved (like : reader.Like shared reader') :
    Tracks shared reader.resolved reader'.resolved := by
  have modes := like.mode
  unfold Reader.resolved
  generalize reader.mode = here at modes
  generalize reader'.mode = here' at modes
  cases modes with
  | ready => exact like.tracks
  | brace text resembles => exact (like.toAlike.spellBrace resembles text).tracks
  | reference number => exact like.toAlike.referDecimal number
  | _ => exact tracks_none

/-- Where the first text may end, so may the second one. -/
theorem Like.finish (like : reader.Like shared reader') {done : Reader}
    (h : reader.finish = some done) (line : reader.mode.isLineComment = false) :
    ∃ done', reader'.finish = some done' ∧ done.Like shared done' := by
  obtain ⟨last, resolved, rfl, none⟩ := finish_resolved h line
  obtain ⟨mode, level, referred, same⟩ := resolved_same resolved
  obtain ⟨last', resolved', likes⟩ :=
    like.resolved last resolved (by rw [same]; exact like.opened.1)
  have frames : last'.frames = [] := by
    have frames := likes.frames
    rw [show last.frames = [] from none] at frames
    cases frames' : last'.frames with
    | nil => rfl
    | cons => rw [frames'] at frames; cases frames
  exact ⟨_, finish_of_resolved resolved' frames likes.names.2, likes.flushed⟩

end Like

end Reader

end PathTemplate
