/-
Reading a text inside of fewer groups.

What stands around a text matters to whether it can be read in one way only: the groups that are
open there and in the text itself must not be too many. So a text that can be read inside of some
groups can be read inside of fewer.

* `Reader.admits_step`: a step inside of fewer groups does not fail first.
* `Reader.isSome_read_of_deeper`: neither does a whole text.
-/

import PathTemplate.Proofs.Reading.Likeness
import PathTemplate.Proofs.Reading.References
import PathTemplate.Proofs.Reading.Triples

namespace PathTemplate

namespace Reader

/-- Where the reading alone goes on without opening a capture group, and the deep one does, the
shallow one does too. -/
def Admits (alone deep shallow : Option Reader) : Prop :=
  ∀ next, alone = some next → next.opened = 0 → deep.isSome = true → shallow.isSome = true

section Steps

variable {g : Nat → Nat} {deep shallow reader : Reader} {c : Char} {alone : Option Reader}

theorem admits_some {a b : Option Reader} {next : Reader} (h : b = some next) :
    Admits alone a b := by
  rintro _ _ _ _
  rw [h]
  rfl

theorem admits_none {a b : Option Reader} : Admits none a b := fun _ found => nomatch found

theorem admits_fails {b : Option Reader} : Admits alone none b := fun _ _ _ found => nomatch found

theorem Admits.of_map {f : Reader → Reader} {a b : Option Reader} (same : b = alone.map f) :
    Admits alone a b := by
  rintro next rfl _ _
  rw [same]
  rfl

/-- Nothing has to be shown where a capture group was opened. -/
theorem Admits.of_opened {a b : Option Reader}
    (opens : ∀ next, alone = some next → 0 < next.opened) : Admits alone a b :=
  fun next found none _ => absurd none (Nat.ne_of_gt (opens next found))

section Frames

variable (less : shallow.frames.length ≤ deep.frames.length)
include less

theorem admits_openGroup (opener opener' : Opener) :
    Admits alone ((reader.inside g deep).openGroup opener)
      ((reader.inside g shallow).openGroup opener') := by
  intro _ _ _ opens
  unfold openGroup at opens ⊢
  split at opens
  · rename_i room
    have room' : (reader.inside g shallow).frames.length < nestingLimit := by
      simp only [inside, List.length_append, List.length_map] at room ⊢
      omega
    rw [if_pos room']
    rfl
  · cases opens

theorem admits_stepFlags (flags : Flags) (off dash begun : Bool) :
    Admits (reader.stepFlags flags off dash begun c)
      ((reader.inside g deep).stepFlags flags off dash begun c)
      ((reader.inside g shallow).stepFlags flags off dash begun c) := by
  have room (h : (reader.inside g deep).frames.length < nestingLimit) :
      (reader.inside g shallow).frames.length < nestingLimit := by
    simp only [inside, List.length_append, List.length_map] at h ⊢
    omega
  unfold stepFlags
  simp only [flags_inside]
  repeat' split
  all_goals first
    | exact admits_some rfl
    | exact admits_none
    | exact admits_fails
    | exact absurd (room (by assumption)) (by assumption)
    | exact @admits_openGroup g deep shallow { reader with flags } _ less _ _

variable (unnamed : shallow.names = []) (names : reader.names = [])
include unnamed names

omit less in
theorem admits_closeGroup :
    Admits reader.closeGroup (reader.inside g deep).closeGroup
      (reader.inside g shallow).closeGroup := by
  intro next found _ _
  unfold closeGroup at found ⊢
  cases frames : reader.frames with
  | nil => simp [frames] at found
  | cons frame rest =>
    have here : (reader.inside g shallow).frames = frame.renumber (shallow.opened + ·) g ::
        (rest.map (Frame.renumber (shallow.opened + ·) g) ++ shallow.frames) := by
      simp [inside, frames]
    have allowed : (reader.inside g shallow).levelAllowed = true := by
      simp [levelAllowed, inside, names, unnamed]
    simp only [here, allowed, if_true]
    rfl

omit less in
theorem admits_stepReady (pending : Pending) :
    Admits (reader.stepReady pending c)
      ((reader.inside g deep).stepReady (pending.renumber (deep.opened + ·) g) c)
      ((reader.inside g shallow).stepReady (pending.renumber (shallow.opened + ·) g) c) := by
  by_cases close : c = ')'
  · subst close
    have closing (reader : Reader) (pending : Pending) :
        reader.stepReady pending ')' = (reader.flush pending).closeGroup := by
      simp [stepReady, show isSpacing ')' = false from rfl]
    rw [closing, closing, closing, flush_inside, flush_inside]
    exact @admits_closeGroup _ _ _ (reader.flush pending) unnamed names
  · exact .of_map (stepReady_inside pending close)

omit unnamed names in
theorem admits_stepOpener (pending : Pending) (text : List Char) :
    Admits (reader.stepOpener pending text c)
      ((reader.inside g deep).stepOpener (pending.renumber (deep.opened + ·) g) text c)
      ((reader.inside g shallow).stepOpener (pending.renumber (shallow.opened + ·) g) text c) := by
  simp only [stepOpener, flags_inside, flush_inside]
  split
  case h_1 =>
    by_cases mark : c = '?'
    · simp only [mark, if_true]
      exact admits_some rfl
    · by_cases blank : (reader.flags.spaced && isSpacing c) = true
      · simp only [mark, blank, if_false, if_true]
        exact admits_some rfl
      · refine .of_opened fun next found => ?_
        simp only [mark, blank, Bool.false_eq_true, if_false] at found
        split at found
        · rename_i opening
          obtain ⟨more, ready⟩ := openCapture_eq_some opening
          have later := (proceeds_stepReady ready found).opened
          omega
        · cases found
  all_goals repeat' split
  all_goals first
    | exact admits_some rfl
    | exact admits_none
    | exact @admits_openGroup g deep shallow (reader.flush pending) _ less _ _
    | exact @admits_stepFlags g deep shallow (reader.flush pending) _ less _ _ _ _

omit less unnamed names in
theorem admits_stepGroupName (text : List Char) :
    Admits (reader.stepGroupName text c) ((reader.inside g deep).stepGroupName text c)
      ((reader.inside g shallow).stepGroupName text c) := by
  by_cases inName : isGroupNameCharacter c = true
  · simp only [stepGroupName, inName, if_true]
    exact admits_some rfl
  · refine .of_opened fun next found => ?_
    simp only [stepGroupName, inName, Bool.false_eq_true, if_false] at found
    split at found
    · exact Nat.zero_lt_of_lt (openCapture_eq_some found).1
    · cases found

omit less in
theorem admits_stepBrace (atom : Expr) (text : List Char) :
    Admits (reader.stepBrace atom text c)
      ((reader.inside g deep).stepBrace (atom.renumber (deep.opened + ·) g) text c)
      ((reader.inside g shallow).stepBrace (atom.renumber (shallow.opened + ·) g) text c) := by
  obtain ⟨pending, ready⟩ := spellBrace_ready atom text reader
  have ready' (outer : Reader) : ((reader.spellBrace atom text).inside g outer).mode =
      .ready (pending.renumber (outer.opened + ·) g) := by
    rw [inside, ready]
    rfl
  have names' : (reader.spellBrace atom text).names = [] := by
    obtain ⟨mode, level, same⟩ := spellBrace_same atom text reader
    rw [same]
    exact names
  simp only [stepBrace, flags_inside, spellBrace_inside, ready, ready']
  repeat' split
  all_goals first
    | exact admits_some rfl
    | exact .of_map (quantify_inside (.atom atom) _ _)
    | exact admits_stepReady unnamed names' pending

/-- A step that has nothing to do with a reference does not fail inside of fewer groups first. -/
theorem admits_step (own : reader.mode.isReference = false) :
    Admits (reader.step c) ((reader.inside g deep).step c) ((reader.inside g shallow).step c) := by
  have mode_inside (outer : Reader) :
      (reader.inside g outer).mode = reader.mode.renumber (outer.opened + ·) g := rfl
  unfold step
  simp only [mode_inside]
  cases mode : reader.mode with
  | ready pending => exact admits_stepReady unnamed names pending
  | brace atom text => exact admits_stepBrace unnamed names atom text
  | escape cls => exact .of_map (stepEscape_inside cls)
  | hexOpen cls digits => exact .of_map (stepHex_inside cls digits 0).1
  | hex cls digits value => exact .of_map (stepHex_inside cls digits value).2.1
  | hexBrace cls digits value => exact .of_map (stepHex_inside cls digits value).2.2
  | bracket cls =>
    dsimp only [Mode.renumber]
    split
    · exact admits_some rfl
    · exact .of_map (classSymbol_inside _ _)
  | opener pending text => exact admits_stepOpener less pending text
  | groupName text => exact admits_stepGroupName text
  | flags flags off dash begun => exact admits_stepFlags less flags off dash begun
  | comment pending escaped =>
    dsimp only [Mode.renumber]
    repeat' split
    all_goals exact admits_some rfl
  | lineComment pending =>
    dsimp only [Mode.renumber]
    split <;> exact admits_some rfl
  | _ => rw [mode] at own; cases own

end Frames

end Steps

/-- A text that stands alone and has no capture group can be read inside of fewer groups. -/
theorem isSome_read_of_deeper {g : Nat → Nat} {deep shallow reader last : Reader}
    {text : List Char} (less : shallow.frames.length ≤ deep.frames.length)
    (unnamed : shallow.names = []) (names : reader.names = [])
    (alone : reader.standsAlone text = true) (read : reader.read text = some last)
    (none : last.opened = 0) (deeper : ((reader.inside g deep).read text).isSome = true) :
    ((reader.inside g shallow).read text).isSome = true := by
  induction text generalizing reader with
  | nil => rfl
  | cons c text ih =>
    rw [read_cons] at read deeper ⊢
    have own := isReference_of_standsAlone alone
    obtain ⟨middle, first, rest⟩ := Option.bind_eq_some_iff.1 read
    obtain ⟨last', deeper⟩ := Option.isSome_iff_exists.1 deeper
    obtain ⟨middle', first', rest'⟩ := Option.bind_eq_some_iff.1 deeper
    obtain rfl := agrees_step own _ _ first first'
    have more := (rests_of_read rest).opened
    change middle.opened ≤ last.opened at more
    have middleNone : middle.opened = 0 := by omega
    have proceeds := proceeds_of_step first
    have least := proceeds.opened
    obtain ⟨next, step⟩ := Option.isSome_iff_exists.1
      (admits_step less unnamed names own _ first middleNone (by rw [first']; rfl))
    obtain rfl := agrees_step own _ _ first step
    rw [step]
    simp only [standsAlone, first, Option.all_some, Bool.and_eq_true] at alone
    exact ih ((proceeds.names (by omega)).trans names) alone.2 rest (by rw [rest']; rfl)

/-- The reader at the beginning of a group that is the only one. -/
def enclosed (flags : Flags) : Reader := { flags, frames := [⟨.plain flags, {}⟩] }

theorem Like.enclosed {shared : Flags.Shared} {flags flags' : Flags}
    (agree : flags.Agree shared flags') : (enclosed flags).Like shared (enclosed flags') where
  level := ⟨.none, .refl rfl⟩
  frames := .cons ⟨.plain agree, .none, .refl rfl⟩ .nil
  flags := agree
  opened := ⟨rfl, rfl⟩
  names := ⟨rfl, rfl⟩
  referred := rfl
  mode := .ready .nothing

section Plain

variable {flags : Flags} {last done : Reader} {text : List Char}
  (read : ({ flags } : Reader).read text = some last) (finish : last.finish = some done)
  (spaced : last.flags.spaced = false) (plain : done.level.expr.isPlain = true)
include read finish spaced plain

theorem standsAlone_of_isPlain : ({ flags } : Reader).standsAlone text = true := by
  refine standsAlone_of_finish read finish (Expr.refers_of_isPlain plain) ?_
  refine Bool.eq_false_iff.2 fun line => ?_
  have blanks := spaced_of_read read nofun line
  rw [spaced] at blanks
  cases blanks

variable (none : last.opened = 0) {deep : Reader} (fresh : deep.IsFresh)
  (same : deep.flags = flags) (deeper : (deep.read text).isSome = true)
include none fresh same deeper

/-- A plain text that can be read inside of some groups reads inside of no more groups as it does
alone. -/
theorem read_of_deeper {reader : Reader} (here : reader.IsFresh) (flags_eq : reader.flags = flags)
    (unnamed : reader.names = []) (less : reader.frames.length ≤ deep.frames.length) :
    reader.read text = some (last.inside id reader) := by
  have alone := standsAlone_of_isPlain read finish spaced plain
  rw [← inside_fresh id fresh same] at deeper
  obtain ⟨next, within⟩ := Option.isSome_iff_exists.1
    (isSome_read_of_deeper less unnamed rfl alone read none deeper)
  obtain rfl := agrees_read alone _ _ read within
  rwa [inside_fresh id here flags_eq] at within

/-- There it is all that a group holds. -/
theorem holds_of_deeper :
    Holds true (nestingLimit - deep.frames.length) 0 (· = flags) (· = last.flags) text
      fun _ e => e = done.level.expr := by
  have alone := standsAlone_of_isPlain read finish spaced plain
  have noNames : last.names = [] := (rests_of_read read).names none
  obtain ⟨ended, resolved, rfl, noFrames, own⟩ := exists_resolved_of_standsAlone alone read finish
  obtain ⟨mode, level, referred, rfl⟩ := resolved_same resolved
  intro reader here fresh'
  have less : reader.frames.length ≤ deep.frames.length := by
    have room := here.room rfl
    omega
  have resolved' := @resolved_inside id reader last _ own resolved
  have ready := isReady_resolved resolved'
  rw [read_of_deeper read finish spaced plain none fresh same deeper fresh' here.flags here.names
    less]
  refine .reaches ⟨_, rfl, rfl, _, ⟨ready, rfl, fun c sign => ?_⟩, ?_, ?_⟩
  · refine step_resolved resolved' ?_
    unfold IsSign
    rcases sign with rfl | rfl <;> decide
  · constructor
    · change last.frames.map _ ++ reader.frames = reader.frames
      rw [show last.frames = [] from noFrames]
      rfl
    · change reader.opened + last.opened = reader.opened + 0
      rw [none]
    · change last.names.map _ ++ reader.names = reader.names
      rw [noNames]
      rfl
    · exact fun _ => rfl
  · rw [flushed_inside (isReady_resolved resolved)]
    exact (Level.expr_renumber _).trans (Expr.renumber_of_isPlain plain)

/-- Other flags make no difference to whether it can be read. -/
theorem isSome_read_enclosed {flags' : Flags} (agree : flags.Agree .none flags')
    (inside : 0 < deep.frames.length) : ((enclosed flags').read text).isSome = true := by
  have start : (enclosed flags).IsFresh := ⟨rfl, rfl⟩
  have read' := read_of_deeper read finish spaced plain none fresh same deeper start rfl rfl inside
  obtain ⟨next, found, -⟩ := (Like.enclosed agree).read text _ read' (by
    change 0 + last.opened = 0
    rw [none])
  rw [found]
  rfl

end Plain

end Reader

end PathTemplate
