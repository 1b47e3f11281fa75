/-
Reading a pattern inside the groups of a larger expression.

A text that opens no capture group reads there just as it does on its own: `Reader.within` puts a
reader into groups, and `Reader.mirrors_read` says that reading goes on in the same way.
-/

import PathTemplate.Proofs.Reading.Progress

namespace PathTemplate

namespace Reader

/-- The reader inside further groups, after groups and references that it knows nothing of. -/
def within (outer : List Frame) (opened : Nat) (referred : Option Nat) (reader : Reader) : Reader :=
  { reader with frames := reader.frames ++ outer, opened, referred }

/-- Where both readings go on and no group was opened, they go on in the same way. -/
def Mirrors (outer : List Frame) (opened : Nat) (alone inside : Option Reader) : Prop :=
  ∀ next next', alone = some next → inside = some next' → next.opened = 0 →
    ∃ referred, next' = next.within outer opened referred

section Steps

variable {outer : List Frame} {opened : Nat} {referred : Option Nat} {reader : Reader} {c : Char}

@[simp] theorem flags_within : (reader.within outer opened referred).flags = reader.flags := rfl

theorem Mirrors.of_map {alone inside : Option Reader}
    (same : inside = alone.map (within outer opened referred)) :
    Mirrors outer opened alone inside := by
  rintro next next' rfl found _
  rw [same] at found
  exact ⟨referred, (Option.some.inj found).symm⟩

/-- Nothing has to be shown where a capture group was opened. -/
theorem Mirrors.of_opened {alone inside : Option Reader}
    (opens : ∀ next, alone = some next → 0 < next.opened) : Mirrors outer opened alone inside :=
  fun next _ found _ none => absurd none (Nat.ne_of_gt (opens next found))

theorem mirrors_some {next next' : Reader} (same : next' = next.within outer opened referred) :
    Mirrors outer opened (some next) (some next') :=
  .of_map (congrArg some same)

theorem mirrors_none {inside : Option Reader} : Mirrors outer opened none inside :=
  fun _ _ found => nomatch found

theorem mirrors_fails {alone : Option Reader} : Mirrors outer opened alone none :=
  fun _ _ _ found => nomatch found

theorem classSymbol_within (cls : ClassReader) (symbol : ClassSymbol) :
    (reader.within outer opened referred).classSymbol cls symbol =
      (reader.classSymbol cls symbol).map (within outer opened referred) := by
  unfold classSymbol
  cases cls.step symbol with
  | none => rfl
  | some result => cases result <;> rfl

theorem escaped_within (cls : Option ClassReader) (fold : Bool) (d : Char) :
    (reader.within outer opened referred).escaped cls fold d =
      (reader.escaped cls fold d).map (within outer opened referred) := by
  cases cls with
  | none => rfl
  | some cls => exact classSymbol_within cls _

theorem stepEscape_within (cls : Option ClassReader) :
    (reader.within outer opened referred).stepEscape cls c =
      (reader.stepEscape cls c).map (within outer opened referred) := by
  unfold stepEscape
  repeat' split
  all_goals first
    | rfl
    | exact classSymbol_within _ _

theorem quantify_within (pending : Pending) (least : Nat) (most : Option Nat) :
    (reader.within outer opened referred).quantify pending least most =
      (reader.quantify pending least most).map (within outer opened referred) := by
  unfold quantify
  repeat' split
  all_goals rfl

theorem mirrors_openGroup (opener : Opener) :
    Mirrors outer opened (reader.openGroup opener)
      ((reader.within outer opened referred).openGroup opener) := by
  intro next next' alone inside _
  unfold openGroup at alone inside
  split at alone <;> cases alone
  split at inside <;> cases inside
  exact ⟨referred, rfl⟩

theorem mirrors_closeGroup (names : reader.names = []) :
    Mirrors outer opened reader.closeGroup (reader.within outer opened referred).closeGroup := by
  intro next next' alone inside _
  unfold closeGroup at alone inside
  cases frames : reader.frames with
  | nil => simp [frames] at alone
  | cons frame rest =>
    have here : (reader.within outer opened referred).frames = frame :: (rest ++ outer) := by
      simp [within, frames]
    have allowed : reader.levelAllowed = true ∧
        (reader.within outer opened referred).levelAllowed = true := by
      simp [levelAllowed, within, names]
    simp only [frames, here, allowed, if_true, Option.some.injEq] at alone inside
    subst alone inside
    exact ⟨referred, rfl⟩

theorem stepReady_within (pending : Pending) (notClose : c ≠ ')') :
    (reader.within outer opened referred).stepReady pending c =
      (reader.stepReady pending c).map (within outer opened referred) := by
  unfold stepReady
  simp only [flags_within]
  by_cases blank : (reader.flags.spaced && isSpacing c) = true
  · simp only [blank, if_true]
    split <;> rfl
  · simp only [blank, Bool.false_eq_true, if_false]
    split
    case h_13 =>
      by_cases spaced : reader.flags.spaced = true
      · simp only [spaced, if_true]
        split <;> rfl
      · simp only [spaced, Bool.false_eq_true, if_false]
        rfl
    all_goals first
      | rfl
      | exact quantify_within _ _ _
      | exact absurd rfl notClose
      | split <;> first | rfl | exact quantify_within _ _ _

theorem mirrors_stepReady (names : reader.names = []) (pending : Pending) :
    Mirrors outer opened (reader.stepReady pending c)
      ((reader.within outer opened referred).stepReady pending c) := by
  by_cases close : c = ')'
  · subst close
    have alone (reader : Reader) :
        reader.stepReady pending ')' = (reader.flush pending).closeGroup := by
      simp [stepReady, show isSpacing ')' = false from rfl]
    rw [alone, alone]
    exact @mirrors_closeGroup _ _ _ (reader.flush pending) names
  · exact .of_map (stepReady_within pending close)

theorem mirrors_stepFlags (flags : Flags) (off dash begun : Bool) :
    Mirrors outer opened (reader.stepFlags flags off dash begun c)
      ((reader.within outer opened referred).stepFlags flags off dash begun c) := by
  unfold stepFlags
  simp only [flags_within]
  repeat' split
  all_goals first
    | exact mirrors_some rfl
    | exact mirrors_none
    | exact mirrors_fails
    | exact mirrors_openGroup _

theorem mirrors_stepOpener (pending : Pending) (text : List Char) :
    Mirrors outer opened (reader.stepOpener pending text c)
      ((reader.within outer opened referred).stepOpener pending text c) := by
  simp only [stepOpener, flags_within]
  split
  case h_1 =>
    by_cases mark : c = '?'
    · simp only [mark, if_true]
      exact mirrors_some rfl
    · by_cases blank : (reader.flags.spaced && isSpacing c) = true
      · simp only [mark, blank, if_false, if_true]
        exact mirrors_some rfl
      · refine .of_opened fun next found => ?_
        simp only [mark, blank, Bool.false_eq_true, if_false] at found
        split at found
        · rename_i opening
          obtain ⟨more, ready⟩ := openCapture_eq_some opening
          have later := (proceeds_stepReady ready found).opened
          omega
        · cases found
  all_goals repeat' split
  all_goals first
    | exact mirrors_some rfl
    | exact mirrors_none
    | exact mirrors_openGroup _
    | exact @mirrors_stepFlags _ _ _ (reader.flush pending) _ _ _ _ _

theorem mirrors_stepGroupName (text : List Char) :
    Mirrors outer opened (reader.stepGroupName text c)
      ((reader.within outer opened referred).stepGroupName text c) := by
  by_cases inName : isGroupNameCharacter c = true
  · simp only [stepGroupName, inName, if_true]
    exact mirrors_some rfl
  · refine .of_opened fun next found => ?_
    simp only [stepGroupName, inName, Bool.false_eq_true, if_false] at found
    split at found
    · exact Nat.zero_lt_of_lt (openCapture_eq_some found).1
    · cases found

theorem spelledOut_within (fold : Bool) (text : List Char) :
    (reader.within outer opened referred).spelledOut fold text =
      (reader.spelledOut fold text).within outer opened referred := by
  induction text generalizing reader with
  | nil => rfl
  | cons c text ih => exact @ih (reader.took (.character fold c))

theorem spellBrace_within (atom : Expr) (text : List Char) :
    (reader.within outer opened referred).spellBrace atom text =
      (reader.spellBrace atom text).within outer opened referred := by
  rw [spellBrace_eq, spellBrace_eq]
  exact @spelledOut_within _ _ _ (reader.enter (.ready (.atom atom))) _ _

theorem mirrors_refer (number : Nat) :
    Mirrors outer opened (reader.refer number)
      ((reader.within outer opened referred).refer number) := by
  intro next next' alone inside none
  unfold refer at alone inside
  split at alone <;> cases alone
  split at inside <;> cases inside
  have first : number = 0 := by
    change reader.opened = 0 at none
    omega
  subst first
  exact ⟨referred, rfl⟩

theorem mirrors_referDecimal (number : Nat) :
    Mirrors outer opened (reader.referDecimal number)
      ((reader.within outer opened referred).referDecimal number) := by
  unfold referDecimal
  exact @mirrors_refer _ _ _ { reader with referred := _ } number

theorem mirrors_referNamed (names : reader.names = []) (text : List Char) :
    Mirrors outer opened (reader.referNamed text)
      ((reader.within outer opened referred).referNamed text) := by
  have names' : (reader.within outer opened referred).names = [] := names
  simp only [referNamed, names, names', List.lookup_nil]
  split
  · exact mirrors_refer _
  · exact mirrors_none

theorem mirrors_stepReferenceName (names : reader.names = []) (close : Char) (text : List Char) :
    Mirrors outer opened (reader.stepReferenceName close text c)
      ((reader.within outer opened referred).stepReferenceName close text c) := by
  unfold stepReferenceName
  repeat' split
  · exact mirrors_some rfl
  · exact mirrors_referNamed names text
  · exact mirrors_none

theorem hexDone_within (cls : Option ClassReader) (value : Nat) :
    (reader.within outer opened referred).hexDone cls value =
      (reader.hexDone cls value).map (within outer opened referred) := by
  unfold hexDone
  split
  · exact escaped_within _ _ _
  · rfl

theorem stepHex_within (cls : Option ClassReader) (digits value : Nat) :
    (reader.within outer opened referred).stepHex cls digits value c =
      (reader.stepHex cls digits value c).map (within outer opened referred) := by
  unfold stepHex
  repeat' split
  all_goals first
    | rfl
    | exact hexDone_within _ _

theorem stepHexBrace_within (cls : Option ClassReader) (digits value : Nat) :
    (reader.within outer opened referred).stepHexBrace cls digits value c =
      (reader.stepHexBrace cls digits value c).map (within outer opened referred) := by
  unfold stepHexBrace
  repeat' split
  all_goals first
    | rfl
    | exact hexDone_within _ _

theorem stepHexOpen_within (cls : Option ClassReader) (digits : Nat) :
    (reader.within outer opened referred).stepHexOpen cls digits c =
      (reader.stepHexOpen cls digits c).map (within outer opened referred) := by
  unfold stepHexOpen
  repeat' split
  all_goals rfl

theorem mirrors_stepBrace (names : reader.names = []) (atom : Expr) (text : List Char) :
    Mirrors outer opened (reader.stepBrace atom text c)
      ((reader.within outer opened referred).stepBrace atom text c) := by
  obtain ⟨pending, ready⟩ := spellBrace_ready atom text reader
  have ready' : ((reader.spellBrace atom text).within outer opened referred).mode =
      .ready pending :=
    ready
  have names' : (reader.spellBrace atom text).names = [] := by
    obtain ⟨mode, level, same⟩ := spellBrace_same atom text reader
    rw [same]
    exact names
  simp only [stepBrace, flags_within, spellBrace_within, ready, ready']
  repeat' split
  all_goals first
    | exact mirrors_some rfl
    | exact .of_map (quantify_within _ _ _)
    | exact mirrors_stepReady names' _

theorem mirrors_step (names : reader.names = []) :
    Mirrors outer opened (reader.step c) ((reader.within outer opened referred).step c) := by
  unfold step
  simp only [show (reader.within outer opened referred).mode = reader.mode from rfl]
  split
  case h_1 => exact mirrors_stepReady names _
  case h_2 => exact mirrors_stepBrace names _ _
  case h_3 => exact .of_map (stepEscape_within _)
  case h_4 number mode =>
    split
    · exact mirrors_some rfl
    · intro next next' alone inside none
      split at alone
      · rename_i last found
        have kept : last.opened = reader.opened ∧ last.names = reader.names := by
          obtain ⟨e, rfl, -⟩ := refer_eq_some found
          exact ⟨rfl, rfl⟩
        split at inside
        · rename_i last' found'
          obtain ⟨pending, ready⟩ := ready_of_refer found
          simp only [ready] at alone
          have more := (proceeds_stepReady ready alone).opened
          obtain ⟨referred', rfl⟩ := mirrors_referDecimal number _ _ found found' (by omega)
          simp only [show (last.within outer opened referred').mode = _ from ready] at inside
          exact mirrors_stepReady (kept.2.trans names) _ _ _ alone inside none
        · cases inside
      · cases alone
  case h_5 =>
    split
    · exact mirrors_some rfl
    · exact mirrors_some rfl
    · exact mirrors_none
  case h_6 => exact mirrors_stepReferenceName names _ _
  case h_7 => exact .of_map (stepHexOpen_within _ _)
  case h_8 => exact .of_map (stepHex_within _ _ _)
  case h_9 => exact .of_map (stepHexBrace_within _ _ _)
  case h_10 mode =>
    split
    · exact mirrors_some rfl
    · exact .of_map (classSymbol_within _ _)
  case h_11 => exact mirrors_stepOpener _ _
  case h_12 => exact mirrors_stepGroupName _
  case h_13 => exact mirrors_stepFlags _ _ _ _
  case h_14 =>
    repeat' split
    all_goals exact mirrors_some rfl
  case h_15 =>
    split
    · exact mirrors_some rfl
    · exact mirrors_some rfl

theorem mirrors_read (names : reader.names = []) (text : List Char) :
    Mirrors outer opened (reader.read text) ((reader.within outer opened referred).read text) := by
  induction text generalizing reader referred with
  | nil => exact mirrors_some rfl
  | cons c text ih =>
    intro next next' alone inside none
    rw [read_cons] at alone inside
    obtain ⟨middle, first, rest⟩ := Option.bind_eq_some_iff.1 alone
    obtain ⟨middle', first', rest'⟩ := Option.bind_eq_some_iff.1 inside
    have more := (rests_of_read rest).opened
    change middle.opened ≤ next.opened at more
    obtain ⟨referred', rfl⟩ := mirrors_step names _ _ first first' (by omega)
    have proceeds := proceeds_of_step first
    have least := proceeds.opened
    exact ih ((proceeds.names (by omega)).trans names) _ _ rest rest' none

theorem resolved_within {last : Reader} (h : reader.resolved = some last)
    (none : last.opened = 0) : ∃ referred',
      (reader.within outer opened referred).resolved =
        some (last.within outer opened referred') := by
  unfold resolved at h
  split at h
  case h_1 mode =>
    cases h
    exact ⟨referred, by simp only [resolved, within, mode]⟩
  case h_2 atom text mode =>
    cases h
    refine ⟨referred, ?_⟩
    rw [← spellBrace_within]
    simp only [resolved, show (reader.within outer opened referred).mode = _ from mode]
  case h_3 number mode =>
    simp only [resolved, show (reader.within outer opened referred).mode = _ from mode]
    cases inside : (reader.within outer opened referred).referDecimal number with
    | some last' =>
      obtain ⟨referred', rfl⟩ := mirrors_referDecimal number _ _ h inside none
      exact ⟨referred', rfl⟩
    | none =>
      simp only [referDecimal, refer] at h inside
      split at h <;> cases h
      change reader.opened = 0 at none
      simp_all [within]
  case h_4 => cases h

end Steps

/-- A text that is complete on its own and opens no capture group is all that a group holds. -/
theorem ends_fills_alone {text : List Char} {reader last done : Reader} (fresh : reader.IsFresh)
    (names : reader.names = []) (alone : ({ flags := reader.flags } : Reader).read text = some last)
    (finish : last.finish = some done) (none : last.opened = 0)
    (spaced : last.flags.spaced = false) :
    Ends false (fun next => reader.Fills false 0 done.level.expr next ∧ next.flags = last.flags)
      (reader.read text) := by
  have start : reader = ({ flags := reader.flags } : Reader).within reader.frames reader.opened
      reader.referred := by
    obtain ⟨mode, level⟩ := fresh
    cases reader
    simp_all [within]
  have line : last.mode.isLineComment = false := by
    refine Bool.eq_false_iff.2 fun line => ?_
    have blanks := spaced_of_read alone (fun h => nomatch h) line
    rw [spaced] at blanks
    cases blanks
  have noNames : last.names = [] := (rests_of_read alone).names none
  obtain ⟨ready, resolved, rfl, frames⟩ := finish_resolved finish line
  obtain ⟨mode, level, referred, rfl⟩ := resolved_same resolved
  cases inside : reader.read text with
  | none => exact .fails rfl
  | some next =>
    rw [start] at inside
    obtain ⟨referred', rfl⟩ := mirrors_read rfl text _ _ alone inside none
    obtain ⟨referred'', resolved'⟩ :=
      @resolved_within reader.frames reader.opened referred' _ _ resolved none
    refine .reaches ⟨⟨_, ⟨isReady_resolved resolved', rfl, fun c sign => ?_⟩, ?_, rfl⟩, rfl⟩
    · refine step_resolved resolved' ?_
      unfold IsSign
      rcases sign with rfl | rfl <;> decide
    · have noFrames : last.frames = [] := frames
      exact ⟨by simp [within, noFrames], rfl, noNames.trans names.symm, nofun⟩

end Reader

end PathTemplate
