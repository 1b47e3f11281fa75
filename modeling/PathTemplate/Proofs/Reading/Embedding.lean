/-
Reading a text as a group of a larger expression.

A text that is complete on its own and refers to no group reads there as it does alone, with other
numbers of its groups. `Reader.inside` puts a reader of the text alone to where the text stands, and
`Reader.agrees_read` says that both readings go on in the same way as long as both go on.

* `Reader.standsAlone`: a text that meets no reference and does not end in a comment.
* `Reader.contains_of_standsAlone`: wherever such a text is all that a group holds, the group has the
  expression of the text, whose groups follow those before it.
* `Reader.references_of_standsAlone`: the expression refers to no group either.
-/

import PathTemplate.Proofs.Expression.Renumbering
import PathTemplate.Proofs.Reading.Numbering

namespace PathTemplate

/-! ### Readers with other numbers -/

section Renumber

variable (f g : Nat → Nat)

def Pending.renumber : Pending → Pending
  | .nothing => .nothing
  | .atom e => .atom (e.renumber f g)
  | .counted least most e => .counted least most (e.renumber f g)
  | .reluctant e => .reluctant (e.renumber f g)

def Mode.renumber : Mode → Mode
  | .ready pending => .ready (pending.renumber f g)
  | .brace atom text => .brace (atom.renumber f g) text
  | .opener pending text => .opener (pending.renumber f g) text
  | .comment pending escaped => .comment (pending.renumber f g) escaped
  | .lineComment pending => .lineComment (pending.renumber f g)
  | mode => mode

def Level.renumber (level : Level) : Level :=
  { earlier := level.earlier.map (Expr.renumber f g), branch := level.branch.renumber f g }

def Opener.renumber : Opener → Opener
  | .capture number => .capture (f number)
  | opener => opener

def Frame.renumber (frame : Frame) : Frame :=
  { opener := frame.opener.renumber f, around := frame.around.renumber f g }

variable {f g}

theorem Level.expr_renumber (level : Level) :
    (level.renumber f g).expr = level.expr.renumber f g := by
  obtain ⟨earlier, branch⟩ := level
  cases earlier <;> rfl

theorem Level.push_renumber (level : Level) (e : Expr) :
    (level.renumber f g).push (e.renumber f g) = (level.push e).renumber f g := by
  simp only [Level.push, Level.renumber, Expr.append_renumber]

theorem Level.split_renumber (level : Level) :
    (level.renumber f g).split = level.split.renumber f g := by
  simp only [Level.split, Level.expr_renumber]
  rfl

theorem Opener.wrap_renumber (opener : Opener) (e : Expr) :
    (opener.renumber f).wrap (e.renumber f g) = (opener.wrap e).renumber f g := by
  cases opener <;> rfl

end Renumber

/-- A reference back to a group is being read. -/
def Mode.isReference : Mode → Bool
  | .reference _ | .referenceOpen | .referenceName .. => true
  | _ => false

namespace Reader

/-- The reader of a text alone, put to where the text stands in what `outer` reads. The numbers of
its references are `g` of what they were. -/
def inside (g : Nat → Nat) (reader outer : Reader) : Reader :=
  { mode := reader.mode.renumber (outer.opened + ·) g
    level := reader.level.renumber (outer.opened + ·) g
    frames := reader.frames.map (Frame.renumber (outer.opened + ·) g) ++ outer.frames
    flags := reader.flags
    opened := outer.opened + reader.opened
    names := reader.names.map (fun entry => (entry.1, outer.opened + entry.2)) ++ outer.names
    referred := outer.referred }

/-- Where both readings go on, they go on in the same way. -/
def Agrees (g : Nat → Nat) (outer : Reader) (alone within : Option Reader) : Prop :=
  ∀ next next', alone = some next → within = some next' → next' = next.inside g outer

section Steps

variable {g : Nat → Nat} {outer reader : Reader} {c : Char}

theorem Agrees.of_map {alone within : Option Reader} (same : within = alone.map (·.inside g outer)) :
    Agrees g outer alone within := by
  rintro next next' rfl found
  rw [same] at found
  exact (Option.some.inj found).symm

theorem agrees_some {next next' : Reader} (same : next' = next.inside g outer) :
    Agrees g outer (some next) (some next') :=
  .of_map (congrArg some same)

theorem agrees_none {within : Option Reader} : Agrees g outer none within :=
  fun _ _ found => nomatch found

theorem agrees_fails {alone : Option Reader} : Agrees g outer alone none :=
  fun _ _ _ found => nomatch found

@[simp] theorem flags_inside : (reader.inside g outer).flags = reader.flags := rfl

theorem part_inside (pending : Pending) :
    (reader.inside g outer).part (pending.renumber (outer.opened + ·) g) =
      (reader.part pending).renumber (outer.opened + ·) g := by
  cases pending <;> rfl

theorem flush_inside (pending : Pending) :
    (reader.inside g outer).flush (pending.renumber (outer.opened + ·) g) =
      (reader.flush pending).inside g outer := by
  unfold flush
  rw [part_inside, show (reader.inside g outer).level = reader.level.renumber _ g from rfl,
    Level.push_renumber]
  rfl

theorem split_inside :
    { reader.inside g outer with level := (reader.inside g outer).level.split } =
      { reader with level := reader.level.split }.inside g outer := by
  rw [show (reader.inside g outer).level = reader.level.renumber _ g from rfl,
    Level.split_renumber]
  rfl

theorem atom_inside (pending : Pending) (e : Expr) :
    (reader.inside g outer).atom (pending.renumber (outer.opened + ·) g)
        (e.renumber (outer.opened + ·) g) = (reader.atom pending e).inside g outer := by
  unfold atom
  rw [flush_inside]
  rfl

/-- An atom after nothing that is pending. -/
theorem atom_nothing_inside {e e' : Expr} (same : e.renumber (outer.opened + ·) g = e') :
    (reader.inside g outer).atom .nothing e' = (reader.atom .nothing e).inside g outer := by
  rw [← same]
  exact atom_inside .nothing e

theorem classSymbol_inside (cls : ClassReader) (symbol : ClassSymbol) :
    (reader.inside g outer).classSymbol cls symbol =
      (reader.classSymbol cls symbol).map (·.inside g outer) := by
  unfold classSymbol
  cases cls.step symbol with
  | none => rfl
  | some result =>
    cases result with
    | more => rfl
    | done set => exact congrArg some (atom_nothing_inside rfl)

theorem escaped_inside (cls : Option ClassReader) (fold : Bool) (d : Char) :
    (reader.inside g outer).escaped cls fold d =
      (reader.escaped cls fold d).map (·.inside g outer) := by
  cases cls with
  | none => exact congrArg some (atom_nothing_inside rfl)
  | some cls => exact classSymbol_inside cls _

theorem shorthand_inside (cls : Option ClassReader) (set : CharSet) :
    (reader.inside g outer).shorthand cls set =
        (reader.shorthand cls set).map (·.inside g outer) ∧
      (reader.inside g outer).hexShorthand cls set =
        (reader.hexShorthand cls set).map (·.inside g outer) := by
  cases cls with
  | none => exact ⟨congrArg some (atom_nothing_inside rfl), congrArg some (atom_nothing_inside rfl)⟩
  | some cls => exact ⟨classSymbol_inside cls _, classSymbol_inside cls _⟩

theorem stepEscape_inside (cls : Option ClassReader) :
    (reader.inside g outer).stepEscape cls c =
      (reader.stepEscape cls c).map (·.inside g outer) := by
  unfold stepEscape
  repeat' split
  all_goals first
    | rfl
    | exact classSymbol_inside _ _
    | exact escaped_inside _ _ _
    | exact (shorthand_inside _ _).1
    | exact (shorthand_inside _ _).2
    | exact congrArg some (atom_nothing_inside rfl)

theorem quantify_inside (pending : Pending) (least : Nat) (most : Option Nat) :
    (reader.inside g outer).quantify (pending.renumber (outer.opened + ·) g) least most =
      (reader.quantify pending least most).map (·.inside g outer) := by
  cases pending with
  | atom e =>
    simp only [quantify, Pending.renumber, Expr.isRepeatable_renumber]
    split <;> rfl
  | _ => rfl

theorem agrees_openGroup (opener : Opener) :
    Agrees g outer (reader.openGroup opener)
      ((reader.inside g outer).openGroup (opener.renumber (outer.opened + ·))) := by
  intro next next' alone within
  unfold openGroup at alone within
  split at alone <;> cases alone
  split at within <;> cases within
  rfl

theorem agrees_openCapture :
    Agrees g outer reader.openCapture (reader.inside g outer).openCapture :=
  @agrees_openGroup g outer { reader with opened := reader.opened + 1 }
    (.capture (reader.opened + 1))

theorem agrees_closeGroup :
    Agrees g outer reader.closeGroup (reader.inside g outer).closeGroup := by
  intro next next' alone within
  unfold closeGroup at alone within
  cases frames : reader.frames with
  | nil => simp [frames] at alone
  | cons frame rest =>
    have here : (reader.inside g outer).frames = frame.renumber (outer.opened + ·) g ::
        (rest.map (Frame.renumber (outer.opened + ·) g) ++ outer.frames) := by
      simp [inside, frames]
    simp only [frames] at alone
    simp only [here] at within
    split at alone <;> cases alone
    split at within <;> cases within
    have atom := @Opener.wrap_renumber (outer.opened + ·) g frame.opener reader.level.expr
    rw [← Level.expr_renumber] at atom
    obtain ⟨opener, around⟩ := frame
    cases opener <;> simp only [inside, Mode.renumber, Pending.renumber, ← atom] <;> rfl

theorem stepReady_inside (pending : Pending) (notClose : c ≠ ')') :
    (reader.inside g outer).stepReady (pending.renumber (outer.opened + ·) g) c =
      (reader.stepReady pending c).map (·.inside g outer) := by
  unfold stepReady
  simp only [flags_inside, flush_inside]
  by_cases blank : (reader.flags.spaced && isSpacing c) = true
  · simp only [blank, if_true]
    cases pending <;> rfl
  · simp only [blank, Bool.false_eq_true, if_false]
    split
    case h_1 | h_3 =>
      cases pending
      all_goals first
        | exact quantify_inside _ _ _
        | exact congrArg some (flush_inside (.atom (.atomic _)))
        | exact congrArg some (flush_inside (.atom (.atomic (reader.loop _ _ false _))))
        | rfl
    case h_2 => exact quantify_inside _ _ _
    case h_4 =>
      cases pending
      all_goals first
        | rfl
        | exact congrArg some (atom_nothing_inside rfl)
    case h_11 => exact absurd rfl notClose
    case h_12 => exact congrArg some split_inside
    case h_13 =>
      by_cases spaced : reader.flags.spaced = true
      · simp only [spaced, if_true]
        cases pending <;> rfl
      · simp only [spaced, Bool.false_eq_true, if_false]
        exact congrArg some (atom_nothing_inside rfl)
    all_goals first
      | rfl
      | exact congrArg some (atom_nothing_inside rfl)

theorem agrees_stepReady (pending : Pending) :
    Agrees g outer (reader.stepReady pending c)
      ((reader.inside g outer).stepReady (pending.renumber (outer.opened + ·) g) c) := by
  by_cases close : c = ')'
  · subst close
    have closing (reader : Reader) (pending : Pending) :
        reader.stepReady pending ')' = (reader.flush pending).closeGroup := by
      simp [stepReady, show isSpacing ')' = false from rfl]
    rw [closing, closing, flush_inside]
    exact agrees_closeGroup
  · exact .of_map (stepReady_inside pending close)

theorem agrees_stepFlags (flags : Flags) (off dash begun : Bool) :
    Agrees g outer (reader.stepFlags flags off dash begun c)
      ((reader.inside g outer).stepFlags flags off dash begun c) := by
  unfold stepFlags
  simp only [flags_inside]
  repeat' split
  all_goals first
    | exact agrees_some rfl
    | exact agrees_none
    | exact agrees_fails
    | exact @agrees_openGroup g outer { reader with flags } (.plain reader.flags)

theorem agrees_stepOpener (pending : Pending) (text : List Char) :
    Agrees g outer (reader.stepOpener pending text c)
      ((reader.inside g outer).stepOpener (pending.renumber (outer.opened + ·) g) text c) := by
  have group (opener : Opener) (same : opener.renumber (outer.opened + ·) = opener) :
      Agrees g outer ((reader.flush pending).openGroup opener)
        (((reader.flush pending).inside g outer).openGroup opener) := by
    have opens := @agrees_openGroup g outer (reader.flush pending) opener
    rwa [same] at opens
  simp only [stepOpener, flags_inside, flush_inside]
  split
  case h_1 =>
    split
    · exact agrees_some rfl
    · split
      · exact agrees_some rfl
      · intro next next' alone within
        split at alone
        · rename_i opened first
          split at within
          · rename_i opened' first'
            obtain rfl := agrees_openCapture _ _ first first'
            exact agrees_stepReady .nothing _ _ alone within
          · cases within
        · cases alone
  case h_2 =>
    split
    case h_1 => cases pending <;> exact agrees_some rfl
    all_goals first
      | exact group _ rfl
      | exact agrees_some rfl
      | exact agrees_none
      | exact agrees_stepFlags _ _ _ _
  all_goals repeat' split
  all_goals first
    | exact group _ rfl
    | exact agrees_some rfl
    | exact agrees_none

theorem agrees_stepGroupName (text : List Char) :
    Agrees g outer (reader.stepGroupName text c) ((reader.inside g outer).stepGroupName text c) := by
  unfold stepGroupName
  repeat' split
  · exact agrees_some rfl
  · exact @agrees_openCapture g outer
      { reader with names := (text.reverse, reader.opened + 1) :: reader.names }
  · exact agrees_none

theorem spelledOut_inside (fold : Bool) (text : List Char) (ready : reader.IsReady) :
    (reader.inside g outer).spelledOut fold text =
      (reader.spelledOut fold text).inside g outer := by
  induction text generalizing reader with
  | nil => rfl
  | cons c text ih =>
    obtain ⟨pending, mode⟩ := ready
    have mode' : (reader.inside g outer).mode =
        .ready (pending.renumber (outer.opened + ·) g) := by
      rw [inside, mode]
      rfl
    have first : (reader.inside g outer).took (.character fold c) =
        (reader.took (.character fold c)).inside g outer := by
      rw [took, took, flushed_eq mode, flushed_eq mode', flush_inside]
      rfl
    have others := @ih (reader.took (.character fold c)) ⟨_, rfl⟩
    rw [← first] at others
    exact others

theorem spellBrace_inside (atom : Expr) (text : List Char) :
    (reader.inside g outer).spellBrace (atom.renumber (outer.opened + ·) g) text =
      (reader.spellBrace atom text).inside g outer := by
  rw [spellBrace_eq, spellBrace_eq]
  exact @spelledOut_inside _ _ (reader.enter (.ready (.atom atom))) _ _ ⟨_, rfl⟩

theorem hexDone_inside (cls : Option ClassReader) (value : Nat) :
    (reader.inside g outer).hexDone cls value =
      (reader.hexDone cls value).map (·.inside g outer) := by
  unfold hexDone
  split
  · exact escaped_inside _ _ _
  · rfl

theorem stepHex_inside (cls : Option ClassReader) (digits value : Nat) :
    (reader.inside g outer).stepHexOpen cls digits c =
        (reader.stepHexOpen cls digits c).map (·.inside g outer) ∧
      (reader.inside g outer).stepHex cls digits value c =
        (reader.stepHex cls digits value c).map (·.inside g outer) ∧
      (reader.inside g outer).stepHexBrace cls digits value c =
        (reader.stepHexBrace cls digits value c).map (·.inside g outer) := by
  unfold stepHexOpen stepHex stepHexBrace
  refine ⟨?_, ?_, ?_⟩ <;> repeat' split
  all_goals first
    | rfl
    | exact hexDone_inside _ _

theorem agrees_stepBrace (atom : Expr) (text : List Char) :
    Agrees g outer (reader.stepBrace atom text c)
      ((reader.inside g outer).stepBrace (atom.renumber (outer.opened + ·) g) text c) := by
  obtain ⟨pending, ready⟩ := spellBrace_ready atom text reader
  have ready' : ((reader.spellBrace atom text).inside g outer).mode =
      .ready (pending.renumber (outer.opened + ·) g) := by
    rw [inside, ready]
    rfl
  simp only [stepBrace, flags_inside, spellBrace_inside, ready, ready']
  repeat' split
  all_goals first
    | exact agrees_some rfl
    | exact .of_map (quantify_inside (.atom atom) _ _)
    | exact agrees_stepReady pending

/-- A step that has nothing to do with a reference is taken in the same way. -/
theorem agrees_step (own : reader.mode.isReference = false) :
    Agrees g outer (reader.step c) ((reader.inside g outer).step c) := by
  unfold step
  simp only [show (reader.inside g outer).mode =
    reader.mode.renumber (outer.opened + ·) g from rfl]
  cases mode : reader.mode with
  | ready pending => exact agrees_stepReady pending
  | brace atom text => exact agrees_stepBrace atom text
  | escape cls => exact .of_map (stepEscape_inside cls)
  | hexOpen cls digits => exact .of_map (stepHex_inside cls digits 0).1
  | hex cls digits value => exact .of_map (stepHex_inside cls digits value).2.1
  | hexBrace cls digits value => exact .of_map (stepHex_inside cls digits value).2.2
  | bracket cls =>
    dsimp only [Mode.renumber]
    split
    · exact agrees_some rfl
    · exact .of_map (classSymbol_inside _ _)
  | opener pending text => exact agrees_stepOpener pending text
  | groupName text => exact agrees_stepGroupName text
  | flags flags off dash begun => exact agrees_stepFlags flags off dash begun
  | comment pending escaped =>
    dsimp only [Mode.renumber]
    repeat' split
    all_goals exact agrees_some rfl
  | lineComment pending =>
    dsimp only [Mode.renumber]
    split <;> exact agrees_some rfl
  | _ => rw [mode] at own; cases own

theorem resolved_inside {last : Reader} (own : reader.mode.isReference = false)
    (h : reader.resolved = some last) :
    (reader.inside g outer).resolved = some (last.inside g outer) := by
  unfold resolved at h
  split at h
  case h_1 mode =>
    cases h
    simp only [resolved, inside, mode, Mode.renumber]
  case h_2 atom text mode =>
    cases h
    rw [← spellBrace_inside]
    simp only [resolved, inside, mode, Mode.renumber]
  case h_3 mode => rw [mode] at own; cases own
  case h_4 => cases h

theorem flushed_inside (ready : reader.IsReady) :
    (reader.inside g outer).flushed = reader.flushed.inside g outer := by
  obtain ⟨pending, mode⟩ := ready
  rw [flushed_eq mode, ← flush_inside]
  refine flushed_eq ?_
  rw [inside, mode]
  rfl

end Steps

/-! ### Texts that stand alone -/

/-- The text refers to no group, and nothing that follows it belongs to a comment at its end. -/
def standsAlone (reader : Reader) : List Char → Bool
  | [] => !reader.mode.isReference && !reader.mode.isLineComment
  | c :: text => !reader.mode.isReference && (reader.step c).all (·.standsAlone text)

/-- A text leads from `reader` to `next`, is all that a group holds and reads as `e`. -/
def Contains (e : Expr) (reader next : Reader) : Prop :=
  ∃ last, next.resolved = some last ∧ last.frames = reader.frames ∧
    last.opened = reader.opened + e.groups.length ∧ last.flushed.level.expr = e

section Alone

variable {g : Nat → Nat} {outer reader last done : Reader} {text : List Char}

theorem isReference_of_standsAlone (alone : reader.standsAlone text = true) :
    reader.mode.isReference = false := by
  cases text <;> simp only [standsAlone, Bool.and_eq_true, Bool.not_eq_true'] at alone <;>
    exact alone.1

/-- Where a text is read alone and where it stands in another one, it is read in the same way. -/
theorem agrees_read (alone : reader.standsAlone text = true) :
    Agrees g outer (reader.read text) ((reader.inside g outer).read text) := by
  induction text generalizing reader with
  | nil => exact agrees_some rfl
  | cons c text ih =>
    intro next next' read within
    rw [read_cons] at read within
    obtain ⟨middle, first, rest⟩ := Option.bind_eq_some_iff.1 read
    obtain ⟨middle', first', rest'⟩ := Option.bind_eq_some_iff.1 within
    obtain rfl := agrees_step (isReference_of_standsAlone alone) _ _ first first'
    simp only [standsAlone, first, Option.all_some, Bool.and_eq_true] at alone
    exact ih alone.2 _ _ rest rest'

/-- The end of such a text is met between two parts. -/
theorem exists_resolved_of_standsAlone (alone : reader.standsAlone text = true)
    (read : reader.read text = some last) (finish : last.finish = some done) :
    ∃ ended, last.resolved = some ended ∧ ended.flushed = done ∧ done.frames = [] ∧
      last.mode.isReference = false := by
  have ends : last.standsAlone [] = true := by
    induction text generalizing reader with
    | nil =>
      cases read
      exact alone
    | cons c text ih =>
      rw [read_cons] at read
      obtain ⟨middle, first, rest⟩ := Option.bind_eq_some_iff.1 read
      simp only [standsAlone, first, Option.all_some, Bool.and_eq_true] at alone
      exact ih alone.2 rest
  simp only [standsAlone, Bool.and_eq_true, Bool.not_eq_true'] at ends
  obtain ⟨ended, resolved, same, frames⟩ := finish_resolved finish ends.2
  exact ⟨ended, resolved, same, frames, ends.1⟩

/-- As many groups were opened as the expression has. -/
theorem opened_of_finish {flags : Flags} (read : ({ flags } : Reader).read text = some last)
    (finish : last.finish = some done) : done.opened = done.level.expr.groups.length := by
  obtain ⟨ended, whole⟩ := numbers_of_finish finish
  have numbers := (numbers_of_read read).trans ended
  rw [← whole, numbers.groups, numbers.opened]
  simp [groups, Level.expr, Expr.groups]

/-- A reader at the beginning of a group is one of a text alone, put to where the group stands. -/
theorem inside_fresh {flags : Flags} (g : Nat → Nat) (fresh : reader.IsFresh)
    (same : reader.flags = flags) : ({ flags } : Reader).inside g reader = reader := by
  obtain ⟨mode, level⟩ := fresh
  obtain ⟨_, _, frames, _, opened, names, referred⟩ := reader
  cases mode
  cases level
  cases same
  rfl

/-- Wherever the text is all that a group holds, the group has the expression of the text alone,
with the numbers that follow those before the group. -/
theorem contains_of_standsAlone {flags : Flags} {next : Reader}
    (alone : ({ flags } : Reader).standsAlone text = true)
    (read : ({ flags } : Reader).read text = some last) (finish : last.finish = some done)
    (fresh : reader.IsFresh) (same : reader.flags = flags)
    (within : reader.read text = some next) :
    Contains (done.level.expr.shift reader.opened) reader next := by
  rw [← inside_fresh (reader.opened + ·) fresh same] at within
  obtain rfl := agrees_read alone _ _ read within
  obtain ⟨ended, resolved, rfl, frames, own⟩ := exists_resolved_of_standsAlone alone read finish
  have ready := isReady_resolved resolved
  have count := opened_of_finish read finish
  refine ⟨_, resolved_inside own resolved, ?_, ?_, ?_⟩
  · have none : ended.frames = [] := frames
    simp [inside, none]
  · rw [Expr.shift, Expr.groups_renumber, List.length_map, ← count]
    rfl
  · rw [flushed_inside ready]
    exact Level.expr_renumber _

/-- The expression of a text that stands alone refers to no group. -/
theorem references_of_standsAlone {flags : Flags}
    (alone : ({ flags } : Reader).standsAlone text = true)
    (read : ({ flags } : Reader).read text = some last) (finish : last.finish = some done) :
    done.level.expr.references = [] := by
  -- The reading never sees a reference, so that other numbers of references make no difference.
  have same : last = last.inside Nat.succ {} := agrees_read alone _ _ read read
  obtain ⟨ended, resolved, rfl, -, own⟩ := exists_resolved_of_standsAlone alone read finish
  have resolved' := @resolved_inside Nat.succ {} _ _ own resolved
  rw [← same, resolved] at resolved'
  have whole : ended.flushed.level.expr.references =
      ended.flushed.level.expr.references.map Nat.succ := by
    have level := congrArg (fun ended : Reader => ended.flushed.level.expr) (Option.some.inj resolved')
    rw [flushed_inside (isReady_resolved resolved)] at level
    rw [← Expr.references_renumber (f := ((0 : Nat) + ·)), ← Level.expr_renumber]
    exact congrArg Expr.references level
  cases references : ended.flushed.level.expr.references with
  | nil => rfl
  | cons number others =>
    rw [references] at whole
    exact absurd (List.cons.inj whole).1 (Nat.ne_of_lt (Nat.lt_succ_self number))

end Alone

end Reader

end PathTemplate
