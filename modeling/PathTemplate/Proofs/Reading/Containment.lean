/-
Reading on its own what was read inside of a group.

What is read inside of the groups of a larger expression, its shorthands being pinned, need not be
an expression on its own: it may close a group that it did not open, or hide from the engine what
the lexer counts. `Reader.countsAlike` says that the engine finds the groups of a text where the
lexer counts them.

* `Reader.follows_step`: a step that is taken inside of groups is taken without them.
* `Reader.Abreast`: the readers of a text before and after pinning, either of which goes on where
  the other one does, and the number of groups that the lexer counts.
* `Reader.Abreast.read`: where a text is read inside of groups after pinning, it is read on its
  own as it stands.
-/

import PathTemplate.Proofs.Reading.Counting
import PathTemplate.Proofs.Reading.Pinning
import PathTemplate.Proofs.Token.Patterns

namespace PathTemplate

namespace Mode

section Like

variable {shared : Flags.Shared} {mode mode' : Mode} (like : mode.Like shared mode')
include like

theorem Like.inClass : mode'.inClass = mode.inClass := by
  cases like with
  | escape cls => cases cls <;> rfl
  | hexOpen _ cls => cases cls <;> rfl
  | hex _ _ cls => cases cls <;> rfl
  | hexBrace _ _ cls => cases cls <;> rfl
  | _ => rfl

theorem Like.isForeign : mode'.isForeign = mode.isForeign := by
  cases like <;> rfl

theorem Like.isQuoting : mode'.isQuoting = mode.isQuoting := by
  cases like with
  | comment escaped => cases escaped <;> rfl
  | _ => rfl

theorem Like.isOpening : mode'.isOpening = mode.isOpening := by
  cases like <;> rfl

theorem Like.exists_opener {pending : Pending} {text : List Char}
    (opens : mode' = .opener pending text) :
    ∃ pending, mode = .opener pending text := by
  subst opens
  cases like
  exact ⟨_, rfl⟩

end Like

end Mode

namespace Reader

/-! ### Without the groups around -/

/-- Where the reading inside of groups goes on, so does the one on its own. -/
def Follows (alone inside : Option Reader) : Prop :=
  ∀ next, inside = some next → ∃ last, alone = some last

section Without

variable {outer : List Frame} {opened : Nat} {referred : Option Nat} {reader : Reader} {c : Char}

theorem follows_some {next : Reader} {inside : Option Reader} : Follows (some next) inside :=
  fun _ _ => ⟨next, rfl⟩

theorem follows_none {alone : Option Reader} : Follows alone none := fun _ h => nomatch h

theorem Follows.of_map {alone inside : Option Reader} {f : Reader → Reader}
    (same : inside = alone.map f) : Follows alone inside := by
  intro next found
  rw [same] at found
  exact (Option.map_eq_some_iff.1 found).imp fun _ both => both.1

/-- Fewer groups leave more room. -/
theorem follows_room {next next' : Reader} : Follows
    (if reader.frames.length < nestingLimit then some next else none)
    (if (reader.within outer opened referred).frames.length < nestingLimit then some next'
     else none) := by
  split
  · exact follows_some
  · rename_i full
    have more : ¬(reader.within outer opened referred).frames.length < nestingLimit := by
      simp only [within, List.length_append]
      omega
    rw [if_neg more]
    exact follows_none

theorem follows_openGroup (opener : Opener) :
    Follows (reader.openGroup opener) ((reader.within outer opened referred).openGroup opener) :=
  follows_room

theorem follows_stepReady (names : reader.names = []) (pending : Pending)
    (closes : c = ')' → reader.frames ≠ []) :
    Follows (reader.stepReady pending c)
      ((reader.within outer opened referred).stepReady pending c) := by
  by_cases close : c = ')'
  · subst close
    obtain ⟨frame, frames, here⟩ := List.exists_cons_of_ne_nil (closes rfl)
    have closing : reader.stepReady pending ')' = (reader.flush pending).closeGroup := by
      simp [stepReady, show isSpacing ')' = false from rfl]
    rw [closing]
    simp only [closeGroup, flush, here, levelAllowed, names, List.isEmpty_nil,
      Bool.or_true, if_true]
    exact follows_some
  · exact .of_map (stepReady_within pending close)

theorem follows_stepFlags (flags : Flags) (off dash begun : Bool) :
    Follows (reader.stepFlags flags off dash begun c)
      ((reader.within outer opened referred).stepFlags flags off dash begun c) := by
  unfold stepFlags
  simp only [flags_within]
  by_cases close : c = ')'
  · subst close
    simp only [show isSpacing ')' = false from rfl, Bool.and_false, Bool.false_eq_true, if_false,
      show (')' : Char) ≠ '-' by decide, if_true]
    split
    · exact follows_none
    · exact follows_room
  · simp only [close, if_false]
    repeat' split
    all_goals first
      | exact follows_some
      | exact follows_none
      | exact follows_openGroup _

theorem follows_stepOpener (pending : Pending) {text : List Char} (mark : text = [] → c = '?') :
    Follows (reader.stepOpener pending text c)
      ((reader.within outer opened referred).stepOpener pending text c) := by
  simp only [stepOpener, flags_within]
  split
  case h_1 =>
    simp only [mark rfl, if_true]
    exact follows_some
  all_goals repeat' split
  all_goals first
    | exact follows_some
    | exact follows_none
    | exact follows_openGroup _
    | exact @follows_stepFlags _ _ _ (reader.flush pending) _ _ _ _ _

theorem follows_stepBrace (names : reader.names = []) (atom : Expr) (text : List Char)
    (closes : c = ')' → reader.frames ≠ []) :
    Follows (reader.stepBrace atom text c)
      ((reader.within outer opened referred).stepBrace atom text c) := by
  obtain ⟨pending, ready⟩ := spellBrace_ready atom text reader
  have ready' : ((reader.spellBrace atom text).within outer opened referred).mode =
      .ready pending :=
    ready
  obtain ⟨mode, level, same⟩ := spellBrace_same atom text reader
  have spelled := @follows_stepReady outer opened referred (reader.spellBrace atom text) c
    (by rw [same]; exact names) pending (by rw [same]; exact closes)
  simp only [stepBrace, flags_within, spellBrace_within, ready, ready']
  repeat' split
  all_goals first
    | exact follows_some
    | exact .of_map (quantify_within _ _ _)
    | exact spelled

/-- A step that is taken inside of groups is taken without them, unless it closes one of them. -/
theorem follows_step (names : reader.names = []) (own : reader.mode.isForeign = false)
    (mark : ∀ pending, reader.mode = .opener pending [] → c = '?')
    (closes : c = ')' → reader.mode.isQuoting = true ∨ 0 < reader.unclosed) :
    Follows (reader.step c) ((reader.within outer opened referred).step c) := by
  have closes (part : reader.mode.isPart = true) (close : c = ')') : reader.frames ≠ [] := by
    have heard : reader.mode.isQuoting = false ∧ reader.mode.isOpening = false := by
      cases mode : reader.mode <;> rw [mode] at part <;> cases part <;> exact ⟨rfl, rfl⟩
    have some_ := (closes close).resolve_left (Bool.eq_false_iff.1 heard.1)
    intro none
    simp [Reader.unclosed, none, heard.2] at some_
  unfold step
  simp only [show (reader.within outer opened referred).mode = reader.mode from rfl]
  cases mode : reader.mode with
  | ready pending => exact follows_stepReady names pending (closes (by rw [mode]; rfl))
  | brace atom text => exact follows_stepBrace names atom text (closes (by rw [mode]; rfl))
  | escape cls => exact .of_map (stepEscape_within _)
  | hexOpen => exact .of_map (stepHexOpen_within _ _)
  | hex => exact .of_map (stepHex_within _ _ _)
  | hexBrace => exact .of_map (stepHexBrace_within _ _ _)
  | bracket cls =>
    dsimp only
    split
    · exact follows_some
    · exact .of_map (classSymbol_within _ _)
  | opener pending text => exact follows_stepOpener pending fun none => mark pending (none ▸ mode)
  | flags => exact follows_stepFlags _ _ _ _
  | _ => rw [mode] at own; cases own

end Without

/-! ### Before and after pinning -/

/-- The engine finds the groups of the text where the lexer counts them. No parenthesis stands for
itself in a class, and every class is complete before pinning; no group has a name, nothing is a
reference or a comment, and blanks mean something; at the end a part was read. -/
def countsAlike (reader : Reader) : List Char → Bool
  | [] => reader.mode.isPart
  | c :: text =>
    match reader.step c with
    | some next =>
      !(reader.mode.inClass && !reader.mode.isQuoting && (c = '(' || c = ')')) &&
        !next.mode.isForeign && !next.flags.spaced && next.countsAlike text
    | none => !reader.mode.inClass

section Counted

variable {reader next : Reader} {c : Char} {text : List Char}

theorem countsAlike_step (counted : reader.countsAlike (c :: text) = true)
    (step : reader.step c = some next) :
    (reader.mode.inClass = true → reader.mode.isQuoting = false → c ≠ '(' ∧ c ≠ ')') ∧
      next.mode.isForeign = false ∧ next.flags.spaced = false ∧ next.countsAlike text = true := by
  simp only [countsAlike, step, Bool.and_eq_true, Bool.not_eq_true', Bool.and_eq_false_iff,
    Bool.or_eq_false_iff, decide_eq_false_iff_not] at counted
  obtain ⟨⟨⟨heard, own⟩, spaced⟩, rest⟩ := counted
  refine ⟨fun inside quiet => ?_, own, spaced, rest⟩
  simpa [inside, quiet] using heard

theorem exists_step_of_countsAlike (counted : reader.countsAlike (c :: text) = true)
    (inside : reader.mode.inClass = true) : ∃ next, reader.step c = some next := by
  cases step : reader.step c with
  | some next => exact ⟨next, rfl⟩
  | none => simp [countsAlike, step, inside] at counted

/-- A bracket begins a class, or belongs to one. -/
theorem step_bracket (mark : ∀ pending, reader.mode ≠ .opener pending [])
    (quiet : reader.mode.isQuoting = false) (own : reader.mode.isForeign = false)
    (step : reader.step '[' = some next) :
    reader.mode.inClass = true ∨ ∃ last, reader.resolved = some last := by
  unfold Reader.step at step
  cases mode : reader.mode with
  | ready pending => exact .inr ⟨_, resolved_of_isReady ⟨_, mode⟩⟩
  | brace atom text => exact .inr ⟨_, by rw [resolved, mode]⟩
  | bracket cls => exact .inl rfl
  | hexOpen cls =>
    cases cls with
    | some cls => exact .inl rfl
    | none => simp [mode, stepHexOpen, show hexValue? '[' = none from rfl] at step
  | hex cls =>
    cases cls with
    | some cls => exact .inl rfl
    | none => simp [mode, stepHex, show hexValue? '[' = none from rfl] at step
  | hexBrace cls =>
    cases cls with
    | some cls => exact .inl rfl
    | none => simp [mode, stepHexBrace, show hexValue? '[' = none from rfl] at step
  | opener pending text =>
    rw [mode] at step
    simp only [stepOpener] at step
    split at step
    · exact absurd mode (mark pending)
    · simp [stepFlags, show isSpacing '[' = false from rfl, Flags.update?] at step
    · simp [show isGroupNameCharacter '[' = false from rfl] at step
    · simp at step
    · cases step
  | flags => simp [mode, stepFlags, show isSpacing '[' = false from rfl, Flags.update?] at step
  | escape => rw [mode] at quiet; cases quiet
  | _ => rw [mode] at own; cases own

theorem inClass_of_resolved {last : Reader} (resolved : reader.resolved = some last) :
    reader.mode.inClass = false := by
  unfold Reader.resolved at resolved
  split at resolved
  case h_4 => cases resolved
  all_goals
    rename_i mode
    rw [mode]
    rfl

theorem inClass_of_bracket (mark : ∀ pending, reader.mode ≠ .opener pending [])
    (quiet : reader.mode.isQuoting = false) (own : reader.mode.isForeign = false)
    (step : reader.step '[' = some next) : next.mode.inClass = true := by
  rcases step_bracket mark quiet own step with inside | ⟨last, resolved⟩
  · rcases step_inClass inside step with ⟨mode, still, rfl⟩ | ⟨_, close, _⟩
    · exact still
    · cases close
  · rw [step_resolved resolved (by unfold IsSign; decide)] at step
    obtain ⟨pending, ready⟩ := isReady_resolved resolved
    simp only [Reader.step, ready, stepReady, show isSpacing '[' = false from rfl, Bool.and_false,
      Bool.false_eq_true, if_false] at step
    cases step
    rfl

end Counted

/-- Readers of a text before and after pinning. Outside of classes either of them goes on where the
other one does. -/
structure Twin (reader reader' : Reader) : Prop extends Like .none reader reader' where
  back : reader'.Alike .none reader
  modes : reader.mode.inClass = true ∨ reader'.mode.Like .none reader.mode

section Twins

variable {reader reader' next' : Reader} {c : Char} {text : List Char} {outer : List Frame}
  {opened : Nat} {referred : Option Nat}

theorem Twin.of_like (like : reader.Like .none reader') (back : reader'.Like .none reader) :
    reader.Twin reader' :=
  ⟨like, back.toAlike, .inr back.mode⟩

theorem Twin.unclosed (twin : reader.Twin reader') : reader'.unclosed = reader.unclosed := by
  rw [Reader.unclosed, Reader.unclosed, twin.frames.length, twin.mode.isOpening]

/-- Where the second reading goes on, so does the first one, if it is not in a class. -/
theorem Twin.step (twin : reader.Twin reader') (step' : reader'.step c = some next')
    (none : next'.opened = 0)
    (goes : reader.mode.inClass = true → ∃ next, reader.step c = some next) :
    ∃ next, reader.step c = some next ∧ next.Twin next' := by
  by_cases inside : reader.mode.inClass = true
  · obtain ⟨next, step⟩ := goes inside
    have inside' : reader'.mode.inClass = true := twin.mode.inClass.trans inside
    have first := step_inClass inside step
    have opened : next.opened = 0 := by
      rcases first with ⟨_, _, rfl⟩ | ⟨_, _, _, rfl⟩ <;> exact twin.opened.1
    obtain ⟨found, second, like⟩ := twin.toLike.step c next step opened
    obtain rfl : next' = found := Option.some.inj (step'.symm.trans second)
    have modes := like.mode.inClass
    suffices back : next'.Alike .none next ∧
        (next.mode.inClass = true ∨ next'.mode.Like .none next.mode) from
      ⟨next, step, like, back.1, back.2⟩
    rcases first with ⟨mode, still, rfl⟩ | ⟨_, _, set, rfl⟩ <;>
      rcases step_inClass inside' step' with ⟨mode', still', rfl⟩ | ⟨_, _, set', rfl⟩
    · exact ⟨⟨twin.back.level, twin.back.frames, twin.back.flags, twin.back.opened, twin.back.names,
        twin.back.referred⟩, .inl still⟩
    · exact absurd (modes.trans still) nofun
    · exact absurd (still'.symm.trans modes) nofun
    · have back := twin.back.atom (Expr.resembles_one set' set)
      exact ⟨back.toAlike, .inr back.mode⟩
  · have back : reader'.Like .none reader := ⟨twin.back, twin.modes.resolve_left inside⟩
    obtain ⟨next, step, back⟩ := back.step c next' step' none
    obtain ⟨found, second, like⟩ := twin.toLike.step c next step back.opened.2
    obtain rfl : next' = found := Option.some.inj (step'.symm.trans second)
    exact ⟨next, step, .of_like like back⟩

/-- The same where the second reading goes on inside of groups. -/
theorem Twin.follow {inside : Reader} (twin : reader.Twin reader')
    (mark : ∀ pending, reader.mode = .opener pending [] → c = '?')
    (spaced : reader.flags.spaced = false) (own : reader.mode.isForeign = false)
    (closes : c = ')' → reader.mode.isQuoting = true ∨ 0 < reader.unclosed)
    (goes : reader.mode.inClass = true → ∃ next, reader.step c = some next)
    (step' : (reader'.within outer opened referred).step c = some inside) :
    ∃ next next' referred', reader.step c = some next ∧ next.Twin next' ∧
      inside = next'.within outer opened referred' := by
  have mark' : ∀ pending, reader'.mode = .opener pending [] → c = '?' := fun pending mode =>
    have ⟨pending, mode⟩ := twin.mode.exists_opener mode
    mark pending mode
  have own' : reader'.mode.isForeign = false := twin.mode.isForeign.trans own
  have closes' : c = ')' → reader'.mode.isQuoting = true ∨ 0 < reader'.unclosed := by
    rw [twin.mode.isQuoting, twin.unclosed]
    exact closes
  obtain ⟨next', alone⟩ := follows_step twin.names.2 own' mark' closes' inside step'
  have counts := counts_of_step mark' (twin.flags.spaced.trans spaced) own' alone
  have none : next'.opened = 0 := counts.opened.trans twin.opened.2
  obtain ⟨referred', rfl⟩ := mirrors_step twin.names.2 next' inside alone step' none
  obtain ⟨next, step, twins⟩ := twin.step alone none goes
  exact ⟨next, next', referred', step, twins, rfl⟩

end Twins

/-- The same readers between two characters that the lexer counts one by one: `depth` groups are
open for it, and `inClass` says that pinning takes itself to be in a class. -/
structure Abreast (inClass : Bool) (depth : Nat) (reader reader' : Reader) : Prop
    extends Twin reader reader' where
  quiet : reader.mode.isQuoting = false
  own : reader.mode.isForeign = false
  spaced : reader.flags.spaced = false
  count : reader.unclosed = depth
  cls : inClass = true → reader.mode.inClass = true

section Abreast

variable {inClass : Bool} {depth : Nat} {reader reader' inside : Reader} {c : Char}
  {text : List Char} {outer : List Frame} {opened : Nat} {referred : Option Nat}

/-- A character that is no backslash. -/
theorem Abreast.step {depth' : Nat} (abreast : Abreast inClass depth reader reader')
    (notSlash : c ≠ '\\') (mark : ∀ pending, reader.mode = .opener pending [] → c = '?')
    (counted : reader.countsAlike (c :: text) = true)
    (depths : depth' + (if c = ')' then 1 else 0) = depth + (if c = '(' then 1 else 0))
    (step' : (reader'.within outer opened referred).step c = some inside) :
    ∃ next next' referred', reader.step c = some next ∧
      inside = next'.within outer opened referred' ∧ next.countsAlike text = true ∧
      (∀ pending, next.mode = .opener pending [] → c = '(') ∧
      Abreast (if c = '[' then true else if c = ']' then false else inClass) depth' next next' := by
  have closes (close : c = ')') : reader.mode.isQuoting = true ∨ 0 < reader.unclosed := by
    rw [if_pos close, if_neg (close ▸ by decide)] at depths
    rw [abreast.count]
    exact .inr (by omega)
  obtain ⟨next, next', referred', step, twin, rfl⟩ := abreast.toTwin.follow mark abreast.spaced
    abreast.own closes (exists_step_of_countsAlike counted) step'
  obtain ⟨heard, own, spaced, counted⟩ := countsAlike_step counted step
  have counts := counts_of_step mark abreast.spaced abreast.own step
  refine ⟨next, next', referred', step, rfl, counted, counts.begins, twin, ?_, own, spaced, ?_, ?_⟩
  · exact Bool.eq_false_iff.2 fun quoting => notSlash ((proceeds_of_step step).quoting quoting).1
  · have count := abreast.count
    rcases counts.unclosed own with ⟨silent, same⟩ | ⟨_, same⟩
    · rw [abreast.quiet, Bool.false_or] at silent
      obtain ⟨notOpen, notClose⟩ := heard silent abreast.quiet
      rw [if_neg notOpen, if_neg notClose] at depths
      omega
    · omega
  · intro pinned
    by_cases bracket : c = '['
    · subst bracket
      exact inClass_of_bracket (fun pending mode => absurd (mark pending mode) (by decide))
        abreast.quiet abreast.own step
    · rw [if_neg bracket] at pinned
      split at pinned
      · cases pinned
      · rename_i notClose
        rcases step_inClass (abreast.cls pinned) step with ⟨mode, still, rfl⟩ | ⟨_, close, _⟩
        · exact still
        · exact absurd close notClose

/-- A backslash leads to an escape. -/
theorem Abreast.isEscape (abreast : Abreast inClass depth reader reader')
    (mark : ∀ pending, reader.mode ≠ .opener pending []) {next : Reader}
    (step : reader.step '\\' = some next) :
    (∃ last, reader.resolved = some last ∧ next = last.flushed.enter (.escape none)) ∨
      ∃ cls, reader.mode = .bracket cls ∧ next = reader.enter (.escape (some cls)) := by
  have own := abreast.own
  have counts := counts_of_step (fun pending mode => absurd mode (mark pending)) abreast.spaced
    own step
  cases abreast.toLike.escapes step (counts.opened.trans abreast.opened.1) abreast.quiet with
  | part resolved => exact .inl ⟨_, resolved, rfl⟩
  | member mode => exact .inr ⟨_, mode, rfl⟩
  | comment mode => rw [mode] at own; cases own
  | lineComment mode => rw [mode] at own; cases own

theorem Abreast.exists_escape (abreast : Abreast inClass depth reader reader')
    (mark : ∀ pending, reader.mode ≠ .opener pending []) {next : Reader}
    (step : reader.step '\\' = some next) : ∃ cls, next.mode = .escape cls := by
  rcases abreast.isEscape mark step with ⟨_, _, rfl⟩ | ⟨_, _, rfl⟩
  · exact ⟨_, rfl⟩
  · exact ⟨_, rfl⟩

/-- A backslash and `c` are read, as what stands for them is read on the way to `inside`. -/
def PassesEscape (reader : Reader) (c : Char) (outer : List Frame) (opened : Nat)
    (inside : Reader) : Prop :=
  ∃ middle next next' referred, reader.step '\\' = some middle ∧ middle.step c = some next ∧
    next.Twin next' ∧ inside = next'.within outer opened referred

/-- An escape that pinning keeps. -/
theorem Abreast.escapes_kept (abreast : Abreast inClass depth reader reader')
    (mark : ∀ pending, reader.mode ≠ .opener pending [])
    (counted : reader.countsAlike ('\\' :: c :: text) = true)
    (read' : (reader'.within outer opened referred).read ['\\', c] = some inside) :
    reader.PassesEscape c outer opened inside := by
  simp only [read_cons, read_nil, Option.bind_fun_some] at read'
  obtain ⟨_, first', second'⟩ := Option.bind_eq_some_iff.1 read'
  obtain ⟨middle, middle', referred', first, twin, rfl⟩ := abreast.toTwin.follow
    (fun pending mode => absurd mode (mark pending)) abreast.spaced abreast.own
    (fun close => absurd close (by decide)) (exists_step_of_countsAlike counted) first'
  obtain ⟨_, own, spaced, counted⟩ := countsAlike_step counted first
  obtain ⟨cls, escape⟩ := abreast.exists_escape mark first
  have noMark (pending : Pending) (mode : middle.mode = .opener pending []) : c = '?' := by
    rw [escape] at mode
    cases mode
  have quoting : middle.mode.isQuoting = true := by
    rw [escape]
    rfl
  obtain ⟨next, next', referred'', second, twin, rfl⟩ := twin.follow noMark spaced own
    (fun _ => .inl quoting) (exists_step_of_countsAlike counted) second'
  exact ⟨middle, next, next', referred'', first, second, twin, rfl⟩

/-- A shorthand in a class: what stands for it is read as members of that class. -/
theorem Abreast.escapes_inClass (abreast : Abreast inClass depth reader reader')
    (mark : ∀ pending, reader.mode ≠ .opener pending []) (listing : reader.mode.inClass = true)
    (counted : reader.countsAlike ('\\' :: c :: text) = true) (shorthand : c ∈ pinnedShorthands)
    {written : List Char} (isWritten : IsWritten written)
    (read' : (reader'.within outer opened referred).read written = some inside) :
    reader.PassesEscape c outer opened inside := by
  obtain ⟨set, sets⟩ := step_shorthand shorthand
  obtain ⟨middle, first⟩ := exists_step_of_countsAlike counted listing
  obtain ⟨_, _, _, counted⟩ := countsAlike_step counted first
  rcases abreast.isEscape mark first with ⟨last, resolved, _⟩ | ⟨cls, mode, rfl⟩
  · exact absurd listing (Bool.eq_false_iff.1 (inClass_of_resolved resolved))
  obtain ⟨next, second⟩ := exists_step_of_countsAlike counted rfl
  have symbol : reader.classSymbol cls (.shorthand set) = some next :=
    (sets _ (some cls)).symm.trans second
  obtain ⟨cls', whole, like⟩ := abreast.toLike.pinned_member mode symbol isWritten
  obtain ⟨referred', rfl⟩ := mirrors_read abreast.names.2 _ _ _ whole read' abreast.opened.2
  obtain ⟨cls'', rfl⟩ := (classSymbol_cases symbol).resolve_right (by simp)
  have back := abreast.back
  refine ⟨_, _, _, referred', first, second, ⟨like, ?_, .inl rfl⟩, rfl⟩
  exact ⟨back.level, back.frames, back.flags, back.opened, back.names, back.referred⟩

/-- A shorthand outside of all classes: what stands for it is a class of its own. -/
theorem Abreast.escapes_outside (abreast : Abreast false depth reader reader')
    (mark : ∀ pending, reader.mode ≠ .opener pending []) (outside : ¬reader.mode.inClass = true)
    (shorthand : c ∈ pinnedShorthands)
    (read' : (reader'.within outer opened referred).read (pinEscape false c) = some inside) :
    reader.PassesEscape c outer opened inside := by
  obtain ⟨set, sets⟩ := step_shorthand shorthand
  obtain ⟨body, written, same⟩ := pinEscape_outside shorthand
  rw [same] at read'
  obtain ⟨_, begins, _⟩ := Option.bind_eq_some_iff.1 (read_cons .. ▸ read')
  obtain ⟨_, _, _, bracket, _⟩ := abreast.toTwin.follow
    (fun pending mode => absurd mode (mark pending)) abreast.spaced abreast.own
    (fun close => absurd close (by decide)) (fun listing => absurd listing outside) begins
  obtain ⟨last, resolved⟩ :=
    (step_bracket mark abreast.quiet abreast.own bracket).resolve_left outside
  have none : last.opened = 0 := by
    obtain ⟨_, _, _, rfl⟩ := resolved_same resolved
    exact abreast.opened.1
  have back : reader'.Like .none reader := ⟨abreast.back, abreast.modes.resolve_left outside⟩
  obtain ⟨last', resolved', like⟩ := abreast.toLike.resolved last resolved none
  obtain ⟨found, again, back⟩ := back.resolved last' resolved' like.opened.2
  obtain rfl : last = found := Option.some.inj (resolved.symm.trans again)
  obtain ⟨set', whole⟩ := read_writtenClass_resolved resolved' written
  have took : (last'.took (.one set')).opened = 0 := like.opened.2
  obtain ⟨referred', rfl⟩ := mirrors_read abreast.names.2 _ _ _ whole read' took
  exact ⟨_, _, _, referred', step_backslash resolved,
    step_shorthand_took (isReady_resolved resolved) sets,
    .of_like (like.took (Expr.resembles_one set set')) (back.took (Expr.resembles_one set' set)),
    rfl⟩

/-- A backslash and a character after it. -/
theorem Abreast.escapes (abreast : Abreast inClass depth reader reader')
    (mark : ∀ pending, reader.mode ≠ .opener pending [])
    (counted : reader.countsAlike ('\\' :: c :: text) = true)
    (read' : (reader'.within outer opened referred).read (pinEscape inClass c) = some inside) :
    reader.PassesEscape c outer opened inside := by
  rcases pinEscape_cases inClass c with kept | ⟨shorthand, written⟩
  · rw [kept] at read'
    exact abreast.escapes_kept mark counted read'
  · by_cases listing : reader.mode.inClass = true
    · exact abreast.escapes_inClass mark listing counted shorthand written read'
    · obtain rfl : inClass = false :=
        Bool.eq_false_iff.2 fun pinned => listing (abreast.cls pinned)
      exact abreast.escapes_outside mark listing shorthand read'

/-- After the escape the readers are abreast again. -/
theorem Abreast.escape (abreast : Abreast inClass depth reader reader')
    (mark : ∀ pending, reader.mode ≠ .opener pending [])
    (counted : reader.countsAlike ('\\' :: c :: text) = true)
    (read' : (reader'.within outer opened referred).read (pinEscape inClass c) = some inside) :
    ∃ next next' referred', reader.read ['\\', c] = some next ∧
      inside = next'.within outer opened referred' ∧ next.countsAlike text = true ∧
      (∀ pending, next.mode ≠ .opener pending []) ∧ Abreast inClass depth next next' := by
  obtain ⟨middle, next, next', referred', first, second, twin, rfl⟩ :=
    abreast.escapes mark counted read'
  obtain ⟨_, own, spaced, counted⟩ := countsAlike_step counted first
  obtain ⟨_, own', spaced', counted⟩ := countsAlike_step counted second
  have counts := counts_of_step (fun pending mode => absurd mode (mark pending)) abreast.spaced
    abreast.own first
  obtain ⟨cls, escape⟩ := abreast.exists_escape mark first
  have stays : middle.Stays next := stays_of_escape escape second
  have quoting : middle.mode.isQuoting = true := by
    rw [escape]
    rfl
  refine ⟨next, next', referred', ?_, rfl, counted, ?_, twin, ?_, own', spaced', ?_, ?_⟩
  · simp only [read_cons, first, Option.bind_some, second, read_nil]
  · intro pending mode
    have plain := stays.mode
    rw [mode] at plain
    cases plain
  · exact Bool.eq_false_iff.2 fun still =>
      absurd quoting (Bool.eq_false_iff.1 ((proceeds_of_step second).quoting still).2)
  · have same : next.unclosed = middle.unclosed := by
      rw [Reader.unclosed, Reader.unclosed, stays.frames, stays.mode, escape]
      rfl
    have count := abreast.count
    rcases counts.unclosed own with ⟨_, before⟩ | ⟨_, before⟩
    · omega
    · simp at before
      omega
  · intro pinned
    rcases step_inClass (abreast.cls pinned) first with ⟨mode, still, rfl⟩ | ⟨_, close, _⟩
    · rcases step_inClass still second with ⟨mode, still, rfl⟩ | ⟨quiet, _⟩
      · exact still
      · exact absurd quoting (Bool.eq_false_iff.1 quiet)
    · cases close

/-- The text is read on its own: at its end no group is open, and none was opened that captures. -/
def Completes (reader : Reader) (text : List Char) : Prop :=
  ∃ last, reader.read text = some last ∧ last.opened = 0 ∧ last.frames = [] ∧
    last.mode.isPart = true ∧ last.flags.spaced = false

/-- A character that is no backslash, and the text after it. -/
theorem Abreast.completes_cons {depth' : Nat} (abreast : Abreast inClass depth reader reader')
    (notSlash : c ≠ '\\')
    (mark : ∀ pending, reader.mode = .opener pending [] → (c :: text).head? = some '?')
    (counted : reader.countsAlike (c :: text) = true)
    (depths : depth' + (if c = ')' then 1 else 0) = depth + (if c = '(' then 1 else 0))
    (read' : (reader'.within outer opened referred).read (pinFrom inClass (c :: text)) =
      some inside)
    (others : ∀ {inClass next next' referred}, Abreast inClass depth' next next' →
      (∀ pending, next.mode = .opener pending [] → c = '(') → next.countsAlike text = true →
      (next'.within outer opened referred).read (pinFrom inClass text) = some inside →
      next.Completes text) : reader.Completes (c :: text) := by
  rw [pinFrom_cons notSlash, read_cons] at read'
  obtain ⟨_, first', rest'⟩ := Option.bind_eq_some_iff.1 read'
  obtain ⟨next, next', referred', first, rfl, counted, begins, abreast⟩ := abreast.step notSlash
    (fun pending mode => Option.some.inj (mark pending mode)) counted depths first'
  obtain ⟨last, rest, done⟩ := others abreast begins counted rest'
  exact ⟨last, by rw [read_cons, first]; exact rest, done⟩

/-- Where a text that the lexer finds balanced is read inside of groups after pinning, it is read
on its own as it stands. -/
theorem Abreast.completes (abreast : Abreast inClass depth reader reader')
    (balanced : Lexeme.Balanced depth text)
    (mark : ∀ pending, reader.mode = .opener pending [] → text.head? = some '?')
    (counted : reader.countsAlike text = true)
    (read' : (reader'.within outer opened referred).read (pinFrom inClass text) = some inside) :
    reader.Completes text := by
  induction balanced generalizing inClass reader reader' referred with
  | nil =>
    have none : reader.frames = [] := by
      have count := abreast.count
      rw [Reader.unclosed] at count
      exact List.length_eq_zero_iff.1 (by omega)
    exact ⟨reader, rfl, abreast.opened.1, none, counted, abreast.spaced⟩
  | @escaped depth c rest balanced ih =>
    have noMark : ∀ pending, reader.mode ≠ .opener pending [] := fun pending mode =>
      absurd (Option.some.inj (mark pending mode)) (by decide)
    rw [pinFrom, read_append] at read'
    obtain ⟨_, first', rest'⟩ := Option.bind_eq_some_iff.1 read'
    obtain ⟨next, next', referred', first, rfl, counted, begins, abreast⟩ :=
      abreast.escape noMark counted first'
    obtain ⟨last, others, done⟩ :=
      ih abreast (fun pending mode => absurd mode (begins pending)) counted rest'
    refine ⟨last, ?_, done⟩
    rw [show '\\' :: c :: rest = ['\\', c] ++ rest from rfl, read_append, first]
    exact others
  | closing balanced ih =>
    exact abreast.completes_cons (by decide) mark counted rfl read' fun abreast begins =>
      ih abreast fun pending mode => absurd (begins pending mode) (by decide)
  | opening question balanced ih =>
    exact abreast.completes_cons (by decide) mark counted rfl read' fun abreast begins =>
      ih abreast fun _ _ => question
  | plain notSlash notClose notOpen balanced ih =>
    refine abreast.completes_cons notSlash mark counted
      (by rw [if_neg notClose, if_neg notOpen]) read'
      fun abreast begins => ih abreast fun pending mode => absurd (begins pending mode) notOpen

end Abreast

end Reader

end PathTemplate
