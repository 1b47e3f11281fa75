/-
What any step of a reader keeps to.

`Reader.Proceeds`: groups are not forgotten, names belong to groups, escapes begin with a backslash,
and comments up to the end of the line only where blanks mean nothing.
-/

import PathTemplate.Proofs.Reading.Moves

namespace PathTemplate

namespace Mode

variable {flags : Flags} {c : Char} {mode next : Mode}

theorem Turns.isQuoting (turns : mode.Turns flags c next) (quoting : next.isQuoting = true) :
    c = '\\' ∧ mode.isQuoting = false := by
  cases turns with
  | backslash sign | memberEscape sign | commentEscape sign => exact ⟨sign, rfl⟩
  | _ => cases quoting

theorem Turns.isLineComment (turns : mode.Turns flags c next) (line : next.isLineComment = true) :
    flags.spaced = true ∨ mode.isLineComment = true := by
  cases turns with
  | line spaced => exact .inl spaced
  | lineMore => exact .inr rfl
  | _ => cases line

end Mode

namespace Reader

/-- What any step on `c` keeps to. -/
structure Proceeds (c : Char) (reader next : Reader) : Prop where
  /-- No group is forgotten. -/
  opened : reader.opened ≤ next.opened
  /-- A name belongs to a group. -/
  names : next.opened = reader.opened → next.names = reader.names
  /-- Only a backslash makes the next character part of an escape. -/
  quoting : next.mode.isQuoting = true → c = '\\' ∧ reader.mode.isQuoting = false
  /-- Comments up to the end of the line begin only where blanks mean nothing. -/
  comment : next.mode.isLineComment = true →
    next.flags.spaced = true ∨ (reader.mode.isLineComment = true ∧ next.flags = reader.flags)

/-- What a step keeps to that begins no escape and no comment. -/
structure Rests (before : Nat) (known : List (List Char × Nat)) (next : Reader) : Prop where
  opened : before ≤ next.opened
  names : next.opened = before → next.names = known
  quoting : next.mode.isQuoting = false
  comment : next.mode.isLineComment = false

section Proceeds

variable {reader base next : Reader} {c : Char}

theorem Rests.proceeds (h : Rests reader.opened reader.names next) : Proceeds c reader next :=
  ⟨h.opened, h.names, by simp [h.quoting], by simp [h.comment]⟩

/-- A step that goes on from a reader where no comment is open. -/
theorem Proceeds.after (h : Proceeds c base next) (rests : Rests reader.opened reader.names base)
    (quiet : reader.mode.isQuoting = false) : Proceeds c reader next where
  opened := Nat.le_trans rests.opened h.opened
  names := by
    intro same
    have more := h.opened
    have least := rests.opened
    exact (h.names (by omega)).trans (rests.names (by omega))
  quoting := fun q => ⟨(h.quoting q).1, quiet⟩
  comment := fun line =>
    .inl ((h.comment line).resolve_right fun both => by simp [rests.comment] at both)

/-- Where a capture group is opened, nothing has to be known of the names. -/
theorem rests_openCapture {opened : Nat} {names : List (List Char × Nat)}
    (least : opened ≤ reader.opened) (h : reader.openCapture = some next) :
    Rests opened names next := by
  obtain ⟨more, ready⟩ := openCapture_eq_some h
  refine ⟨by omega, fun same => by omega, ?_, ?_⟩
  · rw [ready]
    rfl
  · rw [ready]
    rfl

theorem rests_resolved (h : reader.resolved = some next) :
    Rests reader.opened reader.names next ∧ reader.mode.isQuoting = false := by
  obtain ⟨pending, ready⟩ := isReady_resolved h
  obtain ⟨mode, level, referred, rfl⟩ := resolved_same h
  obtain rfl : mode = .ready pending := ready
  refine ⟨⟨Nat.le_refl _, fun _ => rfl, rfl, rfl⟩, ?_⟩
  have outer := isInner_of_resolved h
  cases here : reader.mode with
  | escape | comment => simp [here, Mode.isInner] at outer
  | _ => rfl

theorem Moves.proceeds (moves : Moves c reader next) : Proceeds c reader next := by
  induction moves with
  | turns turns =>
    exact ⟨Nat.le_refl _, fun _ => rfl, turns.isQuoting, fun line =>
      (turns.isLineComment line).imp id fun before => ⟨before, rfl⟩⟩
  | completes | counts | reluctant | possessive | sets =>
    exact Rests.proceeds ⟨Nat.le_refl _, fun _ => rfl, rfl, rfl⟩
  | splits mode =>
    refine Rests.proceeds ⟨Nat.le_refl _, fun _ => rfl, ?_, ?_⟩
    · exact congrArg Mode.isQuoting mode
    · exact congrArg Mode.isLineComment mode
  | opens _ _ opened =>
    obtain rfl := openGroup_eq_some opened
    exact Rests.proceeds ⟨Nat.le_refl _, fun _ => rfl, rfl, rfl⟩
  | names _ _ _ opened => exact (rests_openCapture (by exact Nat.le_refl _) opened).proceeds
  | closes _ _ closed =>
    obtain ⟨_, _, _, _, rfl⟩ := closeGroup_eq_some closed
    exact Rests.proceeds ⟨Nat.le_refl _, fun _ => rfl, rfl, rfl⟩
  | resolves resolved _ ih =>
    obtain ⟨rests, quiet⟩ := rests_resolved resolved
    exact ih.after rests quiet
  | flushes mode _ ih => exact ih.after ⟨Nat.le_refl _, fun _ => rfl, rfl, rfl⟩ (by rw [mode]; rfl)
  | flushesOpener mode _ ih =>
    exact ih.after ⟨Nat.le_refl _, fun _ => rfl, rfl, rfl⟩ (by rw [mode]; rfl)
  | captures mode _ _ opened _ ih =>
    exact ih.after (rests_openCapture (Nat.le_refl _) opened) (by rw [mode]; rfl)

theorem proceeds_of_step (h : reader.step c = some next) : Proceeds c reader next :=
  (moves_of_step h).proceeds

theorem proceeds_stepReady {pending : Pending} (ready : reader.mode = .ready pending)
    (h : reader.stepReady pending c = some next) : Proceeds c reader next :=
  (moves_stepReady ready h).proceeds

theorem rests_of_read {text : List Char} (h : reader.read text = some next) :
    Rests reader.opened reader.names { next with mode := .ready .nothing } := by
  induction text generalizing reader with
  | nil =>
    cases h
    exact ⟨Nat.le_refl _, fun _ => rfl, rfl, rfl⟩
  | cons c text ih =>
    rw [read_cons] at h
    obtain ⟨middle, first, rest⟩ := Option.bind_eq_some_iff.1 h
    have before := proceeds_of_step first
    have after := ih rest
    have more := before.opened
    have least := after.opened
    refine ⟨Nat.le_trans more least, fun same => ?_, rfl, rfl⟩
    change next.opened = reader.opened at same
    change middle.opened ≤ next.opened at least
    exact (after.names (show next.opened = _ by omega)).trans (before.names (by omega))

/-- At the end of a text, as after any step. -/
theorem spaced_of_read {text : List Char} (h : reader.read text = some next)
    (begins : reader.mode.isLineComment = true → reader.flags.spaced = true)
    (line : next.mode.isLineComment = true) : next.flags.spaced = true := by
  induction text generalizing reader with
  | nil =>
    cases h
    exact begins line
  | cons c text ih =>
    rw [read_cons] at h
    obtain ⟨middle, first, rest⟩ := Option.bind_eq_some_iff.1 h
    refine ih rest fun inside => ?_
    rcases (proceeds_of_step first).comment inside with spaced | ⟨before, same⟩
    · exact spaced
    · exact same ▸ begins before

end Proceeds

end Reader

end PathTemplate
