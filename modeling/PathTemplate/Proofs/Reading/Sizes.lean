/-
How long a text is that refers back to its groups.

Every capture group takes two parentheses and a decimal reference at least two characters, so that
the number of a reference is less than half of the size of the text. `Expression.expr?_eq` says
that therefore no expression is refused for its size.
-/

import PathTemplate.Expression
import PathTemplate.Proofs.Reading.Moves

namespace PathTemplate

/-- Characters that were read and have opened no group yet, or belong to a reference. -/
def Mode.owed : Mode → Nat
  | .escape none | .opener _ [] => 1
  | .reference _ => 2
  | _ => 0

section Owed

variable {flags : Flags} {c : Char} {mode next : Mode}

/-- Apart from a parenthesis and a backslash, only the first digit of a reference begins something
that owes a character more. -/
theorem Mode.Turns.owed (turns : mode.Turns flags c next) : next.owed ≤ mode.owed + 1 := by
  cases turns <;> simp [Mode.owed]

end Owed

namespace Reader

/-- Two characters for each group, and two for a reference if there is one. -/
def spent (reader : Reader) : Nat := 2 * reader.opened + if reader.referred.isSome then 2 else 0

/-- The groups and the references are ones for which `n` characters are enough. An open group
lacks its last character. -/
structure Fits (n : Nat) (reader : Reader) : Prop where
  size : reader.spent + reader.mode.owed ≤ n + reader.frames.length
  /-- There is a group for every reference. -/
  referred : ∀ number ∈ reader.referred, number ≤ reader.opened

section Fits

variable {reader next : Reader} {c : Char} {n : Nat}

theorem Fits.mono {more : Nat} (h : reader.Fits n) (le : n ≤ more) : reader.Fits more :=
  ⟨by have := h.size; omega, h.referred⟩

/-- The mode is another one, and perhaps the level and the flags. -/
theorem Fits.change (h : reader.Fits n) {mode : Mode} {level : Level} {flags : Flags}
    (owed : mode.owed = 0) : ({ reader with mode, level, flags } : Reader).Fits n :=
  ⟨by have := h.size; simp only [spent, owed] at this ⊢; omega, h.referred⟩

theorem Fits.flush (h : reader.Fits n) (pending : Pending) : (reader.flush pending).Fits n :=
  @Fits.change _ _ h _ _ reader.flags rfl

theorem fits_openGroup (h : reader.Fits n) {opener : Opener}
    (step : reader.openGroup opener = some next) : next.Fits n := by
  obtain rfl := openGroup_eq_some step
  have size := h.size
  exact ⟨by simp only [spent, Mode.owed, List.length_cons] at size ⊢; omega, h.referred⟩

theorem fits_openCapture (size : reader.spent + 1 ≤ n + reader.frames.length)
    (referred : ∀ number ∈ reader.referred, number ≤ reader.opened)
    (step : reader.openCapture = some next) : next.Fits n := by
  obtain rfl := openGroup_eq_some step
  refine ⟨by simp only [spent, Mode.owed, List.length_cons] at size ⊢; omega, ?_⟩
  exact fun number found => Nat.le_succ_of_le (referred number found)

/-- The characters of a reference that was read count no more as characters of its construct. -/
theorem fits_resolved (h : reader.Fits n) (resolved : reader.resolved = some next) :
    next.Fits n := by
  have size := h.size
  unfold Reader.resolved at resolved
  split at resolved
  case h_1 =>
    cases resolved
    exact h
  case h_2 =>
    cases resolved
    obtain ⟨pending, ready⟩ := spellBrace_ready _ _ reader
    obtain ⟨mode, level, same⟩ := spellBrace_same _ _ reader
    rw [same] at ready ⊢
    exact h.change (by rw [show mode = _ from ready]; rfl)
  case h_3 mode =>
    rw [mode] at size
    unfold referDecimal refer at resolved
    split at resolved <;> cases resolved
    rename_i known
    change _ ≤ reader.opened at known
    refine ⟨?_, ?_⟩
    · simp only [spent, Mode.owed, atom, flush, enter, Option.isSome_some, if_true] at size ⊢
      omega
    · intro greatest found
      cases found
      refine Nat.max_le.2 ⟨known, ?_⟩
      cases before : reader.referred with
      | none => exact Nat.zero_le _
      | some other => exact h.referred other before
  case h_4 => cases resolved

/-- With every character that is read, one more is enough. -/
theorem Moves.fits (moves : Moves c reader next) (h : reader.Fits n) : next.Fits (n + 1) := by
  induction moves with
  | @turns reader mode turns =>
    have size := h.size
    have owed := turns.owed
    refine ⟨?_, h.referred⟩
    change reader.spent + mode.owed ≤ n + 1 + reader.frames.length
    omega
  | completes | counts | reluctant | possessive | sets =>
    exact (h.mono (Nat.le_add_right n 1)).change rfl
  | splits mode => exact (h.mono (Nat.le_add_right n 1)).change (by rw [mode]; rfl)
  | @opens reader next opener flags _ _ opened =>
    have changed : ({ reader with flags } : Reader).Fits n := ⟨h.size, h.referred⟩
    exact fits_openGroup (changed.mono (Nat.le_add_right n 1)) opened
  | names _ _ _ opened =>
    have size := h.size
    refine fits_openCapture ?_ (by exact h.referred) opened
    simp only [spent] at size ⊢
    omega
  | closes _ _ closed =>
    obtain ⟨frame, frames, flags, here, rfl⟩ := closeGroup_eq_some closed
    have size := h.size
    rw [here] at size
    exact ⟨by simp only [spent, Mode.owed, List.length_cons] at size ⊢; omega, h.referred⟩
  | resolves resolved _ ih => exact ih (fits_resolved h resolved)
  | flushes _ _ ih => exact ih (h.flush _)
  | @flushesOpener reader next pending text mode _ ih =>
    have size := h.size
    rw [mode] at size
    exact ih ⟨by cases text <;> exact size, h.referred⟩
  | captures mode _ _ opened _ ih =>
    have size := h.size
    rw [mode] at size
    exact ih (fits_openCapture size h.referred opened)

theorem Fits.step (h : reader.Fits n) (step : reader.step c = some next) : next.Fits (n + 1) :=
  (moves_of_step step).fits h

theorem Fits.read (h : reader.Fits n) {text : List Char} (read : reader.read text = some next) :
    next.Fits (n + text.length) := by
  induction text generalizing reader n with
  | nil => cases read; exact h
  | cons c text ih =>
    rw [read_cons] at read
    obtain ⟨middle, first, rest⟩ := Option.bind_eq_some_iff.1 read
    rw [List.length_cons, Nat.add_comm text.length, ← Nat.add_assoc]
    exact ih (h.step first) rest

/-- Where a text may end no group is open, so that it is long enough for its references. -/
theorem Fits.finish (h : reader.Fits n) (ends : reader.finish = some next) :
    ∀ number ∈ next.referred, 2 * number + 2 ≤ n := by
  obtain ⟨base, from_, rfl, closed⟩ := finish_eq_some ends
  have fits : base.Fits n := by
    rcases from_ with resolved | rfl
    · exact fits_resolved h resolved
    · exact h
  intro number found
  change number ∈ base.referred at found
  have size := fits.size
  have opened := fits.referred number found
  rw [closed, spent, found, Option.isSome_some, if_pos rfl, List.length_nil] at size
  omega

end Fits

theorem length_le_size (text : List Char) (size : Nat) :
    size + text.length ≤ text.foldl (fun size c => size + c.utf8Size) size := by
  induction text generalizing size with
  | nil => exact Nat.le_refl _
  | cons c text ih =>
    have positive := c.utf8Size_pos
    have more := ih (size + c.utf8Size)
    rw [List.foldl_cons, List.length_cons]
    omega

end Reader

namespace Expression

/-- No reference is refused for being too great. -/
theorem expr?_eq (source : List Char) :
    expr? source = ((({} : Reader).read source).bind Reader.finish).bind fun reader =>
      reader.level.expr.settled? := by
  unfold expr?
  cases read : ({} : Reader).read source with
  | none => rfl
  | some last =>
    simp only [Option.bind_eq_bind, Option.bind_some]
    cases finish : last.finish with
    | none => rfl
    | some reader =>
      have begins : ({} : Reader).Fits 0 := ⟨Nat.le_refl _, nofun⟩
      have fits := (begins.read read).finish finish
      have size := Reader.length_le_size source 0
      have small : reader.referred.all
          (· < source.foldl (fun size c => size + c.utf8Size) 0 / 2) = true := by
        cases referred : reader.referred with
        | none => rfl
        | some number =>
          have enough := fits number referred
          simp only [Option.all_some, decide_eq_true_eq]
          omega
      exact if_pos small

end Expression

end PathTemplate
