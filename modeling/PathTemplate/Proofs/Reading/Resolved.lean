/-
Where a part turns out to be complete.

A brace that is no quantifier stands for itself, and a decimal reference goes on as long as digits
do, so that only a later character tells what was read.

* `Reader.spellBrace_eq` is the reader once the brace is known to stand for itself.
* `Reader.resolved` is the reader once its brace or its reference is known to be complete;
  `Reader.step_resolved` and `Reader.finish_resolved` say that signs and the end of the text find
  it so.
-/

import PathTemplate.Proofs.Reading.Fragments

namespace PathTemplate

/-- A comment up to the end of the line. -/
def Mode.isLineComment : Mode → Bool
  | .lineComment _ => true
  | _ => false

namespace Reader

section Spelled

variable {reader next : Reader} {c : Char}

/-- The characters that a brace and `text` stand for where they are no quantifier. -/
def braceText (spaced : Bool) (text : List Char) : List Char :=
  '{' :: (if spaced then text.filter (!isSpacing ·) else text).reverse

/-- The reader after some characters that stand for themselves. -/
def spelledOut (fold : Bool) (text : List Char) (reader : Reader) : Reader :=
  text.foldl (fun reader c => reader.took (.character fold c)) reader

/-- One character that stands for itself. -/
def spelled (reader : Reader) (c : Char) : Reader :=
  match reader.mode with
  | .ready pending => reader.atom pending (.character reader.flags.fold c)
  | _ => reader

theorem spelled_ready (ready : reader.IsReady) :
    reader.spelled c = reader.took (.character reader.flags.fold c) := by
  obtain ⟨pending, ready⟩ := ready
  simp only [spelled, ready, took, flushed_eq ready]
  rfl

theorem foldl_spelled {text : List Char} (ready : reader.IsReady) :
    text.foldl spelled reader = reader.spelledOut reader.flags.fold text := by
  induction text generalizing reader with
  | nil => rfl
  | cons c text ih =>
    rw [List.foldl_cons, spelled_ready ready]
    exact ih ⟨_, rfl⟩

theorem spellBrace_eq (atom : Expr) (text : List Char) (reader : Reader) :
    reader.spellBrace atom text =
      (reader.enter (.ready (.atom atom))).spelledOut reader.flags.fold
        (braceText reader.flags.spaced text) :=
  foldl_spelled ⟨_, rfl⟩

theorem spelledOut_ready {fold : Bool} {text : List Char} (ready : reader.IsReady) :
    (reader.spelledOut fold text).IsReady := by
  induction text generalizing reader with
  | nil => exact ready
  | cons c text ih => exact ih ⟨_, rfl⟩

/-- Characters that stand for themselves change nothing but the branch. -/
theorem spelledOut_same {fold : Bool} {text : List Char} :
    ∃ mode level, reader.spelledOut fold text = { reader with mode, level } := by
  induction text generalizing reader with
  | nil => exact ⟨reader.mode, reader.level, rfl⟩
  | cons c text ih =>
    obtain ⟨mode, level, same⟩ := @ih (reader.took (.character fold c))
    exact ⟨mode, level, same⟩

theorem spellBrace_same (atom : Expr) (text : List Char) (reader : Reader) :
    ∃ mode level, reader.spellBrace atom text = { reader with mode, level } := by
  rw [spellBrace_eq]
  exact @spelledOut_same (reader.enter (.ready (.atom atom))) _ _

theorem spellBrace_ready (atom : Expr) (text : List Char) (reader : Reader) :
    (reader.spellBrace atom text).IsReady := by
  rw [spellBrace_eq]
  exact spelledOut_ready ⟨_, rfl⟩

/-- A reference is an atom that never matches, or one that refers back to a group. -/
theorem refer_eq_some {number : Nat} (h : reader.refer number = some next) :
    ∃ e, next = reader.atom .nothing e ∧ (e = .never ∨ ∃ number, e = .back number) := by
  unfold refer at h
  split at h <;> cases h
  refine ⟨_, rfl, ?_⟩
  split
  · exact .inl rfl
  · exact .inr ⟨_, rfl⟩

theorem ready_of_refer {number : Nat} (h : reader.refer number = some next) :
    ∃ e, next.mode = .ready (.atom e) := by
  obtain ⟨e, rfl, -⟩ := refer_eq_some h
  exact ⟨e, rfl⟩

end Spelled

section Resolved

variable {reader next : Reader}

/-- The reader between two parts, if what it is reading is a part as it stands. -/
def resolved (reader : Reader) : Option Reader :=
  match reader.mode with
  | .ready _ => some reader
  | .brace atom text => some (reader.spellBrace atom text)
  | .reference number => reader.referDecimal number
  | _ => none

/-- The character belongs to no quantifier, no reference and no blank. -/
def IsSign (c : Char) : Prop :=
  c.isDigit = false ∧ c ≠ ',' ∧ isSpacing c = false ∧ c ≠ '\x7D'

theorem isReady_resolved (h : reader.resolved = some next) : next.IsReady := by
  unfold resolved at h
  split at h
  case h_1 mode =>
    cases h
    exact ⟨_, mode⟩
  case h_2 =>
    cases h
    exact spellBrace_ready ..
  case h_3 =>
    obtain ⟨e, ready⟩ := ready_of_refer h
    exact ⟨_, ready⟩
  case h_4 => cases h

theorem resolved_of_isReady (ready : reader.IsReady) : reader.resolved = some reader := by
  obtain ⟨pending, mode⟩ := ready
  simp only [resolved, mode]

theorem resolved_same (h : reader.resolved = some next) :
    ∃ mode level referred, next = { reader with mode, level, referred } := by
  unfold resolved at h
  split at h
  case h_1 =>
    cases h
    exact ⟨_, _, _, rfl⟩
  case h_2 =>
    cases h
    obtain ⟨mode, level, same⟩ := spellBrace_same _ _ reader
    exact ⟨mode, level, reader.referred, same⟩
  case h_3 =>
    simp only [referDecimal, refer] at h
    split at h <;> cases h
    exact ⟨_, _, _, rfl⟩
  case h_4 => cases h

theorem step_resolved (h : reader.resolved = some next) {c : Char} (sign : IsSign c) :
    reader.step c = next.step c := by
  have notDigit := sign
  unfold IsSign at notDigit
  obtain ⟨pending, ready⟩ := isReady_resolved h
  unfold resolved at h
  split at h
  case h_1 => cases h; rfl
  case h_2 mode =>
    cases h
    simp only [step, mode, stepBrace, notDigit, ready]
    simp
  case h_3 mode =>
    simp only [step, mode, notDigit, ready, h]
    simp
  case h_4 => cases h

theorem read_resolved (h : reader.resolved = some next) {c : Char} (sign : IsSign c)
    (text : List Char) : reader.read (c :: text) = next.read (c :: text) := by
  rw [read_cons, read_cons, step_resolved h sign]

/-- A text may end where a part is complete and no group is open. -/
theorem finish_of_resolved (h : reader.resolved = some next) (frames : next.frames = [])
    (names : next.names = []) : reader.finish = some next.flushed := by
  have kept : (if (next.flushed.frames.isEmpty && next.flushed.levelAllowed) = true then
      some next.flushed else none) = some next.flushed := by
    simp [flushed, flush, frames, names, levelAllowed]
  obtain ⟨pending, ready⟩ := isReady_resolved h
  rw [flushed_eq ready] at kept ⊢
  unfold resolved at h
  split at h
  case h_1 mode =>
    cases h
    simpa only [finish, ready] using kept
  case h_2 mode =>
    cases h
    simpa only [finish, mode, ready] using kept
  case h_3 mode => simpa only [finish, mode, h, ready] using kept
  case h_4 => cases h

/-- A text may end where a part is complete, or in a comment up to the end of the line. -/
theorem finish_resolved (h : reader.finish = some next) (line : reader.mode.isLineComment = false) :
    ∃ last, reader.resolved = some last ∧ last.flushed = next ∧ next.frames = [] := by
  have kept : ∀ {base : Reader}, (if (base.frames.isEmpty && base.levelAllowed) = true then
      some base else none) = some next → base = next ∧ next.frames = [] := by
    intro base h
    by_cases allowed : (base.frames.isEmpty && base.levelAllowed) = true
    · simp only [allowed, if_true] at h
      cases h
      simp only [Bool.and_eq_true, List.isEmpty_iff] at allowed
      exact ⟨rfl, allowed.1⟩
    · simp [allowed] at h
  have ends : ∀ {last : Reader}, reader.resolved = some last →
      (reader.finish = if (last.flushed.frames.isEmpty && last.flushed.levelAllowed) = true then
        some last.flushed else none) →
      ∃ last, reader.resolved = some last ∧ last.flushed = next ∧ next.frames = [] :=
    fun resolved same => ⟨_, resolved, kept (same.symm.trans h)⟩
  cases mode : reader.mode with
  | ready pending =>
    refine ends (resolved_of_isReady ⟨pending, mode⟩) ?_
    simp only [finish, mode, flushed_eq mode]
  | brace atom text =>
    have resolved : reader.resolved = some (reader.spellBrace atom text) := by
      simp only [resolved, mode]
    obtain ⟨pending, ready⟩ := isReady_resolved resolved
    refine ends resolved ?_
    simp only [finish, mode, ready, flushed_eq ready]
  | reference number =>
    cases found : reader.referDecimal number with
    | none => simp only [finish, mode, found, reduceCtorEq] at h
    | some last =>
      have resolved : reader.resolved = some last := by simp only [resolved, mode, found]
      obtain ⟨pending, ready⟩ := isReady_resolved resolved
      refine ends resolved ?_
      simp only [finish, mode, found, ready, flushed_eq ready]
  | lineComment => rw [mode] at line; cases line
  | _ => simp only [finish, mode, reduceCtorEq] at h

end Resolved

end Reader

end PathTemplate
