/-
References stay where they were read.

Whatever a reader reads goes into the expression in the end, so that a text whose expression refers
to no group met no reference on the way.

* `Reader.refers_of_step`: a step forgets no reference, neither one that was read nor one that is
  being read.
* `Reader.standsAlone_of_finish`: a text stands alone if its expression refers to no group and it
  does not end in a comment.
-/

import PathTemplate.Proofs.Reading.Embedding
import PathTemplate.Proofs.Reading.Keeping
import PathTemplate.Proofs.Reading.Resemblance

namespace PathTemplate

theorem Expr.isRising_refers : IsRising (·.refers = true) where
  empty := Bool.false_ne_true
  seq := Bool.or_eq_true_iff
  alt := Bool.or_eq_true_iff
  loop := Iff.rfl
  wrap opener _ refers := by cases opener <;> exact refers

namespace Reader

/-- A reference was read, or is being read. -/
def Refers (reader : Reader) : Prop :=
  reader.Has (·.refers = true) ∨ reader.mode.isReference = true

section Steps

variable {reader next last : Reader} {c : Char}

/-- What a reference becomes refers to a group. -/
theorem has_refer {number : Nat} (h : reader.refer number = some next) :
    next.Has (·.refers = true) := by
  unfold refer at h
  split at h <;> cases h
  refine .inr (.inr ?_)
  simp only [atom, enter, Mode.Has, Pending.Has]
  split <;> rfl

/-- A number that is read on is a reference, and so is what it becomes at its end. -/
theorem refers_reference {number : Nat} (mode : reader.mode = .reference number)
    (h : reader.step c = some next) : next.Refers := by
  unfold step at h
  rw [mode] at h
  dsimp only at h
  split at h
  · cases h
    exact .inr rfl
  · split at h
    · rename_i base found
      obtain ⟨e, ready⟩ := ready_of_refer found
      simp only [ready] at h
      exact .inl ((moves_stepReady ready h).retains Expr.isRising_refers (has_refer found))
    · cases h

theorem refers_referenceName {close : Char} {text : List Char}
    (h : reader.stepReferenceName close text c = some next) : next.Refers := by
  simp only [stepReferenceName, referNamed] at h
  repeat' split at h
  all_goals first
    | exact .inl (has_refer h)
    | (cases h; exact .inr rfl)
    | cases h

/-- A step forgets no reference, neither one that was read nor one that is being read. -/
theorem refers_of_step (h : reader.step c = some next) (refers : reader.Refers) : next.Refers := by
  rcases refers with has | reference
  · exact .inl (retains_of_step Expr.isRising_refers h has)
  · have whole := h
    unfold step at h
    cases mode : reader.mode with
    | reference => exact refers_reference mode whole
    | referenceOpen =>
      rw [mode] at h
      dsimp only at h
      split at h <;> cases h <;> exact .inr rfl
    | referenceName close text =>
      rw [mode] at h
      exact refers_referenceName h
    | _ =>
      rw [mode] at reference
      cases reference

/-- At the end a reference is part of the expression. -/
theorem refers_of_finish (ends : reader.finish = some last) (refers : reader.Refers) :
    last.level.expr.refers = true := by
  rcases refers with has | reference
  · exact has_of_finish Expr.isRising_refers ends has
  · cases mode : reader.mode with
    | reference number =>
      cases found : reader.referDecimal number with
      | none => simp only [finish, mode, found, reduceCtorEq] at ends
      | some base =>
        obtain ⟨e, ready⟩ := ready_of_refer found
        have same : base.finish = reader.finish := by simp only [finish, mode, found, ready]
        exact has_of_finish Expr.isRising_refers (same.trans ends) (has_refer found)
    | referenceOpen | referenceName => simp only [finish, mode, reduceCtorEq] at ends
    | _ =>
      rw [mode] at reference
      cases reference

end Steps

/-- A text stands alone if its expression refers to no group and it does not end in a comment. -/
theorem standsAlone_of_finish {reader last done : Reader} {text : List Char}
    (read : reader.read text = some last) (finish : last.finish = some done)
    (own : done.level.expr.refers = false) (line : last.mode.isLineComment = false) :
    reader.standsAlone text = true := by
  have none : ¬last.Refers := fun refers => by
    rw [refers_of_finish finish refers] at own
    cases own
  -- From the end backwards, no reader on the way has met a reference.
  suffices reader.standsAlone text = true ∧ ¬reader.Refers from this.1
  induction text generalizing reader with
  | nil =>
    cases read
    refine ⟨?_, none⟩
    rw [standsAlone, Bool.eq_false_iff.2 fun reference => none (.inr reference), line]
    rfl
  | cons c text ih =>
    rw [read_cons] at read
    obtain ⟨next, first, rest⟩ := Option.bind_eq_some_iff.1 read
    obtain ⟨alone, free⟩ := ih rest
    have before : ¬reader.Refers := fun refers => free (refers_of_step first refers)
    refine ⟨?_, before⟩
    rw [standsAlone, Bool.eq_false_iff.2 fun reference => before (.inr reference), first,
      Option.all_some, alone]
    rfl

end Reader

end PathTemplate
