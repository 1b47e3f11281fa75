/-
Reading a text inside groups that capture nothing.

A text that is complete on its own may have capture groups and refer back to them. Inside groups
that capture nothing, and after no other group, the numbers of its groups stay what they are, so that
references may be followed as well: only the record of decimal references may differ.

* `Reader.wrapped` puts a reader of the text alone into the groups, and `Reader.read_wrapped` says
  that both readings go on in the same way as long as both go on.
* `Reader.resolved_wrapped`: where a part is complete in the one, so it is in the other.
-/

import PathTemplate.Proofs.Reading.Embedding

namespace PathTemplate

/-- None of the groups captures. -/
def CapturesNothing (outer : List Frame) : Prop :=
  ∀ frame ∈ outer, ∀ number, frame.opener ≠ .capture number

namespace Reader

/-- The reader of a text alone, put into groups, with this record of decimal references. -/
def wrapped (outer : List Frame) (referred : Option Nat) (reader : Reader) : Reader :=
  reader.inside id { frames := outer, referred }

section Steps

variable {outer : List Frame} {referred : Option Nat} {reader next next' : Reader} {c : Char}
  (plain : CapturesNothing outer)
include plain

theorem isOpen_wrapped (number : Nat) :
    (reader.wrapped outer referred).isOpen number = reader.isOpen number := by
  have none : outer.any (fun frame => frame.opener = .capture number) = false :=
    List.any_eq_false.2 fun frame member => by simpa using plain frame member number
  have same : ∀ opener : Opener,
      opener.renumber (0 + ·) = .capture number ↔ opener = .capture number := by
    intro opener
    cases opener <;> simp [Opener.renumber]
  simp only [isOpen, wrapped, inside, List.any_append, none, Bool.or_false, List.any_map]
  congr 2
  funext frame
  exact decide_eq_decide.2 (same frame.opener)

theorem refer_wrapped (number : Nat) : (reader.wrapped outer referred).refer number =
    (reader.refer number).map (·.wrapped outer referred) := by
  simp only [refer, isOpen_wrapped plain,
    show (reader.wrapped outer referred).opened = 0 + reader.opened from rfl, Nat.zero_add]
  split
  · split
    · exact congrArg some (atom_nothing_inside rfl)
    · exact congrArg some (atom_nothing_inside rfl)
  · rfl

theorem referDecimal_wrapped (number : Nat) :
    ∃ referred', (reader.wrapped outer referred).referDecimal number =
      (reader.referDecimal number).map (·.wrapped outer referred') :=
  ⟨_, @refer_wrapped _ (some (max number (referred.getD 0)))
    { reader with referred := some (max number (reader.referred.getD 0)) } plain number⟩

theorem referNamed_wrapped (text : List Char) :
    (reader.wrapped outer referred).referNamed text =
      (reader.referNamed text).map (·.wrapped outer referred) := by
  have names : (reader.wrapped outer referred).names = reader.names := by
    simp [wrapped, inside]
  simp only [referNamed, names]
  split
  · exact refer_wrapped plain _
  · split
    · exact refer_wrapped plain _
    · rfl

omit plain in
theorem mode_wrapped (own : reader.mode.isReference = true) :
    (reader.wrapped outer referred).mode = reader.mode := by
  cases mode : reader.mode <;> simp [mode, Mode.isReference] at own <;>
    simp [wrapped, inside, mode, Mode.renumber]

/-- A decimal reference is followed where a character ends it. -/
theorem step_reference_wrapped {number : Nat} (mode : reader.mode = .reference number)
    (alone : reader.step c = some next)
    (within : (reader.wrapped outer referred).step c = some next') :
    ∃ referred', next' = next.wrapped outer referred' := by
  have mode' := (@mode_wrapped outer referred reader (by rw [mode]; rfl)).trans mode
  simp only [step, mode] at alone
  simp only [step, mode'] at within
  by_cases digit : c.isDigit = true
  · rw [if_pos digit] at alone within
    cases alone
    cases within
    exact ⟨referred, rfl⟩
  · rw [if_neg digit] at alone within
    obtain ⟨referred', same⟩ := @referDecimal_wrapped outer referred reader plain number
    rw [same] at within
    cases found : reader.referDecimal number with
    | none => simp [found] at alone
    | some complete =>
      obtain ⟨e, ready⟩ := ready_of_refer found
      have ready' : (complete.wrapped outer referred').mode =
          .ready (.atom (e.renumber (0 + ·) id)) := by
        simp [wrapped, inside, ready, Mode.renumber, Pending.renumber]
      simp only [found, ready] at alone
      simp only [found, Option.map_some, ready'] at within
      exact ⟨referred', agrees_stepReady (.atom e) _ _ alone within⟩

theorem stepReferenceName_wrapped (close : Char) (text : List Char) :
    (reader.wrapped outer referred).stepReferenceName close text c =
      (reader.stepReferenceName close text c).map (·.wrapped outer referred) := by
  unfold stepReferenceName
  split
  · rfl
  · split
    · exact referNamed_wrapped plain text
    · rfl

/-- Where both readings go on, they go on in the same way. -/
theorem step_wrapped (alone : reader.step c = some next)
    (within : (reader.wrapped outer referred).step c = some next') :
    ∃ referred', next' = next.wrapped outer referred' := by
  cases own : reader.mode.isReference with
  | false => exact ⟨referred, agrees_step own _ _ alone within⟩
  | true =>
    have mode' := @mode_wrapped outer referred reader own
    cases mode : reader.mode with
    | reference number => exact step_reference_wrapped plain mode alone within
    | referenceOpen =>
      simp only [step, mode] at alone
      simp only [step, mode', mode] at within
      refine ⟨referred, ?_⟩
      split at alone <;> cases alone <;> cases within <;> rfl
    | referenceName close text =>
      simp only [step, mode] at alone
      simp only [step, mode', mode, stepReferenceName_wrapped plain, alone] at within
      exact ⟨referred, (Option.some.inj within).symm⟩
    | _ => simp [mode, Mode.isReference] at own

theorem read_wrapped {text : List Char} (alone : reader.read text = some next)
    (within : (reader.wrapped outer referred).read text = some next') :
    ∃ referred', next' = next.wrapped outer referred' := by
  induction text generalizing reader referred with
  | nil =>
    cases alone
    cases within
    exact ⟨referred, rfl⟩
  | cons c text ih =>
    rw [read_cons] at alone within
    obtain ⟨middle, first, rest⟩ := Option.bind_eq_some_iff.1 alone
    obtain ⟨middle', first', rest'⟩ := Option.bind_eq_some_iff.1 within
    obtain ⟨_, rfl⟩ := step_wrapped plain first first'
    exact ih rest rest'

theorem resolved_wrapped {last : Reader} (complete : reader.resolved = some last) :
    ∃ referred', (reader.wrapped outer referred).resolved =
      some (last.wrapped outer referred') := by
  cases mode : reader.mode with
  | reference number =>
    obtain ⟨referred', same⟩ := @referDecimal_wrapped outer referred reader plain number
    refine ⟨referred', ?_⟩
    simp only [resolved, mode] at complete
    simp only [resolved, wrapped, inside, mode, Mode.renumber]
    exact same.trans (congrArg _ complete)
  | _ =>
    refine ⟨referred, resolved_inside ?_ complete⟩
    simp [mode, Mode.isReference] <;> simp [resolved, mode] at complete

end Steps

end Reader

end PathTemplate
