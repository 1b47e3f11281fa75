/-
Whatever was read stays.

A reader drops nothing: each part that it reads, and each level that waits around an open group, is
part of the expression in the end. So where an expression has a property as soon as some part of it
does, it is enough that the property held of something on the way.

* `Expr.IsRising`: properties of that kind.
* `Reader.Has`: something that was read has the property.
* `Reader.retains_of_step`, `Reader.retains_of_read` and `Reader.has_of_finish`: what a reader has,
  it still has after a step, after a text, and as its expression at the end.
* `Reader.Adds.has_of_finish`: so a part of an expression gives it its property.
-/

import PathTemplate.Proofs.Reading.Moves

namespace PathTemplate

/-- An expression has the property if and only if a part of it does, but for the groups, which may
have it for other reasons too. -/
structure Expr.IsRising (P : Expr → Prop) : Prop where
  empty : ¬P .empty
  seq : ∀ {a b : Expr}, P (.seq a b) ↔ P a ∨ P b
  alt : ∀ {a b : Expr}, P (.alt a b) ↔ P a ∨ P b
  loop : ∀ {least : Nat} {most : Option Nat} {greedy : Bool} {emptyPass : EmptyPass} {a : Expr},
    P (.loop least most greedy emptyPass a) ↔ P a
  wrap : ∀ (opener : Opener) {a : Expr}, P a → P (opener.wrap a)

section Has

variable (P : Expr → Prop)

def Pending.Has : Pending → Prop
  | .nothing => False
  | .atom e | .counted _ _ e | .reluctant e => P e

/-- A part that is not finished has the property. -/
def Mode.Has : Mode → Prop
  | .ready pending | .opener pending _ | .comment pending _ | .lineComment pending => pending.Has P
  | .brace atom _ => P atom
  | _ => False

/-- Something that was read has the property. -/
def Reader.Has (reader : Reader) : Prop :=
  (∃ frame ∈ reader.frames, P frame.around.expr) ∨ P reader.level.expr ∨ reader.mode.Has P

theorem Mode.has_iff (mode : Mode) : mode.Has P ↔ mode.pending.Has P := by
  cases mode <;> exact Iff.rfl

/-- What had the property before has it after. -/
def Reader.Retains (reader next : Reader) : Prop := reader.Has P → next.Has P

end Has

namespace Expr.IsRising

variable {P : Expr → Prop} (rising : IsRising P)
include rising

theorem append {a b : Expr} : P (a.append b) ↔ P a ∨ P b := by
  rcases append_cases a b with rfl | rfl | ⟨_, _, same⟩
  · exact (or_iff_right rising.empty).symm
  · rw [append_empty]
    exact (or_iff_left rising.empty).symm
  · rw [same, rising.seq]

theorem push (level : Level) {e : Expr} : P (level.push e).expr ↔ P level.expr ∨ P e := by
  obtain ⟨earlier, branch⟩ := level
  cases earlier with
  | none => exact rising.append
  | some earlier => simp only [Level.push, Level.expr, rising.alt, rising.append, or_assoc]

theorem foldl_push (level : Level) {parts : List Expr} :
    P (parts.foldl (fun level e => level.push e) level).expr ↔
      P level.expr ∨ ∃ e ∈ parts, P e := by
  induction parts generalizing level with
  | nil => simp
  | cons e parts ih =>
    rw [List.foldl_cons, ih, rising.push, or_assoc]
    simp

theorem split (level : Level) : P level.split.expr ↔ P level.expr :=
  rising.alt.trans (or_iff_left rising.empty)

theorem part (reader : Reader) (pending : Pending) :
    P (reader.part pending) ↔ pending.Has P := by
  cases pending with
  | nothing => exact iff_of_false rising.empty id
  | counted => exact rising.loop
  | _ => exact Iff.rfl

end Expr.IsRising

namespace Reader

variable {P : Expr → Prop} {reader base next last : Reader} {c : Char}

theorem Retains.refl (reader : Reader) : Retains P reader reader := id

theorem Retains.trans (first : Retains P reader next) (second : Retains P next last) :
    Retains P reader last :=
  fun has => second (first has)

theorem retains_enter {mode : Mode} (kept : reader.mode.Has P → mode.Has P) :
    Retains P reader (reader.enter mode) :=
  Or.imp id (Or.imp id kept)

theorem retains_idle {mode : Mode} (none : ¬reader.mode.Has P) :
    Retains P reader (reader.enter mode) :=
  retains_enter fun has => absurd has none

theorem retains_openGroup {opener : Opener} (none : ¬reader.mode.Has P)
    (h : reader.openGroup opener = some next) : Retains P reader next := by
  unfold openGroup at h
  split at h <;> cases h
  rintro (⟨frame, member, has⟩ | has | has)
  · exact .inl ⟨frame, List.mem_cons_of_mem _ member, has⟩
  · exact .inl ⟨_, List.mem_cons_self, has⟩
  · exact absurd has none

theorem retains_openCapture (none : ¬reader.mode.Has P) (h : reader.openCapture = some next) :
    Retains P reader next :=
  fun has => retains_openGroup (by exact none) h has

theorem not_has_of_isMarked (marked : reader.mode.isMarked = true) : ¬reader.mode.Has P := by
  rw [Mode.has_iff, Mode.pending_of_isMarked marked]
  exact id

section Rising

variable (rising : Expr.IsRising P)
include rising

theorem retains_flush {pending : Pending} (mode : reader.mode.Has P → pending.Has P) :
    Retains P reader (reader.flush pending) := by
  rintro (frame | has | has)
  · exact .inl frame
  · exact .inr (.inl ((rising.push _).2 (.inl has)))
  · exact .inr (.inl ((rising.push _).2 (.inr ((rising.part _ _).2 (mode has)))))

/-- Nothing is had once nothing is pending that was not had before. -/
theorem has_of_flushed (ready : reader.IsReady) (has : reader.flushed.Has P) : reader.Has P := by
  obtain ⟨pending, mode⟩ := ready
  rw [flushed_eq mode] at has
  rcases has with frame | has | has
  · exact .inl frame
  · rcases (rising.push _).1 has with has | has
    · exact .inr (.inl has)
    · refine .inr (.inr ?_)
      rw [mode]
      exact (rising.part _ _).1 has
  · exact has.elim

theorem retains_split (reader : Reader) :
    Retains P reader { reader with level := reader.level.split } :=
  Or.imp id (Or.imp (rising.split _).2 id)

theorem retains_atom {pending : Pending} (mode : reader.mode.Has P → pending.Has P) (e : Expr) :
    Retains P reader (reader.atom pending e) :=
  (retains_flush rising mode).trans (retains_idle id)

theorem retains_spelledOut {fold : Bool} {text : List Char} (ready : reader.IsReady) :
    Retains P reader (reader.spelledOut fold text) := by
  induction text generalizing reader with
  | nil => exact .refl reader
  | cons d text ih =>
    obtain ⟨pending, mode⟩ := ready
    have first : Retains P reader (reader.took (.character fold d)) := by
      rw [took, flushed_eq mode]
      exact retains_atom rising (by rw [mode]; exact id) _
    exact first.trans (ih (isReady_took _ reader))

theorem retains_spellBrace {atom : Expr} {text : List Char}
    (mode : reader.mode = .brace atom text) :
    Retains P reader (reader.spellBrace atom text) := by
  rw [spellBrace_eq]
  have first : Retains P reader (reader.enter (.ready (.atom atom))) :=
    retains_enter (by rw [mode]; exact id)
  exact first.trans (retains_spelledOut rising ⟨_, rfl⟩)

theorem retains_closeGroup (none : ¬reader.mode.Has P) (h : reader.closeGroup = some next) :
    Retains P reader next := by
  obtain ⟨frame, frames, flags, here, rfl⟩ := closeGroup_eq_some h
  rintro (⟨around, member, has⟩ | has | has)
  · rw [here] at member
    rcases List.mem_cons.1 member with rfl | member
    · exact .inr (.inl has)
    · exact .inl ⟨around, member, has⟩
  · exact .inr (.inr (rising.wrap _ has))
  · exact absurd has none

theorem retains_resolved (h : reader.resolved = some next) : Retains P reader next := by
  unfold resolved at h
  split at h
  case h_1 =>
    cases h
    exact .refl reader
  case h_2 mode =>
    cases h
    exact retains_spellBrace rising mode
  case h_3 mode =>
    obtain ⟨e, rfl, -⟩ := refer_eq_some h
    have none : reader.mode.Has P → Pending.nothing.Has P := by
      rw [mode]
      exact id
    exact @retains_atom P { reader with referred := _ } rising _ none e
  case h_4 => cases h

/-- A step drops nothing. -/
theorem Moves.retains (moves : Moves c reader next) : Retains P reader next := by
  induction moves with
  | turns turns =>
    refine retains_enter ?_
    rw [Mode.has_iff, Mode.has_iff, turns.pending]
    exact id
  | completes completes =>
    refine retains_atom rising ?_ _
    rw [Mode.has_iff, completes.pending]
    exact id
  | counts _ pending =>
    refine retains_enter ?_
    rw [Mode.has_iff, pending]
    exact id
  | reluctant mode =>
    refine retains_enter ?_
    rw [mode]
    exact rising.loop.2
  | possessive mode =>
    refine retains_flush rising ?_
    rw [mode]
    exact fun has => rising.wrap .atomic ((rising.part _ _).2 has)
  | splits => exact retains_split rising _
  | opens marked _ opened =>
    have none := not_has_of_isMarked (P := P) marked
    exact fun has => retains_openGroup (by exact none) opened has
  | names mode _ _ opened => exact fun has => retains_openCapture (by rw [mode]; exact id) opened has
  | closes mode _ closed => exact retains_closeGroup rising (by rw [mode]; exact id) closed
  | sets marked => exact fun has => retains_idle (not_has_of_isMarked marked) has
  | resolves resolved _ ih => exact (retains_resolved rising resolved).trans ih
  | flushes mode _ ih => exact (retains_flush rising (by rw [mode]; exact id)).trans ih
  | flushesOpener mode _ ih =>
    exact ((retains_flush rising (by rw [mode]; exact id)).trans (retains_idle id)).trans ih
  | captures mode _ _ opened _ ih =>
    exact (retains_openCapture (by rw [mode]; exact id) opened).trans ih

/-- A step drops nothing. -/
theorem retains_of_step (h : reader.step c = some next) : Retains P reader next :=
  (moves_of_step h).retains rising

/-- A text drops nothing. -/
theorem retains_of_read {text : List Char} (h : reader.read text = some last) :
    Retains P reader last := by
  induction text generalizing reader with
  | nil =>
    cases h
    exact .refl _
  | cons c text ih =>
    rw [read_cons] at h
    obtain ⟨next, first, others⟩ := Option.bind_eq_some_iff.1 h
    exact (retains_of_step rising first).trans (ih others)

/-- Whatever a reader has is in its expression at the end. -/
theorem has_of_finish (h : reader.finish = some last) (has : reader.Has P) :
    P last.level.expr := by
  obtain ⟨base, from_, rfl, frames⟩ := finish_eq_some h
  have kept : base.Has P := by
    rcases from_ with resolved | rfl
    · exact retains_resolved rising resolved has
    · exact has
  rcases retains_flush rising (Mode.has_iff P _).1 kept with ⟨frame, member, -⟩ | has | has
  · change frame ∈ base.frames at member
    rw [frames] at member
    exact absurd member List.not_mem_nil
  · exact has
  · exact has.elim

/-- A part that was read gives the expression its property, whatever follows. -/
theorem Adds.has_of_finish {total : Bool} {groups : Nat} {parts : List Expr} {e : Expr}
    {text : List Char} {done : Reader} (adds : reader.Adds total groups parts next)
    (member : e ∈ parts) (has : P e) (read : next.read text = some last)
    (finish : last.finish = some done) : P done.level.expr := by
  refine Reader.has_of_finish rising finish (retains_of_read rising read ?_)
  refine has_of_flushed rising adds.ready (.inr (.inl ?_))
  rw [adds.level]
  exact (rising.foldl_push _).2 (.inr ⟨e, member, has⟩)

end Rising

end Reader

end PathTemplate
