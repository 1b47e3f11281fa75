/-
Reading the members of a list.

The text of every member stands in a group of its own, and these groups are the branches of another
one. Where a text reads as the same expression wherever it is all that a group holds, so does the
text of the list.

* `Reader.ReadsAs`: what a text reads as wherever it is all that a group holds.
* `Reader.ReadsAs.grouped`, `Reader.ReadsAs.branches`: the text in a group of its own, and several
  of these as branches.
-/

import PathTemplate.Proofs.Expression.Branches
import PathTemplate.Proofs.Reading.Embedding

namespace PathTemplate

namespace Reader

/-- Wherever the text is all that a group holds, and these flags hold where it begins, it reads as
`e`, whose groups follow those before it. -/
def ReadsAs (flags : Flags) (e : Expr) (text : List Char) : Prop :=
  ∀ ⦃reader next : Reader⦄, reader.IsFresh → reader.flags = flags → reader.read text = some next →
    Contains (e.shift reader.opened) reader next

/-- A text leads from `reader` to `next` and is an atom, after which the same flags hold. -/
structure TakesAtom (e : Expr) (reader next : Reader) : Prop where
  mode : next.mode = .ready (.atom e)
  level : next.level = reader.flushed.level
  frames : next.frames = reader.frames
  flags : next.flags = reader.flags
  opened : next.opened = reader.opened + e.groups.length

/-- The text in a group that captures nothing. -/
def grouped (text : List Char) : List Char := ['(', '?', ':'] ++ (text ++ [')'])

variable {flags : Flags} {e first : Expr} {text : List Char} {reader middle next : Reader}

theorem closes_plain {around : Level} {frames : List Frame} (ready : reader.IsReady)
    (here : reader.frames = ⟨.plain flags, around⟩ :: frames)
    (step : reader.step ')' = some next) :
    next = { reader with
      mode := .ready (.atom reader.flushed.level.expr), level := around, frames, flags } := by
  obtain ⟨pending, ready⟩ := ready
  have closing : reader.step ')' = (reader.flush pending).closeGroup := by
    simp [Reader.step, ready, stepReady, show isSpacing ')' = false from rfl]
  rw [closing] at step
  rw [flushed_eq ready]
  simp only [closeGroup, flush, here] at step
  split at step
  · cases step
    rfl
  · cases step

/-- In a group the text is an atom. -/
theorem ReadsAs.grouped (reads : ReadsAs flags e text) (ready : reader.IsReady)
    (same : reader.flags = flags) (read : reader.read (grouped text) = some next) :
    TakesAtom (e.shift reader.opened) reader next := by
  subst same
  rw [Reader.grouped, read_append, read_opens ready (.plain reader.flags)] at read
  split at read
  case isFalse => cases read
  rw [Option.bind_some, read_append] at read
  obtain ⟨inner, inside, closing⟩ := Option.bind_eq_some_iff.1 read
  obtain ⟨last, resolved, frames, opened, expr⟩ :=
    @reads (reader.opening (.plain reader.flags)) _ ⟨rfl, rfl⟩ rfl inside
  rw [read_resolved resolved (by unfold IsSign; decide), read_cons] at closing
  obtain ⟨_, closing, ended⟩ := Option.bind_eq_some_iff.1 closing
  cases ended
  obtain rfl := closes_plain (isReady_resolved resolved) frames closing
  exact ⟨congrArg (Mode.ready ∘ Pending.atom) expr, rfl, rfl, rfl, opened⟩

/-- The branches so far read as `e`, and these flags still hold. -/
structure Branching (e : Expr) (reader next : Reader) : Prop where
  ready : next.IsReady
  frames : next.frames = reader.frames
  flags : next.flags = reader.flags
  opened : next.opened = reader.opened + e.groups.length
  expr : next.flushed.level.expr = e

theorem TakesAtom.branching (fresh : reader.IsFresh) (takes : TakesAtom e reader next) :
    Branching e reader next := by
  refine ⟨⟨_, takes.mode⟩, takes.frames, takes.flags, takes.opened, ?_⟩
  rw [flushed_eq takes.mode, flush, takes.level, fresh.flushed_level]
  rfl

theorem Branching.contains (branching : Branching e reader next) : Contains e reader next :=
  ⟨next, resolved_of_isReady branching.ready, branching.frames, branching.opened, branching.expr⟩

/-- A group in a group reads as what it holds. -/
theorem ReadsAs.in_group (reads : ReadsAs flags e text) :
    ReadsAs flags e (Reader.grouped text) :=
  fun _ _ fresh same read =>
    ((reads.grouped ⟨_, fresh.mode⟩ same read).branching fresh).contains

theorem Branching.alternative {opened : Nat} (start : opened = reader.opened)
    (earlier : Branching (first.shift opened) reader middle)
    (takes : TakesAtom (e.shift middle.opened) middle.split next) :
    Branching ((Expr.alt first (e.shift first.groups.length)).shift opened) reader next := by
  have level : middle.split.flushed.level = middle.flushed.level.split := by
    rw [flushed_eq (show middle.split.mode = .ready .nothing from rfl)]
    simp [split, flush, part, Level.push]
  have number : middle.opened = opened + first.groups.length := by
    rw [earlier.opened, start, Expr.length_groups_shift]
  have whole : (Expr.alt first (e.shift first.groups.length)).shift opened =
      .alt (first.shift opened) (e.shift middle.opened) := by
    rw [number, ← Expr.shift_shift]
    rfl
  rw [whole]
  refine ⟨⟨_, takes.mode⟩, takes.frames.trans earlier.frames, takes.flags.trans earlier.flags,
    ?_, ?_⟩
  · rw [takes.opened, Expr.groups, List.length_append, ← Nat.add_assoc, ← earlier.opened]
    rfl
  · rw [flushed_eq takes.mode, flush, takes.level, level, ← earlier.expr]
    rfl

/-- Texts that read as expressions read as branches, with a bar before each further one. -/
theorem ReadsAs.branches {rest : List Expr} {texts : List (List Char)}
    (others : List.Forall₂ (ReadsAs flags) rest texts) (same : reader.flags = flags)
    (earlier : Branching (first.shift reader.opened) reader middle)
    (read : middle.read (texts.flatMap fun text => '|' :: Reader.grouped text) = some next) :
    Branching ((Expr.branches first rest).shift reader.opened) reader next := by
  induction others generalizing first middle with
  | nil =>
    cases read
    exact earlier
  | @cons e text rest texts reads _ ih =>
    rw [List.flatMap_cons, read_append, read_cons, step_bar earlier.ready, Option.bind_some] at read
    obtain ⟨after, here, read⟩ := Option.bind_eq_some_iff.1 read
    have ready : middle.split.IsReady := ⟨_, rfl⟩
    have takes := reads.grouped ready (earlier.flags.trans same) here
    exact ih (earlier.alternative rfl takes) read

/-- The branches between the parentheses of one more group. -/
theorem ReadsAs.members {rest : List Expr} {texts : List (List Char)}
    (reads : ReadsAs flags first text) (others : List.Forall₂ (ReadsAs flags) rest texts) :
    ReadsAs flags (Expr.branches first rest)
      (Reader.grouped text ++ texts.flatMap fun text => '|' :: Reader.grouped text) := by
  intro reader next fresh same read
  rw [read_append] at read
  obtain ⟨middle, here, read⟩ := Option.bind_eq_some_iff.1 read
  have begins := (reads.grouped ⟨_, fresh.mode⟩ same here).branching fresh
  exact (ReadsAs.branches others same begins read).contains

end Reader

end PathTemplate
