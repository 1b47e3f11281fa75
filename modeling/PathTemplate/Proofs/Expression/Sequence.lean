/-
Sequences of expressions.

`Expr.append` puts expressions one after the other and `Expr.join` does so with a list of them.
The empty expression leaves no trace in the result, and each property of a sequence can be told
from the parts.
-/

import PathTemplate.Proofs.Expression.Coverage

namespace PathTemplate

namespace Expr

section Append

variable {a b : Expr}

@[simp] theorem append_empty (e : Expr) : e.append .empty = e := by cases e <;> rfl

@[simp] theorem empty_append (e : Expr) : Expr.empty.append e = e := rfl

/-- Only the empty expression makes appending anything else than a sequence. -/
theorem append_cases (a b : Expr) :
    a = .empty ∨ b = .empty ∨ (a ≠ .empty ∧ b ≠ .empty ∧ a.append b = .seq a b) := by
  by_cases first : a = .empty
  · exact .inl first
  · by_cases second : b = .empty
    · exact .inr (.inl second)
    · refine .inr (.inr ⟨first, second, ?_⟩)
      cases a <;> cases b <;> first | rfl | contradiction

theorem append_eq_empty_iff : a.append b = .empty ↔ a = .empty ∧ b = .empty := by
  rcases append_cases a b with rfl | rfl | ⟨first, second, same⟩
  · simp
  · simp
  · simp [first, same]

/-- A loop may go round a sequence of two parts, whatever they are. -/
theorem isRepeatable_append_iff : (a.append b).isRepeatable = true ↔
    a.isRepeatable = true ∨ b.isRepeatable = true ∨ (a ≠ .empty ∧ b ≠ .empty) := by
  rcases append_cases a b with rfl | rfl | ⟨first, second, same⟩
  · simp [isRepeatable]
  · simp [isRepeatable]
  · simp [first, second, same, isRepeatable]

theorem groups_append : (a.append b).groups = a.groups ++ b.groups := by
  rcases append_cases a b with rfl | rfl | ⟨_, _, same⟩
  · rfl
  · simp [groups]
  · rw [same, groups]

theorem isPlain_append : (a.append b).isPlain = (a.isPlain && b.isPlain) := by
  rcases append_cases a b with rfl | rfl | ⟨_, _, same⟩
  · rfl
  · simp [isPlain]
  · rw [same, isPlain]

theorem isDeclarative_append :
    (a.append b).isDeclarative = (a.isDeclarative && b.isDeclarative) := by
  rcases append_cases a b with rfl | rfl | ⟨_, _, same⟩
  · rfl
  · simp [isDeclarative]
  · rw [same, isDeclarative]

theorem covers_append {before w after : List Char} :
    (a.append b).Covers before w after ↔ ∃ u v, w = u ++ v ∧
      a.Covers before u (v ++ after) ∧ b.Covers (u.reverse ++ before) v after := by
  rcases append_cases a b with rfl | rfl | ⟨_, _, same⟩
  · constructor
    · exact fun covered => ⟨[], w, rfl, rfl, by simpa using covered⟩
    · rintro ⟨_, v, rfl, rfl, covered⟩
      simpa using covered
  · constructor
    · exact fun covered => ⟨w, [], by simp, by simpa using covered, rfl⟩
    · rintro ⟨u, _, rfl, covered, rfl⟩
      simpa using covered
  · rw [same, Covers]

end Append

/-- The parts one after the other. -/
def join (parts : List Expr) : Expr := parts.foldl append .empty

/-- The parts can cover a text one after the other. -/
def CoversAll : List Expr → Fit
  | [], _, w, _ => w = []
  | e :: rest, before, w, after =>
    ∃ u v, w = u ++ v ∧ e.Covers before u (v ++ after) ∧
      CoversAll rest (u.reverse ++ before) v after

section Join

variable {parts more : List Expr} {before w after : List Char}

theorem coversAll_singleton {e : Expr} :
    CoversAll [e] before w after ↔ e.Covers before w after := by
  constructor
  · rintro ⟨u, _, rfl, covered, rfl⟩
    simpa using covered
  · exact fun covered => ⟨w, [], (List.append_nil w).symm, covered, rfl⟩

theorem coversAll_append : CoversAll (parts ++ more) before w after ↔ ∃ u v, w = u ++ v ∧
    CoversAll parts before u (v ++ after) ∧ CoversAll more (u.reverse ++ before) v after := by
  induction parts generalizing before w with
  | nil =>
    constructor
    · exact fun covered => ⟨[], w, rfl, rfl, covered⟩
    · rintro ⟨_, v, rfl, rfl, covered⟩
      exact covered
  | cons e parts ih =>
    constructor
    · rintro ⟨u, _, rfl, first, others⟩
      obtain ⟨v, rest, rfl, front, back⟩ := ih.1 others
      refine ⟨u ++ v, rest, by simp, ⟨u, v, rfl, by simpa using first, by simpa using front⟩, ?_⟩
      simpa using back
    · rintro ⟨_, rest, rfl, ⟨u, v, rfl, first, front⟩, back⟩
      refine ⟨u, v ++ rest, by simp, by simpa using first, ih.2 ⟨v, rest, rfl, ?_, ?_⟩⟩
      · simpa using front
      · simpa using back

theorem covers_join : (join parts).Covers before w after ↔ CoversAll parts before w after := by
  suffices ∀ (a : Expr) {before w : List Char}, (parts.foldl append a).Covers before w after ↔
      ∃ u v, w = u ++ v ∧ a.Covers before u (v ++ after) ∧
        CoversAll parts (u.reverse ++ before) v after by
    rw [join, this]
    constructor
    · rintro ⟨_, v, rfl, rfl, covered⟩
      exact covered
    · exact fun covered => ⟨[], w, rfl, rfl, covered⟩
  induction parts with
  | nil =>
    intro a before w
    constructor
    · exact fun covered => ⟨w, [], by simp, by simpa using covered, rfl⟩
    · rintro ⟨u, _, rfl, covered, rfl⟩
      simpa using covered
  | cons e parts ih =>
    intro a before w
    rw [List.foldl_cons, ih]
    constructor
    · rintro ⟨_, v, rfl, covered, others⟩
      obtain ⟨s, t, rfl, first, second⟩ := covers_append.1 covered
      refine ⟨s, t ++ v, by simp, by simpa using first, t, v, rfl, second, ?_⟩
      simpa using others
    · rintro ⟨s, _, rfl, first, t, v, rfl, second, others⟩
      refine ⟨s ++ t, v, by simp, covers_append.2 ⟨s, t, rfl, ?_, second⟩, ?_⟩
      · simpa using first
      · simpa using others

theorem isDeclarative_join (all : ∀ e ∈ parts, e.isDeclarative = true) :
    (join parts).isDeclarative = true := by
  suffices ∀ a : Expr, a.isDeclarative = true → (parts.foldl append a).isDeclarative = true from
    this .empty rfl
  induction parts with
  | nil => exact fun _ h => h
  | cons e parts ih =>
    intro a first
    refine ih (fun e member => all e (List.mem_cons_of_mem _ member)) _ ?_
    rw [isDeclarative_append, first, all e List.mem_cons_self]
    rfl

theorem groups_join : (join parts).groups = parts.flatMap groups := by
  suffices ∀ a : Expr, (parts.foldl append a).groups = a.groups ++ parts.flatMap groups from
    this .empty
  induction parts with
  | nil => exact fun a => by simp
  | cons e parts ih =>
    intro a
    rw [List.foldl_cons, ih, groups_append, List.flatMap_cons, List.append_assoc]

/-- What holds of sequences of what it holds of, and of the parts, holds of all parts together. -/
theorem holds_join {holds : Expr → Prop} (empty : holds .empty)
    (seq : ∀ a b, holds a → holds b → holds (.seq a b)) (all : ∀ e ∈ parts, holds e) :
    holds (join parts) := by
  suffices ∀ a : Expr, holds a → holds (parts.foldl append a) from this .empty empty
  induction parts with
  | nil => exact fun _ first => first
  | cons e parts ih =>
    obtain ⟨here, others⟩ := List.forall_mem_cons.1 all
    intro a first
    refine ih others _ ?_
    rcases append_cases a e with rfl | rfl | ⟨_, _, same⟩
    · exact here
    · rwa [append_empty]
    · rw [same]
      exact seq a e first here

/-- A loop may go round parts as soon as it may go round one of them. -/
theorem isRepeatable_join {e : Expr} (member : e ∈ parts)
    (repeatable : e.isRepeatable = true) : (join parts).isRepeatable = true := by
  suffices ∀ a : Expr, (a.isRepeatable = true ∨ ∃ e ∈ parts, e.isRepeatable = true) →
      (parts.foldl append a).isRepeatable = true from this .empty (.inr ⟨e, member, repeatable⟩)
  clear member
  induction parts with
  | nil =>
    rintro a (h | ⟨_, h, _⟩)
    · exact h
    · exact absurd h List.not_mem_nil
  | cons first rest ih =>
    rintro a (h | ⟨e, h, repeatable⟩)
    · exact ih _ (.inl (isRepeatable_append_iff.2 (.inl h)))
    · rcases List.mem_cons.1 h with rfl | h
      · exact ih _ (.inl (isRepeatable_append_iff.2 (.inr (.inl repeatable))))
      · exact ih _ (.inr ⟨e, h, repeatable⟩)

end Join

end Expr

end PathTemplate
