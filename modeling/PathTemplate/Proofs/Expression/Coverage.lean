/-
What an expression covers.

`Expr.Covers` says, by recursion on the expression, which texts an expression can cover between
what precedes and what follows. It knows nothing of captures, of preference, or of the order in
which a matcher tries things. Look-behind, atomic parts and references back are left out:
`Expr.isDeclarative` holds of the expressions without them, and only of those does `Covers` speak.

* `Place.Advances` relates two places of one text by the text between them.
* `Repeats` and `Allowed` give the passes of a loop.
* `Expr.covers_context`: an expression of characters, choices and loops alone (`Expr.isPlain`)
  covers a text wherever the text stands.
-/

import PathTemplate.Expression.Match

namespace PathTemplate

namespace Place

/-- The text `w` lies between the two places. Nothing is said about captures. -/
structure Advances (place : Place) (w : List Char) (other : Place) : Prop where
  after : place.after = w ++ other.after
  before : other.before = w.reverse ++ place.before
  position : other.position = place.position + w.length

namespace Advances

variable {p q r : Place} {u v w : List Char}

theorem refl (p : Place) : p.Advances [] p := ⟨rfl, rfl, rfl⟩

theorem trans (h₁ : p.Advances u q) (h₂ : q.Advances v r) : p.Advances (u ++ v) r where
  after := by rw [h₁.after, h₂.after, List.append_assoc]
  before := by rw [h₂.before, h₁.before, List.reverse_append, List.append_assoc]
  position := by rw [h₂.position, h₁.position, List.length_append, Nat.add_assoc]

/-- Captures have no part in it. -/
theorem withCaptures (h : p.Advances w q) (captures : List (Nat × Capture)) :
    p.Advances w { q with captures } :=
  ⟨h.after, h.before, h.position⟩

/-- The text between is empty exactly when the position stays. -/
theorem position_eq_iff (h : p.Advances w q) : q.position = p.position ↔ w = [] := by
  rw [h.position, ← List.length_eq_zero_iff]
  omega

/-- Two places that follow a third at the same position follow the same text. -/
theorem unique (h₁ : p.Advances u q) (h₂ : p.Advances v r) (same : q.position = r.position) :
    u = v := by
  have lengths : u.length = v.length := by
    have := h₁.position
    have := h₂.position
    omega
  exact (List.append_inj (h₁.after.symm.trans h₂.after) lengths).1

end Advances

end Place

/-- A property of texts in their surroundings: what precedes, nearest character first, the
text itself, and what follows. -/
abbrev Fit := (before w after : List Char) → Prop

/-- Texts that cover nothing are left out. -/
def Fit.nonempty (fit : Fit) : Fit := fun before w after => w ≠ [] ∧ fit before w after

/-- A text in `count` parts, each of which `part` allows where it stands. -/
def Repeats (part : Fit) : (count : Nat) → Fit
  | 0, _, w, _ => w = []
  | count + 1, before, w, after =>
    ∃ u v, w = u ++ v ∧ part before u (v ++ after) ∧
      Repeats part count (u.reverse ++ before) v after

/-- The numbers of passes that a loop may make. One that asks for more passes than it allows
makes as many as it allows. -/
def Allowed (least : Nat) (most : Option Nat) (count : Nat) : Prop :=
  match most with
  | some most => min least most ≤ count ∧ count ≤ most
  | none => least ≤ count

section Repeats

variable {part other : Fit} {before u v w after : List Char} {count : Nat}

/-- Parts can be set apart at any number of them. -/
theorem Repeats.split {m n : Nat} (h : Repeats part (m + n) before w after) :
    ∃ u v, w = u ++ v ∧ Repeats part m before u (v ++ after) ∧
      Repeats part n (u.reverse ++ before) v after := by
  induction m generalizing before w with
  | zero => exact ⟨[], w, rfl, rfl, by simpa using h⟩
  | succ m ih =>
    rw [Nat.succ_add] at h
    obtain ⟨s, t, rfl, first, others⟩ := h
    obtain ⟨u, v, rfl, front, back⟩ := ih others
    refine ⟨s ++ u, v, by simp, ⟨s, u, rfl, ?_, front⟩, ?_⟩
    · simpa [List.append_assoc] using first
    · simpa [List.append_assoc] using back

/-- Parts that cover nothing can be left out. -/
theorem Repeats.nonempty (h : Repeats part count before w after) :
    ∃ m, Repeats part.nonempty m before w after := by
  induction count generalizing before w with
  | zero => exact ⟨0, h⟩
  | succ count ih =>
    obtain ⟨u, v, rfl, first, others⟩ := h
    obtain ⟨m, rest⟩ := ih others
    by_cases empty : u = []
    · subst empty
      exact ⟨m, by simpa using rest⟩
    · exact ⟨m + 1, u, v, rfl, ⟨empty, first⟩, rest⟩

end Repeats

namespace Expr

/-- The expression can cover `w` between `before`, nearest character first, and `after`. -/
def Covers : Expr → Fit
  | .empty, _, w, _ => w = []
  | .never, _, _, _ => False
  | .one set, _, w, _ => ∃ c, w = [c] ∧ set.contains c = true
  | .seq a b, before, w, after =>
    ∃ u v, w = u ++ v ∧ a.Covers before u (v ++ after) ∧ b.Covers (u.reverse ++ before) v after
  | .alt a b, before, w, after => a.Covers before w after ∨ b.Covers before w after
  | .group _ a, before, w, after => a.Covers before w after
  | .loop least most _ _ a, before, w, after =>
    ∃ count, Allowed least most count ∧ Repeats a.Covers count before w after
  | .edge kind, before, w, after =>
    w = [] ∧ (Place.mk before.length before after []).isAt kind = true
  | .ahead negated a, before, w, after =>
    w = [] ∧ (negated = false ↔ ∃ v rest, after = v ++ rest ∧ a.Covers before v rest)
  | .behind .., _, _, _ | .atomic _, _, _, _ | .back _, _, _, _ => False

/-- `Covers` says all there is to say about where the expression matches. -/
def isDeclarative : Expr → Bool
  | .empty | .never | .one _ | .edge _ => true
  | .seq a b | .alt a b => a.isDeclarative && b.isDeclarative
  | .group _ a | .loop _ _ _ _ a | .ahead _ a => a.isDeclarative
  | .behind .. | .atomic _ | .back _ => false

/-- The expression consists of characters, sequences, choices and loops alone, and no loop asks
for more passes than it allows. -/
def isPlain : Expr → Bool
  | .empty | .one _ => true
  | .seq a b | .alt a b => a.isPlain && b.isPlain
  | .loop least most _ _ a => most.all (least ≤ ·) && a.isPlain
  | _ => false

theorem isDeclarative_of_isPlain {e : Expr} (h : e.isPlain = true) : e.isDeclarative = true := by
  induction e with
  | seq a b iha ihb | alt a b iha ihb =>
    simp only [isPlain, Bool.and_eq_true] at h
    simp [isDeclarative, iha h.1, ihb h.2]
  | loop least most greedy emptyPass a ih =>
    simp only [isPlain, Bool.and_eq_true] at h
    simp [isDeclarative, ih h.2]
  | empty | one => rfl
  | _ => simp [isPlain] at h

theorem groups_of_isPlain {e : Expr} (h : e.isPlain = true) : e.groups = [] := by
  induction e with
  | seq a b iha ihb | alt a b iha ihb =>
    simp only [isPlain, Bool.and_eq_true] at h
    simp [groups, iha h.1, ihb h.2]
  | loop least most greedy emptyPass a ih =>
    simp only [isPlain, Bool.and_eq_true] at h
    simp [groups, ih h.2]
  | empty | one => rfl
  | _ => simp [isPlain] at h

end Expr

/-- The surroundings do not matter for `part`. -/
def Fit.IsFree (part : Fit) : Prop :=
  ∀ before after before' after' w, part before w after → part before' w after'

theorem Repeats.isFree {part : Fit} (free : part.IsFree) (count : Nat) :
    (Repeats part count).IsFree := by
  induction count with
  | zero => exact fun _ _ _ _ _ h => h
  | succ count ih =>
    rintro before after before' after' w ⟨u, v, split, first, others⟩
    exact ⟨u, v, split, free _ _ _ _ _ first, ih _ _ _ _ _ others⟩

/-- A plain expression covers a text wherever the text stands. -/
theorem Expr.covers_isFree {e : Expr} (h : e.isPlain = true) : e.Covers.IsFree := by
  induction e with
  | empty | one => exact fun _ _ _ _ _ covered => covered
  | seq a b iha ihb =>
    simp only [isPlain, Bool.and_eq_true] at h
    rintro before after before' after' w ⟨u, v, split, left, right⟩
    exact ⟨u, v, split, iha h.1 _ _ _ _ _ left, ihb h.2 _ _ _ _ _ right⟩
  | alt a b iha ihb =>
    simp only [isPlain, Bool.and_eq_true] at h
    exact fun _ _ _ _ _ covered => covered.imp (iha h.1 _ _ _ _ _) (ihb h.2 _ _ _ _ _)
  | loop least most greedy emptyPass a ih =>
    simp only [isPlain, Bool.and_eq_true] at h
    rintro before after before' after' w ⟨count, allowed, passes⟩
    exact ⟨count, allowed, Repeats.isFree (ih h.2) count _ _ _ _ _ passes⟩
  | _ => simp [isPlain] at h

end PathTemplate
