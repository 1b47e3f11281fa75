/-
Settling an expression changes what its loops do with empty passes, and how it looks behind. It
changes neither the shape nor what is covered.

* `Expr.Settles` relates an expression to every form that settling may give it, wherever it
  stands in a larger one; `Expr.Settles.form` says what such a form is built of.
* `Expr.Settles.covers`, `Expr.Settles.groups` and `Expr.Settles.references`: a declarative
  expression covers the same texts as before, and any expression keeps its groups and references.
* `Expr.isSimple` says of an expression that it needs no backtracking.
* `Expr.exists_settled?`: every expression that does not look behind can be settled.
-/

import PathTemplate.Expression.Settle
import PathTemplate.Proofs.Expression.Agreement

namespace PathTemplate

namespace Expr

/-- `e'` is a form that settling gives `e`, as a simple part or otherwise. -/
def Settles (e e' : Expr) : Prop :=
  e.simple? = some e' ∨ ∃ references last, e.settle? references last = some e'

theorem settles_of_settled? {e e' : Expr} (h : e.settled? = some e') : e.Settles e' := by
  unfold settled? at h
  split at h
  · exact .inr ⟨_, _, h⟩
  · exact .inl h

/-- `e'` is built as `e` is, of forms of its parts. Looking behind may come apart. -/
def Form : Expr → Expr → Prop
  | .seq a b, e' => ∃ a' b', e' = .seq a' b' ∧ a.Settles a' ∧ b.Settles b'
  | .alt a b, e' => ∃ a' b', e' = .alt a' b' ∧ a.Settles a' ∧ b.Settles b'
  | .group number a, e' => ∃ a', e' = .group number a' ∧ a.Settles a'
  | .loop least most greedy _ a, e' =>
    ∃ emptyPass a', e' = .loop least most greedy emptyPass a' ∧ a.Settles a'
  | .ahead negated a, e' => ∃ a', e' = .ahead negated a' ∧ a.Settles a'
  | .behind negated a, e' =>
    ∃ a', (e' = .behind negated a' ∨ lookBehind? negated a' = some e') ∧ a.Settles a'
  | .atomic a, e' => ∃ a', e' = .atomic a' ∧ a.Settles a'
  | e, e' => e' = e

section Inversion

variable {e e' : Expr} {references : List Nat} {last : Bool}

theorem form_of_simple? (h : e.simple? = some e') : e.Form e' := by
  cases e with
  | seq a b | alt a b =>
    simp only [simple?, Option.bind_eq_bind, Option.bind_eq_some_iff, Option.pure_def,
      Option.some.injEq] at h
    obtain ⟨a', ha, b', hb, rfl⟩ := h
    exact ⟨a', b', rfl, .inl ha, .inl hb⟩
  | group number a | ahead negated a | atomic a =>
    simp only [simple?, Option.bind_eq_bind, Option.bind_eq_some_iff, Option.pure_def,
      Option.some.injEq] at h
    obtain ⟨a', ha, rfl⟩ := h
    exact ⟨a', rfl, .inl ha⟩
  | behind negated a =>
    simp only [simple?, Option.bind_eq_bind, Option.bind_eq_some_iff, Option.pure_def,
      Option.some.injEq] at h
    obtain ⟨a', ha, rfl⟩ := h
    exact ⟨a', .inl rfl, .inl ha⟩
  | loop least most greedy emptyPass a =>
    unfold simple? at h
    split at h
    · simp only [Option.bind_eq_bind, Option.bind_eq_some_iff, Option.pure_def,
        Option.some.injEq] at h
      obtain ⟨a', ha, rfl⟩ := h
      exact ⟨_, a', rfl, .inl ha⟩
    · cases h
  | empty | never | one | edge | back =>
    cases h
    rfl

theorem form_of_settle? (h : e.settle? references last = some e') : e.Form e' := by
  cases e with
  | seq a b =>
    unfold settle? at h
    split at h
    · exact form_of_simple? h
    · split at h <;>
        simp only [Option.bind_eq_bind, Option.bind_eq_some_iff, Option.pure_def,
          Option.some.injEq] at h <;>
        obtain ⟨a', ha, b', hb, rfl⟩ := h
      · exact ⟨a', b', rfl, .inr ⟨_, _, ha⟩, .inl hb⟩
      · exact ⟨a', b', rfl, .inr ⟨_, _, ha⟩, .inr ⟨_, _, hb⟩⟩
  | alt a b =>
    unfold settle? at h
    split at h
    · exact form_of_simple? h
    · simp only [Option.bind_eq_bind, Option.bind_eq_some_iff, Option.pure_def,
        Option.some.injEq] at h
      obtain ⟨a', ha, b', hb, rfl⟩ := h
      exact ⟨a', b', rfl, .inr ⟨_, _, ha⟩, .inr ⟨_, _, hb⟩⟩
  | group number a =>
    unfold settle? at h
    split at h
    · exact form_of_simple? h
    · simp only [Option.bind_eq_bind, Option.bind_eq_some_iff, Option.pure_def,
        Option.some.injEq] at h
      obtain ⟨a', ha, rfl⟩ := h
      exact ⟨a', rfl, .inr ⟨_, _, ha⟩⟩
  | loop least most greedy emptyPass a =>
    unfold settle? at h
    split at h
    · exact form_of_simple? h
    · simp only [Option.bind_eq_bind, Option.bind_eq_some_iff, Option.pure_def,
        Option.some.injEq] at h
      obtain ⟨a', ha, rfl⟩ := h
      exact ⟨_, a', rfl, .inr ⟨_, _, ha⟩⟩
  | ahead negated a | atomic a =>
    simp only [settle?, Option.bind_eq_bind, Option.bind_eq_some_iff, Option.pure_def,
      Option.some.injEq] at h
    obtain ⟨a', ha, rfl⟩ := h
    exact ⟨a', rfl, .inr ⟨_, _, ha⟩⟩
  | behind negated a =>
    simp only [settle?, Option.bind_eq_bind, Option.bind_eq_some_iff] at h
    obtain ⟨a', ha, h⟩ := h
    exact ⟨a', .inr h, .inr ⟨_, _, ha⟩⟩
  | empty | never | one | edge | back =>
    cases h
    rfl

theorem Settles.form (h : e.Settles e') : e.Form e' := by
  rcases h with simple | ⟨references, last, settled⟩
  · exact form_of_simple? simple
  · exact form_of_settle? settled

end Inversion

/-- `f` collects the same from an expression and from its settled forms: it goes through the parts
in order and does not look at what settling decides. -/
structure Collects (f : Expr → List Nat) : Prop where
  seq : ∀ a b, f (.seq a b) = f a ++ f b
  alt : ∀ a b, f (.alt a b) = f a ++ f b
  group : ∀ number {a a'}, f a' = f a → f (.group number a') = f (.group number a)
  loop : ∀ least most greedy emptyPass a, f (.loop least most greedy emptyPass a) = f a
  ahead : ∀ negated a, f (.ahead negated a) = f a
  behind : ∀ negated a, f (.behind negated a) = f a
  atomic : ∀ a, f (.atomic a) = f a

theorem collects_groups : Collects groups where
  seq _ _ := rfl
  alt _ _ := rfl
  group number _ _ same := congrArg (number :: ·) same
  loop _ _ _ _ _ := rfl
  ahead _ _ := rfl
  behind _ _ := rfl
  atomic _ := rfl

theorem collects_references : Collects references where
  seq _ _ := rfl
  alt _ _ := rfl
  group _ _ _ same := same
  loop _ _ _ _ _ := rfl
  ahead _ _ := rfl
  behind _ _ := rfl
  atomic _ := rfl

section Collects

variable {f : Expr → List Nat} {e e' : Expr}

theorem Collects.lookBehind? (collects : Collects f) {negated : Bool}
    (h : lookBehind? negated e = some e') : f e' = f e := by
  induction e generalizing e' with
  | alt a b iha _ =>
    unfold Expr.lookBehind? at h
    split at h
    · cases h
      exact collects.behind ..
    · split at h
      · simp only [Option.bind_eq_bind, Option.bind_eq_some_iff, Option.pure_def,
          Option.some.injEq] at h
        obtain ⟨a', ha, rfl⟩ := h
        cases negated <;> simp [collects.seq, collects.alt, collects.behind, iha ha]
      · cases h
  | _ =>
    simp only [Expr.lookBehind?] at h
    split at h
    · cases h
      exact collects.behind ..
    · cases h

theorem Settles.collects (collects : Collects f) (h : e.Settles e') : f e' = f e := by
  induction e generalizing e' with
  | empty | never | one | edge | back => exact congrArg f h.form
  | seq a b iha ihb =>
    obtain ⟨a', b', rfl, ha, hb⟩ := h.form
    rw [collects.seq, collects.seq, iha ha, ihb hb]
  | alt a b iha ihb =>
    obtain ⟨a', b', rfl, ha, hb⟩ := h.form
    rw [collects.alt, collects.alt, iha ha, ihb hb]
  | group number a ih =>
    obtain ⟨a', rfl, ha⟩ := h.form
    exact collects.group number (ih ha)
  | loop least most greedy emptyPass a ih =>
    obtain ⟨emptyPass', a', rfl, ha⟩ := h.form
    rw [collects.loop, collects.loop, ih ha]
  | ahead negated a ih =>
    obtain ⟨a', rfl, ha⟩ := h.form
    rw [collects.ahead, collects.ahead, ih ha]
  | atomic a ih =>
    obtain ⟨a', rfl, ha⟩ := h.form
    rw [collects.atomic, collects.atomic, ih ha]
  | behind negated a ih =>
    obtain ⟨a', rfl | apart, ha⟩ := h.form
    · rw [collects.behind, collects.behind, ih ha]
    · rw [collects.lookBehind? apart, ih ha, collects.behind]

end Collects

theorem Settles.groups {e e' : Expr} (h : e.Settles e') : e'.groups = e.groups :=
  h.collects collects_groups

theorem Settles.references {e e' : Expr} (h : e.Settles e') : e'.references = e.references :=
  h.collects collects_references

/-- Looking behind needs backtracking, branch by branch too. -/
theorem isHard_lookBehind? {references : List Nat} {negated : Bool} {e e' : Expr}
    (h : lookBehind? negated e = some e') : e'.isHard references = true := by
  induction e generalizing e' with
  | alt a b iha _ =>
    unfold lookBehind? at h
    split at h
    · cases h
      rfl
    · split at h
      · simp only [Option.bind_eq_bind, Option.bind_eq_some_iff, Option.pure_def,
          Option.some.injEq] at h
        obtain ⟨a', ha, rfl⟩ := h
        cases negated <;> simp [isHard, iha ha]
      · cases h
  | _ =>
    simp only [lookBehind?] at h
    split at h <;> cases h
    rfl

/-- Settling does not change whether an expression needs backtracking. -/
theorem Settles.isHard {references : List Nat} {e e' : Expr} (h : e.Settles e') :
    e'.isHard references = e.isHard references := by
  induction e generalizing e' with
  | empty | never | one | edge | back => rw [h.form]
  | seq a b iha ihb | alt a b iha ihb =>
    obtain ⟨a', b', rfl, ha, hb⟩ := h.form
    rw [Expr.isHard, Expr.isHard, iha ha, ihb hb]
  | group number a ih =>
    obtain ⟨a', rfl, ha⟩ := h.form
    rw [Expr.isHard, Expr.isHard, ih ha]
  | loop least most greedy emptyPass a ih =>
    obtain ⟨_, a', rfl, ha⟩ := h.form
    rw [Expr.isHard, Expr.isHard, ih ha]
  | ahead negated a | atomic a =>
    obtain ⟨a', rfl, -⟩ := h.form
    rfl
  | behind negated a =>
    obtain ⟨a', rfl | apart, -⟩ := h.form
    · rfl
    · exact isHard_lookBehind? apart

/-- Settling a declarative expression gives a declarative one that covers the same texts. -/
theorem Settles.covers {e e' : Expr} (h : e.Settles e') (declarative : e.isDeclarative = true) :
    e'.isDeclarative = true ∧ e'.Covers = e.Covers := by
  induction e generalizing e' with
  | empty | never | one | edge =>
    obtain rfl := h.form
    exact ⟨rfl, rfl⟩
  | seq a b iha ihb =>
    simp only [isDeclarative, Bool.and_eq_true] at declarative
    obtain ⟨a', b', rfl, ha, hb⟩ := h.form
    obtain ⟨da, ca⟩ := iha ha declarative.1
    obtain ⟨db, cb⟩ := ihb hb declarative.2
    refine ⟨by simp [isDeclarative, da, db], ?_⟩
    funext before w after
    simp only [Covers, ca, cb]
  | alt a b iha ihb =>
    simp only [isDeclarative, Bool.and_eq_true] at declarative
    obtain ⟨a', b', rfl, ha, hb⟩ := h.form
    obtain ⟨da, ca⟩ := iha ha declarative.1
    obtain ⟨db, cb⟩ := ihb hb declarative.2
    refine ⟨by simp [isDeclarative, da, db], ?_⟩
    funext before w after
    simp only [Covers, ca, cb]
  | group number a ih =>
    obtain ⟨a', rfl, ha⟩ := h.form
    obtain ⟨da, ca⟩ := ih ha declarative
    exact ⟨da, by simpa only [Covers] using ca⟩
  | loop least most greedy emptyPass a ih =>
    obtain ⟨emptyPass', a', rfl, ha⟩ := h.form
    obtain ⟨da, ca⟩ := ih ha declarative
    refine ⟨da, ?_⟩
    funext before w after
    simp only [Covers, ca]
  | ahead negated a ih =>
    obtain ⟨a', rfl, ha⟩ := h.form
    obtain ⟨da, ca⟩ := ih ha declarative
    refine ⟨da, ?_⟩
    funext before w after
    simp only [Covers, ca]
  | behind | atomic | back => simp [isDeclarative] at declarative

/-! ### What can be settled -/

/-- The expression needs no backtracking, and no loop asks for more passes than it allows. -/
def isSimple : Expr → Bool
  | .empty | .one _ => true
  | .edge kind => kind ≠ .wordBoundary && kind ≠ .noWordBoundary
  | .seq a b | .alt a b => a.isSimple && b.isSimple
  | .group _ a => a.isSimple
  | .loop least most _ _ a => most.all (least ≤ ·) && a.isSimple
  | .never | .ahead .. | .behind .. | .atomic _ | .back _ => false

theorem isSimple_of_isPlain {e : Expr} (h : e.isPlain = true) : e.isSimple = true := by
  induction e with
  | seq a b iha ihb | alt a b iha ihb =>
    simp only [isPlain, Bool.and_eq_true] at h
    simp [isSimple, iha h.1, ihb h.2]
  | loop least most greedy emptyPass a ih =>
    simp only [isPlain, Bool.and_eq_true] at h
    simp [isSimple, h.1, ih h.2]
  | empty | one => rfl
  | _ => simp [isPlain] at h

/-- Nothing in the expression looks behind, and no loop asks for more passes than it allows. -/
def isSettleable : Expr → Bool
  | .empty | .never | .one _ | .edge _ | .back _ => true
  | .seq a b | .alt a b => a.isSettleable && b.isSettleable
  | .group _ a | .ahead _ a | .atomic a => a.isSettleable
  | .loop least most _ _ a => most.all (least ≤ ·) && a.isSettleable
  | .behind .. => false

theorem isSettleable_of_isSimple {e : Expr} (h : e.isSimple = true) : e.isSettleable = true := by
  induction e with
  | seq a b iha ihb | alt a b iha ihb =>
    simp only [isSimple, Bool.and_eq_true] at h
    simp [isSettleable, iha h.1, ihb h.2]
  | group number a ih => exact ih h
  | loop least most greedy emptyPass a ih =>
    simp only [isSimple, Bool.and_eq_true] at h
    simp [isSettleable, h.1, ih h.2]
  | empty | one | edge => rfl
  | _ => cases h

theorem exists_of_part {x : Option Expr} (hx : ∃ a, x = some a) (make : Expr → Expr) :
    ∃ e, (do return make (← x)) = some e := by
  obtain ⟨a, rfl⟩ := hx
  exact ⟨make a, rfl⟩

theorem exists_of_parts {x y : Option Expr} (hx : ∃ a, x = some a) (hy : ∃ b, y = some b)
    (make : Expr → Expr → Expr) : ∃ e, (do return make (← x) (← y)) = some e := by
  obtain ⟨a, rfl⟩ := hx
  obtain ⟨b, rfl⟩ := hy
  exact ⟨make a b, rfl⟩

theorem exists_simple? {e : Expr} (h : e.isSettleable = true) : ∃ e', e.simple? = some e' := by
  induction e with
  | empty | never | one | edge | back => exact ⟨_, rfl⟩
  | seq a b iha ihb | alt a b iha ihb =>
    obtain ⟨first, second⟩ := Bool.and_eq_true_iff.1 h
    exact exists_of_parts (iha first) (ihb second) _
  | group number a ih | ahead negated a ih | atomic a ih => exact exists_of_part (ih h) _
  | loop least most greedy emptyPass a ih =>
    obtain ⟨bounds, inside⟩ := Bool.and_eq_true_iff.1 h
    rw [simple?, if_pos bounds]
    exact exists_of_part (ih inside) _
  | behind => cases h

/-- A part can be settled whatever follows it. Where nothing does, it is settled as a simple one
unless it needs backtracking. -/
theorem exists_settle? {e : Expr} (h : e.isSettleable = true) (references : List Nat)
    (last : Bool) : ∃ e', e.settle? references last = some e' := by
  induction e generalizing last with
  | empty | never | one | edge | back => exact ⟨_, rfl⟩
  | seq a b iha ihb =>
    obtain ⟨first, second⟩ := Bool.and_eq_true_iff.1 h
    have start (last : Bool) := iha first last
    unfold settle?
    split
    · exact exists_simple? h
    · split
      · exact exists_of_parts (start _) (exists_simple? second) _
      · exact exists_of_parts (start _) (ihb second false) _
  | alt a b iha ihb =>
    obtain ⟨first, second⟩ := Bool.and_eq_true_iff.1 h
    unfold settle?
    split
    · exact exists_simple? h
    · exact exists_of_parts (iha first last) (ihb second last) _
  | group number a ih =>
    unfold settle?
    split
    · exact exists_simple? h
    · exact exists_of_part (ih h last) _
  | loop least most greedy emptyPass a ih =>
    obtain ⟨-, inside⟩ := Bool.and_eq_true_iff.1 h
    unfold settle?
    split
    · exact exists_simple? h
    · exact exists_of_part (ih inside last) _
  | ahead negated a ih | atomic a ih => exact exists_of_part (ih h true) _
  | behind => cases h

theorem exists_settled? {e : Expr} (h : e.isSettleable = true) : ∃ e', e.settled? = some e' := by
  unfold settled?
  split
  · exact exists_settle? h _ _
  · exact exists_simple? h

end Expr

end PathTemplate
