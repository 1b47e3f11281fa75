/-
Results of what may fail, and lists that belong together element by element.
-/

import Mathlib.Data.List.Forall2

namespace PathTemplate

section Results

variable {ε α β : Type}

/-- A result that was mapped comes from one that was not. -/
theorem map_eq_ok {f : α → β} {result : Except ε α} {b : β}
    (h : result.map f = .ok b) : ∃ a, result = .ok a ∧ f a = b := by
  cases result with
  | error e => cases h
  | ok a => exact ⟨a, rfl, Except.ok.inj h⟩

theorem map_eq_error {f : α → β} {result : Except ε α} {error : ε}
    (h : result.map f = .error error) : result = .error error := by
  cases result with
  | error e => exact congrArg Except.error (Except.error.inj h)
  | ok a => cases h

theorem map_eq_ok_iff {f : α → β} {result : Except ε α} {b : β} :
    result.map f = .ok b ↔ ∃ a, result = .ok a ∧ f a = b :=
  ⟨map_eq_ok, fun ⟨_, ok, same⟩ => by rw [ok, ← same]; rfl⟩

theorem map_eq_error_iff {f : α → β} {result : Except ε α} {error : ε} :
    result.map f = .error error ↔ result = .error error :=
  ⟨map_eq_error, fun failed => by rw [failed]; rfl⟩

theorem toOption_eq_some_iff {result : Except ε α} {a : α} :
    result.toOption = some a ↔ result = .ok a := by
  cases result <;> simp [Except.toOption]

/-- A computation in two steps that succeeds does so in both. -/
theorem exists_of_bind_eq_ok {first : Except ε α} {f : α → Except ε β} {b : β}
    (h : (first >>= f) = .ok b) : ∃ a, first = .ok a ∧ f a = .ok b := by
  cases first with
  | error e => cases h
  | ok a => exact ⟨a, rfl, h⟩

/-- Two computations that go on alike after every result are the same. -/
theorem bind_congr_ok {first : Except ε α} {f g : α → Except ε β}
    (same : ∀ a, first = .ok a → f a = g a) : (first >>= f) = first >>= g := by
  cases first with
  | error e => rfl
  | ok a => exact same a rfl

/-- One after the other, two computations stay related, and may fail only together. -/
theorem rel_bind {R : α → α → Prop} {S : β → β → Prop} {o o' : Option α}
    {f f' : α → Option β} (first : Option.Rel R o o')
    (rest : ∀ a a', o = some a → o' = some a' → R a a' → Option.Rel S (f a) (f' a')) :
    Option.Rel S (o.bind f) (o'.bind f') := by
  cases first with
  | none => exact .none
  | some related => exact rest _ _ rfl rfl related

/-- What is related to a result is a result. -/
theorem exists_of_rel {R : α → β → Prop} {a : α} {o : Option β} (related : Option.Rel R (some a) o) :
    ∃ b, o = some b ∧ R a b := by
  cases related with
  | some related => exact ⟨_, rfl, related⟩

theorem map_eq_of_rel {γ : Type} {R : α → β → Prop} {o : Option α} {o' : Option β} {f : α → γ}
    {g : β → γ} (related : Option.Rel R o o') (same : ∀ a b, R a b → g b = f a) :
    o'.map g = o.map f := by
  cases related with
  | none => rfl
  | some holds => exact congrArg some (same _ _ holds)

/-- The results of a traversal that succeeds belong to its elements, one by one. -/
theorem forall₂_of_mapM {f : α → Except ε β} {elements : List α} {results : List β}
    (all : elements.mapM f = .ok results) :
    List.Forall₂ (fun a b => f a = .ok b) elements results := by
  induction elements generalizing results with
  | nil =>
    cases all
    exact .nil
  | cons a rest ih =>
    rw [List.mapM_cons] at all
    obtain ⟨b, first, all⟩ := exists_of_bind_eq_ok all
    obtain ⟨bs, others, same⟩ := exists_of_bind_eq_ok all
    cases same
    exact .cons first (ih others)

/-- A traversal succeeds if it does so at every element. -/
theorem exists_mapM {f : α → Except ε β} {elements : List α}
    (each : ∀ a ∈ elements, ∃ b, f a = .ok b) : ∃ results, elements.mapM f = .ok results := by
  induction elements with
  | nil => exact ⟨[], rfl⟩
  | cons a rest ih =>
    obtain ⟨here, others⟩ := List.forall_mem_cons.1 each
    obtain ⟨b, first⟩ := here
    obtain ⟨bs, more⟩ := ih others
    exact ⟨b :: bs, by rw [List.mapM_cons, first, more]; rfl⟩

/-- A traversal succeeds with what each of its elements gives, in order. -/
theorem mapM_eq_ok_iff {f : α → Except ε β} {elements : List α} {results : List β} :
    elements.mapM f = .ok results ↔ List.Forall₂ (fun a b => f a = .ok b) elements results := by
  refine ⟨forall₂_of_mapM, fun all => ?_⟩
  induction all with
  | nil => rfl
  | cons first _ ih => rw [List.mapM_cons, first, ih]; rfl

/-- The same of a traversal that gives no reason where it fails. -/
theorem mapM_eq_some_iff {f : α → Option β} {elements : List α} {results : List β} :
    elements.mapM f = some results ↔ List.Forall₂ (fun a b => f a = some b) elements results := by
  constructor
  · intro all
    induction elements generalizing results with
    | nil =>
      cases all
      exact .nil
    | cons a rest ih =>
      rw [List.mapM_cons] at all
      obtain ⟨b, first, all⟩ := Option.bind_eq_some_iff.1 all
      obtain ⟨bs, others, same⟩ := Option.bind_eq_some_iff.1 all
      cases same
      exact .cons first (ih others)
  · intro all
    induction all with
    | nil => rfl
    | cons first _ ih => rw [List.mapM_cons, first, ih]; rfl

/-- A traversal fails with the first of its elements that does. -/
theorem mapM_eq_error_iff {f : α → Except ε β} {elements : List α} {error : ε} :
    elements.mapM f = .error error ↔ ∃ before a after results, elements = before ++ a :: after ∧
      before.mapM f = .ok results ∧ f a = .error error := by
  constructor
  · intro failed
    induction elements with
    | nil => cases failed
    | cons a rest ih =>
      rw [List.mapM_cons] at failed
      cases first : f a with
      | error e =>
        rw [first] at failed
        cases failed
        exact ⟨[], a, rest, [], rfl, rfl, first⟩
      | ok b =>
        rw [first] at failed
        cases others : rest.mapM f with
        | ok bs =>
          rw [others] at failed
          cases failed
        | error e =>
          rw [others] at failed
          cases failed
          obtain ⟨before, c, after, results, rfl, run, fails⟩ := ih others
          exact ⟨a :: before, c, after, b :: results, rfl,
            by rw [List.mapM_cons, first, run]; rfl, fails⟩
  · rintro ⟨before, a, after, results, rfl, run, fails⟩
    rw [List.mapM_append, run, List.mapM_cons, fails]
    rfl

/-- Traversals that do the same at every element are the same. -/
theorem mapM_congr {f g : α → Except ε β} {elements : List α}
    (same : ∀ a ∈ elements, f a = g a) : elements.mapM f = elements.mapM g := by
  induction elements with
  | nil => rfl
  | cons a rest ih =>
    obtain ⟨here, others⟩ := List.forall_mem_cons.1 same
    rw [List.mapM_cons, List.mapM_cons, here, ih others]

theorem exists_of_forall₂_left {R : α → β → Prop} {as : List α} {bs : List β} {a : α}
    (all : List.Forall₂ R as bs) (member : a ∈ as) : ∃ b ∈ bs, R a b := by
  induction all with
  | nil => cases member
  | @cons _ b _ _ here _ ih =>
    rcases List.mem_cons.1 member with rfl | member
    · exact ⟨b, List.mem_cons_self, here⟩
    · obtain ⟨b, member, holds⟩ := ih member
      exact ⟨b, List.mem_cons_of_mem _ member, holds⟩

theorem exists_of_forall₂_right {R : α → β → Prop} {as : List α} {bs : List β} {b : β}
    (all : List.Forall₂ R as bs) (member : b ∈ bs) : ∃ a ∈ as, R a b :=
  exists_of_forall₂_left all.flip member

/-- Two lists that belong to a third one belong together. -/
theorem forall₂_of_forall₂ {γ : Type} {R : α → β → Prop} {S : α → γ → Prop} {T : β → γ → Prop}
    {as : List α} {bs : List β} {cs : List γ}
    (each : ∀ a ∈ as, ∀ b c, R a b → S a c → T b c) (left : List.Forall₂ R as bs)
    (right : List.Forall₂ S as cs) : List.Forall₂ T bs cs := by
  induction left generalizing cs with
  | nil =>
    cases right
    exact .nil
  | cons first _ ih =>
    obtain ⟨here, others⟩ := List.forall_mem_cons.1 each
    cases right with
    | cons second right => exact .cons (here _ _ first second) (ih others right)

theorem exists_forall₂ {R : α → β → Prop} {bs : List β} (all : ∀ b ∈ bs, ∃ a, R a b) :
    ∃ as, List.Forall₂ R as bs := by
  induction bs with
  | nil => exact ⟨[], .nil⟩
  | cons b bs ih =>
    obtain ⟨here, others⟩ := List.forall_mem_cons.1 all
    obtain ⟨a, holds⟩ := here
    obtain ⟨as, all⟩ := ih others
    exact ⟨a :: as, .cons holds all⟩

/-- What every step keeps that is taken, a run keeps that succeeds. -/
theorem foldlM_invariant {step : α → β → Except ε α} {invariant : α → Prop} {elements : List β}
    {start stop : α}
    (steps : ∀ element ∈ elements, ∀ a b, invariant a → step a element = .ok b → invariant b)
    (first : invariant start) (run : elements.foldlM step start = .ok stop) : invariant stop := by
  induction elements generalizing start with
  | nil =>
    cases run
    exact first
  | cons element rest ih =>
    obtain ⟨here, others⟩ := List.forall_mem_cons.1 steps
    rw [List.foldlM_cons] at run
    obtain ⟨next, taken, run⟩ := exists_of_bind_eq_ok run
    exact ih others (here _ _ first taken) run

/-- A run that fails comes to a step that fails, and the steps before it succeed. -/
theorem exists_of_foldlM_eq_error {step : α → β → Except ε α} {elements : List β} {start : α}
    {error : ε} (run : elements.foldlM step start = .error error) :
    ∃ earlier element later before, elements = earlier ++ element :: later ∧
      earlier.foldlM step start = .ok before ∧ step before element = .error error := by
  induction elements generalizing start with
  | nil => cases run
  | cons element rest ih =>
    rw [List.foldlM_cons] at run
    cases taken : step start element with
    | error e =>
      rw [taken] at run
      cases run
      exact ⟨[], element, rest, start, rfl, rfl, taken⟩
    | ok next =>
      rw [taken] at run
      obtain ⟨earlier, stopped, later, before, rfl, there, fails⟩ := ih run
      refine ⟨element :: earlier, stopped, later, before, rfl, ?_, fails⟩
      rw [List.foldlM_cons, taken]
      exact there

end Results

end PathTemplate
