/-
What the validator of a key accepts.

A validator is the pattern of its key in a group, between the two ends of a text. If the pattern is
an expression of its own, whatever groups and references it has, then the group holds just this
expression, and it is settled as it is alone.

* `Expr.isSome_search?_inFull`: an expression between the two ends is found in the texts that the
  expression covers in full.
* `Renderer.isMatch_eq_accepts`: the validator accepts what the pattern accepts.
-/

import PathTemplate.Proofs.Expression.Leftmost
import PathTemplate.Proofs.Expression.Tails
import PathTemplate.Proofs.Reading.Wrapping
import PathTemplate.Proofs.Renderer.Composition
import PathTemplate.Proofs.Route.Membership

namespace PathTemplate

/-! ### Expressions between the two ends of a text -/

namespace Expr

/-- What matches `e` in full, from the beginning of a text to its end. -/
def inFull (e : Expr) : Expr := join [.edge .textStart, e, .edge .textEnd]

section InFull

variable {e a whole : Expr} {text : List Char}

theorem isAnchored_inFull (e : Expr) : e.inFull.isAnchored = true := isAnchored_join rfl

theorem inFull_eq_seq (nonempty : e ≠ .empty) :
    e.inFull = .seq (.seq (.edge .textStart) e) (.edge .textEnd) := by
  cases e <;> first | rfl | exact absurd rfl nonempty

/-- What stands between the ends is settled as it is alone. -/
theorem settled?_inFull (e : Expr) : e.inFull.settled? = e.settled?.map inFull := by
  by_cases empty : e = .empty
  · subst empty
    rfl
  have references : (Expr.seq (.seq (.edge .textStart) e) (.edge .textEnd)).references =
      e.references := by
    simp [Expr.references]
  have hard : (Expr.seq (.seq (.edge .textStart) e) (.edge .textEnd)).isHard e.references =
      e.isHard e.references := by
    simp [isHard]
  have between {settled : Option Expr} (keeps : ∀ a, settled = some a → e.Settles a) :
      (settled.bind fun a => some (.seq (.seq (.edge .textStart) a) (.edge .textEnd))) =
        settled.map inFull := by
    cases settled with
    | none => rfl
    | some a =>
      refine congrArg some (inFull_eq_seq ?_).symm
      rintro rfl
      exact empty (Settles.eq_empty (keeps _ rfl))
  rw [inFull_eq_seq empty, settled?, settled?, references, hard]
  split
  · refine Eq.trans ?_ (between fun a settled => .inr ⟨_, _, settled⟩)
    simp [settle?, Option.bind_assoc]
  · refine Eq.trans ?_ (between fun a settled => .inl settled)
    simp [simple?, Option.bind_assoc]

/-- Of the places in a text that `e` leads to, those at the end of the text are kept. -/
theorem outcomes_inFull_ne_nil_iff {references : List Nat} :
    e.inFull.outcomes references (.start text) ≠ [] ↔
      ∃ q ∈ e.outcomes references (.start text), q.after = [] := by
  have begins : (edge .textStart).outcomes references (.start text) = [.start text] := rfl
  have ends {q : Place} : (edge .textEnd).outcomes references q = if q.after = [] then [q] else [] := by
    simp [outcomes, Place.isAt]
  by_cases empty : e = .empty
  · subst empty
    have same : (inFull .empty).outcomes references (.start text) =
        distinctPlaces references ([.start text].flatMap ((edge .textEnd).outcomes references)) :=
      rfl
    rw [same, List.flatMap_singleton, ends]
    cases text <;> simp [outcomes, Place.start, distinctPlaces]
  rw [inFull_eq_seq empty]
  constructor
  · intro found
    obtain ⟨r, member⟩ := List.exists_mem_of_ne_nil _ found
    obtain ⟨q, inside, last⟩ := List.mem_flatMap.1 (mem_of_mem_distinctPlaces member)
    obtain ⟨s, first, here⟩ := List.mem_flatMap.1 (mem_of_mem_distinctPlaces inside)
    rw [begins, List.mem_singleton] at first
    subst first
    rw [ends] at last
    split at last
    · exact ⟨q, here, by assumption⟩
    · cases last
  · rintro ⟨q, member, atEnd⟩
    have inside : q ∈ ((edge .textStart).outcomes references (.start text)).flatMap
        (e.outcomes references) := by
      rw [begins, List.flatMap_singleton]
      exact member
    obtain ⟨kept, stays, same⟩ := exists_mem_distinctPlaces references inside
    -- A place with the same mark is at the same position, so that the text ends there as well.
    have position : q.position = kept.position := (Prod.mk.inj same).1.symm
    have reached := mem_of_mem_distinctPlaces stays
    rw [begins, List.flatMap_singleton] at reached
    obtain ⟨w, advances⟩ := advances_of_mem_outcomes member
    obtain ⟨v, advances'⟩ := advances_of_mem_outcomes reached
    obtain rfl := advances.unique advances' position
    have keptAtEnd : kept.after = [] := by
      have split := advances.after.symm.trans advances'.after
      rw [atEnd, List.append_cancel_left_eq] at split
      exact split.symm
    have found : kept ∈ ((Expr.seq (.edge .textStart) e).outcomes references (.start text)).flatMap
        ((edge .textEnd).outcomes references) :=
      List.mem_flatMap.2 ⟨kept, stays, by rw [ends, if_pos keptAtEnd]; exact List.mem_singleton_self _⟩
    obtain ⟨_, last, -⟩ := exists_mem_distinctPlaces references found
    exact List.ne_nil_of_mem last

/-- The expression between the two ends is found in the texts that the expression alone covers in
full. -/
theorem isSome_search?_inFull (e : Expr) (text : List Char) : (e.inFull.search? text).isSome =
    (e.outcomes e.references (.start text)).any (·.after.isEmpty) := by
  have references : e.inFull.references = e.references := by
    cases e <;> simp [inFull, join, append, Expr.references]
  rw [Bool.eq_iff_iff, search?_of_isAnchored (isAnchored_inFull e), references, Option.isSome_map,
    List.any_eq_true, List.isSome_head?]
  simp only [List.isEmpty_iff]
  exact outcomes_inFull_ne_nil_iff

end InFull

end Expr

namespace Renderer

section Reading

variable {sensitive : Bool} {pattern : String} {last done ended : Reader}

/-- The group that a validator puts around a pattern. -/
def validatorFrame (sensitive : Bool) : Frame :=
  { opener := .plain { fold := !sensitive }, around := { branch := .edge .textStart } }

theorem capturesNothing_validator (sensitive : Bool) :
    CapturesNothing [validatorFrame sensitive] := by
  intro frame member number
  obtain rfl := List.mem_singleton.1 member
  exact nofun

/-- The pattern of a validator is read from the beginning of a group. -/
theorem read_validatorStart (sensitive : Bool) :
    (Reader.begun sensitive).read "^(?:".toList =
      some (({ flags := { fold := !sensitive } } : Reader).wrapped [validatorFrame sensitive] none) := by
  cases sensitive <;> rfl

/-- The sign for the end is the last part of a validator. -/
theorem level_of_dollar {reader : Reader} {e : Expr} (mode : reader.mode = .ready (.atom e))
    (level : reader.level = { branch := .edge .textStart })
    (flags : reader.flags = { fold := !sensitive })
    (read : (reader.read ['$']).bind Reader.finish = some ended) :
    ended.level.expr = e.inFull := by
  have dollar : reader.step '$' =
      some ((reader.flush (.atom e)).enter (.ready (.atom (.edge .textEnd)))) := by
    rw [← Reader.atom_flush]
    simp [Reader.step, mode, Reader.stepReady, flags]
  rw [Reader.read_cons, dollar, Option.bind_some, Reader.read_nil, Option.bind_some] at read
  obtain ⟨last, resolved, rfl, -⟩ := Reader.finish_resolved read rfl
  cases resolved
  rw [Reader.flushed_eq rfl]
  simp only [Reader.flush, Reader.enter, Reader.part, Level.push, level]
  rfl

/-- A parenthesis and the sign for the end close a validator, whatever groups its pattern has. -/
theorem level_of_validatorEnd {referred : Option Nat} (complete : last.resolved = some done)
    (frames : done.frames = [])
    (read : ((last.wrapped [validatorFrame sensitive] referred).read ")$".toList).bind
      Reader.finish = some ended) :
    ended.level.expr = done.flushed.level.expr.inFull := by
  obtain ⟨referred', resolved⟩ := @Reader.resolved_wrapped _ referred last
    (capturesNothing_validator sensitive) done complete
  obtain ⟨pending, ready⟩ := Reader.isReady_resolved complete
  have ready' : (done.wrapped [validatorFrame sensitive] referred').mode =
      .ready (pending.renumber (0 + ·) id) := by
    rw [Reader.wrapped, Reader.inside, ready]
    rfl
  have close : (last.wrapped [validatorFrame sensitive] referred).step ')' =
      (done.flushed.wrapped [validatorFrame sensitive] referred').closeGroup := by
    rw [Reader.step_resolved resolved ⟨rfl, by decide, rfl, by decide⟩,
      Reader.step_parenthesis ready', Reader.flushed_eq ready, Reader.wrapped, Reader.wrapped,
      ← Reader.flush_inside]
  have outside : (done.flushed.wrapped [validatorFrame sensitive] referred').frames =
      [validatorFrame sensitive] := by
    simp [Reader.wrapped, Reader.inside, Reader.flushed, Reader.flush, frames]
  have inner : (done.flushed.wrapped [validatorFrame sensitive] referred').level.expr =
      done.flushed.level.expr := by
    have same : ((0 : Nat) + ·) = id := funext Nat.zero_add
    refine (Level.expr_renumber _).trans ?_
    rw [same, Expr.renumber_id]
  rw [show ")$".toList = [')', '$'] from rfl, Reader.read_cons, close] at read
  simp only [Reader.closeGroup, outside] at read
  split at read
  · rw [← inner]
    exact level_of_dollar rfl rfl rfl read
  · cases read

/-- Where the pattern is complete on its own and its validator is an expression, the validator is the
pattern between the two ends of a text. -/
theorem expr_of_validator
    (alone : readUnder? { fold := !sensitive } pattern = some (last, done))
    (read : ((Reader.begun sensitive).read ("^(?:" ++ pattern ++ ")$").toList).bind
      Reader.finish = some ended) : ended.level.expr = done.level.expr.inFull := by
  obtain ⟨whole, finish⟩ := readUnder?_eq_some_iff.1 alone
  rw [String.toList_append, String.toList_append, Reader.read_append, Reader.read_append,
    read_validatorStart, Option.bind_some, Option.bind_assoc] at read
  obtain ⟨last', within, ends⟩ := Option.bind_eq_some_iff.1 read
  obtain ⟨referred, rfl⟩ := Reader.read_wrapped (capturesNothing_validator sensitive) whole within
  cases line : last.mode.isLineComment with
  | true =>
    -- The comment swallows the parenthesis, so that the group stays open.
    obtain ⟨pending, mode⟩ : ∃ pending, last.mode = .lineComment pending := by
      cases mode : last.mode <;> simp [mode, Mode.isLineComment] at line
      exact ⟨_, rfl⟩
    have mode' : (last.wrapped [validatorFrame sensitive] referred).mode =
        .lineComment (pending.renumber (0 + ·) id) := by
      rw [Reader.wrapped, Reader.inside, mode]
      rfl
    have swallows : ∀ c, c ≠ '\n' → ∀ {reader : Reader} {pending : Pending},
        reader.mode = .lineComment pending → reader.step c = some reader := by
      intro c other reader pending mode
      simp [Reader.step, mode, other]
    rw [show ")$".toList = [')', '$'] from rfl, Reader.read_cons, swallows _ (by decide) mode',
      Option.bind_some, Reader.read_cons, swallows _ (by decide) mode', Option.bind_some,
      Reader.read_nil, Option.bind_some] at ends
    have opened : (last.wrapped [validatorFrame sensitive] referred).frames.isEmpty = false := by
      simp [Reader.wrapped, Reader.inside]
    simp only [Reader.finish, mode', Reader.flush, opened, Bool.false_and, Bool.false_eq_true,
      if_false, reduceCtorEq] at ends
  | false =>
    obtain ⟨complete, resolved, rfl, frames⟩ := Reader.finish_resolved finish line
    exact level_of_validatorEnd resolved frames ends

end Reading

end Renderer

/-! ### What the pattern of a key accepts -/

/-- The pattern of the key as an expression of its own, its shorthands being pinned. -/
def Key.alone? (sensitive : Bool) (key : Key) : Option Expression := do
  let (_, done) ← readUnder? { fold := !sensitive } (pinShorthands key.pattern)
  let expr ← done.level.expr.settled?
  return { source := key.pattern, expr }

/-- The pattern of the key is an expression, and it matches the text in full. -/
def Key.accepts (sensitive : Bool) (key : Key) (text : String) : Bool :=
  (key.alone? sensitive).any (·.matchesAll text)

namespace Renderer

/-- Where the pattern of a key is an expression of its own, the validator accepts what the pattern
accepts. -/
theorem isMatch_eq_accepts {sensitive : Bool} {key : Key} {expression : Expression}
    (alone : (key.alone? sensitive).isSome = true)
    (made : validator sensitive key = .ok expression) (text : String) :
    expression.isMatch text = key.accepts sensitive text := by
  obtain ⟨own, read⟩ := Option.isSome_iff_exists.1 alone
  rw [Key.accepts, read, Option.any_some]
  simp only [Key.alone?, Option.bind_eq_bind, Option.bind_eq_some_iff, Option.pure_def,
    Option.some.injEq] at read
  obtain ⟨⟨last, done⟩, under, a, settled, rfl⟩ := read
  have compiled : Expression.compile? (validatorSource sensitive key) = some expression := by
    unfold validator at made
    split at made
    · rename_i compiled
      cases made
      exact compiled
    · cases made
  obtain ⟨ended, whole, settled'⟩ := Route.exists_read_of_compile? compiled
  rw [expr_of_validator under whole, Expr.settled?_inFull, settled, Option.map_some] at settled'
  rw [Expression.isMatch, ← Option.some.inj settled', Expr.isSome_search?_inFull]
  rfl

end Renderer

end PathTemplate
