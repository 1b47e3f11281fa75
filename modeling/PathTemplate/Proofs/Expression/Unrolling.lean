/-
What exploring a loop lists, and in which order.

`explore` tries each state of affairs once. Where the passes of a loop go on in the text and leave the
captures alone, that leaves nothing out and changes no order: apart from repetitions, the places that
are found are those that `unrolled` lists, which tries every pass from every place.

* `unrolled` and `reached`: the places after any number of passes, with repetitions.
* `explores_explore`: exploring from a place adds the places that are reached from it.
* `loopOutcomes_refused` and `loopOutcomes_endsLoop`: an unbounded loop without what was tried before.
* `Expr.outcomes_eq_ways`: the places that an expression leads to, where no group is in such a loop.
-/

import Mathlib.Data.List.Basic
import PathTemplate.Proofs.Expression.Agreement
import PathTemplate.Proofs.Expression.Distinct

namespace PathTemplate

/-- Places that one place is followed by are equal where their positions are. -/
theorem Place.Follows.eq_of_mark {origin p q : Place} (first : origin.Follows True p)
    (second : origin.Follows True q) (same : p.mark [] = q.mark []) : p = q := by
  obtain ⟨⟨u, advances⟩, kept⟩ := first
  obtain ⟨⟨v, advances'⟩, kept'⟩ := second
  have position : p.position = q.position := (Prod.mk.inj same).1
  obtain rfl := advances.unique advances' position
  have after := advances.after.symm.trans advances'.after
  have before := advances.before.trans advances'.before.symm
  have captures := (kept trivial).trans (kept' trivial).symm
  obtain ⟨_, _, _, _⟩ := p
  obtain ⟨_, _, _, _⟩ := q
  obtain rfl := List.append_cancel_left after
  cases position
  cases before
  cases captures
  rfl

/-- The places after at most `left` passes, preferred ones first, with repetitions. -/
def unrolled (greedy : Bool) (next : Place → List Place) : (left : Nat) → Place → List Place
  | 0, place => [place]
  | left + 1, place =>
    let further := (next place).flatMap (unrolled greedy next left)
    if greedy then further ++ [place] else place :: further

/-- The places after any number of passes that each cover something. -/
def reached (greedy : Bool) (next : Place → List Place) (place : Place) : List Place :=
  unrolled greedy next place.after.length place

/-- Every pass goes on in the text and leaves the captures alone. -/
def Moves (next : Place → List Place) : Prop :=
  ∀ p, ∀ q ∈ next p, p.Follows True q ∧ p.position < q.position

section Unrolled

variable {greedy : Bool} {next : Place → List Place} (moves : Moves next)
include moves

theorem Moves.shorter {p q : Place} (member : q ∈ next p) : q.after.length < p.after.length := by
  obtain ⟨⟨⟨w, advances⟩, _⟩, further⟩ := moves p q member
  have after := congrArg List.length advances.after
  have position := advances.position
  rw [List.length_append] at after
  omega

theorem Moves.eq_nil {p : Place} (done : p.after.length ≤ 0) : next p = [] := by
  refine List.eq_nil_iff_forall_not_mem.2 fun q member => ?_
  have := moves.shorter member
  omega

/-- As many passes as there are characters are enough. -/
theorem unrolled_enough {left more : Nat} {p : Place} (enough : p.after.length ≤ left)
    (enough' : p.after.length ≤ more) :
    unrolled greedy next left p = unrolled greedy next more p := by
  induction left generalizing more p with
  | zero =>
    cases more with
    | zero => rfl
    | succ more => cases greedy <;> simp [unrolled, moves.eq_nil enough]
  | succ left ih =>
    cases more with
    | zero => cases greedy <;> simp [unrolled, moves.eq_nil enough']
    | succ more =>
      have further : (next p).flatMap (unrolled greedy next left) =
          (next p).flatMap (unrolled greedy next more) := by
        refine List.flatMap_congr fun q member => ?_
        have := moves.shorter member
        exact ih (by omega) (by omega)
      simp only [unrolled, further]

theorem reached_eq (p : Place) : reached greedy next p =
    if greedy then (next p).flatMap (reached greedy next) ++ [p]
    else p :: (next p).flatMap (reached greedy next) := by
  have further : (next p).flatMap (unrolled greedy next p.after.length) =
      (next p).flatMap (reached greedy next) := by
    refine List.flatMap_congr fun q member => ?_
    have := moves.shorter member
    exact unrolled_enough moves (by omega) (Nat.le_refl _)
  rw [← further, reached, unrolled_enough moves (Nat.le_refl _) (Nat.le_succ _)]
  rfl

end Unrolled

namespace Exploration

/-- Passes were tried from the place. -/
def Knows (x : Exploration) (q : Place) : Prop :=
  x.tried.contains (0, q.mark []) = true

/-- The places that are reached from `q` were found. -/
def Covers (reach : Place → List Place) (x : Exploration) (q : Place) : Prop :=
  ∀ mark ∈ marks [] (reach q), mark ∈ marks [] x.found

/-- What is reached from a place that was tried, from this position on, was found. -/
def Closed (reach : Place → List Place) (origin : Place) (least : Nat) (x : Exploration) : Prop :=
  ∀ q, origin.Follows True q → least ≤ q.position → x.Knows q → x.Covers reach q

/-- From `x` to `y` these places were found, and whatever was tried was tried to the end. -/
structure Explores (reach : Place → List Place) (origin : Place) (places : List Place)
    (x y : Exploration) : Prop where
  found : SameDistinct [] y.found.reverse (x.found.reverse ++ places)
  tried : ∀ q, origin.Follows True q → y.Knows q → x.Knows q ∨ y.Covers reach q

section Explores

variable {reach list : Place → List Place} {origin : Place} {places more : List Place}
  {x y z : Exploration} {least : Nat}

theorem mem_marks_reverse {mark : Place.Mark} :
    mark ∈ marks [] places.reverse ↔ mark ∈ marks [] places := by
  simp [marks]

theorem Explores.mem_found (explores : Explores reach origin places x y) {mark : Place.Mark} :
    mark ∈ marks [] y.found ↔ mark ∈ marks [] x.found ∨ mark ∈ marks [] places := by
  rw [← mem_marks_reverse, explores.found.mem_marks, marks, List.map_append, List.mem_append]
  exact or_congr_left mem_marks_reverse

theorem Explores.covers (explores : Explores reach origin places x y) {q : Place}
    (covers : x.Covers reach q) : y.Covers reach q :=
  fun mark member => explores.mem_found.2 (.inl (covers mark member))

theorem Explores.closed (explores : Explores reach origin places x y)
    (closed : x.Closed reach origin least) : y.Closed reach origin least := by
  intro q follows above known
  rcases explores.tried q follows known with before | covers
  · exact explores.covers (closed q follows above before)
  · exact covers

theorem Explores.refl (x : Exploration) : Explores reach origin [] x x where
  found := by rw [List.append_nil]; exact .refl _
  tried _ _ known := .inl known

theorem Explores.trans (first : Explores reach origin places x y)
    (second : Explores reach origin more y z) : Explores reach origin (places ++ more) x z where
  found := by
    rw [← List.append_assoc]
    exact second.found.trans (first.found.append (.refl _))
  tried q follows known := by
    rcases second.tried q follows known with before | covers
    · exact (first.tried q follows before).imp_right second.covers
    · exact .inr covers

theorem explores_emit (p : Place) (x : Exploration) : Explores reach origin [p] x (x.emit p) where
  found := by rw [emit, List.reverse_cons]; exact .refl _
  tried _ _ known := .inl known

theorem knows_mark {p q : Place} :
    (x.mark (0, p.mark [])).Knows q ↔ q.mark [] = p.mark [] ∨ x.Knows q := by
  rw [Knows, mark, Std.HashSet.contains_insert, Bool.or_eq_true, beq_iff_eq]
  exact or_congr_left ⟨fun same => (Prod.mk.inj same).2.symm, fun same => by rw [same]⟩

/-- The place from which passes are about to be tried will be known, and covered. -/
theorem Explores.of_mark {p : Place} (follows : origin.Follows True p)
    (explores : Explores reach origin (reach p) (x.mark (0, p.mark [])) y) :
    Explores reach origin (reach p) x y where
  found := explores.found
  tried q follows' known := by
    rcases explores.tried q follows' known with before | covers
    · rcases knows_mark.1 before with same | before
      · obtain rfl := follows'.eq_of_mark follows same
        exact .inr fun mark member => explores.mem_found.2 (.inr member)
      · exact .inl before
    · exact .inr covers

/-- Exploring from one place after the other. -/
theorem explores_foldl {go : Exploration → Place → Exploration}
    (each : ∀ p ∈ places, ∀ x : Exploration, x.Closed reach origin least →
      Explores reach origin (list p) x (go x p))
    (closed : x.Closed reach origin least) :
    Explores reach origin (places.flatMap list) x (places.foldl go x) := by
  induction places generalizing x with
  | nil => exact .refl x
  | cons p places ih =>
    obtain ⟨here, others⟩ := List.forall_mem_cons.1 each
    have first := here x closed
    rw [List.flatMap_cons, List.foldl_cons]
    exact first.trans (ih others (first.closed closed))

end Explores

end Exploration

open Exploration

section Exploring

variable {greedy : Bool} {next : Place → List Place} (moves : Moves next)
include moves

/-- Exploring from a place adds what is reached from it. -/
theorem explores_explore {origin p : Place} {left : Nat} {x : Exploration}
    (enough : p.after.length ≤ left) (follows : origin.Follows True p)
    (closed : x.Closed (reached greedy next) origin p.position) :
    Explores (reached greedy next) origin (reached greedy next p) x
      (explore [] greedy next false left x p) := by
  induction left generalizing x p with
  | zero =>
    have alone : reached greedy next p = [p] := by
      rw [reached, Nat.le_zero.1 enough]
      rfl
    rw [alone]
    exact explores_emit p x
  | succ left ih =>
    rw [explore_succ, show situation [] false (left + 1) p = (0, p.mark []) from rfl]
    by_cases known : x.tried.contains (0, p.mark []) = true
    · rw [if_pos known]
      have covers := closed p follows (Nat.le_refl _) known
      refine ⟨(sameDistinct_absorb fun mark member => ?_).symm, fun q _ known => .inl known⟩
      exact mem_marks_reverse.2 (covers mark member)
    · rw [if_neg known]
      apply Explores.of_mark follows
      -- No pass comes back to `p`, so that it does not matter that `p` is not finished.
      have closed' : (x.mark (0, p.mark [])).Closed (reached greedy next) origin
          (p.position + 1) := by
        intro q follows' above tried
        rcases knows_mark.1 tried with same | before
        · obtain rfl := follows'.eq_of_mark follows same
          omega
        · exact closed q follows' (by omega) before
      have each : ∀ q ∈ next p, ∀ x : Exploration,
          x.Closed (reached greedy next) origin (p.position + 1) →
          Explores (reached greedy next) origin (reached greedy next q) x
            (explore [] greedy next false left x q) := by
        intro q member x closed
        obtain ⟨onward, further⟩ := moves p q member
        have := moves.shorter member
        refine ih (by omega) (follows.trans onward) fun r follows' above => ?_
        exact closed r follows' (by omega)
      rw [reached_eq moves]
      cases greedy with
      | true => exact (explores_foldl each closed').trans (explores_emit p _)
      | false =>
        have emitted := @explores_emit (reached false next) origin p (x.mark (0, p.mark []))
        exact emitted.trans (explores_foldl each (emitted.closed closed'))

end Exploring

/-! ### Unbounded loops -/

/-- The passes that cover something. -/
def advancing (pass : Place → List Place) (place : Place) : List Place :=
  (pass place).filter fun next => next.position ≠ place.position

/-- The places after a first pass, which ends the loop if it covers nothing, and then any number of
passes that each cover something. -/
def begunWith (greedy : Bool) (pass : Place → List Place) (place : Place) : List Place :=
  (pass place).flatMap fun next =>
    if next.position = place.position then [next] else reached greedy (advancing pass) next

/-- Every pass goes on in the text or stays, and leaves the captures alone. -/
def Steps (pass : Place → List Place) : Prop := ∀ p, ∀ q ∈ pass p, p.Follows True q

section Loops

variable {greedy : Bool} {pass : Place → List Place} (steps : Steps pass)
include steps

theorem Steps.moves : Moves (advancing pass) := by
  intro p q member
  obtain ⟨member, further⟩ := List.mem_filter.1 member
  have follows := steps p q member
  obtain ⟨w, advances⟩ := follows.1
  have position := advances.position
  have further : q.position ≠ p.position := of_decide_eq_true further
  exact ⟨follows, by omega⟩

theorem Steps.follows_of_mem_repeatExactly {origin p : Place} {count : Nat}
    (member : p ∈ repeatExactly [] pass count [origin]) : origin.Follows True p := by
  obtain ⟨_, first, chain⟩ := repeatExactly_sound _ _ p member
  obtain rfl := List.mem_singleton.1 first
  exact chain.induction (fun p => .refl p) (fun h₁ h₂ => h₁.trans h₂) steps

variable {origin p : Place} {x : Exploration} {least : Nat}

theorem explores_exploreMany (follows : origin.Follows True p)
    (closed : x.Closed (reached greedy (advancing pass)) origin 0) :
    Explores (reached greedy (advancing pass)) origin (reached greedy (advancing pass) p) x
      (exploreMany [] greedy pass x p) :=
  explores_explore steps.moves (Nat.le_succ _) follows fun q follows _ =>
    closed q follows (Nat.zero_le _)

theorem explores_exploreSome (follows : origin.Follows True p)
    (closed : x.Closed (reached greedy (advancing pass)) origin 0) :
    Explores (reached greedy (advancing pass)) origin (begunWith greedy pass p) x
      (exploreSome [] greedy pass x p) := by
  refine explores_foldl (fun q member x closed => ?_) closed
  split
  · exact explores_emit q x
  · exact explores_exploreMany steps (follows.trans (steps p q member)) closed

omit steps in
theorem closed_empty {reach : Place → List Place} : Closed reach origin least {} := by
  intro q _ _ known
  simp [Knows] at known

theorem loopOutcomes_refused : loopOutcomes [] greedy pass least none .refused origin =
    distinctPlaces [] ((repeatExactly [] pass least [origin]).flatMap
      (reached greedy (advancing pass))) := by
  have explores : Explores (reached greedy (advancing pass)) origin
      ((repeatExactly [] pass least [origin]).flatMap (reached greedy (advancing pass))) {}
      ((repeatExactly [] pass least [origin]).foldl (exploreMany [] greedy pass) {}) :=
    explores_foldl (fun p member x closed =>
      explores_exploreMany steps (steps.follows_of_mem_repeatExactly member) closed) closed_empty
  exact explores.found.distinctPlaces_eq

/-- The places with which a loop goes on whose empty first pass ends it. -/
def begun (greedy : Bool) (pass : Place → List Place) (origin : Place) : (least : Nat) → List Place
  | 0 =>
    if greedy then begunWith greedy pass origin ++ [origin]
    else origin :: begunWith greedy pass origin
  | least + 1 => (repeatExactly [] pass least [origin]).flatMap (begunWith greedy pass)

theorem loopOutcomes_endsLoop : loopOutcomes [] greedy pass least none .endsLoop origin =
    distinctPlaces [] (begun greedy pass origin least) := by
  have some (x : Exploration) (closed : x.Closed (reached greedy (advancing pass)) origin 0) :
      Explores (reached greedy (advancing pass)) origin (begunWith greedy pass origin) x
        (exploreSome [] greedy pass x origin) :=
    explores_exploreSome steps (.refl origin) closed
  cases least with
  | zero =>
    cases greedy with
    | true => exact ((some {} closed_empty).trans (explores_emit origin _)).found.distinctPlaces_eq
    | false =>
      have emitted := @explores_emit (reached false (advancing pass)) origin origin {}
      exact (emitted.trans (some _ (emitted.closed closed_empty))).found.distinctPlaces_eq
  | succ least =>
    have explores : Explores (reached greedy (advancing pass)) origin
        ((repeatExactly [] pass least [origin]).flatMap (begunWith greedy pass)) {}
        ((repeatExactly [] pass least [origin]).foldl (exploreSome [] greedy pass) {}) :=
      explores_foldl (fun p member x closed =>
        explores_exploreSome steps (steps.follows_of_mem_repeatExactly member) closed) closed_empty
    exact explores.found.distinctPlaces_eq

end Loops

/-! ### Expressions -/

namespace Expr

/-- No group stands in an unbounded loop. -/
def loopsFree : Expr → Bool
  | .empty | .never | .one _ | .edge _ | .back _ => true
  | .seq a b | .alt a b => a.loopsFree && b.loopsFree
  | .group _ a | .ahead _ a | .behind _ a | .atomic a => a.loopsFree
  | .loop _ most _ _ a => a.loopsFree && (most.isSome || a.groups.isEmpty)

theorem loopsFree_of_groups {e : Expr} (free : e.groups = []) : e.loopsFree = true := by
  induction e with
  | seq a b iha ihb | alt a b iha ihb =>
    obtain ⟨left, right⟩ := List.append_eq_nil_iff.1 free
    rw [loopsFree, iha left, ihb right]
    rfl
  | group => cases free
  | loop least most greedy emptyPass a ih =>
    have none : a.groups = [] := free
    simp [loopsFree, ih none, none]
  | ahead _ a ih | behind _ a ih | atomic a ih => exact ih free
  | empty | never | one | edge | back => rfl

theorem steps_outcomes {e : Expr} (free : e.groups = []) : Steps (e.outcomes []) :=
  fun _ _ member => (follows_of_mem_outcomes member).weaken fun _ => free

/-- A loop that may be passed once or not at all. -/
theorem loopOutcomes_optional {references : List Nat} {greedy : Bool} {pass : Place → List Place}
    {emptyPass : EmptyPass} {place : Place} :
    loopOutcomes references greedy pass 0 (some 1) emptyPass place =
      distinctPlaces references
        (if greedy then pass place ++ [place] else place :: pass place) := by
  have emits (exploration : Exploration) (places : List Place) :
      (places.foldl (fun exploration place => exploration.emit place) exploration).found =
        places.reverse ++ exploration.found := by
    induction places generalizing exploration with
    | nil => rfl
    | cons first places ih =>
      rw [List.foldl_cons, ih, List.reverse_cons, List.append_assoc]
      rfl
  have emit (exploration : Exploration) (place : Place) :
      (exploration.emit place).found = place :: exploration.found := rfl
  cases greedy <;> simp [loopOutcomes, repeatExactly, explore, emits, emit]

/-- The places that the expression leads to, listed by unrolling its loops. -/
def ways : Expr → Place → List Place
  | .seq a b, place => unseen [] [] ((a.ways place).flatMap b.ways)
  | .alt a b, place => unseen [] [] (a.ways place ++ b.ways place)
  | .group number a, place => (a.ways place).map (Place.capture number place)
  | .loop 0 none greedy .refused a, place => unseen [] [] (reached greedy (advancing a.ways) place)
  | .loop 0 none greedy .endsLoop a, place => unseen [] [] (begun greedy a.ways place 0)
  | .loop 0 (some 1) greedy _ a, place =>
    unseen [] [] (if greedy then a.ways place ++ [place] else place :: a.ways place)
  | e, place => e.outcomes [] place

theorem outcomes_eq_ways {e : Expr} (free : e.loopsFree = true) : e.outcomes [] = e.ways := by
  induction e with
  | seq a b iha ihb | alt a b iha ihb =>
    rw [loopsFree, Bool.and_eq_true] at free
    funext p
    rw [outcomes, ways, iha free.1, ihb free.2, distinctPlaces_eq_unseen]
  | group number a ih =>
    funext p
    rw [outcomes, ways, ih free]
  | loop least most greedy emptyPass a ih =>
    rw [loopsFree, Bool.and_eq_true] at free
    obtain ⟨inner, outer⟩ := free
    cases most with
    | some most =>
      rcases least, most with ⟨_ | least, _ | _ | most⟩
      · cases emptyPass <;> rfl
      · funext p
        rw [outcomes, loopOutcomes_optional, distinctPlaces_eq_unseen, ways, ih inner]
      all_goals cases emptyPass <;> rfl
    | none =>
      cases least with
      | succ least => cases emptyPass <;> rfl
      | zero =>
        have steps : Steps (a.outcomes []) := steps_outcomes (by simpa using outer)
        funext p
        cases emptyPass with
        | refused =>
          rw [outcomes, loopOutcomes_refused steps, distinctPlaces_eq_unseen, ways, ih inner]
          simp [repeatExactly]
        | endsLoop =>
          rw [outcomes, loopOutcomes_endsLoop steps, distinctPlaces_eq_unseen, ways, ih inner]
  | _ => rfl

end Expr

end PathTemplate
