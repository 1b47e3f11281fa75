/-
Renumbering the groups of an expression.

The number of a group says where its capture is kept and which references mean it, and nothing else.
`Expr.renumber` gives the groups other numbers, and the references back to them too. Where different
groups keep different numbers, the expression goes on as before.

* `Expr.settle?_renumber`: settling looks at no number.
* `Expr.outcomes_renumber`: the places that the renumbered expression leads to are those that the
  expression leads to, with the captures under their new numbers.
-/

import Mathlib.Data.List.Basic
import PathTemplate.Expression
import PathTemplate.Proofs.Expression.Exploration

namespace PathTemplate

namespace Expr

/-- The expression with other numbers of groups, and others of references back to them. -/
def renumber (groups references : Nat → Nat) : Expr → Expr
  | .empty => .empty
  | .never => .never
  | .one set => .one set
  | .seq a b => .seq (a.renumber groups references) (b.renumber groups references)
  | .alt a b => .alt (a.renumber groups references) (b.renumber groups references)
  | .group number a => .group (groups number) (a.renumber groups references)
  | .loop least most greedy emptyPass a =>
    .loop least most greedy emptyPass (a.renumber groups references)
  | .edge kind => .edge kind
  | .ahead negated a => .ahead negated (a.renumber groups references)
  | .behind negated a => .behind negated (a.renumber groups references)
  | .atomic a => .atomic (a.renumber groups references)
  | .back number => .back (references number)

/-- The expression after further groups. -/
def shift (opened : Nat) (e : Expr) : Expr := e.renumber (opened + ·) (opened + ·)

/-- Groups after further ones keep different numbers. -/
theorem injective_shift (opened : Nat) : Function.Injective (opened + ·) :=
  fun _ _ same => Nat.add_left_cancel same

section Forms

variable {f g : Nat → Nat}

attribute [local simp] renumber

theorem groups_renumber (e : Expr) : (e.renumber f g).groups = e.groups.map f := by
  induction e with
  | seq a b iha ihb | alt a b iha ihb => simp [groups, iha, ihb]
  | group number a ih => simp [groups, ih]
  | loop _ _ _ _ a ih | ahead _ a ih | behind _ a ih | atomic a ih => exact ih
  | _ => rfl

theorem references_renumber (e : Expr) : (e.renumber f g).references = e.references.map g := by
  induction e with
  | seq a b iha ihb | alt a b iha ihb => simp [references, iha, ihb]
  | group _ a ih | loop _ _ _ _ a ih | ahead _ a ih | behind _ a ih | atomic a ih => exact ih
  | _ => rfl

/-- There is nothing to renumber in a plain expression. -/
theorem renumber_of_isPlain {e : Expr} (plain : e.isPlain = true) : e.renumber f g = e := by
  induction e with
  | seq a b iha ihb | alt a b iha ihb =>
    rw [isPlain, Bool.and_eq_true] at plain
    rw [renumber, iha plain.1, ihb plain.2]
  | loop _ _ _ _ a ih =>
    rw [isPlain, Bool.and_eq_true] at plain
    rw [renumber, ih plain.2]
  | empty | one => rfl
  | _ => cases plain

@[simp] theorem width?_renumber (e : Expr) : (e.renumber f g).width? = e.width? := by
  induction e with
  | seq a b iha ihb | alt a b iha ihb => simp only [renumber, width?, iha, ihb]
  | loop _ _ _ _ a ih => simp only [renumber, width?, ih]
  | group _ a ih | atomic a ih => exact ih
  | _ => rfl

theorem append_renumber (a b : Expr) :
    (a.append b).renumber f g = (a.renumber f g).append (b.renumber f g) := by
  cases a <;> cases b <;> rfl

theorem isRepeatable_renumber (e : Expr) : (e.renumber f g).isRepeatable = e.isRepeatable := by
  cases e <;> rfl

/-- Two parts are renumbered apart from one another. -/
theorem bind_map_renumber {build : Expr → Expr → Expr}
    (apart : ∀ a b, build (a.renumber f g) (b.renumber f g) = (build a b).renumber f g)
    (x y : Option Expr) :
    (do return build (← x.map (renumber f g)) (← y.map (renumber f g)) : Option Expr) =
      (do return build (← x) (← y) : Option Expr).map (renumber f g) := by
  cases x <;> cases y <;> simp [apart]

theorem simple?_renumber (e : Expr) :
    (e.renumber f g).simple? = e.simple?.map (renumber f g) := by
  induction e with
  | seq a b iha ihb =>
    simp only [renumber, simple?, iha, ihb]
    exact @bind_map_renumber f g .seq (fun _ _ => rfl) _ _
  | alt a b iha ihb =>
    simp only [renumber, simple?, iha, ihb]
    exact @bind_map_renumber f g .alt (fun _ _ => rfl) _ _
  | group _ a ih | ahead _ a ih | behind _ a ih | atomic a ih =>
    simp only [renumber, simple?, ih]
    cases a.simple? <;> rfl
  | loop least most _ _ a ih =>
    simp only [renumber, simple?, ih]
    split
    · cases a.simple? <;> rfl
    · rfl
  | _ => rfl

theorem lookBehind?_renumber (negated : Bool) (e : Expr) :
    lookBehind? negated (e.renumber f g) = (lookBehind? negated e).map (renumber f g) := by
  have whole (e : Expr) :
      (if (e.renumber f g).width?.isSome then some (behind negated (e.renumber f g)) else none) =
        (if e.width?.isSome then some (behind negated e) else none).map (renumber f g) := by
    rw [width?_renumber]
    split <;> rfl
  induction e with
  | alt a b iha _ =>
    have width : (Expr.alt (a.renumber f g) (b.renumber f g)).width? = (Expr.alt a b).width? :=
      width?_renumber (.alt a b)
    simp only [renumber, lookBehind?, width, width?_renumber, iha]
    split
    · rfl
    · split
      · cases lookBehind? negated a <;> cases negated <;> rfl
      · rfl
  | _ => exact whole _

theorem renumber_renumber {f' g' : Nat → Nat} (e : Expr) :
    (e.renumber f g).renumber f' g' = e.renumber (f' ∘ f) (g' ∘ g) := by
  induction e with
  | seq a b iha ihb | alt a b iha ihb => simp only [renumber, iha, ihb]
  | group _ a ih | loop _ _ _ _ a ih | ahead _ a ih | behind _ a ih | atomic a ih =>
    simp only [renumber, ih, Function.comp]
  | _ => rfl

theorem renumber_id (e : Expr) : e.renumber id id = e := by
  induction e with
  | seq a b iha ihb | alt a b iha ihb => simp only [renumber, iha, ihb]
  | group _ a ih | loop _ _ _ _ a ih | ahead _ a ih | behind _ a ih | atomic a ih =>
    simp only [renumber, ih, id]
  | _ => rfl

theorem shift_zero (e : Expr) : e.shift 0 = e := by
  have same : ((0 : Nat) + ·) = id := funext Nat.zero_add
  rw [shift, same, renumber_id]

theorem shift_shift (m n : Nat) (e : Expr) : (e.shift n).shift m = e.shift (m + n) := by
  have same : (m + ·) ∘ (n + ·) = (m + n + ·) := funext fun k => (Nat.add_assoc m n k).symm
  rw [shift, shift, renumber_renumber, same, shift]

@[simp] theorem length_groups_shift (n : Nat) (e : Expr) :
    (e.shift n).groups.length = e.groups.length := by
  rw [shift, groups_renumber, List.length_map]

end Forms

section Settling

variable {f : Nat → Nat} {references : List Nat} (distinct : Function.Injective f)
include distinct

theorem isHard_renumber (e : Expr) :
    (e.renumber f f).isHard (references.map f) = e.isHard references := by
  induction e with
  | seq a b iha ihb | alt a b iha ihb => simp only [renumber, isHard, iha, ihb]
  | group number a ih =>
    have same : (references.map f).contains (f number) = references.contains number := by
      rw [Bool.eq_iff_iff, List.contains_iff_mem, List.contains_iff_mem,
        List.mem_map_of_injective distinct]
    simp only [renumber, isHard, ih, same]
  | loop _ _ _ _ a ih => exact ih
  | _ => rfl

/-- Settling looks at no number. -/
theorem settle?_renumber (last : Bool) (e : Expr) :
    (e.renumber f f).settle? (references.map f) last =
      (e.settle? references last).map (renumber f f) := by
  induction e generalizing last with
  | seq a b iha ihb =>
    have hard := @isHard_renumber f references distinct (.seq a b)
    simp only [renumber] at hard
    simp only [renumber, settle?, hard, @isHard_renumber f references distinct b, iha, ihb]
    split
    · exact simple?_renumber (.seq a b)
    · split
      · rw [simple?_renumber]
        cases a <;> exact @bind_map_renumber f f .seq (fun _ _ => rfl) _ _
      · exact @bind_map_renumber f f .seq (fun _ _ => rfl) _ _
  | alt a b iha ihb =>
    have hard := @isHard_renumber f references distinct (.alt a b)
    simp only [renumber] at hard
    simp only [renumber, settle?, hard, iha, ihb]
    split
    · exact simple?_renumber (.alt a b)
    · exact @bind_map_renumber f f .alt (fun _ _ => rfl) _ _
  | group number a ih =>
    have hard := @isHard_renumber f references distinct (.group number a)
    simp only [renumber] at hard
    simp only [renumber, settle?, hard, ih]
    split
    · exact simple?_renumber (.group number a)
    · cases settle? references last a <;> rfl
  | loop least most greedy emptyPass a ih =>
    simp only [renumber, settle?, @isHard_renumber f references distinct a, ih]
    split
    · exact simple?_renumber (.loop least most greedy emptyPass a)
    · cases settle? references last a <;> rfl
  | ahead _ a ih | atomic a ih =>
    simp only [renumber, settle?, ih]
    cases settle? references true a <;> rfl
  | behind negated a ih =>
    simp only [renumber, settle?, ih]
    cases settle? references true a with
    | none => rfl
    | some a => exact lookBehind?_renumber negated a
  | _ => rfl

end Settling

end Expr

/-! ### Places -/

namespace Place

/-- The place with the captures under other numbers. -/
def renumber (f : Nat → Nat) (place : Place) : Place :=
  { place with captures := place.captures.map fun entry => (f entry.1, entry.2) }

section Renumber

variable {f : Nat → Nat} {p q : Place}

theorem renumber_of_captures (none : p.captures = []) : p.renumber f = p := by
  obtain ⟨_, _, _, _⟩ := p
  cases none
  rfl

@[simp] theorem renumber_id : Place.renumber (fun number => number) = id := by
  funext ⟨_, _, _, captures⟩
  simp [renumber]

theorem renumber_next? : (p.renumber f).next? = p.next?.map (renumber f) := by
  obtain ⟨position, before, after, captures⟩ := p
  cases after <;> rfl

theorem renumber_back? (count : Nat) :
    (p.renumber f).back? count = (p.back? count).map (renumber f) := by
  induction count generalizing p with
  | zero => rfl
  | succ count ih =>
    obtain ⟨position, before, after, captures⟩ := p
    cases before with
    | nil => rfl
    | cons c before => exact @ih ⟨position - 1, before, c :: after, captures⟩

theorem renumber_skip? (text : List Char) :
    (p.renumber f).skip? text = (p.skip? text).map (renumber f) := by
  induction text generalizing p with
  | nil => rfl
  | cons c text ih =>
    obtain ⟨position, before, after, captures⟩ := p
    cases after with
    | nil => rfl
    | cons d after =>
      by_cases same : d = c
      · subst same
        simpa [skip?, next?, renumber] using @ih ⟨position + 1, d :: before, after, captures⟩
      · simp [skip?, next?, renumber, same]

theorem isAt_renumber (kind : Edge) : (p.renumber f).isAt kind = p.isAt kind := by
  cases kind <;> rfl

variable (distinct : Function.Injective f)
include distinct

theorem capture?_renumber (number : Nat) :
    (p.renumber f).capture? (f number) = p.capture? number := by
  unfold capture? renumber
  induction p.captures with
  | nil => rfl
  | cons entry captures ih =>
    obtain ⟨other, capture⟩ := entry
    have same : (f number == f other) = (number == other) := by
      rw [Bool.eq_iff_iff, beq_iff_eq, beq_iff_eq, distinct.eq_iff]
    simp only [List.map_cons, List.lookup_cons, same, ih]

theorem capture_renumber (number : Nat) :
    Place.capture (f number) (p.renumber f) (q.renumber f) =
      (Place.capture number p q).renumber f := by
  have others : (q.captures.map fun entry => (f entry.1, entry.2)).filter
      (fun entry => entry.1 ≠ f number) =
      (q.captures.filter fun entry => entry.1 ≠ number).map fun entry => (f entry.1, entry.2) := by
    rw [List.filter_map]
    refine congrArg _ (List.filter_congr fun entry _ => ?_)
    simp [distinct.eq_iff]
  simp only [capture, renumber, others, List.map_cons]

theorem mark_renumber (references : List Nat) :
    (p.renumber f).mark (references.map f) = p.mark references := by
  have spans : ∀ number, ((p.renumber f).capture? (f number)).map (fun c => (c.start, c.stop)) =
      (p.capture? number).map fun c => (c.start, c.stop) := fun number => by
    rw [capture?_renumber distinct]
  simp only [mark, List.map_map, Function.comp_def, spans]
  rfl

end Renumber

end Place

/-! ### Loops -/

section Loops

variable {references references' : List Nat} {h : Place → Place}
  (marks : ∀ place, (h place).mark references' = place.mark references)

section Distinct

include marks

/-- Places that are told apart by the same marks are listed once in the same way. -/
theorem distinctPlaces_map (places : List Place) :
    distinctPlaces references' (places.map h) = (distinctPlaces references places).map h := by
  have step (state : Std.HashSet Place.Mark × List Place) :
      (places.map h).foldl (keepDistinct references') (state.1, state.2.map h) =
        ((places.foldl (keepDistinct references) state).1,
          (places.foldl (keepDistinct references) state).2.map h) := by
    induction places generalizing state with
    | nil => rfl
    | cons place places ih =>
      have kept : keepDistinct references' (state.1, state.2.map h) (h place) =
          ((keepDistinct references state place).1,
            (keepDistinct references state place).2.map h) := by
        simp only [keepDistinct, marks]
        split <;> rfl
      rw [List.map_cons, List.foldl_cons, List.foldl_cons, kept]
      exact ih _
  rw [distinctPlaces_eq_foldl, distinctPlaces_eq_foldl, List.map_reverse]
  exact congrArg (fun state => state.2.reverse) (step (∅, []))

end Distinct

/-- The exploration with other places in place of those it found. -/
def Exploration.map (h : Place → Place) (x : Exploration) : Exploration :=
  { x with found := x.found.map h }

variable {greedy : Bool} {pass pass' : Place → List Place}
  (passes : ∀ place, pass' (h place) = (pass place).map h)
include marks passes

omit marks passes in
/-- A fold goes on in the same way if each of its steps does. -/
theorem foldl_map_exploration {go go' : Exploration → Place → Exploration}
    (steps : ∀ x place, go' (x.map h) (h place) = (go x place).map h) (places : List Place)
    (x : Exploration) : (places.map h).foldl go' (x.map h) = (places.foldl go x).map h := by
  induction places generalizing x with
  | nil => rfl
  | cons place places ih => rw [List.map_cons, List.foldl_cons, List.foldl_cons, steps, ih]

theorem explore_map (counted : Bool) (left : Nat) (x : Exploration) (place : Place) :
    explore references' greedy pass' counted left (x.map h) (h place) =
      (explore references greedy pass counted left x place).map h := by
  induction left generalizing x place with
  | zero => rfl
  | succ left ih =>
    have same : Exploration.situation references' counted (left + 1) (h place) =
        Exploration.situation references counted (left + 1) place := by
      rw [Exploration.situation, marks]
      rfl
    rw [explore_succ, explore_succ, same, passes]
    change (if x.tried.contains _ = true then _ else _) = _
    split
    · rfl
    · split
      · exact congrArg (Exploration.emit (h place))
          (foldl_map_exploration ih (pass place) (x.mark _))
      · exact foldl_map_exploration ih (pass place) ((x.mark _).emit place)

theorem repeatExactly_map (count : Nat) (places : List Place) :
    repeatExactly references' pass' count (places.map h) =
      (repeatExactly references pass count places).map h := by
  induction count generalizing places with
  | zero => rfl
  | succ count ih =>
    cases places with
    | nil => rfl
    | cons place places =>
      have next : ((place :: places).map h).flatMap pass' = ((place :: places).flatMap pass).map h := by
        rw [List.flatMap_map, List.map_flatMap]
        exact congrArg (List.flatMap · _) (funext passes)
      have first := ih (distinctPlaces references ((place :: places).flatMap pass))
      rw [← distinctPlaces_map marks, ← next] at first
      exact first

variable (positions : ∀ place, (h place).position = place.position)
  (afters : ∀ place, (h place).after = place.after)
include positions afters

theorem exploreMany_map (x : Exploration) (place : Place) :
    exploreMany references' greedy pass' (x.map h) (h place) =
      (exploreMany references greedy pass x place).map h := by
  have advancing (origin : Place) :
      ((pass' (h origin)).filter fun next => next.position ≠ (h origin).position) =
        ((pass origin).filter fun next => next.position ≠ origin.position).map h := by
    rw [passes, List.filter_map]
    refine congrArg _ (List.filter_congr fun next _ => ?_)
    simp [positions]
  unfold exploreMany
  rw [afters]
  exact explore_map marks advancing false _ x place

theorem exploreSome_map (x : Exploration) (place : Place) :
    exploreSome references' greedy pass' (x.map h) (h place) =
      (exploreSome references greedy pass x place).map h := by
  unfold exploreSome
  rw [passes]
  refine foldl_map_exploration (fun x next => ?_) _ x
  simp only [positions]
  split
  · rfl
  · exact exploreMany_map marks passes positions afters x next

theorem loopOutcomes_map (least : Nat) (most : Option Nat) (emptyPass : EmptyPass) (place : Place) :
    loopOutcomes references' greedy pass' least most emptyPass (h place) =
      (loopOutcomes references greedy pass least most emptyPass place).map h := by
  have starts (count : Nat) : repeatExactly references' pass' count [h place] =
      (repeatExactly references pass count [place]).map h :=
    repeatExactly_map marks passes count [place]
  have ends {x x' : Exploration} (same : x' = x.map h) :
      distinctPlaces references' x'.found.reverse =
        (distinctPlaces references x.found.reverse).map h := by
    rw [same, ← distinctPlaces_map marks, List.map_reverse]
    rfl
  unfold loopOutcomes
  refine ends ?_
  cases most with
  | some most =>
    dsimp only
    rw [starts]
    exact foldl_map_exploration (explore_map marks passes true _) _ {}
  | none =>
    cases emptyPass with
    | refused =>
      dsimp only
      rw [starts]
      exact foldl_map_exploration (exploreMany_map marks passes positions afters) _ {}
    | endsLoop =>
      cases least with
      | zero =>
        cases greedy with
        | true =>
          exact congrArg (Exploration.emit (h place))
            (exploreSome_map marks passes positions afters {} place)
        | false => exact exploreSome_map marks passes positions afters (Exploration.emit place {}) place
      | succ least =>
        dsimp only
        rw [starts]
        exact foldl_map_exploration (exploreSome_map marks passes positions afters) _ {}

end Loops

/-! ### Outcomes -/

namespace Expr

variable {f : Nat → Nat} {references : List Nat} (distinct : Function.Injective f)
include distinct

/-- The captures have other numbers, and nothing else changes. -/
theorem outcomes_renumber (e : Expr) (p : Place) :
    (e.renumber f f).outcomes (references.map f) (p.renumber f) =
      (e.outcomes references p).map (Place.renumber f) := by
  have marks := fun place : Place => @Place.mark_renumber f place distinct references
  induction e generalizing p with
  | empty | never => rfl
  | one set =>
    simp only [renumber, outcomes, Place.renumber_next?]
    rw [apply_ite (List.map (Place.renumber f))]
    refine if_congr Iff.rfl ?_ rfl
    cases p.next? <;> rfl
  | seq a b iha ihb =>
    simp only [renumber, outcomes]
    rw [iha, ← distinctPlaces_map marks, List.flatMap_map, List.map_flatMap]
    exact congrArg (fun next => distinctPlaces _ (List.flatMap next _)) (funext ihb)
  | alt a b iha ihb =>
    simp only [renumber, outcomes]
    rw [iha, ihb, ← distinctPlaces_map marks, List.map_append]
  | group number a ih =>
    simp only [renumber, outcomes, ih, List.map_map]
    exact List.map_congr_left fun q _ => Place.capture_renumber distinct number
  | loop least most greedy emptyPass a ih =>
    exact loopOutcomes_map marks ih (fun _ => rfl) (fun _ => rfl) least most emptyPass p
  | edge kind =>
    simp only [renumber, outcomes, Place.isAt_renumber]
    split <;> rfl
  | ahead negated a ih =>
    simp only [renumber, outcomes, ih]
    cases a.outcomes references p <;> cases negated <;> rfl
  | behind negated a ih =>
    simp only [renumber, outcomes, width?_renumber]
    cases a.width? with
    | none => cases negated <;> rfl
    | some width =>
      dsimp only
      rw [Place.renumber_back?]
      cases p.back? width with
      | none => cases negated <;> rfl
      | some q =>
        simp only [Option.map_some, Option.toList_some, List.flatMap_singleton, ih]
        cases a.outcomes references q <;> cases negated <;> rfl
  | atomic a ih => simp only [renumber, outcomes, ih, List.map_take]
  | back number =>
    simp only [renumber, outcomes, Place.capture?_renumber distinct]
    cases p.capture? number with
    | none => rfl
    | some capture =>
      dsimp only
      rw [Place.renumber_skip?]
      cases p.skip? capture.text <;> rfl

end Expr

end PathTemplate
