/-
The matcher and the declarative reading of expressions agree.

* `Expr.realizes_covers`: from any place, a declarative expression leads exactly to the ends of
  the texts that it covers there.
* `Expression.isMatch_iff`: such an expression matches a text iff it covers some part of it.
* `Expr.advances_of_mem_outcomes` and `Expr.captures_of_mem_outcomes` hold of all expressions:
  whatever an expression does, it goes on in the text, and without a capture group it leaves the
  captures alone.
-/

import PathTemplate.Expression
import PathTemplate.Proofs.Expression.Exploration

namespace PathTemplate

/-! ### One rule for each form of expression -/

namespace Realizes

variable {pass next : Place → List Place} {fit further : Fit}

/-- It does not matter that places are listed once. -/
theorem distinct (real : Realizes pass fit) :
    Realizes (fun p => distinctPlaces [] (pass p)) fit where
  sound := fun member => real.sound (mem_of_mem_distinctPlaces member)
  complete := by
    intro p w rest split fits
    obtain ⟨q, member, advances⟩ := real.complete split fits
    obtain ⟨kept, isKept, same⟩ := exists_mem_distinctPlaces [] member
    obtain ⟨v, advances', _⟩ := real.sound (mem_of_mem_distinctPlaces isKept)
    exact ⟨kept, isKept, advances.of_mark advances' same⟩

theorem stay : Realizes (fun p => [p]) (fun _ w _ => w = []) where
  sound := fun member => ⟨[], List.mem_singleton.1 member ▸ .refl _, rfl⟩
  complete := by
    rintro p w rest _ rfl
    exact ⟨p, List.mem_singleton_self p, .refl p⟩

theorem seq (left : Realizes pass fit) (right : Realizes next further) :
    Realizes (fun p => (pass p).flatMap next)
      (fun before w after => ∃ u v, w = u ++ v ∧ fit before u (v ++ after) ∧
        further (u.reverse ++ before) v after) where
  sound := by
    intro p q member
    obtain ⟨m, first, second⟩ := List.mem_flatMap.1 member
    obtain ⟨u, toMiddle, fits⟩ := left.sound first
    obtain ⟨v, toEnd, fits'⟩ := right.sound second
    exact ⟨u ++ v, toMiddle.trans toEnd, u, v, rfl, toEnd.after ▸ fits, toMiddle.before ▸ fits'⟩
  complete := by
    rintro p w rest split ⟨u, v, rfl, fits, fits'⟩
    rw [List.append_assoc] at split
    obtain ⟨m, first, toMiddle⟩ := left.complete split fits
    have here : m.after = v ++ rest :=
      (List.append_cancel_left (split.symm.trans toMiddle.after)).symm
    obtain ⟨q, second, toEnd⟩ := right.complete here (toMiddle.before ▸ fits')
    exact ⟨q, List.mem_flatMap.2 ⟨m, first, second⟩, toMiddle.trans toEnd⟩

theorem alt (left : Realizes pass fit) (right : Realizes next further) :
    Realizes (fun p => pass p ++ next p)
      (fun before w after => fit before w after ∨ further before w after) where
  sound := by
    intro p q member
    rcases List.mem_append.1 member with member | member
    · obtain ⟨w, advances, fits⟩ := left.sound member
      exact ⟨w, advances, .inl fits⟩
    · obtain ⟨w, advances, fits⟩ := right.sound member
      exact ⟨w, advances, .inr fits⟩
  complete := by
    rintro p w rest split (fits | fits)
    · obtain ⟨q, member, advances⟩ := left.complete split fits
      exact ⟨q, List.mem_append_left _ member, advances⟩
    · obtain ⟨q, member, advances⟩ := right.complete split fits
      exact ⟨q, List.mem_append_right _ member, advances⟩

theorem group (real : Realizes pass fit) (number : Nat) :
    Realizes (fun p => (pass p).map (Place.capture number p)) fit where
  sound := by
    intro p q member
    obtain ⟨m, inner, rfl⟩ := List.mem_map.1 member
    obtain ⟨w, advances, fits⟩ := real.sound inner
    exact ⟨w, advances.withCaptures _, fits⟩
  complete := by
    intro p w rest split fits
    obtain ⟨m, member, advances⟩ := real.complete split fits
    exact ⟨_, List.mem_map_of_mem member, advances.withCaptures _⟩

end Realizes

namespace Place

/-- The next character, if it belongs to the set. -/
theorem realizes_one (set : CharSet) :
    Realizes (fun p => if p.followedBy set.contains then p.next?.toList else [])
      (fun _ w _ => ∃ c, w = [c] ∧ set.contains c = true) where
  sound := by
    rintro ⟨position, before, after, captures⟩ q member
    cases after with
    | nil => simp [followedBy] at member
    | cons c rest =>
      by_cases belongs : set.contains c = true
      · obtain rfl : q = ⟨position + 1, c :: before, rest, captures⟩ := by
          simpa [followedBy, belongs, next?] using member
        exact ⟨[c], ⟨rfl, rfl, rfl⟩, c, rfl, belongs⟩
      · simp [followedBy, belongs] at member
  complete := by
    rintro ⟨position, before, after, captures⟩ w rest split ⟨c, rfl, belongs⟩
    obtain rfl : after = c :: rest := split
    refine ⟨⟨position + 1, c :: before, rest, captures⟩, ?_, rfl, rfl, rfl⟩
    simp [followedBy, next?, belongs]

/-- Whether a place is an edge depends on the text around it alone. -/
theorem isAt_eq (p : Place) (kind : Edge) :
    p.isAt kind = (Place.mk p.before.length p.before p.after []).isAt kind := by
  cases kind <;> rfl

theorem realizes_edge (kind : Edge) :
    Realizes (fun p => if p.isAt kind then [p] else [])
      (fun before w after =>
        w = [] ∧ (Place.mk before.length before after []).isAt kind = true) where
  sound := by
    intro p q member
    split at member
    · rename_i here
      obtain rfl := List.mem_singleton.1 member
      exact ⟨[], .refl q, rfl, q.isAt_eq kind ▸ here⟩
    · exact absurd member List.not_mem_nil
  complete := by
    rintro p w rest split ⟨rfl, here⟩
    obtain rfl : p.after = rest := split
    rw [← isAt_eq] at here
    exact ⟨p, by simp [here], .refl p⟩

end Place

namespace Expr

theorem realizes_ahead {a : Expr} (real : Realizes (a.outcomes []) a.Covers) (negated : Bool) :
    Realizes ((Expr.ahead negated a).outcomes []) (Expr.ahead negated a).Covers := by
  have found : ∀ p : Place, a.outcomes [] p ≠ [] ↔
      ∃ v rest, p.after = v ++ rest ∧ a.Covers p.before v rest := by
    intro p
    constructor
    · intro some
      obtain ⟨q, member⟩ := List.exists_mem_of_ne_nil _ some
      obtain ⟨w, advances, covered⟩ := real.sound member
      exact ⟨w, q.after, advances.after, covered⟩
    · rintro ⟨v, rest, split, covered⟩
      obtain ⟨q, member, _⟩ := real.complete split covered
      exact List.ne_nil_of_mem member
  have stays : ∀ p : Place, (∃ q ∈ (Expr.ahead negated a).outcomes [] p, p.Advances [] q) ↔
      (negated = false ↔ a.outcomes [] p ≠ []) := by
    intro p
    simp only [outcomes]
    cases a.outcomes [] p with
    | nil => cases negated <;> simp [Place.Advances.refl]
    | cons q others =>
      cases negated with
      | false => simpa using (Place.Advances.refl p).withCaptures q.captures
      | true => simp
  have stands : ∀ p : Place, ∀ q ∈ (Expr.ahead negated a).outcomes [] p, p.Advances [] q := by
    intro p q member
    simp only [outcomes] at member
    cases h : a.outcomes [] p with
    | nil => cases negated <;> simp_all [Place.Advances.refl]
    | cons m others =>
      cases negated with
      | false =>
        simp only [h, List.mem_singleton] at member
        exact member ▸ (Place.Advances.refl p).withCaptures m.captures
      | true => simp [h] at member
  refine ⟨fun {p q} member => ?_, fun {p w rest} split covered => ?_⟩
  · have advances := stands p q member
    have here := (stays p).1 ⟨q, member, advances⟩
    rw [found] at here
    exact ⟨[], advances, rfl, by rwa [show q.after = p.after from advances.after.symm]⟩
  · obtain ⟨rfl, here⟩ := covered
    obtain rfl : p.after = rest := split
    exact (stays p).2 (here.trans (found p).symm)

/-- A declarative expression leads exactly to the ends of the texts that it covers. -/
theorem realizes_covers {e : Expr} (h : e.isDeclarative = true) :
    Realizes (e.outcomes []) e.Covers := by
  induction e with
  | empty => exact .stay
  | never => exact ⟨fun member => absurd member List.not_mem_nil, fun _ covered => covered.elim⟩
  | one set => exact Place.realizes_one set
  | seq a b iha ihb =>
    simp only [isDeclarative, Bool.and_eq_true] at h
    exact ((iha h.1).seq (ihb h.2)).distinct
  | alt a b iha ihb =>
    simp only [isDeclarative, Bool.and_eq_true] at h
    exact ((iha h.1).alt (ihb h.2)).distinct
  | group number a ih => exact (ih h).group number
  | loop least most greedy emptyPass a ih => exact (ih h).loop
  | edge kind => exact Place.realizes_edge kind
  | ahead negated a ih => exact realizes_ahead (ih h) negated
  | behind | atomic | back => simp [isDeclarative] at h

theorem references_of_isDeclarative {e : Expr} (h : e.isDeclarative = true) :
    e.references = [] := by
  induction e with
  | seq a b iha ihb | alt a b iha ihb =>
    simp only [isDeclarative, Bool.and_eq_true] at h
    simp [references, iha h.1, ihb h.2]
  | group number a ih => exact ih h
  | loop least most greedy emptyPass a ih => exact ih h
  | ahead negated a ih => exact ih h
  | empty | never | one | edge => rfl
  | behind | atomic | back => simp [isDeclarative] at h

end Expr

/-! ### What holds of every expression -/

theorem Chain.induction {pass : Place → List Place} {relation : Place → Place → Prop}
    (refl : ∀ p, relation p p)
    (trans : ∀ {p q r}, relation p q → relation q r → relation p r)
    (step : ∀ p, ∀ q ∈ pass p, relation p q) :
    ∀ {count : Nat} {p q : Place}, Chain pass count p q → relation p q
  | 0, p, _, rfl => refl p
  | _ + 1, p, _, ⟨m, member, chain⟩ =>
    trans (step p m member) (chain.induction refl trans step)

namespace Place

theorem advances_of_skip? {text : List Char} {p q : Place} (h : p.skip? text = some q) :
    p.Advances text q ∧ q.captures = p.captures := by
  induction text generalizing p with
  | nil =>
    obtain rfl : p = q := by simpa [skip?] using h
    exact ⟨.refl p, rfl⟩
  | cons c rest ih =>
    obtain ⟨position, before, after, captures⟩ := p
    cases after with
    | nil => simp [skip?, next?] at h
    | cons d after =>
      by_cases same : d = c
      · subst same
        obtain ⟨advances, kept⟩ := ih (by simpa [skip?, next?] using h)
        have first : Place.Advances ⟨position, before, d :: after, captures⟩ [d]
            ⟨position + 1, d :: before, after, captures⟩ := ⟨rfl, rfl, rfl⟩
        exact ⟨first.trans advances, kept⟩
      · simp [skip?, next?, same] at h

theorem captures_of_back? {count : Nat} {p q : Place} (h : p.back? count = some q) :
    q.captures = p.captures := by
  induction count generalizing p with
  | zero =>
    obtain rfl : p = q := by simpa [back?] using h
    rfl
  | succ count ih =>
    obtain ⟨position, before, after, captures⟩ := p
    cases before with
    | nil => simp [back?] at h
    | cons c before =>
      exact ih (p := ⟨position - 1, before, c :: after, captures⟩) h

/-- The second place comes after the first one in the text, and if `keeps` holds, it has the
same captures. -/
def Follows (keeps : Prop) (p q : Place) : Prop :=
  (∃ w, p.Advances w q) ∧ (keeps → q.captures = p.captures)

theorem Follows.refl {keeps : Prop} (p : Place) : Follows keeps p p := ⟨⟨[], .refl p⟩, fun _ => rfl⟩

theorem Follows.trans {keeps : Prop} {p q r : Place} :
    Follows keeps p q → Follows keeps q r → Follows keeps p r
  | ⟨⟨u, first⟩, kept⟩, ⟨⟨v, second⟩, kept'⟩ =>
    ⟨⟨u ++ v, first.trans second⟩, fun h => (kept' h).trans (kept h)⟩

theorem Follows.weaken {keeps less : Prop} {p q : Place} (h : Follows keeps p q)
    (implies : less → keeps) : Follows less p q :=
  ⟨h.1, fun given => h.2 (implies given)⟩

theorem follows_withCaptures {keeps : Prop} {p : Place} {captures : List (Nat × Capture)}
    (h : keeps → captures = p.captures) : Follows keeps p { p with captures } :=
  ⟨⟨[], (Advances.refl p).withCaptures captures⟩, h⟩

end Place

namespace Expr

variable {references : List Nat}

/-- Whatever an expression does, it goes on in the text; and if it has no group, it leaves the
captures alone. -/
theorem follows_of_mem_outcomes {e : Expr} {p q : Place} (member : q ∈ e.outcomes references p) :
    p.Follows (e.groups = []) q := by
  induction e generalizing p q with
  | empty =>
    obtain rfl := List.mem_singleton.1 member
    exact .refl q
  | never => exact absurd member List.not_mem_nil
  | one set =>
    obtain ⟨position, before, after, captures⟩ := p
    cases after with
    | nil => simp [outcomes, Place.followedBy] at member
    | cons c rest =>
      by_cases belongs : set.contains c = true
      · obtain rfl : q = ⟨position + 1, c :: before, rest, captures⟩ := by
          simpa [outcomes, Place.followedBy, belongs, Place.next?] using member
        exact ⟨⟨[c], rfl, rfl, rfl⟩, fun _ => rfl⟩
      · simp [outcomes, Place.followedBy, belongs] at member
  | seq a b iha ihb =>
    obtain ⟨m, first, second⟩ := List.mem_flatMap.1 (mem_of_mem_distinctPlaces member)
    exact ((iha first).weaken fun h => (List.append_eq_nil_iff.1 h).1).trans
      ((ihb second).weaken fun h => (List.append_eq_nil_iff.1 h).2)
  | alt a b iha ihb =>
    rcases List.mem_append.1 (mem_of_mem_distinctPlaces member) with member | member
    · exact (iha member).weaken fun h => (List.append_eq_nil_iff.1 h).1
    · exact (ihb member).weaken fun h => (List.append_eq_nil_iff.1 h).2
  | group number a ih =>
    obtain ⟨m, inner, rfl⟩ := List.mem_map.1 member
    obtain ⟨⟨w, advances⟩, _⟩ := ih inner
    exact ⟨⟨w, advances.withCaptures _⟩, fun h => absurd h (List.cons_ne_nil _ _)⟩
  | loop least most greedy emptyPass a ih =>
    obtain ⟨count, _, chain⟩ := loopOutcomes_sound member
    exact chain.induction Place.Follows.refl .trans fun _ _ => ih
  | edge kind =>
    simp only [outcomes] at member
    split at member
    · obtain rfl := List.mem_singleton.1 member
      exact .refl q
    · exact absurd member List.not_mem_nil
  | ahead negated a ih =>
    simp only [outcomes] at member
    split at member
    · obtain rfl := List.mem_singleton.1 member
      exact .refl q
    · exact absurd member List.not_mem_nil
    · exact absurd member List.not_mem_nil
    · rename_i found others equal
      obtain rfl := List.mem_singleton.1 member
      exact Place.follows_withCaptures (ih (equal ▸ List.mem_cons_self)).2
  | behind negated a ih =>
    simp only [outcomes] at member
    split at member
    · obtain rfl := List.mem_singleton.1 member
      exact .refl q
    · exact absurd member List.not_mem_nil
    · exact absurd member List.not_mem_nil
    · rename_i found others equal
      obtain rfl := List.mem_singleton.1 member
      refine Place.follows_withCaptures fun free => ?_
      split at equal
      · obtain ⟨start, back, inner⟩ := List.mem_flatMap.1 (equal ▸ List.mem_cons_self)
        rw [(ih inner).2 free]
        exact Place.captures_of_back? (by simpa using back)
      · exact absurd equal (List.cons_ne_nil _ _).symm
  | atomic a ih => exact ih (List.mem_of_mem_take member)
  | back number =>
    simp only [outcomes] at member
    split at member
    · obtain ⟨advances, kept⟩ := Place.advances_of_skip? (by simpa using member)
      exact ⟨⟨_, advances⟩, fun _ => kept⟩
    · exact absurd member List.not_mem_nil

theorem advances_of_mem_outcomes {e : Expr} {p q : Place}
    (member : q ∈ e.outcomes references p) : ∃ w, p.Advances w q :=
  (follows_of_mem_outcomes member).1

theorem captures_of_mem_outcomes {e : Expr} {p q : Place} (free : e.groups = [])
    (member : q ∈ e.outcomes references p) : q.captures = p.captures :=
  (follows_of_mem_outcomes member).2 free

/-! ### Search -/

/-- A search ends at the preferred outcome from the first place from which there is one. -/
theorem searchFrom_eq_some {e : Expr} {position : Nat} {before after : List Char}
    {start stop : Place} (h : e.searchFrom references position before after = some (start, stop)) :
    ∃ u rest, after = u ++ rest ∧
      start = ⟨position + u.length, u.reverse ++ before, rest, []⟩ ∧
      (e.outcomes references start).head? = some stop := by
  induction after generalizing position before with
  | nil =>
    rw [searchFrom] at h
    obtain ⟨found, attempt, same⟩ := Option.map_eq_some_iff.1 h
    cases same
    exact ⟨[], [], rfl, rfl, attempt⟩
  | cons c rest ih =>
    rw [searchFrom] at h
    split at h
    · rename_i found attempt
      cases h
      exact ⟨[], c :: rest, rfl, rfl, attempt⟩
    · obtain ⟨u, rest, rfl, rfl, attempt⟩ := ih h
      refine ⟨c :: u, rest, rfl, ?_, ?_⟩
      · simp [Nat.add_assoc, Nat.add_comm 1]
      · simpa [Nat.add_assoc, Nat.add_comm 1] using attempt

/-- A search finds something iff there is a place to start from. -/
theorem searchFrom_isSome_iff {e : Expr} {position : Nat} {before after : List Char} :
    (e.searchFrom references position before after).isSome = true ↔
      ∃ u rest, after = u ++ rest ∧
        e.outcomes references ⟨position + u.length, u.reverse ++ before, rest, []⟩ ≠ [] := by
  induction after generalizing position before with
  | nil =>
    rw [searchFrom, Option.isSome_map, searchFrom.attempt, Option.isSome_iff_ne_none, ne_eq,
      List.head?_eq_none_iff]
    constructor
    · exact fun some => ⟨[], [], rfl, some⟩
    · rintro ⟨u, rest, split, some⟩
      obtain ⟨rfl, rfl⟩ := List.append_eq_nil_iff.1 split.symm
      exact some
  | cons c rest ih =>
    rw [searchFrom]
    cases attempt : searchFrom.attempt references e position before (c :: rest) with
    | some found =>
      simp only [Option.isSome_some, true_iff]
      refine ⟨[], c :: rest, rfl, fun none => ?_⟩
      rw [searchFrom.attempt] at attempt
      simp only [List.length_nil, Nat.add_zero, List.reverse_nil, List.nil_append] at none
      rw [none] at attempt
      cases attempt
    | none =>
      rw [ih]
      constructor
      · rintro ⟨u, rest, rfl, some⟩
        exact ⟨c :: u, rest, rfl, by simpa [Nat.add_assoc, Nat.add_comm 1] using some⟩
      · rintro ⟨u, rest', split, some⟩
        cases u with
        | nil =>
          obtain rfl : c :: rest = rest' := split
          exact absurd (List.head?_eq_none_iff.1 attempt) (by simpa using some)
        | cons d u =>
          obtain ⟨rfl, rfl⟩ := List.cons.inj split
          exact ⟨u, rest', rfl, by simpa [Nat.add_assoc, Nat.add_comm 1] using some⟩

end Expr

/-- A declarative expression matches a text iff it covers some part of it. -/
theorem Expression.isMatch_iff {expression : Expression} {text : String}
    (h : expression.expr.isDeclarative = true) :
    expression.isMatch text = true ↔
      ∃ u w rest, text.toList = u ++ (w ++ rest) ∧ expression.expr.Covers u.reverse w rest := by
  rw [isMatch, Expr.search?, Expr.searchFrom_isSome_iff,
    Expr.references_of_isDeclarative h]
  have real := Expr.realizes_covers h
  constructor
  · rintro ⟨u, after, split, some⟩
    obtain ⟨q, member⟩ := List.exists_mem_of_ne_nil _ some
    obtain ⟨w, advances, covered⟩ := real.sound member
    refine ⟨u, w, q.after, ?_, by simpa using covered⟩
    rw [split, ← advances.after]
  · rintro ⟨u, w, rest, split, covered⟩
    refine ⟨u, w ++ rest, split, ?_⟩
    obtain ⟨q, member, _⟩ := real.complete
      (p := ⟨0 + u.length, u.reverse ++ [], w ++ rest, []⟩) rfl (by simpa using covered)
    exact List.ne_nil_of_mem member

end PathTemplate
