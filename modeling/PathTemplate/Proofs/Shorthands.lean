/-
Pinning leaves no shorthand behind and has nothing to do for a second time.

A pattern is read from left to right, a backslash as a pair with the character after it. What is
written for a shorthand has no backslash, and after it the last bracket says the same as before. So
the pairs of a pinned pattern are those that are not pinned, each of them inside or outside of
brackets as it was (`pairsFrom_pinFrom`), and a pattern without pairs to pin stays as it is
(`pinFrom_eq_self`).

* `pairs_pinShorthands`: pinning is complete and idempotent, and does nothing without a backslash.
-/

import PathTemplate.Escape

namespace PathTemplate

/-- A backslash with the character after it. -/
structure EscapePair where
  /-- The last bracket before it that is in no pair opened a class. -/
  inClass : Bool
  character : Char
deriving DecidableEq, Repr

/-- The pair is a shorthand that is written out where it stands. -/
def EscapePair.isPinned (pair : EscapePair) : Bool :=
  pair.character = 'd' || pair.character = 'w' ||
    !pair.inClass && (pair.character = 'D' || pair.character = 'W')

/-- The last bracket opened a class, once `c` is read too. -/
def bracketAfter (inClass : Bool) (c : Char) : Bool :=
  if c = '[' then true else if c = ']' then false else inClass

/-- `pairs` over characters. -/
def pairsFrom (inClass : Bool) : List Char → List EscapePair
  | [] => []
  | '\\' :: c :: rest => { inClass, character := c } :: pairsFrom inClass rest
  | c :: rest => pairsFrom (bracketAfter inClass c) rest

/-- The pairs of a pattern. -/
def pairs (pattern : String) : List EscapePair := pairsFrom false pattern.toList

theorem EscapePair.isPinned_eq_false_iff {pair : EscapePair} : pair.isPinned = false ↔
    pair.character ≠ 'd' ∧ pair.character ≠ 'w' ∧
      (pair.inClass = false → pair.character ≠ 'D' ∧ pair.character ≠ 'W') := by
  cases inClass : pair.inClass <;> simp [isPinned, inClass, and_assoc]

section Pairs

variable {inClass : Bool} {c : Char} {text : List Char}

theorem pairsFrom_cons (notSlash : c ≠ '\\') :
    pairsFrom inClass (c :: text) = pairsFrom (bracketAfter inClass c) text :=
  pairsFrom.eq_3 inClass c text fun _ _ same _ => notSlash same

/-- Without a backslash there are no pairs. -/
theorem pairsFrom_eq_nil (absent : '\\' ∉ text) : pairsFrom inClass text = [] := by
  induction text generalizing inClass with
  | nil => rfl
  | cons c text ih =>
    rw [List.mem_cons, not_or] at absent
    obtain ⟨notSlash, absent⟩ := absent
    rw [pairsFrom_cons (Ne.symm notSlash), ih absent]

/-- A pair that is not pinned stays. -/
theorem pinEscape_of_not_isPinned
    (kept : ({ inClass, character := c } : EscapePair).isPinned = false) :
    pinEscape inClass c = ['\\', c] := by
  obtain ⟨notDigit, notWord, outside⟩ := EscapePair.isPinned_eq_false_iff.1 kept
  unfold pinEscape
  split <;> simp_all

/-- What is written for a pinned pair has no pairs, and leaves the brackets as they were. -/
theorem pairsFrom_pinEscape (pinned : ({ inClass, character := c } : EscapePair).isPinned = true) :
    pairsFrom inClass (pinEscape inClass c ++ text) = pairsFrom inClass text := by
  unfold pinEscape
  split
  case h_7 => simp_all [EscapePair.isPinned]
  all_goals rfl

/-- The pairs of a pinned text are those that are not pinned. -/
theorem pairsFrom_pinFrom (inClass : Bool) (text : List Char) :
    pairsFrom inClass (pinFrom inClass text) =
      (pairsFrom inClass text).filter (!·.isPinned) := by
  fun_induction pairsFrom inClass text with
  | case1 => rfl
  | case2 inClass c rest ih =>
    rw [pinFrom, List.filter_cons]
    cases pinned : ({ inClass, character := c } : EscapePair).isPinned with
    | true => simpa [pairsFrom_pinEscape pinned] using ih
    | false => simpa [pinEscape_of_not_isPinned pinned, pairsFrom] using ih
  | case3 inClass c rest single ih =>
    rw [pinFrom.eq_3 inClass c rest single]
    by_cases slash : c = '\\'
    · -- A backslash at the end is no pair.
      cases rest with
      | nil => rw [slash]; rfl
      | cons d rest => exact (single d rest slash rfl).elim
    · rw [pairsFrom_cons slash]
      exact ih

/-- A text without pairs to pin stays as it is. -/
theorem pinFrom_eq_self (kept : ∀ pair ∈ pairsFrom inClass text, pair.isPinned = false) :
    pinFrom inClass text = text := by
  fun_induction pairsFrom inClass text with
  | case1 => rfl
  | case2 inClass c rest ih =>
    obtain ⟨here, kept⟩ := List.forall_mem_cons.1 kept
    rw [pinFrom, pinEscape_of_not_isPinned here, ih kept]
    rfl
  | case3 inClass c rest single ih =>
    rw [pinFrom.eq_3 inClass c rest single]
    exact congrArg (c :: ·) (ih kept)

end Pairs

theorem pairs_pinned (pattern : String) :
    pairs (pinShorthands pattern) = (pairs pattern).filter (!·.isPinned) := by
  rw [pairs, pinShorthands, String.toList_ofList]
  exact pairsFrom_pinFrom false pattern.toList

/-- A pattern without pairs to pin stays as it is. -/
theorem pinShorthands_eq_self {pattern : String}
    (kept : ∀ pair ∈ pairs pattern, pair.isPinned = false) : pinShorthands pattern = pattern := by
  rw [pinShorthands, pinFrom_eq_self kept, String.ofList_toList]

/-- In a pinned pattern no pair is `\d` or `\w`, and none outside of brackets is `\D` or `\W`; the
other pairs of the pattern are there, in their order and inside or outside of brackets as they
were; pinning it again changes nothing; and a pattern without a backslash is not changed at all. -/
theorem pairs_pinShorthands (pattern : String) :
    (∀ pair ∈ pairs (pinShorthands pattern), pair.character ≠ 'd' ∧ pair.character ≠ 'w' ∧
      (pair.inClass = false → pair.character ≠ 'D' ∧ pair.character ≠ 'W')) ∧
    pairs (pinShorthands pattern) = (pairs pattern).filter (!·.isPinned) ∧
    pinShorthands (pinShorthands pattern) = pinShorthands pattern ∧
    (hasEscape pattern = false → pinShorthands pattern = pattern) := by
  have complete : ∀ pair ∈ pairs (pinShorthands pattern), pair.isPinned = false := by
    intro pair member
    rw [pairs_pinned, List.mem_filter] at member
    simpa using member.2
  refine ⟨fun pair member => EscapePair.isPinned_eq_false_iff.1 (complete pair member),
    pairs_pinned pattern, pinShorthands_eq_self complete, fun plain => ?_⟩
  have absent : '\\' ∉ pattern.toList := by simpa [hasEscape] using plain
  refine pinShorthands_eq_self fun pair member => ?_
  rw [pairs, pairsFrom_eq_nil absent] at member
  cases member

/-- Brackets that do not match, escaped brackets and backslashes, and a backslash at the end. -/
theorem pairs_pinShorthands_brackets :
    let pattern := "\\d][\\w\\D\\]\\W]\\D\\\\d\\"
    pairs pattern = [⟨false, 'd'⟩, ⟨true, 'w'⟩, ⟨true, 'D'⟩, ⟨true, ']'⟩, ⟨true, 'W'⟩, ⟨false, 'D'⟩,
        ⟨false, '\\'⟩] ∧
      pairs (pinShorthands pattern) = [⟨true, 'D'⟩, ⟨true, ']'⟩, ⟨true, 'W'⟩, ⟨false, '\\'⟩] ∧
      (⟨true, 'W'⟩ : EscapePair).character ≠ 'w' ∧
      pinShorthands (pinShorthands pattern) = pinShorthands pattern ∧
      hasEscape "[^/]+" = false ∧ pinShorthands "[^/]+" = "[^/]+" := by
  intro pattern
  obtain ⟨complete, kept, again, _⟩ := pairs_pinShorthands pattern
  have last : pairs (pinShorthands pattern) =
      [⟨true, 'D'⟩, ⟨true, ']'⟩, ⟨true, 'W'⟩, ⟨false, '\\'⟩] := kept.trans (by decide)
  have plain : hasEscape "[^/]+" = false := by decide
  refine ⟨by decide, last, (complete ⟨true, 'W'⟩ ?_).2.1, again, plain,
    (pairs_pinShorthands "[^/]+").2.2.2 plain⟩
  rw [last]
  decide

end PathTemplate
