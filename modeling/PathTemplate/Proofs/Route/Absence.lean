/-
Keys that did not occur.

A key that may be missing is written as a group between its texts, and all of that takes part in a
match or does not. Without texts, a key that may be missing and may repeat is written as a loop
inside of its group, and this group always takes part.

* `Expr.isNullable_of_mem_outcomes`: what covers nothing may do so by its form.
  `Key.not_instance_nil`: a pattern whose form does not allow that leads nowhere over nothing.
* `Encloses.ne_nil` and `TokensShape.fills`: which groups capture something if they take part, and
  which always take part.
* `get?_of_captures_nothing`: a key whose group captured nothing has no value, unless the group
  always takes part. Then the value is an empty one, as in `exists_get?_of_bare`.
-/

import PathTemplate.Proofs.Route.Alignment
import PathTemplate.Proofs.Route.Alternatives
import PathTemplate.Proofs.Route.Restoration

namespace PathTemplate

/-! ### Expressions that cover something -/

namespace Expr

/-- Whatever leads over nothing may do so by its form. -/
theorem isNullable_of_mem_outcomes {e e' : Expr} {references : List Nat} {p q : Place}
    (settles : e.Settles e') (member : q ∈ e'.outcomes references p)
    (still : q.position = p.position) : e.isNullable = true := by
  have onward {e : Expr} {p q : Place} (member : q ∈ e.outcomes references p) :
      p.position ≤ q.position := by
    obtain ⟨w, advances⟩ := advances_of_mem_outcomes member
    rw [advances.position]
    exact Nat.le_add_right ..
  induction e generalizing e' p q with
  | empty | edge | ahead | behind | back => rfl
  | never =>
    obtain rfl := settles.form
    exact absurd member List.not_mem_nil
  | one set =>
    obtain rfl := settles.form
    obtain ⟨_, advances, c, rfl, -⟩ := (Place.realizes_one set).sound member
    rw [advances.position] at still
    simp at still
  | seq a b iha ihb =>
    obtain ⟨a', b', rfl, ha, hb⟩ := settles.form
    obtain ⟨m, first, second⟩ := List.mem_flatMap.1 (mem_of_mem_distinctPlaces member)
    have before := onward first
    have after := onward second
    rw [isNullable, iha ha first (by omega), ihb hb second (by omega)]
    rfl
  | alt a b iha ihb =>
    obtain ⟨a', b', rfl, ha, hb⟩ := settles.form
    rw [isNullable, Bool.or_eq_true]
    exact (List.mem_append.1 (mem_of_mem_distinctPlaces member)).imp (iha ha · still)
      (ihb hb · still)
  | group number a ih =>
    obtain ⟨a', rfl, ha⟩ := settles.form
    obtain ⟨m, inner, rfl⟩ := List.mem_map.1 member
    exact ih ha inner still
  | loop least most greedy emptyPass a ih =>
    obtain ⟨_, a', rfl, ha⟩ := settles.form
    obtain ⟨count, allowed, chain⟩ := loopOutcomes_sound member
    rw [isNullable, Bool.or_eq_true, Bool.or_eq_true, decide_eq_true_eq, decide_eq_true_eq]
    cases count with
    | zero =>
      left
      cases most with
      | none => exact .inl (Nat.le_zero.1 allowed)
      | some most =>
        have none : min least most = 0 := Nat.le_zero.1 allowed.1
        rcases Nat.min_eq_zero_iff.1 none with least | most
        · exact .inl least
        · exact .inr (congrArg some most)
    | succ count =>
      -- The first pass of a loop that stays where it is does so too.
      obtain ⟨m, pass, chain⟩ := chain
      have before := onward pass
      have after : m.position ≤ q.position :=
        @Chain.induction _ (fun p q => p.position ≤ q.position) (fun _ => Nat.le_refl _)
          Nat.le_trans (fun _ _ => onward) _ _ _ chain
      exact .inr (ih ha pass (by omega))
  | atomic a ih =>
    obtain ⟨a', rfl, ha⟩ := settles.form
    exact ih ha (List.mem_of_mem_take member) still

end Expr

/-! ### Patterns that cover something -/

/-- The pattern is complete on its own, has no capture group and does not end where blanks mean
nothing, and its form tells that it covers a character. -/
def isProper (pattern : String) : Bool :=
  match readAlone? pattern with
  | some (last, done) => last.opened = 0 && !last.flags.spaced && !done.level.expr.isNullable
  | none => false

/-- Such a pattern leads nowhere over nothing, whatever flags it is read under. -/
theorem Key.not_instance_nil {key : Key} (proper : isProper key.pattern = true) :
    ¬key.Instance [] := by
  rintro ⟨_, x', references, p, q, ⟨flags, last, done, unspaced, under, rfl⟩, settles, member,
    advances⟩
  unfold isProper at proper
  split at proper
  · rename_i first whole alone
    simp only [Bool.and_eq_true, decide_eq_true_eq, Bool.not_eq_true'] at proper
    obtain ⟨⟨opened, spaced⟩, covers⟩ := proper
    have agree : ({} : Flags).Agree .none flags := ⟨unspaced, fun other => absurd rfl other, nofun⟩
    obtain ⟨_, _, under', -, like⟩ := readUnder_pinned agree alone opened spaced
    rw [under] at under'
    cases under'
    have nullable := Expr.isNullable_of_mem_outcomes settles member advances.position
    rw [like.level.expr.nullable nullable] at covers
    cases covers
  · cases proper

namespace Route

section Keys

variable {options : Options} {key : Key} {w : List Char}

/-- What a group captures is not empty, if the pattern covers something and the group does not hold
a loop that may be passed by. -/
theorem Encloses.ne_nil (covers : ¬key.Instance [])
    (taken : ¬(IsBare options key ∧ key.modifier = .zeroOrMore))
    (encloses : Encloses options key w) : w ≠ [] := by
  cases encloses with
  | single _ holds =>
    rintro rfl
    exact covers holds
  | bareRepeated bare several holds =>
    obtain ⟨texts, allowed, all, rfl⟩ := holds
    cases texts with
    | nil =>
      cases modifier : key.modifier with
      | zeroOrMore => exact absurd ⟨bare, modifier⟩ taken
      | once | optional => rw [modifier] at several; cases several
      | oneOrMore => rw [modifier] at allowed; cases allowed
    | cons first rest =>
      intro none
      rw [List.flatten_cons, List.append_eq_nil_iff] at none
      exact covers (none.1 ▸ all first List.mem_cons_self)
  | affixedRepeated _ _ holds =>
    obtain ⟨first, rest, rfl, holds, -⟩ := holds
    intro none
    exact covers ((List.append_eq_nil_iff.1 none).1 ▸ holds)

/-! ### Groups that always take part -/

variable {folds : Bool → Prop} {number : Nat} {e : Expr}

/-- A key that repeats and has no texts is one group. -/
theorem KeyShape.exists_group {inner : Expr → Prop} (bare : IsBare options key)
    (several : key.modifier.isRepeating = true) (pattern : key.pattern ≠ "")
    (shape : KeyShape options folds inner key number e) :
    ∃ greedy x, inner x ∧ e = .group number (x.modified greedy key.modifier) := by
  cases shape with
  | decoration _ empty => exact absurd empty pattern
  | bare _ _ _ once => rw [several] at once; cases once
  | bareRepeated greedy _ _ _ holds => exact ⟨greedy, _, holds, rfl⟩
  | affixed _ _ affixed => exact absurd bare affixed
  | affixedRepeated _ _ _ affixed => exact absurd bare affixed

/-- A key fills no group but its own. -/
theorem KeyShape.keeps (may : ∃ fold, folds fold)
    (shape : KeyShape options folds key.ReadsFree key number e) :
    e.Traces fun p _ q => ∀ k ≠ number, q.slots k = p.slots k := by
  refine (shape.updates may).mono ?_
  rintro p _ q (same | ⟨w, -, -, same⟩) k other
  · rw [same]
  · rw [same, Function.update_of_ne other]

/-- A key that repeats and has no texts fills its group, and no key fills another one. -/
theorem KeyShape.fills (may : ∃ fold, folds fold)
    (shape : KeyShape options folds key.ReadsFree key number e) :
    e.Traces fun p _ q => (∀ k ≠ number, q.slots k = p.slots k) ∧
      (key.pattern ≠ "" → IsBare options key → key.modifier.isRepeating = true →
        (q.slots number).isSome = true) := by
  by_cases always : key.pattern ≠ "" ∧ IsBare options key ∧ key.modifier.isRepeating = true
  · obtain ⟨greedy, x, reads, same⟩ := shape.exists_group always.2.1 always.2.2 always.1
    have filled : e.Traces fun _ _ q => (q.slots number).isSome = true := by
      rw [same]
      refine ((reads.traces.modified greedy key.modifier).group number).mono ?_
      rintro p w q ⟨-, filled⟩
      rw [filled, Function.update_self]
      rfl
    exact ((shape.keeps may).and filled).mono fun p w q ⟨kept, filled⟩ =>
      ⟨kept, fun _ _ _ => filled⟩
  · exact (shape.keeps may).mono fun p w q kept =>
      ⟨kept, fun pattern bare several => absurd ⟨pattern, bare, several⟩ always⟩

end Keys

section Tokens

variable {options : Options} {tokens : List Token}

/-- The groups of keys that repeat and have no texts, from the one after `opened` on, are filled. -/
def AreFilled (options : Options) (opened : Nat) (tokens : List Token) (slots : Slots) : Prop :=
  ∀ i key, (capturingKeys tokens)[i]? = some key → IsBare options key →
    key.modifier.isRepeating = true → (slots (opened + (i + 1))).isSome = true

/-- Tokens leave earlier captures alone and fill such groups. -/
theorem TokensShape.fills {folds : Bool → Prop} {parts : List Expr} {opened : Nat}
    (may : ∃ fold, folds fold)
    (shape : TokensShape options folds Key.ReadsFree opened tokens parts) :
    Expr.Traced parts fun p _ q =>
      (∀ k ≤ opened, q.slots k = p.slots k) ∧ AreFilled options opened tokens q.slots := by
  induction shape with
  | nil =>
    refine Expr.Traced.nil.mono ?_
    rintro p _ q ⟨-, rfl⟩
    exact ⟨fun _ _ => rfl, fun i key none => nomatch none⟩
  | literal spelled _ ih =>
    refine (spelled.traced.append ih).mono ?_
    rintro p _ q ⟨_, _, m, rfl, ⟨-, kept⟩, kept', filled⟩
    exact ⟨kept ▸ kept', filled⟩
  | @key opened key rest e parts first _ ih =>
    refine ((first.fills may).single.append ih).mono ?_
    rintro p _ q ⟨_, _, m, rfl, ⟨kept, fills⟩, kept', filled⟩
    refine ⟨fun k earlier => ?_, fun i other place bare several => ?_⟩
    · rw [kept' k (by omega), kept k (by omega)]
    · rw [capturingKeys_cons_key] at place
      by_cases capturing : key.isCapturing = true
      · rw [if_pos capturing] at place kept' filled
        cases i with
        | zero =>
          cases place
          rw [kept' _ (Nat.le_refl _)]
          exact fills (of_decide_eq_true capturing) bare several
        | succ i =>
          have further := filled i other place bare several
          rwa [Nat.add_assoc, Nat.add_comm 1] at further
      · rw [if_neg capturing] at place filled
        exact filled i other place bare several

end Tokens

/-! ### Values of keys that did not occur -/

section Values

variable {options : Options} {pattern path : String} {tokens : List Token} {key : Key} {i : Nat}
  {matcher : Matcher} {captures : Captures} {found : PathMatch}

/-- A key whose group captured nothing but perhaps the empty text has no value, if its pattern
covers something wherever it stands. Only if it may repeat any number of times and has no texts
does it have an empty one. -/
theorem get?_of_captures_nothing (parsed : tokensOf options pattern = .ok tokens)
    (alone : ∀ key ∈ keysOf tokens, key.pattern ≠ "" → isSelfContained key.pattern = true)
    (place : (capturingKeys tokens)[i]? = some key) (covers : ¬key.Instance [])
    (made : Matcher.ofInput options (.pattern pattern) = .ok matcher)
    (captured : matcher.expression.captures? path = some captures)
    (nothing : ∀ text, captures.group? (i + 1) = some text → text = "")
    (run : matcher.run path = some found) :
    (¬(IsBare options key ∧ key.modifier = .zeroOrMore) → found.params.get? key.name = none) ∧
      (IsBare options key ∧ key.modifier = .zeroOrMore →
        found.params.get? key.name = some (.repeated [options.decodeValue "" key])) := by
  obtain ⟨route, compiled, rfl⟩ := ofInput_pattern parsed made
  obtain ⟨parts, shape, settled, keys⟩ := exists_shape_of_ofTokens alone compiled
  obtain ⟨start, stop, search, groups⟩ := exists_search_of_captures? captured
  have value : found.params.get? key.name =
      (captures.group? (i + 1)).map (key.value options.decodeValue) := by
    obtain ⟨_, same, rfl⟩ := Option.map_eq_some_iff.1 run
    rw [captured] at same
    cases same
    simp only [Matcher.ofRoute, keys]
    rw [Matcher.get?_bindings (nodup_names_of_tokensOf parsed) place, Nat.add_comm]
  rw [value, groups]
  constructor
  · intro taken
    cases slot : stop.slots (i + 1) with
    | none => rfl
    | some w =>
      have empty := nothing (String.ofList w) (by rw [groups, slot]; rfl)
      have some := (shape.encloses settled search place slot).ne_nil covers taken
      exact absurd (String.ofList_eq_empty_iff.1 empty) some
  · rintro ⟨bare, modifier⟩
    obtain ⟨p, _, q, -, ⟨-, filled⟩, same⟩ := shape.exists_passage settled
      (fun _ tokensShape => tokensShape.fills ⟨true, trivial⟩) search
    have some := filled i key place bare (by rw [modifier]; rfl)
    rw [same, Nat.zero_add] at some
    obtain ⟨w, slot⟩ := Option.isSome_iff_exists.1 some
    have empty := nothing (String.ofList w) (by rw [groups, slot]; rfl)
    have apart : key.occurrences "" = [""] := by
      rw [Key.occurrences_eq_singleton_iff]
      by_cases none : key.separator = ""
      · exact .inl none
      · exact .inr fun inside => none (String.toList_eq_nil_iff.1 (List.infix_nil.1 inside))
    rw [slot, Option.map_some, Option.map_some, empty, Key.value, modifier, apart]
    rfl

/-- A key with a text before it has no value where it does not occur. -/
theorem get?_of_captures_nothing_tag :
    let options : Options := { strict := true }
    let key : Key :=
      { name := .explicit "tag", lead := "-", pattern := "[a-z]", modifier := .zeroOrMore }
    ∃ matcher found, Matcher.ofInput options (.pattern "/a\x7b-:tag([a-z])\x7d*") = .ok matcher ∧
      matcher.run "/a" = some found ∧ found.params.get? key.name = none := by
  intro options key
  have parsed : tokensOf options "/a\x7b-:tag([a-z])\x7d*" = .ok [.literal "/a", .key key] := by
    decide +kernel
  have finds : (Matcher.ofInput options (.pattern "/a\x7b-:tag([a-z])\x7d*")).toOption.any
      (fun matcher => matcher.unrolls &&
        (matcher.expression.expr.ways (.start "/a".toList)).head?.any fun stop =>
          stop.slots 1 = none) = true := by
    decide +kernel
  obtain ⟨matcher, stop, captures, made, captured, groups, empty⟩ :=
    Matcher.exists_captures_of_unroll finds
  have run : matcher.run "/a" = some _ := congrArg (Option.map _) captured
  have nothing : ∀ text, captures.group? (0 + 1) = some text → text = "" := by
    intro text filled
    rw [groups, empty] at filled
    cases filled
  have affixed : ¬IsBare options key := fun bare => absurd bare.1 (by decide)
  exact ⟨matcher, _, made, run, (get?_of_captures_nothing parsed (by decide +kernel) rfl
    (Key.not_instance_nil (by decide +kernel)) made captured nothing run).1 fun h => affixed h.1⟩

/-- A key without texts that may repeat any number of times has an empty value where the path is
empty, though its pattern stands for one letter. -/
theorem exists_get?_of_bare :
    let options : Options := { strict := true }
    let key : Key := { name := .ordinal 0, pattern := "[a-z]", modifier := .zeroOrMore }
    tokensOf options "([a-z])*" = .ok [.key key] ∧ ¬key.Instance [] ∧
      ∃ matcher found, Matcher.ofInput options (.pattern "([a-z])*") = .ok matcher ∧
        matcher.run "" = some found ∧ found.path = "" ∧
        found.params.get? key.name = some (.repeated [""]) := by
  intro options key
  have finds : (Matcher.ofInput options (.pattern "([a-z])*")).toOption.any
      (fun matcher => matcher.unrolls && (matcher.unroll "").any fun found =>
        found.path = "" ∧ found.params.get? key.name = some (.repeated [""])) = true := by
    decide +kernel
  obtain ⟨matcher, found, made, run, path, value⟩ := Matcher.exists_run_of_unroll finds
  exact ⟨by decide +kernel, Key.not_instance_nil (by decide +kernel), matcher, found, made, run,
    path, value⟩

end Values

end Route

end PathTemplate
