/-
A list matches what the first of its members matches that matches anything.

* `Route.run_of_members`: the match of a list of routes is that of the first member that has one.
* `Matcher.run_of_tree`: the same of a tree of patterns, whose keys are those of its patterns.
-/

import PathTemplate.Matcher
import PathTemplate.Proofs.Route.Parts

namespace PathTemplate

/-! ### Matches -/

namespace Matcher

section Bindings

variable {decode : String → Key → String} {group? group?' : Nat → Option String} {keys : List Key}
  {number number' : Nat}

theorem bindings_append (more : List Key) : bindings decode group? number (keys ++ more) =
    bindings decode group? number keys ++ bindings decode group? (number + keys.length) more := by
  induction keys generalizing number with
  | nil => rfl
  | cons key keys ih =>
    rw [List.cons_append, bindings, bindings, ih, List.append_assoc, List.length_cons,
      Nat.add_assoc, Nat.add_comm 1]

theorem bindings_congr (same : ∀ i < keys.length, group? (number + i) = group?' (number' + i)) :
    bindings decode group? number keys = bindings decode group?' number' keys := by
  induction keys generalizing number number' with
  | nil => rfl
  | cons key keys ih =>
    have here : group? number = group?' number' := same 0 (Nat.zero_lt_succ _)
    rw [bindings, bindings, here, ih fun i inside => ?_]
    have later := same (i + 1) (Nat.succ_lt_succ inside)
    rwa [Nat.add_right_comm, Nat.add_right_comm number']

theorem bindings_eq_nil (none : ∀ i < keys.length, group? (number + i) = none) :
    bindings decode group? number keys = [] := by
  induction keys generalizing number with
  | nil => rfl
  | cons key keys ih =>
    have here : group? number = Option.none := none 0 (Nat.zero_lt_succ _)
    rw [bindings, here, ih fun i inside => ?_]
    · rfl
    · have later := none (i + 1) (Nat.succ_lt_succ inside)
      rwa [Nat.add_right_comm]

/-- Where only the groups of some keys captured anything, the other keys are bound to nothing. -/
theorem bindings_between {before after : List Key}
    (elsewhere : ∀ number ∉ List.range' (before.length + 1) keys.length, group? number = none)
    (inside : ∀ number, group? (before.length + number) = group?' number) :
    bindings decode group? 1 (before ++ (keys ++ after)) = bindings decode group?' 1 keys := by
  have front : bindings decode group? 1 before = [] := by
    refine bindings_eq_nil fun i _ => elsewhere _ ?_
    rw [List.mem_range'_1]
    omega
  have back : bindings decode group? (1 + before.length + keys.length) after = [] := by
    refine bindings_eq_nil fun i _ => elsewhere _ ?_
    rw [List.mem_range'_1]
    omega
  rw [bindings_append, bindings_append, front, back, List.nil_append, List.append_nil]
  refine bindings_congr fun i _ => ?_
  rw [Nat.add_comm 1, Nat.add_assoc, inside]

end Bindings

/-- The match from the beginning of the text up to `stop`, the keys belonging to the groups from 1
on. -/
def matchTo (decode : String → Key → String) (keys : List Key) (text : List Char) (stop : Place) :
    PathMatch :=
  { path := String.ofList (text.take stop.position)
    index := 0
    params := .ofList
      (bindings decode (fun number => (stop.slots number).map String.ofList) 1 keys) }

section Anchored

variable {decode : String → Key → String} {text : List Char}

/-- The match of an anchored expression. -/
theorem run_of_isAnchored {matcher : Matcher}
    (anchored : matcher.expression.expr.isAnchored = true)
    (free : matcher.expression.expr.references = []) (text : String) :
    matcher.run text = ((matcher.expression.expr.outcomes [] (.start text.toList)).head?).map
      (matchTo matcher.decode matcher.keys text.toList) := by
  rw [run, Expression.captures?, Expr.search?_of_isAnchored anchored, free, Option.map_map,
    Option.map_map]
  refine congrArg (Option.map · _) (funext fun stop => ?_)
  have slots : (fun number => (stop.capture? number).map fun c => String.ofList c.text) =
      fun number => (stop.slots number).map String.ofList := by
    funext number
    rw [Place.slots, Option.map_map]
    rfl
  simp only [Function.comp_apply, matchTo, slots]
  rfl

/-- Unrolling its loops finds the matches of the expression. -/
def unrolls (matcher : Matcher) : Bool :=
  matcher.expression.expr.isAnchored && matcher.expression.expr.references = [] &&
    matcher.expression.expr.loopsFree

/-- The match that unrolling the loops of the expression finds. -/
def unroll (matcher : Matcher) (text : String) : Option PathMatch :=
  ((matcher.expression.expr.ways (.start text.toList)).head?).map
    (matchTo matcher.decode matcher.keys text.toList)

theorem run_eq_unroll {matcher : Matcher} (unrolls : matcher.unrolls = true) (text : String) :
    matcher.run text = matcher.unroll text := by
  obtain ⟨⟨anchored, free⟩, loops⟩ := by
    simpa only [Matcher.unrolls, Bool.and_eq_true] using unrolls
  rw [run_of_isAnchored anchored (of_decide_eq_true free), Expr.outcomes_eq_ways loops, unroll]

/-- What unrolling finds, a matcher finds. -/
theorem exists_run_of_unroll {made : Except BuildError Matcher} {text : String}
    {holds : PathMatch → Prop} [DecidablePred holds]
    (unrolled : made.toOption.any (fun matcher =>
      matcher.unrolls && (matcher.unroll text).any fun found => holds found) = true) :
    ∃ matcher found, made = .ok matcher ∧ matcher.run text = some found ∧ holds found := by
  obtain ⟨matcher, compiled, unrolled⟩ := (Option.any_eq_true _ _).1 unrolled
  obtain ⟨unrolls, unrolled⟩ := Bool.and_eq_true_iff.1 unrolled
  obtain ⟨found, finds, holds⟩ := (Option.any_eq_true _ _).1 unrolled
  exact ⟨matcher, found, toOption_eq_some_iff.1 compiled,
    (run_eq_unroll unrolls text).trans finds, of_decide_eq_true holds⟩

/-- What the groups captured where unrolling finds a match. -/
theorem exists_captures_of_unroll {made : Except BuildError Matcher} {text : String}
    {holds : Place → Prop} [DecidablePred holds]
    (unrolled : made.toOption.any (fun matcher =>
      matcher.unrolls && (matcher.expression.expr.ways (.start text.toList)).head?.any fun stop =>
        holds stop) = true) :
    ∃ matcher stop captures, made = .ok matcher ∧
      matcher.expression.captures? text = some captures ∧
      (∀ number, captures.group? number = (stop.slots number).map String.ofList) ∧ holds stop := by
  obtain ⟨matcher, compiled, unrolled⟩ := (Option.any_eq_true _ _).1 unrolled
  obtain ⟨unrolls, unrolled⟩ := Bool.and_eq_true_iff.1 unrolled
  obtain ⟨stop, finds, holds⟩ := (Option.any_eq_true _ _).1 unrolled
  obtain ⟨⟨anchored, free⟩, loops⟩ := by
    simpa only [Matcher.unrolls, Bool.and_eq_true] using unrolls
  have search : matcher.expression.expr.search? text.toList = some (.start text.toList, stop) := by
    rw [Expr.search?_of_isAnchored anchored, of_decide_eq_true free, Expr.outcomes_eq_ways loops,
      finds]
    rfl
  refine ⟨matcher, stop, _, toOption_eq_some_iff.1 compiled, congrArg (Option.map _) search,
    fun number => ?_, of_decide_eq_true holds⟩
  rw [Place.slots, Option.map_map]
  rfl

/-- What one of several expressions captures binds its own keys, and no others. -/
theorem matchTo_renumber {e : Expr} {before keys after : List Key} {stop : Place}
    (numbered : e.groups = List.range' 1 keys.length)
    (member : stop ∈ e.outcomes [] (.start text)) :
    matchTo decode (before ++ (keys ++ after)) text (stop.renumber (before.length + ·)) =
      matchTo decode keys text stop := by
  have shifted : stop.renumber (before.length + ·) ∈
      (e.shift before.length).outcomes [] (.start text) := by
    rw [Expr.outcomes_shift rfl]
    exact List.mem_map_of_mem member
  have elsewhere (number : Nat) (outside : number ∉ (e.shift before.length).groups) :
      ((stop.renumber (before.length + ·)).slots number).map String.ofList = none := by
    rw [Place.slots, Expr.capture?_of_mem_outcomes outside shifted]
    rfl
  have inside (number : Nat) :
      (stop.renumber (before.length + ·)).slots (before.length + number) = stop.slots number := by
    have same := @Place.capture?_renumber _ stop (Expr.injective_shift before.length) number
    exact congrArg (Option.map Capture.text) same
  have groups : (e.shift before.length).groups = List.range' (before.length + 1) keys.length := by
    rw [Expr.shift, Expr.groups_renumber, numbered, List.map_add_range']
  rw [groups] at elsewhere
  have params := @bindings_between decode
    (fun number => ((stop.renumber (before.length + ·)).slots number).map String.ofList)
    (fun number => (stop.slots number).map String.ofList) keys before after elsewhere
    fun number => congrArg _ (inside number)
  rw [matchTo, matchTo, params]
  rfl

/-- The leftmost of several expressions gives the match of the first route that has one. -/
theorem map_leftmost {before : List Key} {members : List Route}
    (numbered : ∀ member ∈ members,
      member.expression.expr.groups = List.range' 1 member.keys.length) :
    (Expr.leftmost (.start text) before.length (members.map (·.expression.expr))).map
        (matchTo decode (before ++ members.flatMap Route.keys) text) =
      members.findSome? fun member => ((member.expression.expr.outcomes [] (.start text)).head?).map
        (matchTo decode member.keys text) := by
  induction members generalizing before with
  | nil => rfl
  | cons member rest ih =>
    obtain ⟨here, others⟩ := List.forall_mem_cons.1 numbered
    rw [List.map_cons, Expr.leftmost, List.flatMap_cons, List.findSome?_cons]
    cases head : (member.expression.expr.outcomes [] (.start text)).head? with
    | none =>
      have later := @ih (before ++ member.keys) others
      rw [List.length_append, List.append_assoc] at later
      rw [here, List.length_range']
      exact later
    | some stop => exact congrArg some (matchTo_renumber here (List.mem_of_mem_head? head))

end Anchored

end Matcher

/-- The expression needs backtracking. -/
def Expression.backtracks (expression : Expression) : Bool :=
  expression.expr.isHard expression.expr.references

namespace Route

/-! ### Lists -/

variable {options : Options} {route : Route} {mixes : Prop}

/-- The route reads as `e`, begins where the text does and has a group for each of its keys. Where
it is mixed with routes that need backtracking, it prefers the same matches. -/
structure Stands (options : Options) (mixes : Prop) (e : Expr) (route : Route) : Prop extends
    ReadsAs options.sensitive e route where
  anchored : e.isAnchored = true
  numbered : e.groups = List.range' 1 route.keys.length
  mixed : e.isHard [] = true → mixes
  alike : mixes → e.isHard [] = false → e.PrefersAlike

section Stands

variable {e : Expr} (stands : route.Stands options mixes e)
include stands

theorem Stands.groups : route.expression.expr.groups = List.range' 1 route.keys.length :=
  (Expr.settles_of_settled? stands.settled).groups.trans stands.numbered

theorem Stands.run (decoding : Options) (text : String) : (Matcher.ofRoute decoding route).run text =
    ((route.expression.expr.outcomes [] (.start text.toList)).head?).map
      (Matcher.matchTo decoding.decodeValue route.keys text.toList) := by
  have settles := Expr.settles_of_settled? stands.settled
  refine Matcher.run_of_isAnchored ?_ ?_ text
  · exact settles.isAnchored stands.anchored
  · exact settles.references.trans stands.references

end Stands

section Lists

variable {first : Route} {rest : List Route} {e : Expr} {es : List Expr}
  (all : List.Forall₂ (Stands options mixes) (e :: es) (first :: rest))
  (made : ofMembers options (first :: rest) = .ok route)
include all

theorem references_of_stands : ∀ x ∈ e :: es, x.references = [] := by
  intro x member
  obtain ⟨_, _, stands⟩ := exists_of_forall₂_left all member
  exact stands.references

theorem isAnchored_of_stands : ∀ x ∈ e :: es, x.isAnchored = true := by
  intro x member
  obtain ⟨_, _, stands⟩ := exists_of_forall₂_left all member
  exact stands.anchored

theorem mixes_of_isHard (hard : (e.branches es).isHard [] = true) : mixes := by
  rw [Expr.isHard_branches] at hard
  obtain ⟨x, member, hard⟩ := List.any_eq_true.1 hard
  obtain ⟨_, _, stands⟩ := exists_of_forall₂_left all member
  exact stands.mixed hard

include made

/-- The list of routes stands as its members do. -/
theorem stands_of_members : route.Stands options mixes (e.branches es) := by
  have reads : List.Forall₂ (ReadsAs options.sensitive) (e :: es) (first :: rest) :=
    all.imp fun _ _ stands => stands.toReadsAs
  cases reads with
  | cons here others =>
    obtain ⟨-, -, keys⟩ := compile?_of_compile made
    refine ⟨readsAs_of_members here others made, ?_, ?_, mixes_of_isHard all, ?_⟩
    · obtain ⟨here, others⟩ := List.forall_mem_cons.1 (isAnchored_of_stands all)
      exact Expr.isAnchored_branches here others
    · have groups : List.Forall₂ (fun (e : Expr) count => e.groups = List.range' 1 count) (e :: es)
          ((first :: rest).map (·.keys.length)) :=
        List.forall₂_map_right_iff.2 (all.imp fun _ _ stands => stands.numbered)
      cases groups with
      | cons here others =>
        rw [Expr.groups_branches here others, keys, List.length_flatMap, List.map_cons,
          List.sum_cons]
    · intro mixes easy
      refine Expr.prefersAlike_branches fun x member => ?_
      rw [Expr.isHard_branches, List.any_eq_false] at easy
      obtain ⟨_, _, stands⟩ := exists_of_forall₂_left all member
      exact stands.alike mixes (Bool.eq_false_iff.2 (easy x member))

/-- The match of a list of routes is that of the first member that has one. -/
theorem run_of_members (decoding : Options) (text : String) :
    (Matcher.ofRoute decoding route).run text =
      (first :: rest).findSome? fun member => (Matcher.ofRoute decoding member).run text := by
  have whole := stands_of_members all made
  have stands : ∀ member ∈ first :: rest, ∃ x, member.Stands options mixes x := by
    intro member here
    obtain ⟨x, _, stands⟩ := exists_of_forall₂_right all here
    exact ⟨x, stands⟩
  obtain ⟨-, -, keys⟩ := compile?_of_compile made
  have owns : List.Forall₂ (fun e own => e.settled? = some own) (e :: es)
      ((first :: rest).map (·.expression.expr)) :=
    List.forall₂_map_right_iff.2 (all.imp fun _ _ stands => stands.settled)
  have alike : ∀ x ∈ e :: es, (e.branches es).isHard [] = true → x.isHard [] = false →
      x.PrefersAlike := by
    intro x member hard easy
    obtain ⟨_, _, stands⟩ := exists_of_forall₂_left all member
    exact stands.alike (mixes_of_isHard all hard) easy
  have preferred := @Expr.head?_outcomes_of_branches (.start text.toList) _ _ _ _
    (references_of_stands all) alike whole.settled owns rfl
  have first := @Matcher.map_leftmost decoding.decodeValue text.toList [] (first :: rest)
    fun member here => by
      obtain ⟨x, stands⟩ := stands member here
      exact stands.groups
  rw [whole.run, preferred, keys]
  rw [List.nil_append, List.length_nil] at first
  rw [first, ← List.head?_filterMap, ← List.head?_filterMap]
  refine congrArg _ (List.filterMap_congr fun member here => ?_)
  obtain ⟨x, stands⟩ := stands member here
  exact (stands.run decoding text).symm

end Lists

/-! ### Trees -/

/-- What is asked of a pattern and its route: the patterns of the keys are independent, and where
routes that need backtracking are mixed with others, the loops of the others are keen. -/
structure Fits (options : Options) (mixes : Prop) (pattern : String) (route : Route) : Prop where
  independent : ∀ tokens, tokensOf options pattern = .ok tokens →
    ∀ key ∈ keysOf tokens, isIndependent key.pattern = true
  mixed : route.expression.backtracks = true → mixes
  keen : mixes → route.expression.backtracks = false → route.expression.expr.IsKeen

/-- The patterns have routes. The route has their keys, one after the other, and matches what the
first of them matches that matches anything. -/
def Alternates (options : Options) (leaves : List String) (route : Route) : Prop :=
  ∃ alones,
    List.Forall₂ (fun leaf alone => ofInput options (.pattern leaf) = .ok alone) leaves alones ∧
    route.keys = alones.flatMap Route.keys ∧ ∀ decoding text,
      (Matcher.ofRoute decoding route).run text =
        alones.findSome? fun alone => (Matcher.ofRoute decoding alone).run text

theorem exists_alones {members : List (List String × Route)}
    (each : ∀ member ∈ members, Alternates options member.1 member.2) :
    ∃ alones, List.Forall₂ (fun leaf alone => ofInput options (.pattern leaf) = .ok alone)
        (members.flatMap Prod.fst) alones ∧
      (members.map Prod.snd).flatMap Route.keys = alones.flatMap Route.keys ∧
      ∀ decoding text, ((members.map Prod.snd).findSome? fun member =>
          (Matcher.ofRoute decoding member).run text) =
        alones.findSome? fun alone => (Matcher.ofRoute decoding alone).run text := by
  induction members with
  | nil => exact ⟨[], .nil, rfl, fun _ _ => rfl⟩
  | cons member rest ih =>
    obtain ⟨here, others⟩ := List.forall_mem_cons.1 each
    obtain ⟨alones, leaves, keys, runs⟩ := here
    obtain ⟨more, leaves', keys', runs'⟩ := ih others
    refine ⟨alones ++ more, List.rel_append leaves leaves', ?_, fun decoding text => ?_⟩
    · rw [List.map_cons, List.flatMap_cons, List.flatMap_append, keys, keys']
    · rw [List.map_cons, List.findSome?_cons, List.findSome?_append, runs, runs']
      cases alones.findSome? fun alone => (Matcher.ofRoute decoding alone).run text <;> rfl

/-- A list alternates what its members alternate. -/
theorem Alternates.list {first : List String × Route} {rest : List (List String × Route)}
    (members : ∀ member ∈ first :: rest, (∃ e, member.2.Stands options mixes e) ∧
      Alternates options member.1 member.2)
    (made : ofMembers options ((first :: rest).map Prod.snd) = .ok route) :
    (∃ e, route.Stands options mixes e) ∧
      Alternates options ((first :: rest).flatMap Prod.fst) route := by
  obtain ⟨⟨e, stands⟩, others⟩ :=
    List.forall_mem_cons.1 fun member here => (members member here).1
  obtain ⟨es, all⟩ := @exists_forall₂ _ _ (fun e (member : List String × Route) =>
    member.2.Stands options mixes e) _ others
  have all : List.Forall₂ (Stands options mixes) (e :: es) ((first :: rest).map Prod.snd) :=
    .cons stands (List.forall₂_map_right_iff.2 all)
  obtain ⟨alones, leaves, keys, runs⟩ := exists_alones fun member here => (members member here).2
  obtain ⟨-, -, keys'⟩ := compile?_of_compile made
  refine ⟨⟨_, stands_of_members all made⟩, alones, leaves, keys'.trans keys, fun decoding text => ?_⟩
  exact (run_of_members all made decoding text).trans (runs decoding text)

/-- The custom patterns in these patterns are independent. -/
def areIndependent (options : Options) (leaves : List String) : Bool :=
  leaves.all fun leaf => (tokensOf options leaf).toOption.all fun tokens =>
    (keysOf tokens).all fun key =>
      key.pattern = defaultPattern options.delimiter || isIndependent key.pattern

/-- What is asked of the custom patterns in these patterns holds of the patterns of all keys, if it
holds of the default pattern. -/
theorem holds_of_all_keys {holds : String → Bool} {leaves : List String} {leaf : String}
    {tokens : List Token} (all : (leaves.all fun leaf => (tokensOf options leaf).toOption.all
      fun tokens => (keysOf tokens).all fun key =>
        key.pattern = defaultPattern options.delimiter || holds key.pattern) = true)
    (default : holds (defaultPattern options.delimiter) = true) (member : leaf ∈ leaves)
    (parsed : tokensOf options leaf = .ok tokens) :
    ∀ key ∈ keysOf tokens, holds key.pattern = true := by
  intro key here
  have all := List.all_eq_true.1 all leaf member
  rw [parsed] at all
  rcases Bool.or_eq_true_iff.1 (List.all_eq_true.1 all key here) with same | holds
  · rwa [of_decide_eq_true same]
  · exact holds

theorem isIndependent_of_areIndependent {leaves : List String} {leaf : String}
    {tokens : List Token} (delimited : options.delimiter ≠ "")
    (independent : areIndependent options leaves = true) (member : leaf ∈ leaves)
    (parsed : tokensOf options leaf = .ok tokens) :
    ∀ key ∈ keysOf tokens, isIndependent key.pattern = true :=
  holds_of_all_keys independent (isIndependent_defaultPattern delimited) member parsed

end Route

namespace Matcher

end Matcher

end PathTemplate
