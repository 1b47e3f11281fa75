/-
What the groups of a tree of patterns hold.

The expression of a pattern has a group for each of its keys, and that of a list has the groups of
its members, counted through. If no pattern of a key changes what the others mean, the group of a
key holds just what its own pattern reads as, however deep in the tree the key stands.

* `Expr.Bears`: the groups hold, one after the other, what is asked of the keys.
* `Expr.Bears.branches`: as branches of one, expressions bear what they bear.
* `bears_of_tree`: the route of a tree bears the contents of its keys.
* `Bears.exists_covers`: what a group captures is covered by the content of its key.
-/

import PathTemplate.Proofs.Route.Alternatives
import PathTemplate.Proofs.Route.Separators

namespace PathTemplate

/-! ### Groups and keys -/

namespace Expr

section Bodies

variable {number : Nat} {x e a b : Expr} {f g : Nat → Nat}

/-- What stands in a group is renumbered with it. -/
theorem mem_bodies_renumber (member : x ∈ e.bodies number) :
    x.renumber f g ∈ (e.renumber f g).bodies (f number) := by
  induction e with
  | empty | never | one | edge | back => cases member
  | seq a b iha ihb | alt a b iha ihb =>
    exact List.mem_append.2 ((List.mem_append.1 member).imp iha ihb)
  | group other a ih =>
    refine List.mem_append.2 ((List.mem_append.1 member).imp (fun here => ?_) ih)
    split at here
    · rename_i same
      rw [List.mem_singleton.1 here, same, if_pos rfl]
      exact List.mem_cons_self
    · cases here
  | loop _ _ _ _ a ih | ahead _ a ih | behind _ a ih | atomic a ih => exact ih member

variable {holds : Key → Expr → Prop} {keys : List Key}

/-- The groups of the expression hold what is asked of the keys, the first group belonging to the
first key. -/
structure Bears (holds : Key → Expr → Prop) (keys : List Key) (e : Expr) : Prop where
  numbered : e.groups = List.range' 1 keys.length
  holds : ∀ i key, keys[i]? = some key → ∃ x ∈ e.bodies (i + 1), holds key x

variable (steady : ∀ key x f g, holds key x → holds key (x.renumber f g))
include steady

/-- The groups of the second branch follow those of the first one. -/
theorem Bears.alt {others : List Key} (first : a.Bears holds keys) (second : b.Bears holds others) :
    (Expr.alt a (b.shift a.groups.length)).Bears holds (keys ++ others) := by
  have count : a.groups.length = keys.length := by rw [first.numbered, List.length_range']
  refine ⟨?_, fun i key place => ?_⟩
  · rw [groups, shift, groups_renumber, first.numbered, second.numbered, List.length_range',
      List.map_add_range', List.length_append, ← List.range'_append_1, Nat.add_comm 1]
  · by_cases inside : i < keys.length
    · rw [List.getElem?_append_left inside] at place
      obtain ⟨x, member, here⟩ := first.holds i key place
      exact ⟨x, List.mem_append_left _ member, here⟩
    · have beyond := Nat.le_of_not_lt inside
      rw [List.getElem?_append_right beyond] at place
      obtain ⟨x, member, here⟩ := second.holds _ key place
      refine ⟨_, List.mem_append_right _ ?_,
        steady _ x (a.groups.length + ·) (a.groups.length + ·) here⟩
      have number : i + 1 = a.groups.length + (i - keys.length + 1) := by omega
      rw [number]
      exact mem_bodies_renumber member

/-- As branches of one, expressions bear what they bear. -/
theorem Bears.branches {es : List Expr} {members : List (List Key)} (first : e.Bears holds keys)
    (others : List.Forall₂ (fun e keys => e.Bears holds keys) es members) :
    (e.branches es).Bears holds (keys ++ members.flatten) := by
  induction others generalizing e keys with
  | nil => simpa [Expr.branches] using first
  | cons next _ ih =>
    rw [List.flatten_cons, ← List.append_assoc]
    exact ih (first.alt steady next)

end Bodies

theorem isPlain_modified {e : Expr} (plain : e.isPlain = true) (greedy : Bool) (modifier : Modifier) :
    (e.modified greedy modifier).isPlain = true := by
  cases modifier <;> simp [modified, isPlain, plain]

theorem isPlain_join {parts : List Expr} (all : ∀ e ∈ parts, e.isPlain = true) :
    (join parts).isPlain = true :=
  @holds_join parts (·.isPlain = true) rfl
    (fun a b ha hb => by simp [isPlain, ha, hb]) all

end Expr

namespace Route

-- `exprUnder` unfolds to a run of the reader, which no proof about what it covers carries out.
attribute [local irreducible] exprUnder

/-! ### The group of a key -/

section Keys

variable {options : Options} {folds : Bool → Prop} {inner : Expr → Prop} {key : Key} {number : Nat}
  {e x : Expr}

theorem Spells.isPlain {text : String} {parts : List Expr}
    (spells : Spells options folds text parts) : ∀ e ∈ parts, e.isPlain = true := by
  obtain ⟨fold, -, rfl⟩ := spells
  intro e member
  obtain ⟨c, _, rfl⟩ := List.mem_map.1 member
  rfl

/-- Around a plain pattern the group of a key holds nothing that is not plain. -/
theorem KeyContent.isPlain (plain : ∀ x, inner x → x.isPlain = true)
    (content : KeyContent options folds inner key e) : e.isPlain = true := by
  cases content with
  | single _ reads => exact plain _ reads
  | bareRepeated greedy _ _ reads => exact Expr.isPlain_modified (plain _ reads) _ _
  | @affixedRepeated further lead trail x y _ _ after before reads reads' =>
    have others : (Expr.join (trail ++ (lead ++ [y]))).isPlain = true :=
      Expr.isPlain_join (List.forall_mem_append.2 ⟨after.isPlain, List.forall_mem_append.2
        ⟨before.isPlain, List.forall_mem_singleton.2 (plain _ reads')⟩⟩)
    exact Expr.isPlain_join (List.forall_mem_append.2 ⟨List.forall_mem_singleton.2 (plain _ reads),
      List.forall_mem_singleton.2 (Expr.isPlain_modified others further .zeroOrMore)⟩)

/-- What stands in the groups of tokens. -/
theorem TokensShape.exists_body {inner : Key → Expr → Prop} {opened : Nat} {tokens : List Token}
    {parts : List Expr} (shape : TokensShape options folds inner opened tokens parts)
    (may : ∃ fold, folds fold) {i : Nat} (place : (capturingKeys tokens)[i]? = some key) :
    ∃ e ∈ parts, ∃ x ∈ e.bodies (opened + (i + 1)), KeyContent options folds (inner key) key x := by
  induction shape generalizing i with
  | nil => cases place
  | literal _ _ ih =>
    obtain ⟨e, member, found⟩ := ih place
    exact ⟨e, List.mem_append_right _ member, found⟩
  | @key opened first rest e parts shape _ ih =>
    rw [capturingKeys_cons_key] at place
    by_cases capturing : first.isCapturing = true
    · rw [if_pos capturing] at place ih
      cases i with
      | zero =>
        cases place
        have pattern : key.pattern ≠ "" := by simpa [Key.isCapturing] using capturing
        exact ⟨e, List.mem_cons_self, shape.exists_body may pattern⟩
      | succ i =>
        obtain ⟨e, member, found⟩ := ih place
        rw [Nat.add_assoc, Nat.add_comm 1] at found
        exact ⟨e, List.mem_cons_of_mem _ member, found⟩
    · rw [if_neg capturing] at place ih
      obtain ⟨e, member, found⟩ := ih place
      exact ⟨e, List.mem_cons_of_mem _ member, found⟩

/-- What stands in the groups of a route. -/
theorem RouteShape.exists_body {ends : Bool → Prop} {inner : Key → Expr → Prop}
    {tokens : List Token} {parts : List Expr} {i : Nat}
    (shape : RouteShape options folds ends inner tokens parts)
    (place : (capturingKeys tokens)[i]? = some key) :
    ∃ x ∈ (Expr.join parts).bodies (i + 1), KeyContent options folds (inner key) key x := by
  obtain ⟨middle, tail, fold, _, may, -, tokensShape, -, rfl⟩ := shape
  obtain ⟨e, member, x, inside, content⟩ := tokensShape.exists_body ⟨fold, may⟩ place
  rw [Nat.zero_add] at inside
  refine ⟨x, Expr.mem_bodies_join ?_ inside, content⟩
  exact List.mem_append_right _ (List.mem_append_left _ member)

end Keys

/-! ### Trees -/

/-- What the group of a key holds if its pattern is plain. -/
def IsContent (options : Options) (key : Key) (x : Expr) : Prop :=
  isPlainUnder options.flags key.pattern = true → x.isPlain = true ∧
    KeyContent options (· = !options.sensitive) (· = exprUnder options.flags key.pattern) key x

/-- There is nothing to renumber in it. -/
theorem IsContent.renumber {options : Options} {key : Key} {x : Expr} (f g : Nat → Nat)
    (content : IsContent options key x) : IsContent options key (x.renumber f g) := by
  intro plain
  rw [Expr.renumber_of_isPlain (content plain).1]
  exact content plain

/-- The route reads as `e`, whose groups hold the contents of its keys. -/
structure Bears (options : Options) (e : Expr) (route : Route) : Prop extends
    ReadsAs options.sensitive e route where
  contents : e.Bears (IsContent options) route.keys

/-- The custom patterns in these patterns are complete on their own, have no capture groups, and
leave the flags as they are. -/
def areNeutral (options : Options) (leaves : List String) : Bool :=
  leaves.all fun leaf => (tokensOf options leaf).toOption.all fun tokens =>
    (keysOf tokens).all fun key =>
      key.pattern = defaultPattern options.delimiter || isNeutralUnder options.flags key.pattern

variable {options : Options} {route : Route}

/-- The default pattern is neutral. -/
theorem isNeutralUnder_defaultPattern (delimited : options.delimiter ≠ "") :
    isNeutralUnder options.flags (defaultPattern options.delimiter) = true := by
  obtain ⟨_, read⟩ :=
    @Reader.read_defaultPattern { flags := options.flags } ⟨_, rfl⟩ options.delimiter delimited
  rw [← pinShorthands_defaultPattern] at read
  refine (Option.any_eq_true _ _).2 ⟨_, readUnder?_eq_some_iff.2 ⟨read,
    Reader.finish_of_resolved (Reader.resolved_of_isReady ⟨_, rfl⟩) rfl rfl⟩, ?_⟩
  exact Bool.and_eq_true_iff.2 ⟨rfl, decide_eq_true rfl⟩

/-- The route of a pattern bears the contents of its keys, if their patterns are neutral. -/
theorem bears_of_pattern {pattern : String} (made : ofPattern options pattern = .ok route)
    (all : ∀ tokens, tokensOf options pattern = .ok tokens → ∀ key ∈ keysOf tokens,
      isIndependent key.pattern = true ∧ isNeutralUnder options.flags key.pattern = true) :
    ∃ e, route.Bears options e := by
  obtain ⟨tokens, done, parsed, read⟩ := exists_isRead_of_pattern made
  have each := all tokens parsed
  have alone := standsAlone_of_isRead (fun key member _ => (each key member).1) read
    (isSourced_of_tokensOf parsed)
  obtain ⟨free, shape, whole⟩ := @exists_shape_of_isRead _ _ _ _ _ _ _ Key.ReadsFree
    known_unspaced rfl (fun key member nonempty => patternReads_unspaced nonempty
      (isSelfContained_of_isIndependent (each key member).1)) read
  have known : ∀ f : Flags, f = options.flags →
      f.fold = (!options.sensitive) ∧ anyValue f.lines ∧ f.spaced = false := by
    rintro _ rfl
    exact ⟨rfl, trivial, rfl⟩
  obtain ⟨parts, shape', whole'⟩ := @exists_shape_of_isRead _ _ _ _ _ _ (· = options.flags)
    (fun key x => x = exprUnder options.flags key.pattern) known rfl
    (fun key member nonempty => patternReads_neutral nonempty (each key member).2) read
  refine ⟨_, readsAs_of_pattern parsed read alone, ?_, fun i key place => ?_⟩
  · rw [read.keys, whole]
    exact shape.groups
  · rw [read.keys] at place
    rw [whole']
    obtain ⟨x, member, content⟩ := shape'.exists_body place
    refine ⟨x, member, fun plain => ⟨content.isPlain ?_, content⟩⟩
    rintro _ rfl
    obtain ⟨_, _, _, _, _, _, expr, plain⟩ := isPlainUnder_pinned plain rfl
    rw [expr]
    exact plain

/-- The route of a list bears what its members bear. -/
theorem Bears.list {first : Route} {rest : List Route} {e : Expr} {es : List Expr}
    (all : List.Forall₂ (Bears options) (e :: es) (first :: rest))
    (made : ofMembers options (first :: rest) = .ok route) : route.Bears options (e.branches es) := by
  cases all with
  | cons here others =>
    obtain ⟨-, -, keys⟩ := compile?_of_compile made
    refine ⟨readsAs_of_members here.toReadsAs (others.imp fun _ _ bears => bears.toReadsAs) made, ?_⟩
    rw [keys, List.flatMap_cons, List.flatMap_def]
    exact here.contents.branches (fun _ _ f g => IsContent.renumber f g)
      (List.forall₂_map_right_iff.2 (others.imp fun _ _ bears => bears.contents))

/-- The route of a tree bears the contents of its keys, if their patterns are neutral. -/
theorem bears_of_tree {input : RouteInput} (tree : input.isTree = true)
    (independent : areIndependent options input.leaves = true)
    (neutral : areNeutral options input.leaves = true) (made : ofInput options input = .ok route) :
    ∃ e, route.Bears options e := by
  obtain ⟨sound, made⟩ := checked_of_ofInput made
  have delimited := Options.check_eq_ok_iff.1 sound
  refine @holds_of_tree options (fun leaves route => leaves ⊆ input.leaves →
    ∃ e, route.Bears options e) ?_ ?_ input route tree made (List.Subset.refl _)
  · intro text route made among
    have member := among (List.mem_singleton_self text)
    exact bears_of_pattern made fun tokens parsed key here =>
      ⟨isIndependent_of_areIndependent delimited independent member parsed key here,
        holds_of_all_keys neutral (isNeutralUnder_defaultPattern delimited) member parsed key here⟩
  · intro first rest route members made among
    have each : ∀ member ∈ first :: rest, ∃ e, member.2.Bears options e :=
      fun member here => members member here fun text inside =>
        among (List.mem_flatMap.2 ⟨member, here, inside⟩)
    obtain ⟨⟨e, bears⟩, others⟩ := List.forall_mem_cons.1 each
    obtain ⟨es, all⟩ := @exists_forall₂ _ _
      (fun e (member : List String × Route) => member.2.Bears options e) _ others
    exact ⟨_, Bears.list (.cons bears (List.forall₂_map_right_iff.2 all)) made⟩

/-- What the group of a key captures is covered by its content. -/
theorem Bears.exists_covers {e : Expr} (bears : route.Bears options e) {i : Nat} {key : Key}
    (place : route.keys[i]? = some key) (plain : isPlainUnder options.flags key.pattern = true)
    {text w : List Char} {start stop : Place}
    (search : route.expression.expr.search? text = some (start, stop))
    (filled : stop.slots (i + 1) = some w) :
    ∃ content before after, KeyContent options (· = !options.sensitive)
      (· = exprUnder options.flags key.pattern) key content ∧ content.Covers before w after := by
  obtain ⟨content, member, inside⟩ := bears.contents.holds i key place
  obtain ⟨simple, inside⟩ := inside plain
  have distinct : e.groups.Nodup := by
    rw [bears.contents.numbered]
    exact List.nodup_range'
  obtain ⟨before, after, covered⟩ := Expr.exists_covers_of_search?
    (Expr.settles_of_settled? bears.settled) distinct member (Expr.isSimple_of_isPlain simple)
    search filled
  exact ⟨content, before, after, inside, covered⟩

end Route

end PathTemplate
