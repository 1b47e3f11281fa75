/-
What holds of all parts of a pattern.

Around the custom patterns a route has characters, edges, choices of these, groups and loops, and it
may look ahead for its end. `IsClosed` is what a property needs to go through all of that, and
`IsClosed.routeShape` that it then holds of the route if it holds of the patterns.

* `RouteShape.groups`, `RouteShape.isAnchored`, `RouteShape.loopsFree`: the groups of a route are
  those of its keys, it begins where it has to, and no group is in an unbounded loop.
* `standsAlone_of_isRead`: where the custom patterns are independent, the source of the route stands
  alone.
-/

import PathTemplate.Proofs.Expression.Leftmost
import PathTemplate.Proofs.Reading.References
import PathTemplate.Proofs.Route.Alignment
import PathTemplate.Proofs.Route.Membership

namespace PathTemplate

namespace Route

/-- The property goes through all that stands around the patterns of keys. -/
structure IsClosed (holds : Expr → Prop) : Prop where
  empty : holds .empty
  one : ∀ set, holds (.one set)
  edge : ∀ kind, holds (.edge kind)
  seq : ∀ {a b}, holds a → holds b → holds (.seq a b)
  alt : ∀ {a b}, holds a → holds b → holds (.alt a b)
  group : ∀ number {a}, holds a → holds (.group number a)
  ahead : ∀ {a}, holds a → holds (.ahead false a)
  optional : ∀ greedy {a}, holds a → holds (.loop 0 (some 1) greedy .refused a)
  loop : ∀ least greedy {a}, a.groups = [] → holds a → holds (.loop least none greedy .refused a)

namespace IsClosed

variable {holds : Expr → Prop} (closed : IsClosed holds)
include closed

theorem join {parts : List Expr} (all : ∀ e ∈ parts, holds e) : holds (.join parts) :=
  Expr.holds_join closed.empty (fun _ _ => closed.seq) all

theorem modified {e : Expr} (greedy : Bool) (modifier : Modifier) (free : e.groups = [])
    (here : holds e) : holds (e.modified greedy modifier) := by
  cases modifier with
  | once => exact here
  | optional => exact closed.optional greedy here
  | oneOrMore => exact closed.loop 1 greedy free here
  | zeroOrMore => exact closed.loop 0 greedy free here

end IsClosed

section Parts

variable {options : Options} {folds ends : Bool → Prop} {tokens : List Token} {parts : List Expr}
  {holds : Expr → Prop} (closed : IsClosed holds)
include closed

theorem IsClosed.spells {text : String} (spells : Spells options folds text parts) :
    ∀ e ∈ parts, holds e := by
  obtain ⟨fold, -, rfl⟩ := spells
  intro e member
  obtain ⟨c, _, rfl⟩ := List.mem_map.1 member
  exact closed.one _

section Keys

variable {inner : Expr → Prop} {key : Key} {e : Expr}
  (patterns : ∀ x, inner x → x.groups = [] ∧ holds x)
include patterns

theorem IsClosed.keyContent (content : KeyContent options folds inner key e) : holds e := by
  cases content with
  | single _ reads => exact (patterns _ reads).2
  | bareRepeated greedy _ _ reads =>
    exact closed.modified greedy key.modifier (patterns _ reads).1 (patterns _ reads).2
  | @affixedRepeated further lead trail x y _ _ after before reads reads' =>
    have free : (Expr.join (trail ++ (lead ++ [y]))).groups = [] := by
      simp only [Expr.groups_join, List.flatMap_append, List.flatMap_cons, List.flatMap_nil,
        List.flatMap_eq_nil_iff.2 after.groups, List.flatMap_eq_nil_iff.2 before.groups,
        (patterns _ reads').1, List.append_nil]
    have others : holds (Expr.join (trail ++ (lead ++ [y]))) :=
      closed.join (List.forall_mem_append.2 ⟨closed.spells after,
        List.forall_mem_append.2 ⟨closed.spells before,
          List.forall_mem_singleton.2 (patterns _ reads').2⟩⟩)
    refine closed.join (List.forall_mem_append.2 ⟨?_, ?_⟩)
    · exact List.forall_mem_singleton.2 (patterns _ reads).2
    · exact List.forall_mem_singleton.2 (closed.modified further .zeroOrMore free others)

theorem IsClosed.keyShape {number : Nat} (may : ∃ fold, folds fold)
    (shape : KeyShape options folds inner key number e) : holds e := by
  by_cases pattern : key.pattern = ""
  · cases shape with
    | @decoration greedy front back _ lead trail =>
      have free : (Expr.join (front ++ back)).groups = [] := by
        rw [Expr.groups_join, List.flatMap_append, List.flatMap_eq_nil_iff.2 lead.groups,
          List.flatMap_eq_nil_iff.2 trail.groups]
        rfl
      exact closed.modified greedy key.modifier free
        (closed.join (List.forall_mem_append.2 ⟨closed.spells lead, closed.spells trail⟩))
    | _ => contradiction
  · obtain ⟨front, back, content, greedy, modifier, lead, trail, inside, times, rfl⟩ :=
      shape.exists_content may pattern
    have whole : holds (.join (front ++ ([.group number content] ++ back))) :=
      closed.join (List.forall_mem_append.2 ⟨closed.spells lead, List.forall_mem_append.2
        ⟨List.forall_mem_singleton.2 (closed.group number (closed.keyContent patterns inside)),
          closed.spells trail⟩⟩)
    rcases times with rfl | ⟨rfl, -⟩
    · exact whole
    · exact closed.optional greedy whole

end Keys

theorem IsClosed.tailShape {fold lines : Bool} (shape : TailShape fold lines options tokens parts) :
    ∀ e ∈ parts, holds e := by
  obtain ⟨greedy, rfl⟩ := shape
  have ends : holds (endExpr fold lines options) := by
    unfold endExpr
    split
    · exact closed.edge _
    · exact closed.alt (closed.one _) (closed.edge _)
  have boundary : holds (boundaryExpr fold lines options) := by
    unfold boundaryExpr
    split
    · exact closed.alt (closed.one _) (closed.edge _)
    · exact closed.alt (closed.alt (closed.one _) (closed.one _)) (closed.edge _)
  have delimiter : holds (.join [.one (delimiterSet fold options),
      .ahead false (endExpr fold lines options)]) :=
    closed.seq (closed.one _) (closed.ahead ends)
  split
  · refine List.forall_mem_append.2 ⟨?_, List.forall_mem_singleton.2 ?_⟩
    · split
      · nofun
      · exact List.forall_mem_singleton.2 (closed.optional greedy (closed.one _))
    · split
      · exact closed.edge _
      · exact closed.ahead ends
  · refine List.forall_mem_append.2 ⟨?_, ?_⟩
    · split
      · nofun
      · exact List.forall_mem_singleton.2 (closed.optional greedy delimiter)
    · split
      · nofun
      · exact List.forall_mem_singleton.2 (closed.ahead boundary)

variable {inner : Key → Expr → Prop}

theorem IsClosed.tokensShape {opened : Nat} (may : ∃ fold, folds fold)
    (patterns : ∀ key ∈ keysOf tokens, ∀ x, inner key x → x.groups = [] ∧ holds x)
    (shape : TokensShape options folds inner opened tokens parts) : ∀ e ∈ parts, holds e := by
  induction shape with
  | nil => nofun
  | literal spelled _ ih => exact List.forall_mem_append.2 ⟨closed.spells spelled, ih patterns⟩
  | key first _ ih =>
    obtain ⟨here, others⟩ := List.forall_mem_cons.1 patterns
    exact List.forall_mem_cons.2 ⟨closed.keyShape here may first, ih others⟩

theorem IsClosed.routeShape
    (patterns : ∀ key ∈ keysOf tokens, ∀ x, inner key x → x.groups = [] ∧ holds x)
    (shape : RouteShape options folds ends inner tokens parts) : holds (.join parts) := by
  obtain ⟨middle, tail, fold, _, may, -, tokensShape, tailShape, rfl⟩ := shape
  refine closed.join (List.forall_mem_append.2 ⟨?_, List.forall_mem_append.2
    ⟨closed.tokensShape ⟨fold, may⟩ patterns tokensShape, closed.tailShape tailShape⟩⟩)
  split
  · exact List.forall_mem_singleton.2 (closed.edge _)
  · nofun

end Parts

/-! ### Groups and loops -/

section Shapes

variable {options : Options} {tokens : List Token} {parts : List Expr}

theorem isClosed_loopsFree : IsClosed (·.loopsFree = true) where
  empty := rfl
  one _ := rfl
  edge _ := rfl
  seq left right := by rw [Expr.loopsFree, left, right]; rfl
  alt left right := by rw [Expr.loopsFree, left, right]; rfl
  group _ _ here := here
  ahead here := here
  optional _ _ here := by rw [Expr.loopsFree, here]; rfl
  loop _ _ _ free here := by rw [Expr.loopsFree, here, free]; rfl

theorem isClosed_refers : IsClosed (·.refers = false) where
  empty := rfl
  one _ := rfl
  edge _ := rfl
  seq left right := by rw [Expr.refers, left, right]; rfl
  alt left right := by rw [Expr.refers, left, right]; rfl
  group _ _ here := here
  ahead here := here
  optional _ _ here := here
  loop _ _ _ _ here := here

/-- No group of a route stands in an unbounded loop. -/
theorem RouteShape.loopsFree
    (shape : RouteShape options anyValue anyValue Key.ReadsFree tokens parts) :
    (Expr.join parts).loopsFree = true :=
  isClosed_loopsFree.routeShape
    (fun _ _ _ reads => ⟨reads.2, Expr.loopsFree_of_groups reads.2⟩) shape

/-- The groups of a route are those of its capturing keys. -/
theorem RouteShape.groups
    (shape : RouteShape options anyValue anyValue Key.ReadsFree tokens parts) :
    (Expr.join parts).groups = List.range' 1 (capturingKeys tokens).length := by
  obtain ⟨middle, tail, _, _, -, -, tokensShape, tailShape, rfl⟩ := shape
  have start :
      (if options.fromStart then [Expr.edge .textStart] else []).flatMap Expr.groups = [] := by
    split <;> rfl
  rw [Expr.groups_join, List.flatMap_append, List.flatMap_append, start,
    tokensShape.groups ⟨true, trivial⟩, List.flatMap_eq_nil_iff.2 tailShape.groups,
    List.append_nil]
  rfl

theorem RouteShape.isAnchored {folds ends : Bool → Prop} {inner : Key → Expr → Prop}
    (start : options.fromStart = true) (shape : RouteShape options folds ends inner tokens parts) :
    (Expr.join parts).isAnchored = true := by
  obtain ⟨middle, tail, _, _, -, -, -, -, rfl⟩ := shape
  rw [if_pos start]
  exact Expr.isAnchored_join rfl

end Shapes

end Route

/-! ### Independent patterns -/

/-- The pattern is complete on its own, has no capture group, refers to none, and does not end where
blanks mean nothing. -/
def isIndependent (pattern : String) : Bool :=
  match readAlone? pattern with
  | some (last, done) => last.opened = 0 && !last.flags.spaced && !done.level.expr.refers
  | none => false

section Independent

variable {pattern : String} {key : Key}

theorem isIndependent_iff : isIndependent pattern = true ↔ ∃ last done,
    readAlone? pattern = some (last, done) ∧ last.opened = 0 ∧ last.flags.spaced = false ∧
      done.level.expr.refers = false := by
  unfold isIndependent
  cases read : readAlone? pattern with
  | none => simp
  | some result => simp [Prod.ext_iff, and_assoc]

theorem isSelfContained_of_isIndependent (independent : isIndependent pattern = true) :
    isSelfContained pattern = true := by
  obtain ⟨last, done, read, opened, spaced, -⟩ := isIndependent_iff.1 independent
  exact isSelfContained_iff.2 ⟨last, done, read, opened, spaced⟩

/-- Wherever an independent pattern stands, it refers to no group. -/
theorem Key.ReadsAs.refers {x : Expr} (reads : key.ReadsAs x)
    (independent : isIndependent key.pattern = true) : x.refers = false := by
  obtain ⟨last, done, alone, opened, spaced, own⟩ := isIndependent_iff.1 independent
  obtain ⟨flags, last', done', spaced', under, rfl⟩ := reads
  have agree : ({} : Flags).Agree .none flags := ⟨spaced', fun h => absurd rfl h, nofun⟩
  obtain ⟨_, _, under', -, like⟩ := readUnder_pinned agree alone opened spaced
  rw [under] at under'
  cases under'
  exact like.level.expr.own own

/-- The pattern of the key reads as this expression, which has no groups and refers to none. -/
def Key.ReadsOwn (key : Key) (x : Expr) : Prop := key.ReadsFree x ∧ x.refers = false

/-- The default pattern is independent. -/
theorem isIndependent_defaultPattern {delimiter : String} (delimited : delimiter ≠ "") :
    isIndependent (defaultPattern delimiter) = true := by
  obtain ⟨_, read⟩ := @Reader.read_defaultPattern {} ⟨_, rfl⟩ delimiter delimited
  exact isIndependent_iff.2 ⟨_, _, readAlone?_eq_some_iff.2 ⟨read,
    Reader.finish_of_resolved (Reader.resolved_of_isReady ⟨_, rfl⟩) rfl rfl⟩, rfl, rfl, rfl⟩

end Independent

namespace Route

variable {options : Options} {tokens : List Token} {done : Reader} {route : Route}

section Read

variable {folds ends : Bool → Prop} {calm : Flags → Prop} {inner : Key → Expr → Prop}
  (known : ∀ f, calm f → folds f.fold ∧ ends f.lines ∧ f.spaced = false)
  (begins : calm { fold := !options.sensitive })
  (reads : ∀ key ∈ keysOf tokens, key.pattern ≠ "" →
    PatternReads false calm (FlagsAfter options folds calm key) (inner key)
      (pinShorthands key.pattern).toList)
  (read : route.IsRead options tokens done)
include known begins reads read

theorem reads_source_of_isRead : Reads false 4 (capturingKeys tokens).length
    (· = { fold := !options.sensitive }) calm (sourceOf options tokens).toList
    fun i parts => i = 0 → RouteShape options folds ends inner tokens parts :=
  reads_sourceOf known nofun reads begins read.delimited

/-- The source of a route reads as one of its shapes. -/
theorem exists_shape_of_isRead : ∃ parts, RouteShape options folds ends inner tokens parts ∧
    done.level.expr = .join parts := by
  obtain ⟨parts, shape, whole, -⟩ :=
    ((reads_source_of_isRead known begins reads read).ends_finish (by decide) rfl).apply read.read
  exact ⟨parts, shape rfl, whole⟩

end Read

theorem known_unspaced (f : Flags) (unspaced : f.spaced = false) :
    anyValue f.fold ∧ anyValue f.lines ∧ f.spaced = false :=
  ⟨trivial, trivial, unspaced⟩

/-- An independent pattern reads in a group as something that refers to nothing. -/
theorem patternReads_independent {key : Key} (nonempty : key.pattern ≠ "")
    (independent : isIndependent key.pattern = true) :
    PatternReads false (·.spaced = false) (FlagsAfter options anyValue (·.spaced = false) key)
      key.ReadsOwn (pinShorthands key.pattern).toList :=
  (patternReads_unspaced nonempty (isSelfContained_of_isIndependent independent)).mono
    fun _ reads => ⟨reads, reads.1.refers independent⟩

section Independent

variable (independent : ∀ key ∈ keysOf tokens, key.pattern ≠ "" → isIndependent key.pattern = true)
  (read : route.IsRead options tokens done)
include independent read

/-- Where the patterns of the keys are independent, the route refers to no group. -/
theorem refers_of_isRead : done.level.expr.refers = false := by
  obtain ⟨parts, shape, whole⟩ := exists_shape_of_isRead known_unspaced rfl
    (fun key member nonempty => patternReads_independent nonempty (independent key member nonempty))
    read
  rw [whole]
  exact isClosed_refers.routeShape (fun _ _ _ reads => ⟨reads.1.2, reads.2⟩) shape

/-- Its source stands alone too. -/
theorem standsAlone_of_isRead (sourced : ∀ key ∈ keysOf tokens, IsSourced options key.pattern) :
    route.standsAlone options.sensitive = true := by
  have reads : ∀ key ∈ keysOf tokens, key.pattern ≠ "" →
      PatternReads false (·.spaced = false) (FlagsAfter options anyValue (·.spaced = false) key)
        key.ReadsOwn (pinShorthands key.pattern).toList :=
    fun key member nonempty => patternReads_independent nonempty (independent key member nonempty)
  have own := refers_of_isRead independent read
  have begun := read.read
  have begins := @beginsAnew_sourceOf options tokens read.delimited fun key member =>
    begins_pinned (sourced key member)
  rw [Reader.finish_begun begins] at begun
  obtain ⟨last, source, finish⟩ := Option.bind_eq_some_iff.1 begun
  have start : ({ flags := { fold := !options.sensitive } } : Reader).At false 4
      (· = { fold := !options.sensitive }) := ⟨⟨_, rfl⟩, rfl, rfl, nofun⟩
  obtain ⟨_, -, -, adds⟩ :=
    (reads_source_of_isRead known_unspaced rfl reads read _ start).apply source
  obtain ⟨pending, ready⟩ := adds.ready
  rw [standsAlone, read.source]
  exact Reader.standsAlone_of_finish source finish own (by rw [ready]; rfl)

end Independent

end Route

end PathTemplate
