/-
Lists of routes match where one of their members does.

The source of every pattern stands in a group of its own. Where it stands alone, which is to say that
it refers to no group and does not end in a comment, it reads there as it does by itself, and the
expression of a list has the expressions of its members as branches.

* `ReadsAs`: the expression of a route, which its source also has as a member of a list.
* `readsAs_of_pattern`, `readsAs_of_members`: the routes of patterns whose sources stand
  alone, and the lists of routes that read as expressions.
* `exists_leaf_of_isMatch`: where the route of a tree of patterns matches, one of the patterns does.
-/

import PathTemplate.Proofs.Reading.Members
import PathTemplate.Proofs.Route.Containment

namespace PathTemplate

/-! ### Where a source begins -/

/-- The text does not begin with what means something else after a flag: a quantifier in braces, or
a comment, which leaves pending what was. -/
inductive BeginsAnew : List Char → Prop where
  | nil : BeginsAnew []
  | plain {c : Char} {rest : List Char} : c ≠ '{' → c ≠ '(' → BeginsAnew (c :: rest)
  | capture {c : Char} {rest : List Char} : c ≠ '?' → BeginsAnew ('(' :: c :: rest)
  | group {c : Char} {rest : List Char} : c ≠ '#' → BeginsAnew ('(' :: '?' :: c :: rest)

theorem BeginsAnew.append {a b : List Char} (first : BeginsAnew a) (then_ : BeginsAnew b) :
    BeginsAnew (a ++ b) := by
  cases first with
  | nil => exact then_
  | plain brace paren => exact .plain brace paren
  | capture mark => exact .capture mark
  | group sign => exact .group sign

namespace Reader

/-- Such a text is read as if nothing were pending, where what is pending cannot be quantified. -/
theorem finish_flushed {reader : Reader} {pending : Pending} {text : List Char}
    (begins : BeginsAnew text) (ready : reader.mode = .ready pending)
    (fixed : pending = .nothing ∨ ∃ e, pending = .atom e ∧ e.isRepeatable = false)
    (spaced : reader.flags.spaced = false) :
    (reader.read text).bind finish = (reader.flushed.read text).bind finish := by
  generalize flush : reader.flush pending = base
  have ready' : base.mode = .ready .nothing := flush ▸ rfl
  have flags : base.flags = reader.flags := flush ▸ rfl
  have again : base.flush .nothing = base := by
    simp [← flush, Reader.flush, part, Level.push]
  -- Whatever is being read of a construct, what was pending is flushed before it.
  have later (mode : Mode) : (reader.enter mode).flush pending = base ∧
      (base.enter mode).flush .nothing = base := ⟨flush, again⟩
  have first (c : Char) (brace : c ≠ '{') (paren : c ≠ '(') : reader.step c = base.step c := by
    simp only [step, ready, ready', stepReady, spaced, flags, Bool.false_and, Bool.false_eq_true,
      if_false, again, flush]
    rcases fixed with rfl | ⟨e, rfl, fixed⟩
    · split <;> first | rfl | contradiction
    · simp only [quantify, fixed]
      split <;> first | rfl | contradiction
  have paren : reader.step '(' = some (reader.enter (.opener pending [])) ∧
      base.step '(' = some (base.enter (.opener .nothing [])) := by
    simp [step, ready, ready', stepReady, spaced, flags]
  rw [flushed_eq ready, flush]
  cases begins with
  | nil => simp only [read_nil, Option.bind_some, finish, ready, ready', flush, again]
  | plain brace paren => rw [read_cons, read_cons, first _ brace paren]
  | @capture c rest mark =>
    have second : (reader.enter (.opener pending [])).step c =
        (base.enter (.opener .nothing [])).step c := by
      change (reader.enter _).stepOpener pending [] c = (base.enter _).stepOpener .nothing [] c
      unfold stepOpener
      simp only [mark, if_false, later]
      simp only [enter, flags, spaced, Bool.false_and, Bool.false_eq_true, if_false]
    rw [read_cons, read_cons, paren.1, paren.2]
    simp only [Option.bind_some, read_cons, second]
  | @group c rest sign =>
    have third : (reader.enter (.opener pending ['?'])).step c =
        (base.enter (.opener .nothing ['?'])).step c := by
      change (reader.enter _).stepOpener pending ['?'] c =
        (base.enter _).stepOpener .nothing ['?'] c
      unfold stepOpener
      simp only [later]
      split <;> first | rfl | contradiction
    have second : (reader.enter (.opener pending [])).step '?' =
        some (reader.enter (.opener pending ['?'])) := rfl
    have second' : (base.enter (.opener .nothing [])).step '?' =
        some (base.enter (.opener .nothing ['?'])) := rfl
    rw [read_cons, read_cons, paren.1, paren.2]
    simp only [Option.bind_some, read_cons, second, second', third]

/-- Such a text is read after the flag for letter case as it is where a group begins. -/
theorem finish_begun {text : List Char} (begins : BeginsAnew text) (sensitive : Bool) :
    ((begun sensitive).read text).bind finish =
      (({ flags := { fold := !sensitive } } : Reader).read text).bind finish := by
  cases sensitive with
  | true => rfl
  | false => exact @finish_flushed (begun false) _ _ begins rfl (.inr ⟨.empty, rfl, rfl⟩) rfl

end Reader

namespace Route

variable {options : Options} {tokens : List Token} {route : Route}

theorem beginsAnew_escape (text : String) : BeginsAnew (escape text).toList := by
  rw [escape, String.toList_ofList]
  cases text.toList with
  | nil => exact .nil
  | cons c rest =>
    rw [escapeWhere_cons]
    split
    · exact .plain (by decide) (by decide)
    · rename_i plain
      refine .plain ?_ ?_ <;> rintro rfl <;> exact plain (by decide)

theorem begins_pinned {pattern : String} (sourced : IsSourced options pattern)
    (nonempty : pattern ≠ "") : ∃ c rest, (pinShorthands pattern).toList = c :: rest ∧ c ≠ '?' := by
  rcases sourced with default | custom
  · rw [default, pinShorthands_defaultPattern, toList_defaultPattern]
    exact ⟨_, _, rfl, by decide⟩
  · exact begins_pinned_custom custom nonempty

theorem beginsAnew_group (text : String) : BeginsAnew ("(?:" ++ text).toList := by
  rw [String.toList_append]
  exact .group (by decide)

theorem beginsAnew_keySource {key : Key} (begins : key.pattern ≠ "" →
      ∃ c rest, (pinShorthands key.pattern).toList = c :: rest ∧ c ≠ '?') :
    BeginsAnew (keySource options key).toList := by
  have capture {c : Char} (text : List Char) (mark : c ≠ '?') : BeginsAnew (['(', c] ++ text) :=
    .capture mark
  unfold keySource
  dsimp only
  split
  · simpa only [String.append_assoc] using beginsAnew_group _
  · rename_i pinned
    have nonempty : key.pattern ≠ "" := fun empty => pinned (by rw [empty]; rfl)
    obtain ⟨c, rest, chars, mark⟩ := begins nonempty
    split
    · split
      · simp only [String.toList_append, List.append_assoc]
        exact capture (c := '(') _ (by decide)
      · simp only [String.toList_append, List.append_assoc, chars]
        exact capture _ mark
    · split <;> simpa only [String.append_assoc] using beginsAnew_group _

theorem beginsAnew_tail (delimited : options.delimiter ≠ "") :
    BeginsAnew (closedTail options).toList ∧ BeginsAnew (openTail options tokens).toList := by
  have cls (text : String) : BeginsAnew (delimiterClass options ++ text).toList := by
    rw [String.toList_append, (toList_characterClass? (isClass_delimiterClass delimited)).2]
    exact .plain (by decide) (by decide)
  have ahead (text : String) : BeginsAnew ("(?=" ++ text).toList := by
    rw [String.toList_append]
    exact .group (by decide)
  constructor
  · rw [closedTail, String.toList_append]
    refine .append ?_ ?_
    · split
      · exact .nil
      · exact cls _
    · split
      · exact .plain (by decide) (by decide)
      · simpa only [String.append_assoc] using ahead _
  · rw [openTail, String.toList_append]
    refine .append ?_ ?_
    · split
      · exact .nil
      · simpa only [String.append_assoc] using beginsAnew_group _
    · split
      · exact .nil
      · simpa only [String.append_assoc] using ahead _

/-- The source of a route begins anew, where no pattern begins with a question mark. -/
theorem beginsAnew_sourceOf (delimited : options.delimiter ≠ "")
    (begins : ∀ key ∈ keysOf tokens, key.pattern ≠ "" →
      ∃ c rest, (pinShorthands key.pattern).toList = c :: rest ∧ c ≠ '?') :
    BeginsAnew (sourceOf options tokens).toList := by
  have middle : BeginsAnew (String.join (tokens.map (tokenSource options))).toList := by
    induction tokens with
    | nil => exact .nil
    | cons token rest ih =>
      rw [List.map_cons, String.join_cons, String.toList_append]
      cases token with
      | literal text => exact .append (beginsAnew_escape _) (ih begins)
      | key key =>
        obtain ⟨here, others⟩ := List.forall_mem_cons.1 begins
        exact .append (beginsAnew_keySource here) (ih others)
  rw [sourceOf, String.toList_append, String.toList_append]
  refine .append (.append ?_ middle) ?_
  · split
    · exact .plain (by decide) (by decide)
    · exact .nil
  · split
    · exact (@beginsAnew_tail _ tokens delimited).1
    · exact (beginsAnew_tail delimited).2

/-! ### Sources that stand alone -/

theorem checked_of_ofInput {input : RouteInput} (made : ofInput options input = .ok route) :
    options.check = .ok () ∧ ofInputChecked options input = .ok route := by
  rw [ofInput] at made
  cases check : options.check with
  | error =>
    rw [check] at made
    cases made
  | ok =>
    rw [check] at made
    exact ⟨rfl, made⟩

theorem tokens_of_ofPattern {pattern : String} (made : ofPattern options pattern = .ok route) :
    ∃ tokens, tokensOf options pattern = .ok tokens ∧ ofTokens options tokens = .ok route := by
  rw [ofPattern] at made
  cases parsed : tokensOf options pattern with
  | error =>
    rw [parsed] at made
    cases made
  | ok tokens =>
    rw [parsed] at made
    exact ⟨tokens, rfl, made⟩

/-- The source of the route refers to no group and does not end in a comment. -/
def standsAlone (sensitive : Bool) (route : Route) : Bool :=
  ({ flags := { fold := !sensitive } } : Reader).standsAlone route.source.toList

/-- The source of the route reads as `e` wherever it is all that a group holds, and the expression of
the route is the settled form of `e`. -/
structure ReadsAs (sensitive : Bool) (e : Expr) (route : Route) : Prop where
  text : Reader.ReadsAs { fold := !sensitive } e route.source.toList
  settled : e.settled? = some route.expression.expr
  references : e.references = []

theorem exists_read_of_compile? {sensitive : Bool} {source : String} {expression : Expression}
    (compiled : Expression.compile? (flagged sensitive source) = some expression) :
    ∃ done, ((Reader.begun sensitive).read source.toList).bind Reader.finish = some done ∧
      done.level.expr.settled? = some expression.expr := by
  obtain ⟨e, described, rfl⟩ := Option.map_eq_some_iff.1 compiled
  simp only [Expression.expr?, Reader.read_flagged, Option.bind_eq_bind,
    Option.bind_eq_some_iff] at described
  obtain ⟨last, read, done, finish, settled⟩ := described
  refine ⟨done, by rw [read]; exact finish, ?_⟩
  split at settled
  · exact settled
  · cases settled

/-- What the route of a pattern is made of: its tokens, and the reader of its source. -/
structure IsRead (options : Options) (tokens : List Token) (done : Reader) (route : Route) :
    Prop where
  delimited : options.delimiter ≠ ""
  source : route.source = sourceOf options tokens
  keys : route.keys = capturingKeys tokens
  read : ((Reader.begun options.sensitive).read (sourceOf options tokens).toList).bind
    Reader.finish = some done
  settled : done.level.expr.settled? = some route.expression.expr

theorem exists_isRead (made : ofTokens options tokens = .ok route) :
    ∃ done, route.IsRead options tokens done := by
  obtain ⟨delimited, made⟩ := delimiter_of_ofTokens made
  obtain ⟨compiled, source, keys⟩ := compile?_of_compile made
  obtain ⟨done, begun, settled⟩ := exists_read_of_compile? compiled
  exact ⟨done, delimited, source, keys, begun, settled⟩

theorem exists_isRead_of_pattern {pattern : String} (made : ofPattern options pattern = .ok route) :
    ∃ tokens done, tokensOf options pattern = .ok tokens ∧ route.IsRead options tokens done := by
  obtain ⟨tokens, parsed, made⟩ := tokens_of_ofPattern made
  obtain ⟨done, read⟩ := exists_isRead made
  exact ⟨tokens, done, parsed, read⟩

/-- The route of a pattern whose source stands alone. -/
theorem readsAs_of_pattern {pattern : String} {done : Reader}
    (parsed : tokensOf options pattern = .ok tokens) (made : route.IsRead options tokens done)
    (alone : route.standsAlone options.sensitive = true) :
    route.ReadsAs options.sensitive done.level.expr := by
  have begun := made.read
  have begins := @beginsAnew_sourceOf options tokens made.delimited fun key member =>
    begins_pinned (isSourced_of_tokensOf parsed key member)
  rw [Reader.finish_begun begins] at begun
  obtain ⟨last, read, finish⟩ := Option.bind_eq_some_iff.1 begun
  rw [standsAlone, made.source] at alone
  refine ⟨?_, made.settled, Reader.references_of_standsAlone alone read finish⟩
  rw [made.source]
  exact fun _ _ fresh same within =>
    Reader.contains_of_standsAlone alone read finish fresh same within

/-! ### Lists -/

theorem toList_alternatives (source : String) (rest : List String) :
    (alternatives (source :: rest)).toList =
      Reader.grouped (Reader.grouped source.toList ++
        (rest.map (·.toList)).flatMap fun text => '|' :: Reader.grouped text) := by
  have member (source : String) :
      ("(?:" ++ source ++ ")").toList = Reader.grouped source.toList := by
    simp [Reader.grouped]
  have branches (text : List Char) (texts : List (List Char)) :
      ['|'].intercalate (text :: texts) = text ++ texts.flatMap ('|' :: ·) := by
    induction texts generalizing text with
    | nil => simp [List.intercalate]
    | cons other texts ih => simp [List.intercalate_cons_cons, ih]
  rw [alternatives, String.toList_append, String.toList_append, String.toList_intercalate]
  simp only [List.map_cons, List.map_map, Function.comp_def, member]
  rw [show "|".toList = ['|'] from rfl, branches, List.flatMap_map, List.flatMap_map]
  rfl

/-- After the flag for letter case, a text that is a group reads as what the group holds. -/
theorem expr_of_grouped {sensitive : Bool} {e : Expr} {text : List Char} {done : Reader}
    (reads : Reader.ReadsAs { fold := !sensitive } e text)
    (ends : ((Reader.begun sensitive).read (Reader.grouped text)).bind Reader.finish = some done) :
    done.level.expr = e := by
  obtain ⟨last, read, finish⟩ := Option.bind_eq_some_iff.1 ends
  have start : (Reader.begun sensitive).IsReady ∧
      (Reader.begun sensitive).flags = { fold := !sensitive } ∧
      (Reader.begun sensitive).opened = 0 ∧ (Reader.begun sensitive).flushed.level = {} := by
    cases sensitive <;> exact ⟨⟨_, rfl⟩, rfl, rfl, rfl⟩
  obtain ⟨ready, flags, opened, level⟩ := start
  have takes := reads.grouped ready flags read
  obtain ⟨ended, resolved, rfl, -⟩ :=
    Reader.finish_resolved finish (by rw [takes.mode]; rfl)
  rw [Reader.resolved_of_isReady ⟨_, takes.mode⟩] at resolved
  cases resolved
  rw [Reader.flushed_eq takes.mode, Reader.flush, takes.level, level, opened, Expr.shift_zero]
  rfl

/-- The route of a list reads as its members, as branches. -/
theorem readsAs_of_members {first : Route} {rest : List Route} {e : Expr} {es : List Expr}
    (reads : first.ReadsAs options.sensitive e)
    (others : List.Forall₂ (ReadsAs options.sensitive) es rest)
    (made : ofMembers options (first :: rest) = .ok route) :
    route.ReadsAs options.sensitive (e.branches es) := by
  obtain ⟨compiled, source, -⟩ := compile?_of_compile made
  obtain ⟨body, text, whole⟩ : ∃ body, Reader.ReadsAs { fold := !options.sensitive }
      (e.branches es) body ∧ route.source.toList = Reader.grouped body := by
    have texts : List.Forall₂ (Reader.ReadsAs { fold := !options.sensitive }) es
        (rest.map (·.source.toList)) :=
      List.forall₂_map_right_iff.2 (others.imp fun _ _ reads => reads.text)
    refine ⟨_, reads.text.members texts, ?_⟩
    rw [source, List.map_cons, toList_alternatives, List.map_map]
    rfl
  obtain ⟨done, begun, settled⟩ := exists_read_of_compile? compiled
  rw [← source, whole] at begun
  rw [expr_of_grouped text begun] at settled
  refine ⟨whole ▸ text.in_group, settled, Expr.references_branches reads.references ?_⟩
  intro e member
  obtain ⟨_, _, reads⟩ := exists_of_forall₂_left others member
  exact reads.references

/-- Where a list matches, one of its members does. -/
theorem exists_member_of_isMatch {first : Route} {rest : List Route} {e : Expr} {es : List Expr}
    {text : String} (reads : first.ReadsAs options.sensitive e)
    (others : List.Forall₂ (ReadsAs options.sensitive) es rest)
    (made : ofMembers options (first :: rest) = .ok route) (found : route.isMatch text = true) :
    ∃ member ∈ first :: rest, member.isMatch text = true := by
  have whole := readsAs_of_members reads others made
  have all : List.Forall₂ (ReadsAs options.sensitive) (e :: es) (first :: rest) :=
    .cons reads others
  have free : ∀ x ∈ e :: es, x.references = [] := by
    intro x member
    obtain ⟨_, _, reads⟩ := exists_of_forall₂_left all member
    exact reads.references
  obtain ⟨x, member, finds⟩ := Expr.exists_search?_of_branches free whole.settled found
  obtain ⟨other, member, reads⟩ := exists_of_forall₂_left all member
  exact ⟨other, member, finds _ reads.settled⟩

end Route

/-! ### Trees -/

mutual

/-- The patterns that an input is made of, from left to right. -/
def RouteInput.leaves : RouteInput → List String
  | .pattern text => [text]
  | .expression _ | .route _ => []
  | .list members => leavesOf members

/-- The patterns that the members of a list are made of. -/
def leavesOf : List RouteInput → List String
  | [] => []
  | input :: rest => input.leaves ++ leavesOf rest

end

mutual

/-- The input is made of patterns, and of lists that are not empty. -/
def RouteInput.isTree : RouteInput → Bool
  | .pattern _ => true
  | .expression _ | .route _ => false
  | .list members => !members.isEmpty && areTrees members

/-- Every member of a list is a tree. -/
def areTrees : List RouteInput → Bool
  | [] => true
  | input :: rest => input.isTree && areTrees rest

end

namespace Route

variable {options : Options} {route : Route}

mutual

/-- What holds of the routes of patterns, and of a list where it holds of its members, holds of the
routes of all trees. -/
theorem holds_of_tree {holds : List String → Route → Prop}
    (pattern : ∀ text route, ofPattern options text = .ok route → holds [text] route)
    (list : ∀ first rest (made : Route), (∀ member ∈ first :: rest, holds member.1 member.2) →
      ofMembers options ((first :: rest).map Prod.snd) = .ok made →
      holds ((first :: rest).flatMap Prod.fst) made)
    {input : RouteInput} {route : Route} (tree : input.isTree = true)
    (made : ofInputChecked options input = .ok route) : holds input.leaves route := by
  cases input with
  | pattern text =>
    rw [ofInputChecked] at made
    exact pattern text route made
  | expression | route => cases tree
  | list members =>
    rw [RouteInput.isTree, Bool.and_eq_true, Bool.not_eq_true'] at tree
    rw [ofInputChecked] at made
    cases others : ofInputsChecked options members with
    | error =>
      rw [others] at made
      cases made
    | ok routes =>
      rw [others] at made
      obtain ⟨parts, each, some, rfl, leaves⟩ := holds_of_trees pattern list tree.2 others
      cases parts with
      | nil => cases (some rfl) ▸ tree.1
      | cons first rest =>
        rw [RouteInput.leaves, ← leaves]
        exact list first rest route each made

theorem holds_of_trees {holds : List String → Route → Prop}
    (pattern : ∀ text route, ofPattern options text = .ok route → holds [text] route)
    (list : ∀ first rest (made : Route), (∀ member ∈ first :: rest, holds member.1 member.2) →
      ofMembers options ((first :: rest).map Prod.snd) = .ok made →
      holds ((first :: rest).flatMap Prod.fst) made)
    {members : List RouteInput} {routes : List Route} (trees : areTrees members = true)
    (made : ofInputsChecked options members = .ok routes) :
    ∃ parts : List (List String × Route), (∀ part ∈ parts, holds part.1 part.2) ∧
      (parts = [] → members.isEmpty = true) ∧ parts.map Prod.snd = routes ∧
      parts.flatMap Prod.fst = leavesOf members := by
  cases members with
  | nil =>
    cases made
    exact ⟨[], nofun, fun _ => rfl, rfl, rfl⟩
  | cons input rest =>
    rw [areTrees, Bool.and_eq_true] at trees
    rw [ofInputsChecked] at made
    cases first : ofInputChecked options input with
    | error =>
      rw [first] at made
      cases made
    | ok route =>
      cases others : ofInputsChecked options rest with
      | error =>
        rw [first, others] at made
        cases made
      | ok routes =>
        rw [first, others] at made
        cases made
        obtain ⟨parts, each, -, rfl, leaves⟩ := holds_of_trees pattern list trees.2 others
        refine ⟨(input.leaves, route) :: parts, ?_, nofun, rfl, ?_⟩
        · exact List.forall_mem_cons.2 ⟨holds_of_tree pattern list trees.1 first, each⟩
        · rw [List.flatMap_cons, leaves, leavesOf]

end

/-- The sources of these patterns stand alone. -/
def standAlone (options : Options) (leaves : List String) : Bool :=
  leaves.all fun leaf =>
    (ofInput options (.pattern leaf)).toOption.all (standsAlone options.sensitive)

/-- The route matches nothing that none of these patterns matches. -/
def Unites (options : Options) (leaves : List String) (route : Route) : Prop :=
  ∀ text, route.isMatch text = true → ∃ leaf ∈ leaves, ∃ alone,
    ofInput options (.pattern leaf) = .ok alone ∧ alone.isMatch text = true

/-- A list unites what its members unite. -/
theorem Unites.list {first : List String × Route} {rest : List (List String × Route)}
    (members : ∀ member ∈ first :: rest, (∃ e, member.2.ReadsAs options.sensitive e) ∧
      Unites options member.1 member.2)
    (made : ofMembers options ((first :: rest).map Prod.snd) = .ok route) :
    (∃ e, route.ReadsAs options.sensitive e) ∧
      Unites options ((first :: rest).flatMap Prod.fst) route := by
  obtain ⟨⟨e, reads⟩, others⟩ := List.forall_mem_cons.1 fun member here => (members member here).1
  obtain ⟨es, all⟩ := @exists_forall₂ _ _ (fun e (member : List String × Route) =>
    member.2.ReadsAs options.sensitive e) _ others
  have all := List.forall₂_map_right_iff.2 all
  refine ⟨⟨_, readsAs_of_members reads all made⟩, fun text found => ?_⟩
  obtain ⟨_, one, found⟩ := exists_member_of_isMatch reads all made found
  rw [← List.map_cons] at one
  obtain ⟨member, here, rfl⟩ := List.mem_map.1 one
  obtain ⟨leaf, among, finds⟩ := (members member here).2 text found
  exact ⟨leaf, List.mem_flatMap.2 ⟨member, here, among⟩, finds⟩

/-- Where the route of a tree matches, one of its patterns does, if their sources stand alone. -/
theorem exists_leaf_of_isMatch {input : RouteInput} {text : String} (tree : input.isTree = true)
    (alone : standAlone options input.leaves = true) (made : ofInput options input = .ok route)
    (found : route.isMatch text = true) :
    ∃ leaf ∈ input.leaves, ∃ alone, ofInput options (.pattern leaf) = .ok alone ∧
      alone.isMatch text = true := by
  obtain ⟨sound, made⟩ := checked_of_ofInput made
  have leaf {text : String} {route : Route} (made : ofPattern options text = .ok route) :
      ofInput options (.pattern text) = .ok route := by
    rw [ofInput, sound]
    exact made
  refine (@holds_of_tree options (fun leaves route => standAlone options leaves = true →
    (∃ e, route.ReadsAs options.sensitive e) ∧ Unites options leaves route)
    ?_ ?_ input route tree made alone).2 text found
  · intro text route made alone
    have alone : route.standsAlone options.sensitive = true := by
      simpa [standAlone, leaf made, Except.toOption] using alone
    obtain ⟨tokens, done, parsed, read⟩ := exists_isRead_of_pattern made
    exact ⟨⟨_, readsAs_of_pattern parsed read alone⟩,
      fun _ found => ⟨text, List.mem_singleton_self _, route, leaf made, found⟩⟩
  · intro first rest route members made alone
    refine Unites.list (fun member here => members member here ?_) made
    rw [standAlone, List.all_flatMap, List.all_eq_true] at alone
    exact alone member here

/-- Lists in lists, and a custom pattern that looks ahead. -/
theorem exists_leaf_of_isMatch_nested :
    let options : Options := { strict := true }
    let input : RouteInput := .list [.pattern "/a", .list [.pattern "/:b([b-f](?!x))",
      .list [.pattern "/c/:d(\\d)"]]]
    ∃ route, input.isTree = true ∧ standAlone options input.leaves = true ∧
      ofInput options input = .ok route ∧ route.isMatch "/c/5" = true ∧
      ∃ leaf ∈ input.leaves, ∃ alone, ofInput options (.pattern leaf) = .ok alone ∧
        alone.isMatch "/c/5" = true := by
  intro options input
  have compiles : (ofInput options input).toOption.any (·.isMatch "/c/5") = true := by
    decide +kernel
  obtain ⟨route, compiled, found⟩ := (Option.any_eq_true _ _).1 compiles
  have tree : input.isTree = true := by decide +kernel
  have alone : standAlone options input.leaves = true := by decide +kernel
  have made := toOption_eq_some_iff.1 compiled
  exact ⟨route, tree, alone, made, found, exists_leaf_of_isMatch tree alone made found⟩

/-- A list of no patterns matches everything. -/
theorem exists_isMatch_empty : ∃ route, ofInput {} (.list []) = .ok route ∧
    route.isMatch "/x" = true ∧ (RouteInput.list []).leaves = [] := by
  have compiles : (ofInput {} (.list [])).toOption.any (·.isMatch "/x") = true := by decide +kernel
  obtain ⟨route, compiled, found⟩ := (Option.any_eq_true _ _).1 compiles
  exact ⟨route, toOption_eq_some_iff.1 compiled, found, rfl⟩

end Route

end PathTemplate
