/-
Custom patterns and what they read as between the other parts of a route.

* `isSelfContained` and `isPlain` say which patterns are complete on their own: those without
  capture groups, and those of characters, classes, choices, groups and loops alone.
* `patternReads_plainUnder` and `patternReads_selfContained`: what such a pattern reads as in a
  group.
* `patternMatches` is the language of a pattern, and `covers_patternExpr` says that the expression
  of a plain pattern covers its texts wherever it stands.
-/

import PathTemplate.Item
import PathTemplate.Proofs.Reading.Nesting
import PathTemplate.Proofs.Reading.Pinning
import PathTemplate.Proofs.Route.Shape
import PathTemplate.Proofs.Expression.Settling

namespace PathTemplate

/-- The reader after a pattern that is read on its own, and the reader once the text has ended. -/
def readAlone? (pattern : String) : Option (Reader × Reader) := do
  let last ← ({} : Reader).read pattern.toList
  let done ← last.finish
  return (last, done)

/-- The same, the pattern being read under these flags. -/
def readUnder? (flags : Flags) (pattern : String) : Option (Reader × Reader) := do
  let last ← ({ flags } : Reader).read pattern.toList
  let done ← last.finish
  return (last, done)

/-- The flags at the end of a pattern that is read on its own. -/
def flagsAtEnd (pattern : String) : Flags :=
  match readAlone? pattern with
  | some (last, _) => last.flags
  | none => {}

/-- The pattern is complete on its own, has no capture group, and does not end where blanks mean
nothing. -/
def isSelfContained (pattern : String) : Bool :=
  match readAlone? pattern with
  | some (last, _) => last.opened = 0 && !last.flags.spaced
  | none => false

/-- The pattern is complete on its own and consists of characters, classes, choices, groups that
capture nothing and loops alone. -/
def isPlain (pattern : String) : Bool :=
  match readAlone? pattern with
  | some (last, done) =>
    last.opened = 0 && last.flags = {} && done.referred.isNone && done.level.expr.isPlain
  | none => false

/-- The same of a pattern that is read under these flags, which it leaves as they are. -/
def isPlainUnder (flags : Flags) (pattern : String) : Bool :=
  match readUnder? flags pattern with
  | some (last, done) =>
    last.opened = 0 && last.flags = flags && done.referred.isNone && done.level.expr.isPlain
  | none => false

/-- The pattern of the key, its shorthands being pinned, reads as this expression on its own, under
some flags that do not take the meaning from blanks. -/
def Key.ReadsAs (key : Key) (x : Expr) : Prop :=
  ∃ flags last done, flags.spaced = false ∧
    readUnder? flags (pinShorthands key.pattern) = some (last, done) ∧ done.level.expr = x

/-- No flag that the pattern of a key sets is in force after the key. A group that captures does
not confine flags, unlike the group around a key with texts or with repetitions. -/
def Key.ConfinesFlags (key : Key) : Prop :=
  key.modifier.isRepeating = true ∨
    ((flagsAtEnd key.pattern).fold = true → key.lead ≠ "" ∧ key.trail = "") ∧
      ((flagsAtEnd key.pattern).lines = true → key.lead ≠ "" ∨ key.trail ≠ "")

instance (key : Key) : Decidable key.ConfinesFlags := inferInstanceAs (Decidable (_ ∨ _))

/-- The same, the pattern being read under these flags. -/
def exprUnder (flags : Flags) (pattern : String) : Expr :=
  match readUnder? flags (pinShorthands pattern) with
  | some (_, done) => done.level.expr
  | none => .never

/-- The expression matches the text in full. -/
def Expression.matchesAll (expression : Expression) (text : String) : Bool :=
  (expression.expr.outcomes expression.expr.references (.start text.toList)).any
    (·.after.isEmpty)

/-- The text belongs to the language of the pattern: its shorthands being pinned, the pattern
matches the text in full. -/
def patternMatches (pattern text : String) : Bool :=
  match Expression.compile? (pinShorthands pattern) with
  | some expression => expression.matchesAll text
  | none => false

section Alone

variable {pattern : String} {flags : Flags} {last done : Reader}

theorem readUnder?_eq_some_iff : readUnder? flags pattern = some (last, done) ↔
    ({ flags } : Reader).read pattern.toList = some last ∧ last.finish = some done := by
  simp only [readUnder?, Option.bind_eq_bind, Option.bind_eq_some_iff, Option.pure_def,
    Option.some.injEq, Prod.mk.injEq]
  constructor
  · rintro ⟨last', read, done', finish, rfl, rfl⟩
    exact ⟨read, finish⟩
  · rintro ⟨read, finish⟩
    exact ⟨last, read, done, finish, rfl, rfl⟩

theorem readAlone?_eq_some_iff : readAlone? pattern = some (last, done) ↔
    ({} : Reader).read pattern.toList = some last ∧ last.finish = some done :=
  @readUnder?_eq_some_iff pattern {} last done

theorem isSelfContained_iff : isSelfContained pattern = true ↔ ∃ last done,
    readAlone? pattern = some (last, done) ∧ last.opened = 0 ∧ last.flags.spaced = false := by
  unfold isSelfContained
  cases read : readAlone? pattern with
  | none => simp
  | some result => simp [Prod.ext_iff]

/-- Where a pattern is complete, so it is after pinning, whatever flags that do not matter are set
before it. -/
theorem readUnder_pinned {shared : Flags.Shared} {flags' : Flags}
    (agree : flags.Agree shared flags')
    (under : readUnder? flags pattern = some (last, done)) (opened : last.opened = 0)
    (spaced : last.flags.spaced = false) :
    ∃ last' done', readUnder? flags' (pinShorthands pattern) = some (last', done') ∧
      last.Like shared last' ∧ done.Like shared done' := by
  obtain ⟨read, finish⟩ := readUnder?_eq_some_iff.1 under
  have start : ({ flags } : Reader).Like shared { flags := flags' } :=
    ⟨⟨⟨.none, .refl rfl⟩, .nil, agree, ⟨rfl, rfl⟩, ⟨rfl, rfl⟩, rfl⟩, .ready .nothing⟩
  obtain ⟨last', read', like⟩ := start.pinFrom rfl false pattern.toList last read opened
  have line : last.mode.isLineComment = false := by
    refine Bool.eq_false_iff.2 fun line => ?_
    have blanks := Reader.spaced_of_read read (fun h => nomatch h) line
    rw [spaced] at blanks
    cases blanks
  obtain ⟨done', finish', like'⟩ := like.finish finish line
  refine ⟨last', done', readUnder?_eq_some_iff.2 ⟨?_, finish'⟩, like, like'⟩
  rw [pinShorthands, String.toList_ofList]
  exact read'

theorem pinFrom_ne_nil {inClass : Bool} {text : List Char} (nonempty : text ≠ []) :
    pinFrom inClass text ≠ [] := by
  fun_cases pinFrom inClass text with
  | case1 => exact absurd rfl nonempty
  | case2 c rest =>
    intro none
    have escape := (List.append_eq_nil_iff.1 none).1
    rcases pinEscape_cases inClass c with kept | ⟨_, ⟨_, _, same⟩ | ⟨_, _, same⟩⟩ <;>
      rw [escape] at * <;> contradiction
  | case3 => exact List.cons_ne_nil _ _

/-- No pattern that is complete begins with a question mark, before or after pinning. -/
theorem begins_pinned {last' : Reader} (nonempty : pattern ≠ "")
    (read : ({ flags } : Reader).read (pinShorthands pattern).toList = some last') :
    ∃ c rest, (pinShorthands pattern).toList = c :: rest ∧ c ≠ '?' := by
  have chars : pattern.toList ≠ [] := fun none => nonempty (String.toList_eq_nil_iff.1 none)
  rw [pinShorthands, String.toList_ofList] at read ⊢
  obtain ⟨c, rest, begins⟩ := List.exists_cons_of_ne_nil (@pinFrom_ne_nil false _ chars)
  refine ⟨c, rest, begins, ?_⟩
  rintro rfl
  have mark : ({ flags } : Reader).step '?' = none := by
    simp [Reader.step, Reader.stepReady, Reader.quantify, show isSpacing '?' = false from rfl]
  rw [begins, Reader.read_cons, mark] at read
  cases read

/-! ### Plain patterns -/

/-- A plain pattern is plain after pinning too, also where flags that do not matter are set before
it. -/
theorem exists_readUnder {shared : Flags.Shared} {flags' : Flags}
    (agree : flags.Agree shared flags') (plain : isPlainUnder flags pattern = true)
    (spaced : flags.spaced = false) :
    ∃ last done, readUnder? flags' (pinShorthands pattern) = some (last, done) ∧ last.opened = 0 ∧
      flags.Agree shared last.flags ∧ done.referred = none ∧
      exprUnder flags' pattern = done.level.expr ∧ done.level.expr.isPlain = true := by
  unfold isPlainUnder at plain
  split at plain
  · rename_i last done under
    simp only [Bool.and_eq_true, decide_eq_true_eq, Option.isNone_iff_eq_none] at plain
    obtain ⟨⟨⟨opened, same⟩, referred⟩, plain⟩ := plain
    obtain ⟨last', done', under', like, like'⟩ :=
      readUnder_pinned agree under opened (by rw [same, spaced])
    refine ⟨last', done', under', like.opened.2, same ▸ like.flags, ?_, ?_,
      like'.level.expr.plain plain⟩
    · rw [like'.referred, referred]
    · simp only [exprUnder, under']
  · cases plain

theorem isPlainUnder_pinned (plain : isPlainUnder flags pattern = true)
    (spaced : flags.spaced = false) :
    ∃ last done, readUnder? flags (pinShorthands pattern) = some (last, done) ∧ last.opened = 0 ∧
      last.flags = flags ∧ done.referred = none ∧ exprUnder flags pattern = done.level.expr ∧
      done.level.expr.isPlain = true := by
  obtain ⟨last, done, under, opened, agree, rest⟩ :=
    exists_readUnder (.refl .all flags) plain spaced
  exact ⟨last, done, under, opened, agree.same rfl, rest⟩

end Alone

/-- The flags that a route is read under, but for those that concern the pattern of a key alone. -/
def Flags.IsCalm (fold : Bool) (flags : Flags) : Prop :=
  flags.fold = fold ∧ flags.lines = false ∧ flags.spaced = false

namespace Route

section Keys

variable {options : Options} {key : Key}

/-- A pattern that is complete on its own and has no capture group is all that a group holds. -/
theorem holds_readUnder {flags : Flags} {pattern : String} {last done : Reader}
    (under : readUnder? flags (pinShorthands pattern) = some (last, done))
    (opened : last.opened = 0) (spaced : last.flags.spaced = false) :
    Holds false 0 0 (· = flags) (· = last.flags) (pinShorthands pattern).toList
      fun _ e => e = done.level.expr := by
  obtain ⟨read, finish⟩ := readUnder?_eq_some_iff.1 under
  intro reader here fresh
  have start : ({ flags := reader.flags } : Reader).read (pinShorthands pattern).toList =
      some last := by
    rw [here.flags]
    exact read
  refine (Reader.ends_fills_alone fresh here.names start finish opened spaced).mono ?_
  rintro next ⟨fills, after⟩
  exact ⟨_, rfl, after, fills⟩

/-- A plain pattern reads in a group as it does on its own. -/
theorem patternReads_plainUnder {flags : Flags} (fold : flags.fold = !options.sensitive)
    (spaced : flags.spaced = false) (nonempty : key.pattern ≠ "")
    (plain : isPlainUnder flags key.pattern = true) :
    PatternReads false (· = flags) (FlagsAfter options (· = !options.sensitive) (· = flags) key)
      (· = exprUnder flags key.pattern) (pinShorthands key.pattern).toList := by
  obtain ⟨last, done, under, opened, same, _, expr, _⟩ := isPlainUnder_pinned plain spaced
  refine ⟨begins_pinned nonempty (readUnder?_eq_some_iff.1 under).1, nofun, ?_⟩
  refine (holds_readUnder under opened (by rw [same, spaced])).mono ?_ ?_
  · rintro f rfl _
    exact ⟨fun _ => same, fun _ => by rw [same]; exact ⟨fold, spaced⟩⟩
  · rintro _ _ rfl
    exact expr.symm

/-- Where a key repeats, its pattern reads so under any flags that do not take the meaning from
blanks, and what the flags are after it makes no difference. -/
theorem patternReads_repeating {flags f : Flags} {folds : Bool → Prop} {calm : Flags → Prop}
    (several : key.modifier.isRepeating = true) (nonempty : key.pattern ≠ "")
    (plain : isPlainUnder flags key.pattern = true) (agree : flags.Agree .none f)
    (spaced : f.spaced = false) :
    PatternReads false (· = f) (FlagsAfter options folds calm key)
      (· = exprUnder f key.pattern) (pinShorthands key.pattern).toList := by
  obtain ⟨last, done, under, opened, later, _, expr, _⟩ :=
    exists_readUnder agree plain (agree.spaced.symm.trans spaced)
  refine ⟨begins_pinned nonempty (readUnder?_eq_some_iff.1 under).1, nofun, ?_⟩
  refine (holds_readUnder under opened
    (later.spaced.trans (agree.spaced.symm.trans spaced))).mono ?_ ?_
  · exact fun _ _ single => absurd (several.symm.trans single) Bool.noConfusion
  · rintro _ _ rfl
    exact expr.symm

/-- A pattern that is complete on its own reads in a group as it does under some flags. -/
theorem patternReads_alone {shared : Flags.Shared} {folds : Bool → Prop} {calm : Flags → Prop}
    {last done : Reader} (nonempty : key.pattern ≠ "")
    (alone : readAlone? key.pattern = some (last, done)) (opened : last.opened = 0)
    (spaced : last.flags.spaced = false) (agree : ∀ f, calm f → ({} : Flags).Agree shared f)
    (later : ∀ f, last.flags.Agree shared f → FlagsAfter options folds calm key f) :
    PatternReads false calm (FlagsAfter options folds calm key)
      (fun x => key.ReadsAs x ∧ x.groups = []) (pinShorthands key.pattern).toList := by
  obtain ⟨last', done', under', -⟩ := readUnder_pinned (.refl shared {}) alone opened spaced
  refine ⟨begins_pinned nonempty (readUnder?_eq_some_iff.1 under').1, nofun, ?_⟩
  intro reader here fresh
  obtain ⟨last', done', under', like, like'⟩ :=
    readUnder_pinned (agree _ here.flags) alone opened spaced
  obtain ⟨read', finish'⟩ := readUnder?_eq_some_iff.1 under'
  refine (Reader.ends_fills_alone fresh here.names read' finish' like.opened.2
    (like.flags.spaced.trans spaced)).mono ?_
  rintro next ⟨fills, after⟩
  exact ⟨_, ⟨⟨_, _, _, (agree _ here.flags).spaced, under', rfl⟩, like'.level.expr.groups⟩,
    after ▸ later _ like.flags, fills⟩

/-- A self-contained pattern reads in a group as something without groups. -/
theorem patternReads_selfContained {folds : Bool → Prop} (nonempty : key.pattern ≠ "")
    (alone : isSelfContained key.pattern = true)
    (confined : FlagsAfter options folds (Flags.IsCalm false) key (flagsAtEnd key.pattern)) :
    PatternReads false (Flags.IsCalm false) (FlagsAfter options folds (Flags.IsCalm false) key)
      (·.groups = []) (pinShorthands key.pattern).toList := by
  obtain ⟨last, done, read, opened, spaced⟩ := isSelfContained_iff.1 alone
  have atEnd : flagsAtEnd key.pattern = last.flags := by rw [flagsAtEnd, read]
  rw [atEnd] at confined
  have agree (f : Flags) (calm : f.IsCalm false) : ({} : Flags).Agree .shown f :=
    ⟨calm.2.2, fun _ => ⟨calm.1, calm.2.1⟩, nofun⟩
  have later (f : Flags) (like : last.flags.Agree .shown f) :
      FlagsAfter options folds (Flags.IsCalm false) key f := by
    obtain ⟨fold, lines⟩ := like.shown (by decide)
    intro single
    obtain ⟨bare, affixed⟩ := confined single
    unfold Flags.IsCalm at bare ⊢
    rw [fold, lines, like.spaced]
    exact ⟨bare, affixed⟩
  exact (patternReads_alone nonempty read opened spaced agree later).mono fun _ h => h.2

/-- The same where nothing is known of the flags but that blanks mean something. -/
theorem patternReads_unspaced (nonempty : key.pattern ≠ "")
    (alone : isSelfContained key.pattern = true) :
    PatternReads false (·.spaced = false)
      (FlagsAfter options (fun _ => True) (·.spaced = false) key)
      (fun x => key.ReadsAs x ∧ x.groups = []) (pinShorthands key.pattern).toList := by
  obtain ⟨last, done, read, opened, spaced⟩ := isSelfContained_iff.1 alone
  have agree (f : Flags) (calm : f.spaced = false) : ({} : Flags).Agree .none f :=
    ⟨calm, fun h => absurd rfl h, nofun⟩
  refine patternReads_alone nonempty read opened spaced agree fun f like _ => ?_
  have calm : f.spaced = false := like.spaced.trans spaced
  exact ⟨fun _ => calm, fun _ => ⟨trivial, calm⟩⟩

/-- The pattern of a key that has no custom one reads as what it says. -/
theorem patternReads_default {calm : Flags → Prop} (total : Bool)
    (default : key.pattern = defaultPattern options.delimiter)
    (delimited : options.delimiter ≠ "")
    (known : ∀ f, calm f → f.fold = (!options.sensitive) ∧ f.spaced = false) :
    PatternReads total calm (FlagsAfter options (· = !options.sensitive) calm key)
      (fun e => ∃ greedy, e = .unbroken (!options.sensitive) greedy options.delimiter)
      (pinShorthands key.pattern).toList := by
  rw [default, pinShorthands_defaultPattern]
  refine ⟨⟨'[', _, toList_defaultPattern _, by decide⟩, ?_, ?_⟩
  · rintro - _ ⟨greedy, rfl⟩
    rfl
  · intro reader here fresh
    obtain ⟨next, greedy, read, fills, flags⟩ := Reader.fills_defaultPattern total fresh delimited
    rw [read]
    have calm : calm next.flags := flags ▸ here.flags
    exact .reaches ⟨_, ⟨greedy, by rw [(known _ here.flags).1]⟩,
      fun _ => ⟨fun _ => calm, fun _ => known _ calm⟩, fills⟩

/-- The wildcard reads as what it says. -/
theorem patternReads_wildcard {folds : Bool → Prop} {calm : Flags → Prop} (total : Bool)
    (wildcard : key.pattern = wildcardPattern)
    (known : ∀ f, calm f → folds f.fold ∧ f.spaced = false) :
    PatternReads total calm (FlagsAfter options folds calm key)
      (fun e => ∃ set greedy, e = (Expr.one set).modified greedy .zeroOrMore)
      (pinShorthands key.pattern).toList := by
  have chars : (pinShorthands key.pattern).toList = ['.', '*'] := by
    rw [wildcard]
    decide
  rw [chars]
  refine ⟨⟨'.', _, rfl, by decide⟩, ?_, ?_⟩
  · rintro - _ ⟨set, greedy, rfl⟩
    rfl
  · have anything : Reads total 0 0 calm calm ['.', '*'] _ := .dots
    refine anything.holds.mono (fun f here _ => ⟨fun _ => here, fun _ => known f here⟩) ?_
    rintro _ _ ⟨_, ⟨set, greedy, rfl⟩, rfl⟩
    exact ⟨set, greedy, rfl⟩

end Keys

end Route

end PathTemplate
