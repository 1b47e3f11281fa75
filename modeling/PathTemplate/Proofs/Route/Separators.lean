/-
Separators of repeated keys.

The expression of a route has the text after a value and the text before the next one between two
occurrences of a key, and a matcher looks for these texts again in what the key captured. The
expression may match them in either letter case, the matcher looks for the very characters.

* `exists_content_of_read`: the group of a key in the expression of its route, whatever stands
  around it, and `KeyContent.exists_intercalate`: what it covers.
* `IsReached`: nothing before a key changes what it means, and its separator has no other spelling.
* `exists_values_of_run`: then every value of the key is one that its validator accepts.
* `exists_values_not_accepted`: a separator that is a letter may be overlooked.
-/

import PathTemplate.Proofs.Expression.Bodies
import PathTemplate.Proofs.Reading.Depth
import PathTemplate.Proofs.Route.Alternatives
import PathTemplate.Proofs.Route.Compilation
import PathTemplate.Proofs.Route.Restoration
import PathTemplate.Proofs.Token.Decorations

namespace PathTemplate

/-! ### Bodies of groups -/

namespace Expr

variable {number : Nat} {x e : Expr} {parts : List Expr}

/-- An expression has the bodies that its parts have. -/
theorem isRising_bodies (number : Nat) (x : Expr) : IsRising (x ∈ ·.bodies number) where
  empty := List.not_mem_nil
  seq := List.mem_append
  alt := List.mem_append
  loop := Iff.rfl
  wrap := by
    intro opener _ member
    cases opener with
    | capture => exact List.mem_append_right _ member
    | _ => exact member

theorem mem_bodies_join (member : e ∈ parts) (has : x ∈ e.bodies number) :
    x ∈ (join parts).bodies number := by
  have rising := isRising_bodies number x
  induction parts using List.reverseRecOn with
  | nil => cases member
  | append_singleton parts last ih =>
    rw [join, List.foldl_concat]
    refine rising.append.2 ?_
    rcases List.mem_append.1 member with member | member
    · exact .inl (ih member)
    · exact .inr (List.mem_singleton.1 member ▸ has)

theorem bodies_modified (greedy : Bool) (modifier : Modifier) :
    (e.modified greedy modifier).bodies number = e.bodies number := by
  cases modifier <;> rfl

end Expr

namespace Route

-- `exprUnder` unfolds to a run of the reader, which no proof about what it covers carries out.
attribute [local irreducible] exprUnder

/-! ### What the group of a repeated key covers -/

/-- A value, and any number of times the separator and a further value, are values with the
separator between them. -/
theorem exists_intercalate_of_then {values : Language} {separator w : List Char}
    (holds : values.then_ ((Language.then_ (· = separator) values).repeated .zeroOrMore) w) :
    ∃ first others, w = separator.intercalate (first :: others) ∧
      ∀ u ∈ first :: others, values u := by
  obtain ⟨first, _, rfl, value, texts, -, all, rfl⟩ := holds
  have each : ∀ text ∈ texts, ∃ u, values u ∧ text = separator ++ u := by
    intro text member
    obtain ⟨_, u, rfl, rfl, value⟩ := all text member
    exact ⟨u, value, rfl⟩
  obtain ⟨others, rfl, further⟩ := exists_map_eq each
  exact ⟨first, others, intercalate_eq_append.symm, List.forall_mem_cons.2 ⟨value, further⟩⟩

section Content

variable {options : Options} {flags : Flags} {key : Key} {content : Expr}
  {before w after : List Char}

/-- What the expression of a route has between two occurrences of a key. -/
def joint (options : Options) (key : Key) : String :=
  options.encodeLiteral key.trail ++ options.encodeLiteral key.lead

theorem joint_eq_separator (literal : ∀ text, options.encodeLiteral text = text) (key : Key) :
    joint options key = key.separator := by
  rw [joint, literal, literal, Key.separator]

theorem isBare_iff : IsBare options key ↔ joint options key = "" := by
  simp [IsBare, joint, and_comm]

/-- The group of a repeated key covers a value, and any number of times a further value after what
the text between them may stand for. -/
theorem KeyContent.holds_then (several : key.modifier.isRepeating = true)
    (affixed : ¬IsBare options key) (plain : (exprUnder flags key.pattern).isPlain = true)
    (inside : KeyContent options (· = flags.fold) (· = exprUnder flags key.pattern) key content)
    (covered : content.Covers before w after) :
    (valuesUnder flags key).then_ (((Language.spelled flags.fold (joint options key).toList).then_
      (valuesUnder flags key)).repeated .zeroOrMore) w := by
  cases inside with
  | single once _ =>
    rw [several] at once
    cases once
  | bareRepeated _ bare _ _ => exact absurd bare affixed
  | affixedRepeated further _ _ trail lead holds holds' =>
    obtain ⟨_, rfl, rfl⟩ := trail
    obtain ⟨_, rfl, rfl⟩ := lead
    subst holds holds'
    have value := (denotes_exprUnder plain).single
    have pass := (Expr.denote_spelling flags.fold (options.encodeLiteral key.trail)).append
      ((Expr.denote_spelling flags.fold (options.encodeLiteral key.lead)).append value)
    have whole := (value.append (pass.join.modified further .zeroOrMore).single).join
    rw [whole.covers] at covered
    obtain ⟨first, _, rfl, here, texts, allowed, all, rfl⟩ := covered
    refine ⟨first, _, rfl, here, texts, allowed, fun u member => ?_, rfl⟩
    obtain ⟨t, _, rfl, trail, l, v, rfl, lead, value⟩ := all u member
    refine ⟨t ++ l, v, (List.append_assoc ..).symm, ?_, value⟩
    rw [joint, String.toList_append]
    exact List.rel_append trail lead

/-- The group of a repeated key covers values with the text between them that the expression has
there, where nothing else can stand for this text. -/
theorem KeyContent.exists_intercalate (several : key.modifier.isRepeating = true)
    (affixed : ¬IsBare options key) (plain : (exprUnder flags key.pattern).isPlain = true)
    (only : ∀ v, Language.spelled flags.fold (joint options key).toList v →
      v = (joint options key).toList)
    (inside : KeyContent options (· = flags.fold) (· = exprUnder flags key.pattern) key content)
    (covered : content.Covers before w after) :
    ∃ first others, w = (joint options key).toList.intercalate (first :: others) ∧
      ∀ u ∈ first :: others, valuesUnder flags key u := by
  obtain ⟨first, _, rfl, here, texts, allowed, all, rfl⟩ :=
    inside.holds_then several affixed plain covered
  refine exists_intercalate_of_then
    ⟨first, _, rfl, here, texts, allowed, fun u member => ?_, rfl⟩
  obtain ⟨s, v, rfl, alike, value⟩ := all u member
  exact ⟨s, v, rfl, only s alike, value⟩

end Content

/-! ### The group of a repeated key in the expression of a route -/

/-- What stands in the group of the key. -/
theorem KeyShape.exists_body {options : Options} {folds : Bool → Prop} {inner : Expr → Prop}
    {key : Key} {number : Nat} {e : Expr} (shape : KeyShape options folds inner key number e)
    (may : ∃ fold, folds fold) (pattern : key.pattern ≠ "") :
    ∃ x ∈ e.bodies number, KeyContent options folds inner key x := by
  obtain ⟨lead, trail, content, greedy, modifier, -, -, inside, -, rfl⟩ :=
    shape.exists_content may pattern
  refine ⟨content, ?_, inside⟩
  rw [Expr.bodies_modified]
  refine Expr.mem_bodies_join
    (List.mem_append_right _ (List.mem_append_left _ List.mem_cons_self)) ?_
  rw [Expr.bodies, if_pos rfl]
  exact List.mem_cons_self

section Group

variable {options : Options} {flags : Flags} {key : Key} {reader done : Reader} {rest : List Char}

/-- The expression that is read in the end has a group for the key, whatever follows the key. -/
theorem exists_content_of_read (nonempty : key.pattern ≠ "") (spaced : flags.spaced = false)
    (reads : PatternReads false (· = flags) (FlagsAfter options (· = flags.fold) (· = flags) key)
      (· = exprUnder flags key.pattern) (pinShorthands key.pattern).toList)
    (here : reader.At false 4 (· = flags))
    (read : (reader.read ((keySource options key).toList ++ rest)).bind Reader.finish = some done) :
    ∃ content, content ∈ done.level.expr.bodies (reader.opened + 1) ∧
      KeyContent options (· = flags.fold) (· = exprUnder flags key.pattern) key content := by
  have known : ∀ f : Flags, f = flags → f.fold = flags.fold ∧ f.spaced = false := by
    rintro _ rfl
    exact ⟨rfl, spaced⟩
  obtain ⟨last, read, finish⟩ := Option.bind_eq_some_iff.1 read
  rw [Reader.read_append] at read
  obtain ⟨next, first, others⟩ := Option.bind_eq_some_iff.1 read
  obtain ⟨_, ⟨_, rfl, shape⟩, -, adds⟩ :=
    (@reads_key _ (· = flags.fold) _ _ known false _ nofun (fun _ => reads) reader here).apply first
  obtain ⟨content, member, inside⟩ := shape.exists_body ⟨_, rfl⟩ nonempty
  refine ⟨content, ?_, inside⟩
  exact adds.has_of_finish (Expr.isRising_bodies _ content) List.mem_cons_self member others finish

end Group

/-! ### Validators of keys that are read -/

section Validator

variable {options : Options} {key : Key} {reader next : Reader} {rest : List Char}

/-- Where a repeated key with a text is read, its pattern is read at the beginning of a group. -/
theorem exists_isFresh_of_read (several : key.modifier.isRepeating = true)
    (affixed : ¬IsBare options key) (pinned : pinShorthands key.pattern ≠ "")
    (ready : reader.IsReady) (spaced : reader.flags.spaced = false)
    (read : reader.read ((keySource options key).toList ++ rest) = some next) :
    ∃ deep : Reader, deep.IsFresh ∧ deep.flags = reader.flags ∧ 0 < deep.frames.length ∧
      (deep.read (pinShorthands key.pattern).toList).isSome = true := by
  obtain ⟨others, chars⟩ : ∃ others, (keySource options key).toList ++ rest =
      ['(', '?', ':'] ++ ((escape (options.encodeLiteral key.lead)).toList ++
        ('(' :: '(' :: (['?', ':'] ++ ((pinShorthands key.pattern).toList ++ others)))) := by
    simp only [IsBare] at affixed
    simp [keySource, pinned, affixed, escape_eq_empty_iff, several]
  have enter {base : Reader} {text : List Char} (ready : base.IsReady)
      (read : base.read (['(', '?', ':'] ++ text) = some next) :
      (base.opening (.plain base.flags)).read text = some next := by
    rw [Reader.read_append, Reader.read_opens ready (.plain _)] at read
    split at read
    · exact read
    · cases read
  rw [chars] at read
  have inside := enter ready read
  rw [Reader.read_append, escape, String.toList_ofList] at inside
  obtain ⟨middle, text, adds, flags⟩ := @Reader.read_escapeWhere false
    (reader.opening (.plain reader.flags)) ⟨_, rfl⟩ spaced (options.encodeLiteral key.lead).toList
  rw [text, Option.bind_some, Reader.read_paren adds.ready (flags ▸ spaced) (by decide)] at inside
  split at inside
  · have within := @enter middle.capturing _ ⟨_, rfl⟩ inside
    rw [Reader.read_append] at within
    obtain ⟨last, found, -⟩ := Option.bind_eq_some_iff.1 within
    exact ⟨middle.capturing.opening (.plain middle.capturing.flags), ⟨rfl, rfl⟩, flags,
      Nat.succ_pos _, by rw [found]; rfl⟩
  · cases inside

/-- Where the pattern of a key is read at the beginning of a group, its validator compiles. -/
theorem exists_validator_of_isFresh (plain : isPlainUnder options.flags key.pattern = true)
    (fresh : reader.IsFresh) (spaced : reader.flags.spaced = false)
    (inside : 0 < reader.frames.length)
    (read : (reader.read (pinShorthands key.pattern).toList).isSome = true) :
    ∃ validator, Renderer.validator options.sensitive key = .ok validator := by
  have agree {f g : Flags} (blank : f.spaced = false) (blank' : g.spaced = false) :
      f.Agree .none g := ⟨blank'.trans blank.symm, fun h => absurd rfl h, nofun⟩
  obtain ⟨last, done, under, opened, later, -, -, plain'⟩ :=
    exists_readUnder (agree rfl spaced) plain rfl
  obtain ⟨alone, finish⟩ := readUnder?_eq_some_iff.1 under
  have within : ((Reader.enclosed options.flags).read (pinShorthands key.pattern).toList).isSome =
      true :=
    Reader.isSome_read_enclosed alone finish later.spaced plain' opened fresh rfl read
      (agree spaced rfl) inside
  obtain ⟨last', done', under', opened', same, -, -, plain''⟩ := isPlainUnder_pinned plain rfl
  obtain ⟨alone', finish'⟩ := readUnder?_eq_some_iff.1 under'
  have holds := Reader.holds_of_deeper alone' finish' (by rw [same]; rfl) plain'' opened'
    ⟨rfl, rfl⟩ rfl within
  have known : ∀ f : Flags, f = options.flags → f.lines = false := by
    rintro _ rfl
    rfl
  refine Renderer.exists_validator known rfl holds (Nat.sub_lt (by decide) Nat.one_pos) ?_
  rintro _ rfl
  exact Expr.isSettleable_of_isSimple (Expr.isSimple_of_isPlain plain'')

end Validator

/-! ### Values of repeated keys -/

/-- A key is reached in the source of its route: what stands before it is read as it should be, and
the key means there what it means on its own. -/
structure IsReached (options : Options) (before : List Token) (key : Key) (reader : Reader) :
    Prop where
  read : (Reader.begun options.sensitive).read ((if options.fromStart then "^" else "") ++
    String.join (before.map (tokenSource options))).toList = some reader
  ready : reader.IsReady
  unnamed : reader.names = []
  /-- Every key before it opened one group. -/
  counted : reader.opened = (capturingKeys before).length
  unspaced : reader.flags.spaced = false
  /-- The flags that were set on the way give the pattern of the key no further texts. -/
  values : ∀ w, valuesUnder reader.flags key w → valuesUnder options.flags key w
  /-- Only the separator itself can stand for it. -/
  separator : ∀ w, Language.spelled reader.flags.fold key.separator.toList w →
    w = key.separator.toList

/-- The pattern is complete on its own, has no capture group, and leaves the flags as they are. -/
def isNeutralUnder (flags : Flags) (pattern : String) : Bool :=
  (readUnder? flags (pinShorthands pattern)).any fun (last, _) =>
    last.opened = 0 && last.flags = flags

/-- The source of a route up to a key, the key, and the rest. -/
theorem exists_sourceOf_eq {options : Options} {before later : List Token} {key : Key} :
    ∃ rest, (sourceOf options (before ++ .key key :: later)).toList =
      ((if options.fromStart then "^" else "") ++
        String.join (before.map (tokenSource options))).toList ++
          ((keySource options key).toList ++ rest) := by
  simp [sourceOf, tokenSource]

/-- A neutral pattern reads in a group as it does on its own. -/
theorem patternReads_neutral {options : Options} {key : Key} (nonempty : key.pattern ≠ "")
    (neutral : isNeutralUnder options.flags key.pattern = true) :
    PatternReads false (· = options.flags)
      (FlagsAfter options (· = !options.sensitive) (· = options.flags) key)
      (· = exprUnder options.flags key.pattern) (pinShorthands key.pattern).toList := by
  obtain ⟨⟨last, done⟩, under, same⟩ := (Option.any_eq_true _ _).1 neutral
  obtain ⟨opened, same⟩ : last.opened = 0 ∧ last.flags = options.flags := by simpa using same
  refine ⟨PathTemplate.begins_pinned nonempty (readUnder?_eq_some_iff.1 under).1, nofun, ?_⟩
  refine (holds_readUnder under opened (by rw [same]; rfl)).mono ?_ ?_
  · rintro _ rfl _
    rw [same]
    exact ⟨fun _ => rfl, fun _ => ⟨rfl, rfl⟩⟩
  · rintro _ _ rfl
    rw [exprUnder, under]

/-- A key of a route is reached under the flags of the options if the patterns before it are neutral
and its separator has no other spelling. -/
theorem exists_isReached_under {options : Options} {before later : List Token} {key : Key}
    {route : Route}
    (neutral : ∀ other ∈ keysOf before, other.pattern ≠ "" →
      isNeutralUnder options.flags other.pattern = true)
    (only : ∀ w, Language.spelled (!options.sensitive) key.separator.toList w →
      w = key.separator.toList)
    (made : ofTokens options (before ++ .key key :: later) = .ok route) :
    ∃ reader, IsReached options before key reader ∧ reader.flags = options.flags := by
  obtain ⟨compiled, -, -⟩ := compile?_of_compile (delimiter_of_ofTokens made).2
  obtain ⟨done, read, -⟩ := exists_read_of_compile? compiled
  obtain ⟨last, read, -⟩ := Option.bind_eq_some_iff.1 read
  obtain ⟨rest, source⟩ := @exists_sourceOf_eq options before later key
  rw [source, Reader.read_append] at read
  obtain ⟨reader, reached, -⟩ := Option.bind_eq_some_iff.1 read
  have known : ∀ f : Flags, f = options.flags →
      f.fold = (!options.sensitive) ∧ f.lines = false ∧ f.spaced = false := by
    rintro _ rfl
    exact ⟨rfl, rfl, rfl⟩
  have text := @reads_front options _ (· = false) _
    (fun other x => x = exprUnder options.flags other.pattern) false before known nofun
    (fun other member nonempty => patternReads_neutral nonempty (neutral other member nonempty)) rfl
  have here : (Reader.begun options.sensitive).At false 4 (· = options.flags) := by
    unfold Options.flags
    cases options.sensitive <;> exact ⟨⟨_, rfl⟩, rfl, rfl, nofun⟩
  obtain ⟨_, -, flags, adds⟩ := (text _ here).apply reached
  have opened : (Reader.begun options.sensitive).opened = 0 := by
    cases options.sensitive <;> rfl
  refine ⟨reader,
    ⟨reached, adds.ready, adds.names.trans here.names, ?_, by rw [flags]; rfl, ?_, ?_⟩, flags⟩
  · rw [adds.opened, opened, Nat.zero_add]
  · rw [flags]
    exact fun _ => id
  · rw [flags]
    exact only

theorem exists_isReached {options : Options} {before later : List Token} {key : Key} {route : Route}
    (neutral : ∀ other ∈ keysOf before, other.pattern ≠ "" →
      isNeutralUnder options.flags other.pattern = true)
    (only : ∀ w, Language.spelled (!options.sensitive) key.separator.toList w →
      w = key.separator.toList)
    (made : ofTokens options (before ++ .key key :: later) = .ok route) :
    ∃ reader, IsReached options before key reader :=
  (exists_isReached_under neutral only made).imp fun _ => And.left

section Reached

variable {options : Options} {before later : List Token} {key : Key} {reader : Reader}
  {expression : Expression} (reached : IsReached options before key reader)
  (plain : isPlainUnder options.flags key.pattern = true)
  (compiled : Expression.compile?
    (flagged options.sensitive (sourceOf options (before ++ .key key :: later))) = some expression)
include reached

theorem IsReached.agree : options.flags.Agree .none reader.flags :=
  ⟨reached.unspaced, fun other => absurd rfl other, nofun⟩

include plain in
theorem IsReached.isPlain_exprUnder : (exprUnder reader.flags key.pattern).isPlain = true := by
  obtain ⟨_, _, _, _, _, _, expr, plain⟩ := exists_readUnder reached.agree plain rfl
  rw [expr]
  exact plain

include compiled in
/-- From where a key is reached, the key is read and what stands after it. -/
theorem IsReached.exists_read : ∃ rest done,
    (reader.read ((keySource options key).toList ++ rest)).bind Reader.finish = some done ∧
      done.level.expr.Settles expression.expr := by
  obtain ⟨done, read, settled⟩ := exists_read_of_compile? compiled
  obtain ⟨rest, source⟩ := @exists_sourceOf_eq options before later key
  rw [source, Reader.read_append, reached.read, Option.bind_some] at read
  exact ⟨rest, done, read, Expr.settles_of_settled? settled⟩

variable (several : key.modifier.isRepeating = true) (nonempty : key.pattern ≠ "")
include plain several nonempty

theorem IsReached.patternReads :
    PatternReads false (· = reader.flags)
      (FlagsAfter options (· = reader.flags.fold) (· = reader.flags) key)
      (· = exprUnder reader.flags key.pattern) (pinShorthands key.pattern).toList :=
  patternReads_repeating several nonempty plain reached.agree reached.unspaced

include compiled

/-- The validator of a key that is reached compiles. -/
theorem IsReached.exists_validator (affixed : ¬IsBare options key) :
    ∃ validator, Renderer.validator options.sensitive key = .ok validator := by
  obtain ⟨rest, done, read, -⟩ := reached.exists_read compiled
  obtain ⟨last, read, -⟩ := Option.bind_eq_some_iff.1 read
  obtain ⟨deep, fresh, flags, inside, within⟩ := exists_isFresh_of_read several affixed
    (reached.patternReads plain several nonempty).pinned_ne reached.ready reached.unspaced read
  exact exists_validator_of_isFresh plain fresh (flags ▸ reached.unspaced) inside within

/-- What its group captures is covered by what stands in the group. -/
theorem IsReached.exists_covers {text w : List Char} {start stop : Place}
    (search : expression.expr.search? text = some (start, stop))
    (filled : stop.slots (reader.opened + 1) = some w) :
    ∃ content front back,
      KeyContent options (· = reader.flags.fold) (· = exprUnder reader.flags key.pattern) key
        content ∧ content.Covers front w back := by
  obtain ⟨rest, done, read, settles⟩ := reached.exists_read compiled
  obtain ⟨content, member, inside⟩ := exists_content_of_read nonempty reached.unspaced
    (reached.patternReads plain several nonempty)
    ⟨reached.ready, reached.unnamed, rfl, nofun⟩ read
  have distinct : done.level.expr.groups.Nodup := by
    rw [← settles.groups, (Expression.groups_of_compile? compiled).2]
    exact List.nodup_range'
  have simple : content.isSimple = true := inside.isSimple fun _ same => by
    rw [same]
    exact Expr.isSimple_of_isPlain (reached.isPlain_exprUnder plain)
  obtain ⟨front, back, covered⟩ :=
    Expr.exists_covers_of_search? settles distinct member simple search filled
  exact ⟨content, front, back, inside, covered⟩

/-- Its group captures texts that its validator accepts, with the text between them that the
expression has there, where nothing else can stand for this text. -/
theorem IsReached.exists_texts {text w : List Char} {start stop : Place}
    (affixed : ¬IsBare options key)
    (only : ∀ v, Language.spelled reader.flags.fold (joint options key).toList v →
      v = (joint options key).toList)
    (search : expression.expr.search? text = some (start, stop))
    (filled : stop.slots (reader.opened + 1) = some w) :
    ∃ first others validator, w = (joint options key).toList.intercalate (first :: others) ∧
      Renderer.validator options.sensitive key = .ok validator ∧
        ∀ u ∈ first :: others, validator.isMatch (String.ofList u) = true := by
  obtain ⟨content, front, back, inside, covered⟩ :=
    reached.exists_covers plain compiled several nonempty search filled
  obtain ⟨first, others, rfl, all⟩ := inside.exists_intercalate several affixed
    (reached.isPlain_exprUnder plain) only covered
  obtain ⟨validator, prepared⟩ :=
    reached.exists_validator plain compiled several nonempty affixed
  have plainKey : IsPlainKey options key := fun _ => plain
  refine ⟨first, others, validator, rfl, prepared, fun u member => ?_⟩
  rw [plainKey.accepts prepared, String.toList_ofList]
  exact reached.values u (all u member)

end Reached

section Values

variable {options : Options} {pattern path : String} {before later : List Token} {key : Key}
  {reader : Reader} {matcher : Matcher} {found : PathMatch} {value : Value} {c : Char}
  {tail : List Char}

/-- A key that has a value is not a decoration: no key that captures has the name of one. -/
theorem pattern_ne_of_get? {tokens : List Token} {decode : String → Key → String}
    {group? : Nat → Option String} (parsed : tokensOf options pattern = .ok tokens)
    (member : key ∈ keysOf tokens)
    (present : (Params.ofList (Matcher.bindings decode group? 1 (capturingKeys tokens))).get?
      key.name = some value) : key.pattern ≠ "" := by
  intro decoration
  have names := @Matcher.names_bindings decode group? 1 (capturingKeys tokens)
  have empty := (name_eq_empty_iff_of_tokensOf parsed key member).2 decoration
  have bound : key.name ∈ (capturingKeys tokens).map Key.name := by
    refine names.subset (Decidable.not_not.1 fun absent => ?_)
    rw [Params.get?_ofList (names.nodup (nodup_names_of_tokensOf parsed)),
      Params.lookup_eq_none_of_notMem absent] at present
    cases present
  obtain ⟨other, captures, same⟩ := List.mem_map.1 bound
  obtain ⟨there, nonempty⟩ := List.mem_filter.1 captures
  rw [Key.isCapturing, (name_eq_empty_iff_of_tokensOf parsed other there).1 (same.trans empty)]
    at nonempty
  cases nonempty

/-- The value of a key that captures is the one of what its group captured. -/
theorem exists_slots_of_run {route : Route}
    (parsed : tokensOf options pattern = .ok (before ++ .key key :: later))
    (keys : route.keys = capturingKeys (before ++ .key key :: later))
    (run : (Matcher.ofRoute options route).run path = some found)
    (present : found.params.get? key.name = some value) :
    key.pattern ≠ "" ∧ ∃ start stop w,
      route.expression.expr.search? path.toList = some (start, stop) ∧
        stop.slots ((capturingKeys before).length + 1) = some w ∧
          value = key.value options.decodeValue (String.ofList w) := by
  obtain ⟨captures, captured, rfl⟩ := Option.map_eq_some_iff.1 run
  obtain ⟨⟨start, stop⟩, search, rfl⟩ := Option.map_eq_some_iff.1 captured
  simp only [Matcher.ofRoute, keys] at present search
  have nonempty := pattern_ne_of_get? parsed (by simp [keysOf, Token.key?]) present
  have place : (capturingKeys (before ++ .key key :: later))[(capturingKeys before).length]? =
      some key := by
    have capturing : key.isCapturing = true := by simp [Key.isCapturing, nonempty]
    simp [capturingKeys, keysOf, Token.key?, capturing]
  rw [Matcher.get?_bindings (nodup_names_of_tokensOf parsed) place, Nat.add_comm] at present
  obtain ⟨_, group, rfl⟩ := Option.map_eq_some_iff.1 present
  obtain ⟨capture, filled, rfl⟩ := Option.map_eq_some_iff.1 group
  exact ⟨nonempty, start, stop, capture.text, search, congrArg (Option.map Capture.text) filled,
    rfl⟩

/-- A key that is reached is taken apart where it was put together: each value is one that the
validator of the key accepts. -/
theorem exists_values_of_run (literal : ∀ text, options.encodeLiteral text = text)
    (decode : ∀ text key, options.decodeValue text key = text)
    (parsed : tokensOf options pattern = .ok (before ++ .key key :: later))
    (several : key.modifier.isRepeating = true) (begins : key.separator.toList = c :: tail)
    (plain : isPlainUnder options.flags key.pattern = true)
    (free : ∀ validator, Renderer.validator options.sensitive key = .ok validator →
      ∀ text : String, validator.isMatch text = true → c ∉ text.toList)
    (reached : IsReached options before key reader)
    (made : Matcher.ofInput options (.pattern pattern) = .ok matcher)
    (run : matcher.run path = some found) (present : found.params.get? key.name = some value) :
    ∃ values validator, value = .repeated values ∧
      Renderer.validator options.sensitive key = .ok validator ∧
        ∀ text ∈ values, validator.isMatch text = true := by
  have joins := joint_eq_separator literal key
  have affixed : ¬IsBare options key := by
    rw [isBare_iff, joins]
    intro none
    rw [none] at begins
    cases begins
  obtain ⟨route, compiled, rfl⟩ := ofInput_pattern parsed made
  obtain ⟨compiled, -, keys⟩ := compile?_of_compile (delimiter_of_ofTokens compiled).2
  -- What the group captured are accepted values with the separator between them, ...
  obtain ⟨nonempty, start, stop, w, search, filled, rfl⟩ :=
    exists_slots_of_run parsed keys run present
  obtain ⟨first, others, validator, rfl, prepared, accepted⟩ := reached.exists_texts plain compiled
    several nonempty affixed (joins ▸ reached.separator) search (reached.counted ▸ filled)
  -- ... in which the separator cannot begin.
  rw [joins]
  have apart := Key.occurrences_intercalate begins fun u member => by
    simpa using free validator prepared _ (accepted u member)
  refine ⟨(first :: others).map String.ofList, validator, ?_, prepared, ?_⟩
  · rw [Key.value, if_pos several, apart]
    simp [decode]
  · simpa using accepted

/-- The validator of a key whose pattern is one set accepts single characters of the set. -/
theorem exists_char_of_isMatch {set : CharSet} {validator : Expression} {text : String}
    (plain : isPlainUnder options.flags key.pattern = true)
    (one : exprUnder options.flags key.pattern = .one set)
    (made : Renderer.validator options.sensitive key = .ok validator)
    (accepted : validator.isMatch text = true) :
    ∃ d, text.toList = [d] ∧ set.contains d = true := by
  have plainKey : IsPlainKey options key := fun _ => plain
  rw [plainKey.accepts made, valuesUnder, one] at accepted
  exact accepted

/-- What is not in the set is in no text that such a validator accepts. -/
theorem notMem_of_isMatch {set : CharSet} {validator : Expression} {text : String}
    (plain : isPlainUnder options.flags key.pattern = true)
    (one : exprUnder options.flags key.pattern = .one set) (outside : set.contains c = false)
    (made : Renderer.validator options.sensitive key = .ok validator)
    (accepted : validator.isMatch text = true) : c ∉ text.toList := by
  obtain ⟨d, chars, belongs⟩ := exists_char_of_isMatch plain one made accepted
  rw [chars, List.mem_singleton]
  rintro rfl
  rw [outside] at belongs
  cases belongs

/-- A delimiter separates values after another key. It is escaped, so that it has no other
spelling. -/
theorem exists_values_of_run_rest :
    let options : Options := { strict := true }
    let key : Key :=
      { name := .explicit "rest", lead := "/", pattern := "[x-z]", modifier := .oneOrMore }
    ∃ matcher found, Matcher.ofInput options (.pattern "/([a-c])/:rest([x-z])+") = .ok matcher ∧
      matcher.run "/B/x/Y" = some found ∧
      found.params.get? key.name = some (.repeated ["x", "Y"]) ∧
      ∃ validator, Renderer.validator options.sensitive key = .ok validator ∧
        validator.isMatch "x" = true ∧ validator.isMatch "Y" = true := by
  intro options key
  let first : Key := { name := .ordinal 0, lead := "/", pattern := "[a-c]" }
  have parsed : tokensOf options "/([a-c])/:rest([x-z])+" =
      .ok ([.key first] ++ .key key :: []) := by decide +kernel
  have matches_ : (Matcher.ofInput options (.pattern "/([a-c])/:rest([x-z])+")).toOption.any
      (fun matcher => matcher.unrolls && (matcher.unroll "/B/x/Y").any fun found =>
        found.params.get? key.name = some (.repeated ["x", "Y"])) = true := by
    decide +kernel
  obtain ⟨matcher, found, made, run, present⟩ := Matcher.exists_run_of_unroll matches_
  obtain ⟨route, compiled, -⟩ := ofInput_pattern parsed made
  have begins : key.separator.toList = ['/'] := by decide +kernel
  obtain ⟨reader, reached⟩ := exists_isReached (by decide +kernel)
    (by rw [begins]; exact fun _ =>
      Language.eq_of_spelled_escaped (List.forall_mem_singleton.2 (by decide))) compiled
  have plain : isPlainUnder options.flags key.pattern = true := by decide +kernel
  have one : exprUnder options.flags key.pattern =
      .one (.folded (.union .none (.range 'x' 'z'))) := by decide +kernel
  have free (validator : Expression)
      (prepared : Renderer.validator options.sensitive key = .ok validator)
      (text : String) : validator.isMatch text = true → '/' ∉ text.toList :=
    notMem_of_isMatch plain one (by decide +kernel) prepared
  obtain ⟨_, validator, same, prepared, accepted⟩ := exists_values_of_run (fun _ => rfl)
    (fun _ _ => rfl) parsed rfl begins plain free reached made run present
  cases same
  exact ⟨matcher, found, made, run, present, validator, prepared, accepted _ (by simp),
    accepted _ (by simp)⟩

/-- A letter as the separator may stand in the path in the other case. There the matcher does not
take apart what the expression put together. -/
theorem exists_values_not_accepted :
    let options : Options := { strict := true }
    let key : Key := { name := .ordinal 0, lead := "x", pattern := "[a-c]", modifier := .oneOrMore }
    tokensOf options "\x7bx([a-c])\x7d+" = .ok [.key key] ∧
      isPlainUnder options.flags key.pattern = true ∧
      ∃ matcher found validator,
        Matcher.ofInput options (.pattern "\x7bx([a-c])\x7d+") = .ok matcher ∧
        matcher.run "xaXb" = some found ∧
        found.params.get? key.name = some (.repeated ["aXb"]) ∧
        Renderer.validator options.sensitive key = .ok validator ∧
        (∀ text : String, validator.isMatch text = true → 'x' ∉ text.toList) ∧
        validator.isMatch "aXb" = false := by
  intro options key
  have parsed : tokensOf options "\x7bx([a-c])\x7d+" = .ok [.key key] := by decide +kernel
  have plain : isPlainUnder options.flags key.pattern = true := by decide +kernel
  have one : exprUnder options.flags key.pattern =
      .one (.folded (.union .none (.range 'a' 'c'))) := by decide +kernel
  have matches_ : (Matcher.ofInput options (.pattern "\x7bx([a-c])\x7d+")).toOption.any
      (fun matcher => matcher.unrolls && (matcher.unroll "xaXb").any fun found =>
        found.params.get? key.name = some (.repeated ["aXb"])) = true := by
    decide +kernel
  obtain ⟨matcher, found, made, run, present⟩ := Matcher.exists_run_of_unroll matches_
  have compiles : (Renderer.validator options.sensitive key).toOption.isSome = true := by
    decide +kernel
  obtain ⟨validator, compiled⟩ := Option.isSome_iff_exists.1 compiles
  have prepared := toOption_eq_some_iff.1 compiled
  refine ⟨parsed, plain, matcher, found, validator, made, run, present, prepared, ?_, ?_⟩
  · exact fun text => notMem_of_isMatch plain one (by decide +kernel) prepared
  · refine Bool.eq_false_iff.2 fun accepted => ?_
    obtain ⟨d, chars, -⟩ := exists_char_of_isMatch plain one prepared accepted
    cases chars

end Values

end Route

end PathTemplate
