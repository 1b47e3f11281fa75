/-
Custom patterns of digits and word characters.

Where `\d` and `\w` are all that a custom pattern is made of, what is written in their place has
characters of ASCII alone, as long as letter case matters or the pattern has only digits: a class of
ASCII letters has characters of other scripts as soon as letter case does not matter.

* `isShorthandsUnder`: the patterns that this is about.
* `isAscii_of_valuesUnder`: such a pattern covers ASCII alone.
* `Key.isAscii_value`: so does every occurrence in a value of its key, if the key does not repeat or
  the text between two occurrences is found again.
* `isAscii_of_run_and_render`: no other text gets through a matcher or a validating renderer.
* `exists_value_not_ascii`: the Kelvin sign does where letter case does not matter.
-/

import PathTemplate.Proofs.Reading.Pinned
import PathTemplate.Proofs.Route.Contents
import PathTemplate.Proofs.Token.Recognition

namespace PathTemplate

/-- The texts of a value, one for each occurrence. -/
def Value.occurrences : Value → List String
  | .single text => [text]
  | .repeated texts => texts

/-! ### Expressions of shorthands -/

namespace CharSet

/-- The set consists of digits and, where letter case matters, of word characters. -/
def isShorthands : (cased : Bool) → CharSet → Bool
  | _, .none | _, .digit => true
  | cased, .word => cased
  | cased, .union a b => a.isShorthands cased && b.isShorthands cased
  | _, .folded a => a.isShorthands false
  | _, _ => false

/-- Narrowed, such a set has digits and word characters of ASCII only. -/
theorem contains_of_isShorthands {cased : Bool} {set : CharSet} {c : Char}
    (only : set.isShorthands cased = true) (has : set.narrowed.contains c = true) :
    c.isDigit = true ∨ cased = true ∧ asciiWord.contains c = true := by
  induction set generalizing cased c with
  | none => cases has
  | digit => exact .inl (contains_digits c ▸ has)
  | word => exact .inr ⟨only, has⟩
  | union a b iha ihb =>
    rw [isShorthands, Bool.and_eq_true] at only
    rw [narrowed, contains, Bool.or_eq_true] at has
    exact has.elim (iha only.1) (ihb only.2)
  | folded a ih =>
    rw [narrowed, contains, List.any_eq_true] at has
    obtain ⟨d, alike, has⟩ := has
    rw [isShorthands] at only
    have digit : d.isDigit = true := (ih only has).resolve_right fun word =>
      Bool.false_ne_true word.1
    exact .inl (isDigit_of_mem_caseOrbit alike ▸ digit)
  | _ => cases only

theorem toNat_lt_of_asciiWord {c : Char} (word : asciiWord.contains c = true) :
    c.toNat < 0x80 := by
  simp only [asciiWord, ofRanges, List.foldr, contains, Char.le_def, UInt32.le_iff_toNat_le,
    Bool.or_eq_true, Bool.and_eq_true, decide_eq_true_eq] at word
  change c.val.toNat < 0x80
  rcases word with ⟨-, most⟩ | ⟨-, most⟩ | ⟨-, most⟩ | ⟨-, most⟩ | none
  · exact Nat.lt_of_le_of_lt most (by decide)
  · exact Nat.lt_of_le_of_lt most (by decide)
  · exact Nat.lt_of_le_of_lt most (by decide)
  · exact Nat.lt_of_le_of_lt most (by decide)
  · cases none

theorem toNat_lt_of_isShorthands {cased : Bool} {set : CharSet} {c : Char}
    (only : set.isShorthands cased = true) (has : set.narrowed.contains c = true) :
    c.toNat < 0x80 := by
  rcases contains_of_isShorthands only has with digit | ⟨-, word⟩
  · have range := isDigit_iff.1 digit
    omega
  · exact toNat_lt_of_asciiWord word

end CharSet

/-- What holds of the characters of all passes holds of those of the whole text. -/
theorem Repeats.forall_mem {part : Fit} {count : Nat} {holds : Char → Prop}
    {before w after : List Char} (each : ∀ before w after, part before w after → ∀ c ∈ w, holds c)
    (passes : Repeats part count before w after) : ∀ c ∈ w, holds c := by
  induction count generalizing before w with
  | zero =>
    obtain rfl : w = [] := passes
    exact List.forall_mem_nil _
  | succ count ih =>
    obtain ⟨u, v, rfl, first, others⟩ := passes
    exact List.forall_mem_append.2 ⟨each _ _ _ first, ih others⟩

namespace Expr

/-- The expression consists of sets of digits and word characters, in sequences, choices and
loops. -/
def isShorthands : Expr → Bool
  | .empty => true
  | .one set => set.isShorthands true
  | .seq a b | .alt a b => a.isShorthands && b.isShorthands
  | .loop _ _ _ _ a => a.isShorthands
  | _ => false

/-- Narrowed, such an expression covers ASCII alone. -/
theorem Narrows.isAscii {e e' : Expr} {before w after : List Char} (narrows : e.Narrows e')
    (only : e.isShorthands = true) (covered : e'.Covers before w after) : IsAscii w := by
  induction narrows generalizing before w after with
  | empty =>
    obtain rfl : w = [] := covered
    exact List.forall_mem_nil _
  | one same =>
    obtain ⟨c, rfl, has⟩ := covered
    rw [same] at has
    exact List.forall_mem_singleton.2 (CharSet.toNat_lt_of_isShorthands only has)
  | seq _ _ iha ihb =>
    rw [isShorthands, Bool.and_eq_true] at only
    obtain ⟨u, v, rfl, first, second⟩ := covered
    exact List.forall_mem_append.2 ⟨iha only.1 first, ihb only.2 second⟩
  | alt _ _ iha ihb =>
    rw [isShorthands, Bool.and_eq_true] at only
    exact covered.elim (iha only.1) (ihb only.2)
  | loop _ _ _ _ _ ih =>
    obtain ⟨count, -, passes⟩ := covered
    exact passes.forall_mem fun _ _ _ => ih only
  | _ => cases only

end Expr

/-! ### Patterns of shorthands -/

/-- Read under the flags, the pattern consists of shorthands for digits and word characters, alone
or in classes, in sequences, choices, groups that capture nothing and loops; and what stands for the
shorthands, once they are pinned, means the same as they do. -/
def isShorthandsUnder (flags : Flags) (pattern : String) : Bool :=
  isPlainUnder flags pattern && ({ flags } : Reader).isPinnableFrom false pattern.toList &&
    (readUnder? flags pattern).any fun (_, done) => done.level.expr.isShorthands

theorem isPlainUnder_of_isShorthandsUnder {flags : Flags} {pattern : String}
    (only : isShorthandsUnder flags pattern = true) : isPlainUnder flags pattern = true := by
  rw [isShorthandsUnder, Bool.and_eq_true, Bool.and_eq_true] at only
  exact only.1.1

/-- Pinned, such a pattern reads as an expression that covers ASCII alone. -/
theorem isAscii_of_covers_exprUnder {flags : Flags} {pattern : String} {before w after : List Char}
    (only : isShorthandsUnder flags pattern = true)
    (covered : (exprUnder flags pattern).Covers before w after) : IsAscii w := by
  rw [isShorthandsUnder, Bool.and_eq_true, Bool.and_eq_true] at only
  obtain ⟨⟨-, pinnable⟩, only⟩ := only
  obtain ⟨⟨last, done⟩, under, only⟩ := (Option.any_eq_true _ _).1 only
  obtain ⟨read, finish⟩ := readUnder?_eq_some_iff.1 under
  have reads := (Reader.narrows_self flags).pinFrom rfl pinnable
  rw [read] at reads
  obtain ⟨last', read', narrows⟩ := exists_of_rel reads
  have ends := narrows.finish
  rw [finish] at ends
  obtain ⟨done', finish', narrows⟩ := exists_of_rel ends
  have under' : readUnder? flags (pinShorthands pattern) = some (last', done') := by
    rw [readUnder?_eq_some_iff, pinShorthands, String.toList_ofList]
    exact ⟨read', finish'⟩
  rw [exprUnder, under'] at covered
  exact narrows.level.expr.isAscii only covered

example : isShorthandsUnder { fold := true } "(?:\\d{2}|[\\d])+?" = true ∧
    isShorthandsUnder {} "(?:\\w{2,}|[_\\d]x)*" = false ∧
    isShorthandsUnder { fold := true } "\\w" = false := by
  decide +kernel

/-! ### Values -/

/-- The pieces of a text have no characters that the text has not. -/
theorem subset_of_mem_pieces {separator piece text : List Char} {covered : Nat}
    (member : piece ∈ pieces separator covered text) : piece ⊆ text := by
  fun_induction pieces separator covered text generalizing piece with
  | case1 =>
    obtain rfl := List.mem_singleton.1 member
    exact List.Subset.refl _
  | case2 covered c rest ih => exact List.subset_cons_of_subset _ (ih member)
  | case3 c rest found ih =>
    rcases List.mem_cons.1 member with rfl | member
    · exact List.nil_subset _
    · exact List.subset_cons_of_subset _ (ih member)
  | case4 c rest absent none => exact absurd none (pieces_ne_nil _ _)
  | case5 c rest absent first others more ih =>
    rw [more] at ih
    rcases List.mem_cons.1 member with rfl | member
    · exact List.cons_subset_cons _ (ih List.mem_cons_self)
    · exact List.subset_cons_of_subset _ (ih (List.mem_cons_of_mem _ member))

section Texts

variable {separator w : List Char} {values alike : Language}

/-- Texts of ASCII with the separator between them, which may stand there in other spelling if that
is ASCII, are texts of ASCII with the separator itself between them. -/
theorem exists_intercalate_of_isAscii (ascii : ∀ v, values v → IsAscii v)
    (spelled : ∀ s, alike s → s = separator ∨ IsAscii s)
    (holds : values.then_ ((alike.then_ values).repeated .zeroOrMore) w) :
    ∃ first others, w = separator.intercalate (first :: others) ∧
      ∀ u ∈ first :: others, IsAscii u := by
  obtain ⟨first, _, rfl, value, texts, -, all, rfl⟩ := holds
  induction texts generalizing first with
  | nil => exact ⟨first, [], by simp [List.intercalate], by simpa using ascii _ value⟩
  | cons text texts ih =>
    obtain ⟨⟨s, v, rfl, same, value'⟩, further⟩ := List.forall_mem_cons.1 all
    obtain ⟨next, others, whole, each⟩ := ih v value' further
    rw [List.flatten_cons, List.append_assoc, whole]
    rcases spelled s same with rfl | also
    · refine ⟨first, next :: others, ?_, List.forall_mem_cons.2 ⟨ascii _ value, each⟩⟩
      rw [intercalate_cons (List.cons_ne_nil _ _)]
    · obtain ⟨here, each⟩ := List.forall_mem_cons.1 each
      refine ⟨first ++ (s ++ next), others, ?_, List.forall_mem_cons.2 ⟨?_, each⟩⟩
      · simp only [intercalate_eq_append, List.append_assoc]
      · exact List.forall_mem_append.2 ⟨ascii _ value, List.forall_mem_append.2 ⟨also, here⟩⟩

end Texts

/-- A separator that is not ASCII is found where it stands between texts of ASCII. -/
theorem Key.isAscii_of_occurrences {key : Key} {first : List Char} {others : List (List Char)}
    (ascii : ∀ u ∈ first :: others, IsAscii u) : ∀ text ∈ key.occurrences
      (String.ofList (key.separator.toList.intercalate (first :: others))), IsAscii text.toList := by
  cases marks : key.separator.toList.find? fun c => 0x80 ≤ c.toNat with
  | some mark =>
    obtain ⟨marked, front, tail, split, before⟩ := List.find?_eq_some_iff_append.1 marks
    have apart := @Key.occurrences_intercalate_of_mark key (·.toNat < 0x80) mark front tail first
      others split (by simpa using before) (by simpa using marked) ascii
    rw [apart]
    simpa using ascii
  | none =>
    have plain : IsAscii key.separator.toList := by simpa [IsAscii] using marks
    have whole : IsAscii (key.separator.toList.intercalate (first :: others)) := by
      rw [intercalate_eq_append]
      refine List.forall_mem_append.2 ⟨ascii _ List.mem_cons_self, fun c member => ?_⟩
      obtain ⟨_, among, member⟩ := List.mem_flatten.1 member
      obtain ⟨u, other, rfl⟩ := List.mem_map.1 among
      exact (List.mem_append.1 member).elim (plain c) (ascii u (List.mem_cons_of_mem _ other) c)
    rw [Key.occurrences]
    split
    · simpa using whole
    · rw [String.toList_ofList]
      intro text member
      obtain ⟨piece, among, rfl⟩ := List.mem_map.1 member
      rw [String.toList_ofList]
      exact fun c inside => whole c (subset_of_mem_pieces among inside)

namespace Route

-- `exprUnder` unfolds to a run of the reader, which no proof about what it covers carries out.
attribute [local irreducible] exprUnder

/-- The pattern of the key consists of shorthands. If the key repeats, nothing but ASCII can stand
for the text between two occurrences where this text itself does not stand. -/
structure HasShorthands (options : Options) (key : Key) : Prop where
  pattern : isShorthandsUnder options.flags key.pattern = true
  separator : key.modifier.isRepeating = true → ∀ w,
    Language.spelled (!options.sensitive) key.separator.toList w →
      w = key.separator.toList ∨ IsAscii w

section Keys

variable {options : Options} {key : Key} {content : Expr} {before w after : List Char}

/-- The group of a key that stands alone covers ASCII. -/
theorem KeyContent.isAscii (only : isShorthandsUnder options.flags key.pattern = true)
    (alone : key.modifier.isRepeating = false ∨ IsBare options key)
    (inside : KeyContent options (· = options.flags.fold)
      (· = exprUnder options.flags key.pattern) key content)
    (covered : content.Covers before w after) : IsAscii w := by
  cases inside with
  | single _ same => exact isAscii_of_covers_exprUnder only (same ▸ covered)
  | bareRepeated greedy _ _ same =>
    subst same
    have passes {least : Nat} {most : Option Nat} (covered : (Expr.loop least most greedy .refused
        (exprUnder options.flags key.pattern)).Covers before w after) : IsAscii w := by
      obtain ⟨count, -, passes⟩ := covered
      exact passes.forall_mem fun _ _ _ => isAscii_of_covers_exprUnder only
    cases modifier : key.modifier <;> rw [modifier] at covered
    · exact isAscii_of_covers_exprUnder only covered
    · exact passes covered
    · exact passes covered
    · exact passes covered
  | affixedRepeated _ affixed several =>
    rcases alone with single | bare
    · rw [several] at single
      cases single
    · exact absurd bare affixed

/-- Every occurrence in what the group of the key covers is ASCII. -/
theorem HasShorthands.isAscii_value (has : HasShorthands options key)
    (literal : ∀ text, options.encodeLiteral text = text)
    (decode : ∀ text key, options.decodeValue text key = text)
    (inside : KeyContent options (· = options.flags.fold)
      (· = exprUnder options.flags key.pattern) key content)
    (covered : content.Covers before w after) :
    ∀ text ∈ (key.value options.decodeValue (String.ofList w)).occurrences,
      IsAscii text.toList := by
  by_cases several : key.modifier.isRepeating = true
  · obtain ⟨first, others, rfl, ascii⟩ : ∃ first others,
        w = key.separator.toList.intercalate (first :: others) ∧
          ∀ u ∈ first :: others, IsAscii u := by
      by_cases bare : IsBare options key
      · refine ⟨w, [], by simp [List.intercalate], List.forall_mem_singleton.2 ?_⟩
        exact inside.isAscii has.pattern (.inr bare) covered
      · obtain ⟨_, _, _, _, _, _, expr, plain⟩ :=
          isPlainUnder_pinned (isPlainUnder_of_isShorthandsUnder has.pattern) rfl
        have holds := inside.holds_then several bare (expr ▸ plain) covered
        rw [joint_eq_separator literal] at holds
        exact exists_intercalate_of_isAscii
          (fun _ value => isAscii_of_covers_exprUnder has.pattern value)
          (has.separator several) holds
    have apart := @Key.isAscii_of_occurrences key _ _ ascii
    simpa [Key.value, several, Value.occurrences, decode] using apart
  · have single := Bool.eq_false_iff.2 several
    have ascii := inside.isAscii has.pattern (.inl single) covered
    simpa [Key.value, several, Value.occurrences, decode] using ascii

end Keys

/-! ### Matchers and renderers -/

section Values

variable {options : Options} {route : Route} {path : String} {found : PathMatch} {name : Name}
  {value : Value}

/-- A value in a match is that of what the group of one of the keys captured. -/
theorem exists_slots_of_get? (run : (Matcher.ofRoute options route).run path = some found)
    (present : found.params.get? name = some value) :
    ∃ i key start stop w, route.keys[i]? = some key ∧ key.name = name ∧
      route.expression.expr.search? path.toList = some (start, stop) ∧
      stop.slots (i + 1) = some w ∧
      key.value options.decodeValue (String.ofList w) = value := by
  obtain ⟨captures, captured, rfl⟩ := Option.map_eq_some_iff.1 run
  obtain ⟨start, stop, search, groups⟩ := exists_search_of_captures? captured
  obtain ⟨i, key, captured, place, filled, same, rfl⟩ :=
    Matcher.exists_of_mem_bindings (Params.mem_of_get?_ofList present)
  rw [groups, Nat.add_comm] at filled
  obtain ⟨w, slot, rfl⟩ := Option.map_eq_some_iff.1 filled
  exact ⟨i, key, start, stop, w, place, same, search, slot, rfl⟩

/-- Every occurrence that is rendered for a key of shorthands is ASCII. -/
theorem isAscii_of_render {tokens : List Token} {renderer : Renderer} {params : Params} {key : Key}
    (encode : ∀ text key, options.encodeValue text key = text) (validated : options.validate = true)
    (prepared : Renderer.ofTokens options tokens = .ok renderer) (member : .key key ∈ tokens)
    (only : isShorthandsUnder options.flags key.pattern = true)
    (rendered : renderer.render params = .ok path) (present : params.get? key.name = some value) :
    ∀ text ∈ value.occurrences, IsAscii text.toList := by
  obtain ⟨texts, written, -⟩ := exists_written_of_render validated prepared rendered
  obtain ⟨text, -, validator, made, wrote⟩ := exists_of_forall₂_left written member
  have plain : IsPlainKey options key := fun _ => isPlainUnder_of_isShorthandsUnder only
  have accepts (text : String)
      (passed : Renderer.passes (some validator) (options.encodeValue text key) = true) :
      IsAscii text.toList := by
    rw [encode] at passed
    exact isAscii_of_covers_exprUnder only ((plain.accepts made text).1 passed)
  rw [present] at wrote
  unfold Renderer.renderKey at wrote
  split at wrote
  · rename_i given same
    cases same
    split at wrote
    · cases wrote
    · split at wrote
      · cases wrote
      · exact fun text inside => accepts text ((renderRepeated_eq_ok wrote).1 text inside)
  · rename_i given same
    cases same
    simp only at wrote
    split at wrote
    · rename_i passed
      exact List.forall_mem_singleton.2 (accepts _ passed)
    · cases wrote
  · rename_i none
    cases none

/-- Nothing but ASCII gets through for a key of shorthands: not through the matcher of a tree of
patterns, if all custom patterns in it are neutral, and not through a renderer that validates. -/
theorem isAscii_of_run_and_render {input : RouteInput} {matcher : Matcher} {tokens : List Token}
    {renderer : Renderer} (literal : ∀ text, options.encodeLiteral text = text)
    (decode : ∀ text key, options.decodeValue text key = text)
    (encode : ∀ text key, options.encodeValue text key = text)
    (tree : input.isTree = true) (independent : areIndependent options input.leaves = true)
    (neutral : areNeutral options input.leaves = true)
    (made : Matcher.ofInput options input = .ok matcher) (validated : options.validate = true)
    (prepared : Renderer.ofTokens options tokens = .ok renderer) :
    (∀ path found name value, matcher.run path = some found →
      found.params.get? name = some value →
      (∀ key ∈ matcher.keys, key.name = name → HasShorthands options key) →
        ∀ text ∈ value.occurrences, IsAscii text.toList) ∧
    ∀ params key value, .key key ∈ tokens →
      isShorthandsUnder options.flags key.pattern = true → params.get? key.name = some value →
      (∃ text ∈ value.occurrences, ¬IsAscii text.toList) →
        ∃ error, renderer.render params = .error error := by
  constructor
  · intro path found name value run present all
    obtain ⟨route, compiled, rfl⟩ := map_eq_ok made
    obtain ⟨e, bears⟩ := bears_of_tree tree independent neutral compiled
    obtain ⟨i, key, start, stop, w, place, same, search, filled, rfl⟩ :=
      exists_slots_of_get? run present
    have has := all key (List.mem_of_getElem? place) same
    obtain ⟨content, before, after, inside, covered⟩ := bears.exists_covers place
      (isPlainUnder_of_isShorthandsUnder has.pattern) search filled
    exact has.isAscii_value literal decode inside covered
  · rintro params key value member only present ⟨text, inside, other⟩
    cases rendered : renderer.render params with
    | error error => exact ⟨error, rfl⟩
    | ok path =>
      exact absurd (isAscii_of_render encode validated prepared member only rendered present text
        inside) other

/-- Letter case matters, the patterns are members of a list, and one of the keys repeats. -/
theorem isAscii_of_run_and_render_members :
    let options : Options := { sensitive := true }
    let id : Key := { name := .explicit "id", lead := "/", pattern := "\\d+" }
    let words := "[\\w\\d](?:\\d|\\w)*"
    let word : Key :=
      { name := .explicit "word", lead := "/", pattern := words, modifier := .oneOrMore }
    let input : RouteInput :=
      .list [.pattern "/:id(\\d+)", .pattern ("/k/:word(" ++ words ++ ")+")]
    ∃ matcher renderer found, Matcher.ofInput options input = .ok matcher ∧
      matcher.keys = [id, word] ∧
      Renderer.ofTokens options [.literal "/k", .key word] = .ok renderer ∧
      matcher.run "/k/K9/z" = some found ∧
      found.params.get? word.name = some (.repeated ["K9", "z"]) ∧
      (∀ text ∈ ["K9", "z"], IsAscii text.toList) ∧
      ∃ error, renderer.render (.ofList [(word.name, .repeated ["K9", "\u212a"])]) =
        .error error := by
  intro options id words word input
  have matches_ : (Matcher.ofInput options input).toOption.any (fun matcher =>
      matcher.unrolls && (matcher.unroll "/k/K9/z").any fun found =>
        found.params.get? word.name = some (.repeated ["K9", "z"])) = true := by
    decide +kernel
  obtain ⟨matcher, found, made, run, present⟩ := Matcher.exists_run_of_unroll matches_
  have keyed : (Matcher.ofInput options input).toOption.any (·.keys = [id, word]) = true := by
    decide +kernel
  rw [made] at keyed
  have keys : matcher.keys = [id, word] := of_decide_eq_true keyed
  have prepares : (Renderer.ofTokens options [.literal "/k", .key word]).toOption.isSome = true := by
    decide +kernel
  obtain ⟨renderer, prepared⟩ := Option.isSome_iff_exists.1 prepares
  have prepared := toOption_eq_some_iff.1 prepared
  have tree : input.isTree = true := by decide +kernel
  have independent : areIndependent options input.leaves = true := by decide +kernel
  have neutral : areNeutral options input.leaves = true := by decide +kernel
  have only : isShorthandsUnder options.flags word.pattern = true := by decide +kernel
  have has : ∀ key ∈ matcher.keys, key.name = word.name → HasShorthands options key := by
    intro key member same
    rw [keys] at member
    rcases List.mem_pair.1 member with rfl | rfl
    · exact absurd same (by decide +kernel)
    · exact ⟨only, fun _ _ spelled => .inl (Language.spelled_false.1 spelled)⟩
  obtain ⟨captured, rendered⟩ := isAscii_of_run_and_render (fun _ => rfl) (fun _ _ => rfl)
    (fun _ _ => rfl) tree independent neutral made rfl prepared
  exact ⟨matcher, renderer, found, made, keys, prepared, run, present,
    captured _ _ _ _ run present has,
    rendered _ word (.repeated ["K9", "\u212a"]) (by simp) only (by decide +kernel)
      ⟨"\u212a", by simp [Value.occurrences], by decide +kernel⟩⟩

/-- Where letter case does not matter, the letters of ASCII have the Kelvin sign among them. -/
theorem exists_value_not_ascii :
    let options : Options := { strict := true }
    let key : Key := { name := .ordinal 0, pattern := "\\w" }
    tokensOf options "(\\w)" = .ok [.key key] ∧
      ∃ matcher found validator, Matcher.ofInput options (.pattern "(\\w)") = .ok matcher ∧
        matcher.run "\u212a" = some found ∧
        found.params.get? key.name = some (.single "\u212a") ∧
        Renderer.validator options.sensitive key = .ok validator ∧
        validator.isMatch "\u212a" = true ∧ ¬IsAscii "\u212a".toList := by
  intro options key
  have matches_ : (Matcher.ofInput options (.pattern "(\\w)")).toOption.any
      (fun matcher => matcher.unrolls && (matcher.unroll "\u212a").any fun found =>
        found.params.get? key.name = some (.single "\u212a")) = true := by
    decide +kernel
  obtain ⟨matcher, found, made, run, present⟩ := Matcher.exists_run_of_unroll matches_
  have compiles : (Renderer.validator options.sensitive key).toOption.any
      (·.isMatch "\u212a") = true := by
    decide +kernel
  obtain ⟨validator, compiled, accepts⟩ := (Option.any_eq_true _ _).1 compiles
  exact ⟨by decide +kernel, matcher, found, validator, made, run, present,
    toOption_eq_some_iff.1 compiled, accepts, by decide +kernel⟩

end Values

end Route

end PathTemplate
