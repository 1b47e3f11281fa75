/-
Tokens of patterns are well-formed.

`Assembly.IsSound` is what every item keeps while a pattern is put together: text becomes a token
only before a key, so that no two texts meet, and the unnamed keys take the ordinals in order.

* `trail_of_mem_items`: a group without a core has no text after the place of the core.
* `isWellFormed_of_tokensOf`: the tokens of a pattern are well-formed, and no ordinal is refused.
-/

import Mathlib.Data.List.Chain
import PathTemplate.Proofs.Token.Decorations
import PathTemplate.Proofs.Token.Refusals

namespace PathTemplate

/-! ### Items -/

namespace Item

/-- What holds of every item that can be read holds of all items that are read. -/
theorem forall_mem_upTo {holds : Item → Prop}
    (each : ∀ lexemes item rest, next lexemes = .ok (some (item, rest)) → holds item)
    (bound : Nat) (lexemes : List Lexeme) : ∀ item ∈ (upTo bound lexemes).1, holds item := by
  induction bound generalizing lexemes with
  | zero => exact List.forall_mem_nil _
  | succ bound ih =>
    rw [upTo]
    split
    · exact List.forall_mem_nil _
    · exact List.forall_mem_nil _
    · rename_i item rest read
      exact List.forall_mem_cons.2 ⟨each lexemes item rest read, ih rest⟩

/-- The text before the place of a core takes all characters, so that without a core there is none
left for the text after it. -/
theorem trail_of_groupBody {lexemes rest : List Lexeme} {lead trail : String} {modifier : Modifier}
    (read : groupBody lexemes = .ok (.group lead none trail modifier, rest)) : trail = "" := by
  unfold groupBody at read
  simp only [leadingText] at read
  split at read
  · rename_i further close
    cases core : leadingCore? (lexemes.dropWhile isText) with
    | some found =>
      rw [core] at read
      cases read
    | none =>
      rw [core] at read
      cases read
      have stops : (lexemes.dropWhile isText).takeWhile isText = [] :=
        List.takeWhile_eq_nil_iff.2 fun some => List.dropWhile_get_zero_not isText lexemes some
      rw [stops]
      rfl
  · cases read

theorem trail_of_next {lexemes rest : List Lexeme} {lead trail : String} {modifier : Modifier}
    (read : next lexemes = .ok (some (.group lead none trail modifier, rest))) : trail = "" := by
  unfold next at read
  split at read
  · cases read
  · split at read
    case h_3 =>
      obtain ⟨_, body, same⟩ := map_eq_ok read
      cases same
      exact trail_of_groupBody body
    all_goals cases read

end Item

theorem trail_of_mem_items {found : List Lexeme} {lead trail : String} {modifier : Modifier}
    (member : .group lead none trail modifier ∈ (items found).1) : trail = "" := by
  have all := @Item.forall_mem_upTo
    (fun item => ∀ lead trail modifier, item = .group lead none trail modifier → trail = "")
    (fun lexemes item rest read lead trail modifier same => Item.trail_of_next (same ▸ read))
  exact all _ found _ member lead trail modifier rfl

/-! ### Tokens -/

/-- The token is a text. -/
def Token.IsLiteral : Token → Prop
  | .literal _ => True
  | .key _ => False

/-- What holds of the tokens of every pattern. -/
structure IsWellFormed (options : Options) (tokens : List Token) : Prop where
  /-- No two texts are adjacent. -/
  apart : tokens.IsChain fun before after => ¬ (before.IsLiteral ∧ after.IsLiteral)
  /-- Every text stands for one that was written. -/
  texts : ∀ text, .literal text ∈ tokens → ∃ written, written ≠ "" ∧ text = options.encodePart written
  /-- No two keys that capture a value have one name. -/
  names : ((capturingKeys tokens).map Key.name).Nodup
  /-- Those without a name are counted from the left. -/
  ordinals : ∃ count,
    (capturingKeys tokens).filterMap (fun key => key.name.ordinal?) = List.range count
  /-- The names that are given are not empty. -/
  explicit : ∀ key ∈ capturingKeys tokens, key.name ≠ .explicit ""
  /-- A key that captures nothing has no name, a modifier, and a text before its place only. -/
  decorations : ∀ key ∈ keysOf tokens, key.pattern = "" →
    key.name = .explicit "" ∧ key.modifier ≠ .once ∧
      ∃ lead, lead ≠ "" ∧ key.lead = options.encodePart lead ∧ key.trail = options.encodePart ""

namespace Assembly

/-- The tokens so far, the newest of which comes first. -/
structure IsSound (options : Options) (assembly : Assembly) : Prop where
  head : ∀ token ∈ assembly.tokens.head?, ¬ token.IsLiteral
  apart : assembly.tokens.IsChain fun after before => ¬ (before.IsLiteral ∧ after.IsLiteral)
  texts : ∀ text, .literal text ∈ assembly.tokens →
    ∃ written, written ≠ "" ∧ text = options.encodePart written
  decorations : ∀ key ∈ keysOf assembly.tokens, key.pattern = "" →
    key.modifier ≠ .once ∧
      ∃ lead, lead ≠ "" ∧ key.lead = options.encodePart lead ∧ key.trail = options.encodePart ""
  ordinals : (capturingKeys assembly.tokens).filterMap (fun key => key.name.ordinal?) =
    (List.range assembly.ordinal).reverse

variable {options : Options} {assembly next : Assembly}

namespace IsSound

variable (sound : assembly.IsSound options) (text : String)
include sound

/-- A text may be added to the tokens. -/
theorem apart_literalOf : (literalOf options text ++ assembly.tokens).IsChain
    fun after before => ¬ (before.IsLiteral ∧ after.IsLiteral) := by
  unfold literalOf
  split
  · exact sound.apart
  · exact List.isChain_cons.2 ⟨fun token first both => sound.head token first both.1, sound.apart⟩

theorem texts_literalOf : ∀ other, .literal other ∈ literalOf options text ++ assembly.tokens →
    ∃ written, written ≠ "" ∧ other = options.encodePart written := by
  intro other member
  rcases List.mem_append.1 member with new | old
  · unfold literalOf at new
    split at new
    · cases new
    · rename_i some
      exact ⟨text, some, Token.literal.inj (List.mem_singleton.1 new)⟩
  · exact sound.texts other old

/-- A key may be added to the tokens, and before it a text. -/
theorem push {key : Key}
    (tokens : next.tokens = .key key :: (literalOf options text ++ assembly.tokens))
    (decoration : key.pattern = "" → key.modifier ≠ .once ∧
      ∃ lead, lead ≠ "" ∧ key.lead = options.encodePart lead ∧ key.trail = options.encodePart "")
    (ordinals : (capturingKeys next.tokens).filterMap (fun key => key.name.ordinal?) =
      (List.range next.ordinal).reverse) : next.IsSound options where
  head := by
    rw [tokens]
    rintro _ ⟨⟩
    exact id
  apart := by
    rw [tokens]
    exact List.isChain_cons.2 ⟨fun _ _ both => both.2, sound.apart_literalOf text⟩
  texts := by
    rw [tokens]
    intro other member
    exact sound.texts_literalOf text other (List.mem_of_ne_of_mem (by simp) member)
  decorations := by
    have keys : keysOf next.tokens = key :: keysOf assembly.tokens := by
      rw [tokens]
      exact congrArg (key :: ·) keysOf_literalOf
    rw [keys]
    exact List.forall_mem_cons.2 ⟨decoration, sound.decorations⟩
  ordinals := ordinals

end IsSound

theorem capturingKeys_push {key : Key} {text : String}
    (tokens : next.tokens = .key key :: (literalOf options text ++ assembly.tokens)) :
    capturingKeys next.tokens =
      if key.isCapturing then key :: capturingKeys assembly.tokens
      else capturingKeys assembly.tokens := by
  have keys : keysOf next.tokens = key :: keysOf assembly.tokens := by
    rw [tokens]
    exact congrArg (key :: ·) keysOf_literalOf
  rw [capturingKeys, keys, List.filter_cons]
  rfl

theorem IsSound.add {item : Item} (sound : assembly.IsSound options)
    (filled : ∀ core ∈ item.core?, core.IsFilled)
    (bare : ∀ lead trail modifier, item = .group lead none trail modifier → trail = "")
    (added : assembly.add options item = .ok next) : next.IsSound options := by
  cases adds_add added with
  | text tokens _ ordinal =>
    exact ⟨tokens ▸ sound.head, tokens ▸ sound.apart, tokens ▸ sound.texts,
      tokens ▸ sound.decorations, tokens ▸ ordinal ▸ sound.ordinals⟩
  | decoration text lead trail modifier nonempty repeats tokens _ ordinal =>
    obtain rfl := bare lead trail modifier rfl
    refine sound.push text tokens (fun _ => ⟨repeats, lead, nonempty, rfl, rfl⟩) ?_
    rw [capturingKeys_push tokens, ordinal]
    exact sound.ordinals
  | key text core key core? named pattern _ tokens _ ordinal =>
    have captures : key.pattern ≠ "" := pattern ▸ (filled core core?).patternFor_ne options
    refine sound.push text tokens (fun none => absurd none captures) ?_
    rw [capturingKeys_push tokens, if_pos (by simpa [Key.isCapturing] using captures), ordinal,
      List.filterMap_cons, sound.ordinals, named]
    cases core with
    | named => rfl
    | unnamed => exact (by simp [Core.nameAt, Core.ordinals, Name.ordinal?, List.range_succ])

end Assembly

section

variable {options : Options} {pattern : String} {tokens : List Token}

theorem isWellFormed_of_ok (parsed : tokensOf options pattern = .ok tokens) :
    IsWellFormed options tokens := by
  obtain ⟨assembly, sound, text, rfl⟩ := Assembly.exists_finish_of_tokensOf
    (⟨nofun, .nil, nofun, nofun, rfl⟩ : Assembly.IsSound options {})
    (fun found read item member _ _ sound added =>
      sound.add (isFilled_of_tokensOf read parsed item member)
        (fun _ _ _ same => trail_of_mem_items (same ▸ member)) added) parsed
  have unnamed := name_eq_empty_iff_of_tokensOf parsed
  have keys : keysOf (literalOf options text ++ assembly.tokens).reverse =
      (keysOf assembly.tokens).reverse :=
    List.filterMap_reverse.trans (congrArg List.reverse keysOf_literalOf)
  refine ⟨List.isChain_reverse.2 ?_, fun other member => ?_, nodup_names_of_tokensOf parsed,
    ⟨assembly.ordinal, ?_⟩, fun key member => ?_, fun key member decoration => ?_⟩
  · exact sound.apart_literalOf text
  · exact sound.texts_literalOf text other (List.mem_reverse.1 member)
  · rw [capturingKeys, keys, List.filter_reverse, List.filterMap_reverse]
    exact (congrArg List.reverse sound.ordinals).trans (List.reverse_reverse _)
  · obtain ⟨member, captures⟩ := List.mem_filter.1 member
    exact fun none => by simp [Key.isCapturing, (unnamed key member).1 none] at captures
  · rw [keys] at member
    exact ⟨(unnamed key (keys ▸ member)).2 decoration,
      sound.decorations key (List.mem_reverse.1 member) decoration⟩

/-- The tokens of a pattern are well-formed. Where texts are not changed as they are read, no text
is empty, and what captures nothing has a text, which stands before its place. Only a name that is
given can be refused. -/
theorem isWellFormed_of_tokensOf :
    (tokensOf options pattern = .ok tokens → IsWellFormed options tokens ∧
      (options.encodePart = id → (∀ text, .literal text ∈ tokens → text ≠ "") ∧
        ∀ key ∈ keysOf tokens, key.pattern = "" → key.lead ≠ "" ∧ key.trail = "")) ∧
    ∀ ordinal index, tokensOf options pattern ≠ .error (.duplicateName (.ordinal ordinal) index) := by
  refine ⟨fun parsed => ?_, fun ordinal index refused => ?_⟩
  · have sound := isWellFormed_of_ok parsed
    refine ⟨sound, fun same => ⟨fun text member => ?_, fun key member decoration => ?_⟩⟩
    · obtain ⟨written, some, rfl⟩ := sound.texts text member
      rwa [same]
    · obtain ⟨_, _, lead, some, leadEq, trailEq⟩ := sound.decorations key member decoration
      rw [same] at leadEq trailEq
      exact ⟨leadEq ▸ some, trailEq⟩
  · cases read : lexemes pattern with
    | error fault =>
      rw [tokensOf, read] at refused
      cases refused
    | ok found => cases isRefusal_of_tokensOf read refused

/-- Two unnamed keys, a named one, a decoration, and texts that join. -/
theorem isWellFormed_of_tokensOf_keys :
    ∃ tokens, tokensOf {} "/a\x7bb\x7d\\:(x)\x7b-\x7d?:y*\x7b\x7d+c" = .ok tokens ∧
      IsWellFormed {} tokens ∧ ∀ text, .literal text ∈ tokens → text ≠ "" := by
  have parsed := toOption_eq_some_iff.1 <| Eq.symm <| Option.some_get <|
    show (tokensOf {} "/a\x7bb\x7d\\:(x)\x7b-\x7d?:y*\x7b\x7d+c").toOption.isSome by decide +kernel
  obtain ⟨sound, texts⟩ := isWellFormed_of_tokensOf.1 parsed
  exact ⟨_, parsed, sound, (texts rfl).1⟩

end

end PathTemplate
