/-
Items, one after the other, and what a group is.

`ReadsItems` says what items lexemes are read as, and where reading stops, without the bound on
their number. What is read as one item depends on its own lexemes: a core and a modifier are read
from theirs, and a group from those between its braces, whatever follows it.

* `ReadsItems.items_eq`: what is read is what the reader of items reads.
* `Item.leadingModifier_signLexemes`, `Item.exists_heart_of_leadingCore?`: the lexemes of a modifier
  and of a core.
* `Item.groupBody_eq`: a group is a text, a core that may be missing, a text, and a brace.
* `Item.groupBody_closing_cases`: whether it is read depends on what stands in it alone.
-/

import PathTemplate.Proofs.Token.Grammar

namespace PathTemplate

/-! ### Reading -/

/-- The lexemes are read as the items, up to where reading stops. -/
inductive ReadsItems : List Lexeme → List Item → Option ParseError → Prop where
  | stop {lexemes : List Lexeme} {stop : Option ParseError} : Item.StopsAt lexemes stop →
      ReadsItems lexemes [] stop
  | cons {lexemes rest : List Lexeme} {item : Item} {items : List Item} {stop : Option ParseError} :
      Item.next lexemes = .ok (some (item, rest)) → ReadsItems rest items stop →
      ReadsItems lexemes (item :: items) stop

theorem reads_upTo {bound : Nat} {lexemes : List Lexeme} (room : lexemes.length < bound) :
    ReadsItems lexemes (Item.upTo bound lexemes).1 (Item.upTo bound lexemes).2 := by
  induction bound generalizing lexemes with
  | zero => cases room
  | succ bound ih =>
    rw [Item.upTo]
    split
    · rename_i error first
      exact .stop first
    · rename_i first
      exact .stop first
    · rename_i item rest first
      have less := Item.length_lt_of_next first
      exact .cons first (ih (by omega))

theorem ReadsItems.upTo_eq {lexemes : List Lexeme} {items : List Item} {stop : Option ParseError}
    (reads : ReadsItems lexemes items stop) {bound : Nat} (room : lexemes.length < bound) :
    Item.upTo bound lexemes = (items, stop) := by
  obtain ⟨bound, rfl⟩ := Nat.exists_eq_add_one_of_ne_zero (Nat.ne_zero_of_lt room)
  induction reads generalizing bound with
  | @stop lexemes stop stops =>
    cases stop with
    | none =>
      have first : Item.next lexemes = .ok none := stops
      simp only [Item.upTo, first]
    | some error =>
      have first : Item.next lexemes = .error error := stops
      simp only [Item.upTo, first]
  | cons first _ ih =>
    have less := Item.length_lt_of_next first
    obtain ⟨bound, rfl⟩ : ∃ more, bound = more + 1 := ⟨bound - 1, by omega⟩
    rw [Item.upTo]
    simp only [first, ih bound (by omega)]

theorem reads_items (lexemes : List Lexeme) :
    ReadsItems lexemes (items lexemes).1 (items lexemes).2 :=
  reads_upTo (Nat.lt_succ_self _)

theorem ReadsItems.items_eq {lexemes : List Lexeme} {found : List Item} {stop : Option ParseError}
    (reads : ReadsItems lexemes found stop) : items lexemes = (found, stop) :=
  reads.upTo_eq (Nat.lt_succ_self _)

namespace Item

variable {lexemes rest : List Lexeme} {core : Core} {item : Item}

theorem not_stopsAt {found : Item × List Lexeme} {stop : Option ParseError}
    (read : next lexemes = .ok (some found)) :
    ¬ StopsAt lexemes stop := by
  intro stops
  cases stop <;> cases stops.symm.trans read

theorem next_eq_key {modifier : Modifier}
    (read : next lexemes = .ok (some (.key core modifier, rest))) :
    ∃ afterCore, leadingCore? lexemes = some (core, afterCore) ∧
      leadingModifier afterCore = (modifier, rest) := by
  unfold next at read
  split at read
  · rename_i found afterCore core?
    cases read
    exact ⟨afterCore, core?, rfl⟩
  · split at read <;> first | cases read | skip
    obtain ⟨_, group, same⟩ := map_eq_ok read
    cases same
    obtain ⟨_, _, _, _, _, _, _, other, _⟩ := groupBody_eq_ok group
    cases other

theorem next_eq_plain {text : String} (read : next lexemes = .ok (some (.plain text, rest))) :
    ∃ index, lexemes = ⟨.plain, index, text⟩ :: rest := by
  unfold next at read
  split at read
  · cases read
  · split at read <;> first | cases read | skip
    · exact ⟨_, rfl⟩
    · obtain ⟨_, group, same⟩ := map_eq_ok read
      cases same
      obtain ⟨_, _, _, _, _, _, _, other, _⟩ := groupBody_eq_ok group
      cases other

end Item

/-! ### Cores and modifiers -/

/-- The lexemes of the core at the beginning. -/
def coreLexemes : List Lexeme → List Lexeme
  | [] => []
  | lexeme :: rest =>
    match lexeme.kind with
    | .name => lexeme :: (rest.take 1).filter (·.kind = .pattern)
    | .pattern | .asterisk => [lexeme]
    | _ => []

/-- The lexeme of the modifier at the beginning. -/
def signLexemes (lexemes : List Lexeme) : List Lexeme := (lexemes.take 1).filter Lexeme.isModifier

namespace Item

variable {lexemes rest : List Lexeme} {core : Core} {item : Item}

/-- A modifier is read from its lexeme, whatever follows. -/
theorem leadingModifier_signLexemes (lexemes : List Lexeme) :
    lexemes = signLexemes lexemes ++ (leadingModifier lexemes).2 ∧
      (signLexemes lexemes = [] → BeginsUnmodified (leadingModifier lexemes).2) ∧
      ∀ tail, (signLexemes lexemes = [] → BeginsUnmodified tail) →
        leadingModifier (signLexemes lexemes ++ tail) = ((leadingModifier lexemes).1, tail) := by
  cases lexemes with
  | nil =>
    refine ⟨rfl, fun _ => ?_, fun _ unmodified => leadingModifier_of_unmodified (unmodified rfl)⟩
    rintro _ ⟨⟩
  | cons lexeme lexemes =>
    cases present : lexeme.isModifier with
    | true =>
      have sign : signLexemes (lexeme :: lexemes) = [lexeme] := by simp [signLexemes, present]
      have read : ∀ tail, leadingModifier (lexeme :: tail) =
          ((Modifier.ofSymbol? lexeme.value).getD .once, tail) := by
        intro tail
        have kinds : lexeme.kind = .modifier ∨ lexeme.kind = .asterisk := by
          simpa [Lexeme.isModifier] using present
        rcases kinds with kind | kind <;> simp only [leadingModifier, kind]
      rw [sign, read]
      refine ⟨rfl, ?_, fun tail _ => read tail⟩
      rintro ⟨⟩
    | false =>
      have sign : signLexemes (lexeme :: lexemes) = [] := by simp [signLexemes, present]
      have unmodified : BeginsUnmodified (lexeme :: lexemes) := by
        rintro _ ⟨⟩
        exact present
      rw [sign, leadingModifier_of_unmodified unmodified]
      exact ⟨rfl, fun _ => unmodified,
        fun _ unmodified => leadingModifier_of_unmodified (unmodified rfl)⟩

/-- The lexemes of a core are those that it is read from, with a pattern if one follows a name. -/
theorem exists_heart_of_leadingCore? (read : leadingCore? lexemes = some (core, rest)) :
    ∃ heart, core.Uses heart ∧ coreLexemes lexemes = lexemesOf heart ∧
      lexemes = lexemesOf heart ++ rest ∧
      (IsBareName heart → ∀ lexeme ∈ rest.head?, lexeme.kind ≠ .pattern) := by
  unfold leadingCore? at read
  split at read <;> cases read
  · exact ⟨_, .namePattern, by simp [coreLexemes], rfl, by simp [IsBareName]⟩
  · rename_i index name noPattern
    have other : ∀ lexeme ∈ rest.head?, lexeme.kind ≠ .pattern := by
      cases rest with
      | nil => exact nofun
      | cons lexeme rest =>
        obtain ⟨kind, place, value⟩ := lexeme
        rintro _ ⟨⟩ rfl
        exact noPattern place value rest rfl
    refine ⟨_, .name, ?_, rfl, fun _ => other⟩
    cases rest with
    | nil => rfl
    | cons lexeme rest => simp [coreLexemes, other lexeme rfl]
  · exact ⟨_, .pattern, by simp [coreLexemes], rfl, by simp [IsBareName]⟩
  · exact ⟨_, .wildcard, by simp [coreLexemes], rfl, by simp [IsBareName]⟩

theorem leadingCore?_eq_none_iff : leadingCore? lexemes = none ↔ coreLexemes lexemes = [] := by
  constructor
  · intro none
    cases lexemes with
    | nil => rfl
    | cons lexeme rest =>
      obtain ⟨kind, index, value⟩ := lexeme
      cases kind with
      | pattern | asterisk => cases none
      | name =>
        unfold leadingCore? at none
        split at none <;> simp_all
      | _ => rfl
  · intro none
    cases read : leadingCore? lexemes with
    | none => rfl
    | some found =>
      obtain ⟨core, rest⟩ := found
      obtain ⟨heart, uses, same, _, _⟩ := exists_heart_of_leadingCore? read
      rw [same] at none
      cases uses <;> cases none

/-- What is read as an item that is no key begins no core. -/
theorem next_of_coreLexemes_ne_nil (begins : coreLexemes lexemes ≠ []) :
    ∃ core modifier rest, next lexemes = .ok (some (.key core modifier, rest)) := by
  cases read : leadingCore? lexemes with
  | none => exact absurd (leadingCore?_eq_none_iff.1 read) begins
  | some found =>
    refine ⟨found.1, (leadingModifier found.2).1, (leadingModifier found.2).2, ?_⟩
    unfold next
    simp only [read]

theorem coreLexemes_ne_nil_of_key {modifier : Modifier}
    (read : next lexemes = .ok (some (.key core modifier, rest))) : coreLexemes lexemes ≠ [] := by
  obtain ⟨afterCore, core?, _⟩ := next_eq_key read
  intro none
  rw [leadingCore?_eq_none_iff.2 none] at core?
  cases core?

/-! ### Groups -/

/-- The core at the beginning, if there is one, and the lexemes after it. -/
def groupCore (lexemes : List Lexeme) : Option Core × List Lexeme :=
  match leadingCore? lexemes with
  | some (core, rest) => (some core, rest)
  | none => (none, lexemes)

/-- The group whose texts and core were read, before the lexemes. -/
def groupEnd (lead : String) (core : Option Core) (trail : String) :
    List Lexeme → Except ParseError (Item × List Lexeme)
  | ⟨.closing, _, _⟩ :: rest =>
    .ok (.group lead core trail (leadingModifier rest).1, (leadingModifier rest).2)
  | afterTrail => .error (unexpected afterTrail .closing)

/-- A group is a text, a core that may be missing, a text, and the brace that ends it. -/
theorem groupBody_eq (lexemes : List Lexeme) :
    groupBody lexemes =
      groupEnd (leadingText lexemes).1 (groupCore (leadingText lexemes).2).1
        (leadingText (groupCore (leadingText lexemes).2).2).1
        (leadingText (groupCore (leadingText lexemes).2).2).2 := by
  cases core : leadingCore? (leadingText lexemes).2 <;> simp only [groupBody, groupCore, core] <;>
    split <;> simp_all [groupEnd]

/-- Text is read up to the first brace at the latest. -/
theorem leadingText_append_closing (body : List Lexeme) {close : Lexeme}
    (closes : close.kind = .closing) (after : List Lexeme) :
    leadingText (body ++ close :: after) =
      ((leadingText body).1, (leadingText body).2 ++ close :: after) := by
  have stops : isText close = false := by simp [isText, closes]
  induction body with
  | nil => simp [leadingText, stops]
  | cons lexeme body ih =>
    cases text : isText lexeme with
    | true =>
      simp only [leadingText, Prod.mk.injEq] at ih
      simp only [leadingText, List.cons_append, List.takeWhile_cons, List.dropWhile_cons, text,
        if_true, List.map_cons, String.join_cons, ih.1, ih.2]
    | false =>
      simp only [leadingText, List.cons_append, List.takeWhile_cons, List.dropWhile_cons, text,
        Bool.false_eq_true, if_false]

theorem leadingCore?_append_closing (body : List Lexeme) {close : Lexeme}
    (closes : close.kind = .closing) (after : List Lexeme) :
    leadingCore? (body ++ close :: after) =
      (leadingCore? body).map fun found => (found.1, found.2 ++ close :: after) := by
  obtain ⟨kind, index, value⟩ := close
  obtain rfl : kind = .closing := closes
  cases read : leadingCore? body with
  | none =>
    have none := leadingCore?_eq_none_iff.1 read
    refine leadingCore?_eq_none_iff.2 ?_
    cases body with
    | nil => rfl
    | cons lexeme body =>
      obtain ⟨kind, _, _⟩ := lexeme
      cases kind <;> first | rfl | cases none
  | some found =>
    obtain ⟨core, rest⟩ := found
    obtain ⟨heart, uses, _, rfl, alone⟩ := exists_heart_of_leadingCore? read
    rw [List.append_assoc]
    refine leadingCore?_append uses fun bare => ?_
    cases rest with
    | nil =>
      rintro _ ⟨⟩
      nofun
    | cons lexeme rest => exact alone bare

theorem groupCore_append_closing (body : List Lexeme) {close : Lexeme}
    (closes : close.kind = .closing) (after : List Lexeme) :
    groupCore (body ++ close :: after) =
      ((groupCore body).1, (groupCore body).2 ++ close :: after) := by
  rw [groupCore, groupCore, leadingCore?_append_closing body closes]
  cases leadingCore? body <;> rfl

theorem groupCore_suffix (lexemes : List Lexeme) : (groupCore lexemes).2 <:+ lexemes := by
  unfold groupCore
  split
  · rename_i core rest read
    obtain ⟨heart, _, _, rfl, _⟩ := exists_heart_of_leadingCore? read
    exact List.suffix_append _ _
  · exact List.suffix_rfl

theorem leadingText_suffix (lexemes : List Lexeme) : (leadingText lexemes).2 <:+ lexemes :=
  List.dropWhile_suffix isText

/-- What a group is read as, and whether it is, depends on what stands in it alone. -/
theorem groupBody_closing_cases (body : List Lexeme)
    (inner : ∀ lexeme ∈ body, lexeme.kind ≠ .closing) {close : Lexeme}
    (closes : close.kind = .closing) :
    (∃ error, ∀ after, groupBody (body ++ close :: after) = .error error) ∨
      ∃ lead core trail, ∀ after, groupBody (body ++ close :: after) =
        .ok (.group lead core trail (leadingModifier after).1, (leadingModifier after).2) := by
  simp only [groupBody_eq, leadingText_append_closing _ closes, groupCore_append_closing _ closes]
  have suffix := (leadingText_suffix (groupCore (leadingText body).2).2).trans
    ((groupCore_suffix (leadingText body).2).trans (leadingText_suffix body))
  cases rest : (leadingText (groupCore (leadingText body).2).2).2 with
  | nil =>
    obtain ⟨kind, index, value⟩ := close
    obtain rfl : kind = .closing := closes
    exact .inr ⟨_, _, _, fun after => rfl⟩
  | cons bad later =>
    have other := inner bad (suffix.mem (rest ▸ List.mem_cons_self))
    obtain ⟨kind, index, value⟩ := bad
    refine .inl ⟨.unexpected kind index .closing, fun after => ?_⟩
    cases kind <;> first | rfl | exact absurd rfl other

/-- A group that is not closed is not read. -/
theorem exists_groupBody_eq_error (inner : ∀ lexeme ∈ lexemes, lexeme.kind ≠ .closing) :
    ∃ error, groupBody lexemes = .error error := by
  cases read : groupBody lexemes with
  | error error => exact ⟨error, rfl⟩
  | ok found =>
    obtain ⟨core, afterCore, index, value, afterTrail, ⟨core?, noCore⟩, closing, -, -⟩ :=
      groupBody_eq_ok read
    have inside : afterCore <:+ lexemes := by
      cases core with
      | none => exact noCore rfl ▸ leadingText_suffix lexemes
      | some core =>
        obtain ⟨heart, _, whole⟩ := exists_uses_of_leadingCore? core?
        exact .trans ⟨_, whole.symm⟩ (leadingText_suffix lexemes)
    refine absurd rfl (inner ⟨.closing, index, value⟩ (inside.mem ((leadingText_suffix _).mem ?_)))
    exact closing ▸ List.mem_cons_self

/-- The first brace that closes a group, if there is one. -/
theorem closing_cases (lexemes : List Lexeme) :
    (∀ lexeme ∈ lexemes, lexeme.kind ≠ .closing) ∨
      ∃ body close after, lexemes = body ++ close :: after ∧ close.kind = .closing ∧
        ∀ lexeme ∈ body, lexeme.kind ≠ .closing := by
  induction lexemes with
  | nil => exact .inl nofun
  | cons lexeme lexemes ih =>
    by_cases closes : lexeme.kind = .closing
    · exact .inr ⟨[], lexeme, lexemes, rfl, closes, nofun⟩
    · rcases ih with inner | ⟨body, close, after, rfl, closes', inner⟩
      · exact .inl (List.forall_mem_cons.2 ⟨closes, inner⟩)
      · exact .inr ⟨lexeme :: body, close, after, rfl, closes',
          List.forall_mem_cons.2 ⟨closes, inner⟩⟩

/-- Braces around a text and a core are read as a group of them. -/
theorem next_opening {lead : String} {before heart : List Use} (isLead : TextUses lead before)
    (isHeart : core.Uses heart) (index index' : Nat) (value value' : String) (after : List Lexeme) :
    next (⟨.opening, index, value⟩ ::
        (lexemesOf before ++ (lexemesOf heart ++ ⟨.closing, index', value'⟩ :: after))) =
      .ok (some (.group lead (some core) "" (leadingModifier after).1,
        (leadingModifier after).2)) := by
  have text := leadingText_append isLead (isHeart.stopsText (⟨.closing, index', value'⟩ :: after))
  have inside : leadingCore? (lexemesOf heart ++ ⟨.closing, index', value'⟩ :: after) =
      some (core, ⟨.closing, index', value'⟩ :: after) := by
    refine leadingCore?_append isHeart fun _ => ?_
    rintro _ ⟨⟩
    nofun
  have body := groupBody_eq
    (lexemesOf before ++ (lexemesOf heart ++ ⟨.closing, index', value'⟩ :: after))
  rw [text, groupCore, inside] at body
  have none : leadingCore? (⟨.opening, index, value⟩ ::
    (lexemesOf before ++ (lexemesOf heart ++ ⟨.closing, index', value'⟩ :: after))) = none := rfl
  rw [next, none]
  simp only [body]
  rfl

end Item

end PathTemplate
