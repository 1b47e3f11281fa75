/-
The grammar of path patterns.

Lexemes divide into items, and every lexeme has a part in its item. `Divides` says how lexemes
divide: a modifier is taken wherever one follows what takes one, and otherwise items may stand in
any order.

* `Item.exists_divides_of_upTo`: the items that are read are a division of the lexemes before the
  place where reading stops.
* `Item.upTo_append_of_divides`: where there is a division, the lexemes are read up to its end.
-/

import Mathlib.Data.List.TakeWhile
import PathTemplate.Proofs.Token.Lexing
import PathTemplate.Proofs.Token.Names

namespace PathTemplate

/-! ### Items and their lexemes -/

/-- The part of a lexeme in its item. -/
inductive Role where
  /-- A character, escaped or not. -/
  | text
  | name
  | pattern
  /-- An asterisk that is a key. -/
  | wildcard
  | opening
  | closing
  | modifier
deriving DecidableEq, Repr

/-- A modifier that follows belongs to the item. -/
def Role.takesModifier : Role → Bool
  | .name | .pattern | .wildcard | .closing => true
  | .text | .opening | .modifier => false

/-- A lexeme that has a part in an item. -/
structure Use where
  role : Role
  lexeme : Lexeme
deriving DecidableEq, Repr

/-- The lexemes of a core. -/
inductive Core.Uses : Core → List Use → Prop where
  | name {index : Nat} {name : String} :
      Uses (.named name index none) [⟨.name, .name, index, name⟩]
  | namePattern {index index' : Nat} {name text : String} :
      Uses (.named name index (some text))
        [⟨.name, .name, index, name⟩, ⟨.pattern, .pattern, index', text⟩]
  | pattern {index : Nat} {text : String} :
      Uses (.unnamed text index) [⟨.pattern, .pattern, index, text⟩]
  | wildcard {index : Nat} {sign : String} :
      Uses (.unnamed wildcardPattern index) [⟨.wildcard, .asterisk, index, sign⟩]

/-- The lexemes of a core that may be missing. -/
inductive HeartUses : Option Core → List Use → Prop where
  | none : HeartUses none []
  | some {core : Core} {uses : List Use} : core.Uses uses → HeartUses (some core) uses

/-- The lexeme of a modifier, if it has one. -/
inductive Modifier.Uses : Modifier → List Use → Prop where
  | none : Uses .once []
  | sign {modifier : Modifier} {lexeme : Lexeme} :
      lexeme.kind = .modifier ∨ lexeme.kind = .asterisk → lexeme.value = modifier.symbol →
      Uses modifier [⟨.modifier, lexeme⟩]

/-- The characters of a text. -/
def TextUses (text : String) (uses : List Use) : Prop :=
  (∀ use ∈ uses, use.role = .text ∧ Item.isText use.lexeme = true) ∧
    text = String.join (uses.map fun use => use.lexeme.value)

/-- The lexemes of an item. -/
inductive Item.Uses : Item → List Use → Prop where
  | plain {index : Nat} {text : String} : Uses (.plain text) [⟨.text, .plain, index, text⟩]
  | escaped {index : Nat} {text : String} : Uses (.escaped text) [⟨.text, .escaped, index, text⟩]
  | key {core : Core} {modifier : Modifier} {heart sign : List Use} :
      core.Uses heart → modifier.Uses sign → Uses (.key core modifier) (heart ++ sign)
  | group {core : Option Core} {modifier : Modifier} {lead trail sign₁ sign₂ : String}
      {index₁ index₂ : Nat} {before heart after sign : List Use} :
      TextUses lead before → HeartUses core heart → TextUses trail after → modifier.Uses sign →
      Uses (.group lead core trail modifier)
        (⟨.opening, .opening, index₁, sign₁⟩ ::
          (before ++ (heart ++ (after ++ (⟨.closing, .closing, index₂, sign₂⟩ :: sign)))))

/-- The lexemes of uses. -/
abbrev lexemesOf (uses : List Use) : List Lexeme := uses.map Use.lexeme

theorem lexemesOf_append (uses more : List Use) :
    lexemesOf (uses ++ more) = lexemesOf uses ++ lexemesOf more := List.map_append

/-- A modifier may be read from the lexeme. -/
def Lexeme.isModifier (lexeme : Lexeme) : Bool :=
  lexeme.kind = .modifier || lexeme.kind = .asterisk

/-- No modifier can be read first. -/
def BeginsUnmodified (lexemes : List Lexeme) : Prop :=
  ∀ lexeme ∈ lexemes.head?, lexeme.isModifier = false

/-- A modifier that would follow the last lexeme belongs to it. -/
def endsOpen (uses : List Use) : Bool := uses.getLast?.any (·.role.takesModifier)

theorem endsOpen_append_cons (uses : List Use) (use : Use) (more : List Use) :
    endsOpen (uses ++ use :: more) = endsOpen (use :: more) := by
  rw [endsOpen, List.getLast?_append_of_ne_nil _ (List.cons_ne_nil use more), endsOpen]

/-- The lexemes divide into these items. A modifier is taken wherever one follows. -/
inductive Divides : List Item → List Use → Prop where
  | nil : Divides [] []
  | cons {item : Item} {items : List Item} {uses rest : List Use} : item.Uses uses →
      (endsOpen uses = true → BeginsUnmodified (lexemesOf rest)) →
      Divides items rest → Divides (item :: items) (uses ++ rest)

/-! ### Lexemes that were read -/

namespace Lexeme

/-- A lexeme from which a modifier is read has the sign of one. -/
def IsSigned (lexeme : Lexeme) : Prop :=
  lexeme.isModifier = true → ∃ modifier : Modifier, lexeme.value = modifier.symbol

theorem first_eq_ok {index further : Nat} {c : Char} {rest : List Char} {lexeme : Lexeme}
    (read : first index c rest = .ok (lexeme, further)) :
    lexeme.kind ≠ .finish ∧ lexeme.IsSigned := by
  unfold first at read
  split at read
  case h_1 =>
    cases read
    exact ⟨nofun, fun _ => ⟨.zeroOrMore, rfl⟩⟩
  case h_2 =>
    cases read
    exact ⟨nofun, fun _ => ⟨.oneOrMore, rfl⟩⟩
  case h_3 =>
    cases read
    exact ⟨nofun, fun _ => ⟨.optional, rfl⟩⟩
  all_goals first
    | cases read
      exact ⟨nofun, nofun⟩
    | split at read <;> cases read
      exact ⟨nofun, nofun⟩

/-- The end of the pattern is read last, and once. -/
theorem strictFrom_eq_ok {index covered : Nat} {text : List Char} {found : List Lexeme}
    (read : strictFrom index covered text = .ok found) :
    ∃ body last, found = body ++ [⟨.finish, last, ""⟩] ∧
      ∀ lexeme ∈ body, lexeme.kind ≠ .finish ∧ lexeme.IsSigned :=
  exists_body_of_strictFrom first_eq_ok read

end Lexeme

/-! ### What is read is a division -/

namespace Item

variable {lexemes rest : List Lexeme} {core : Core} {item : Item}

theorem leadingModifier_of_unmodified (unmodified : BeginsUnmodified lexemes) :
    leadingModifier lexemes = (.once, lexemes) := by
  cases lexemes with
  | nil => rfl
  | cons lexeme lexemes =>
    have other := unmodified lexeme rfl
    unfold Lexeme.isModifier at other
    unfold leadingModifier
    split <;> simp_all

theorem exists_uses_of_leadingModifier (signed : ∀ lexeme ∈ lexemes, lexeme.IsSigned) :
    ∃ sign, (leadingModifier lexemes).1.Uses sign ∧
      lexemes = lexemesOf sign ++ (leadingModifier lexemes).2 ∧
        (sign = [] → BeginsUnmodified (leadingModifier lexemes).2) := by
  cases lexemes with
  | nil => exact ⟨[], .none, rfl, fun _ => nofun⟩
  | cons lexeme lexemes =>
    obtain ⟨signed, _⟩ := List.forall_mem_cons.1 signed
    cases present : lexeme.isModifier with
    | true =>
      obtain ⟨modifier, value⟩ := signed present
      have kinds : lexeme.kind = .modifier ∨ lexeme.kind = .asterisk := by
        simpa [Lexeme.isModifier] using present
      have read : leadingModifier (lexeme :: lexemes) = (modifier, lexemes) := by
        rcases kinds with kind | kind <;>
          simp only [leadingModifier, kind, value, Modifier.ofSymbol?_symbol, Option.getD_some]
      rw [read]
      exact ⟨[⟨.modifier, lexeme⟩], .sign kinds value, rfl, nofun⟩
    | false =>
      have unmodified : BeginsUnmodified (lexeme :: lexemes) := by
        rintro _ ⟨⟩
        exact present
      rw [leadingModifier_of_unmodified unmodified]
      exact ⟨[], .none, rfl, fun _ => unmodified⟩

theorem exists_uses_of_leadingCore? (read : leadingCore? lexemes = some (core, rest)) :
    ∃ heart, core.Uses heart ∧ lexemes = lexemesOf heart ++ rest := by
  unfold leadingCore? at read
  split at read <;> cases read
  · exact ⟨_, .namePattern, rfl⟩
  · exact ⟨_, .name, rfl⟩
  · exact ⟨_, .pattern, rfl⟩
  · exact ⟨_, .wildcard, rfl⟩

theorem exists_uses_of_leadingText (lexemes : List Lexeme) :
    ∃ uses, TextUses (leadingText lexemes).1 uses ∧
      lexemes = lexemesOf uses ++ (leadingText lexemes).2 := by
  refine ⟨(lexemes.takeWhile isText).map (⟨.text, ·⟩), ⟨fun use member => ?_, ?_⟩, ?_⟩
  · obtain ⟨lexeme, taken, rfl⟩ := List.mem_map.1 member
    exact ⟨rfl, List.mem_takeWhile_imp taken⟩
  · rw [List.map_map]
    rfl
  · rw [lexemesOf, List.map_map]
    exact (List.map_id _).symm ▸ List.takeWhile_append_dropWhile.symm

/-- What the body of a group divides into. -/
theorem groupBody_eq_ok (read : groupBody lexemes = .ok (item, rest)) :
    ∃ core afterCore index value afterTrail,
      (leadingCore? (leadingText lexemes).2 = core.map (·, afterCore) ∧
        (core = none → afterCore = (leadingText lexemes).2)) ∧
      (leadingText afterCore).2 = ⟨.closing, index, value⟩ :: afterTrail ∧
      item = .group (leadingText lexemes).1 core (leadingText afterCore).1
        (leadingModifier afterTrail).1 ∧
      rest = (leadingModifier afterTrail).2 := by
  simp only [groupBody] at read
  cases core : leadingCore? (leadingText lexemes).2 with
  | none =>
    rw [core] at read
    split at read <;> cases read
    rename_i closing
    exact ⟨none, _, _, _, _, ⟨rfl, fun _ => rfl⟩, closing, rfl, rfl⟩
  | some found =>
    rw [core] at read
    split at read <;> cases read
    rename_i closing
    exact ⟨some found.1, found.2, _, _, _, ⟨rfl, nofun⟩, closing, rfl, rfl⟩

end Item

theorem Item.Uses.ne_nil {item : Item} {uses : List Use} (h : item.Uses uses) : uses ≠ [] := by
  cases h with
  | key core => cases core <;> simp
  | _ => simp

theorem Core.Uses.endsOpen {core : Core} {heart : List Use} (h : core.Uses heart)
    (before : List Use) : endsOpen (before ++ heart) = true := by
  cases h <;> simp [PathTemplate.endsOpen, Role.takesModifier]

/-- A second modifier is not taken. -/
theorem Modifier.Uses.eq_nil {modifier : Modifier} {sign uses : List Use} (h : modifier.Uses sign)
    (isOpen : endsOpen (uses ++ sign) = true) : sign = [] := by
  cases h with
  | none => rfl
  | sign => simp [endsOpen, Role.takesModifier] at isOpen

theorem BeginsUnmodified.of_append {lexemes more : List Lexeme}
    (h : BeginsUnmodified (lexemes ++ more)) : BeginsUnmodified lexemes := by
  cases lexemes with
  | nil => exact nofun
  | cons lexeme lexemes => exact h

namespace Item

variable {lexemes rest : List Lexeme} {core : Core} {item : Item}

theorem exists_uses_of_groupBody (signed : ∀ lexeme ∈ lexemes, lexeme.IsSigned)
    (read : groupBody lexemes = .ok (item, rest)) (index : Nat) (value : String) :
    ∃ uses, item.Uses (⟨.opening, .opening, index, value⟩ :: uses) ∧
      lexemes = lexemesOf uses ++ rest ∧
        (endsOpen (⟨.opening, .opening, index, value⟩ :: uses) = true → BeginsUnmodified rest) := by
  obtain ⟨core, afterCore, index', value', afterTrail, ⟨core?, noCore⟩, closing, rfl, rfl⟩ :=
    groupBody_eq_ok read
  obtain ⟨before, lead, beforeEq⟩ := exists_uses_of_leadingText lexemes
  obtain ⟨after, trail, afterEq⟩ := exists_uses_of_leadingText afterCore
  have inside : ∃ heart, HeartUses core heart ∧
      (leadingText lexemes).2 = lexemesOf heart ++ afterCore := by
    cases core with
    | none => exact ⟨[], .none, (noCore rfl).symm⟩
    | some core =>
      obtain ⟨heart, uses, same⟩ := exists_uses_of_leadingCore? core?
      exact ⟨heart, .some uses, same⟩
  obtain ⟨heart, heartUses, heartEq⟩ := inside
  let closing' : Use := ⟨.closing, .closing, index', value'⟩
  have whole : lexemes =
      lexemesOf before ++ (lexemesOf heart ++ (lexemesOf after ++ closing'.lexeme :: afterTrail)) := by
    rw [← closing, ← afterEq, ← heartEq]
    exact beforeEq
  have signed' : ∀ lexeme ∈ afterTrail, lexeme.IsSigned :=
    fun lexeme member => signed lexeme (whole ▸ by simp [member])
  obtain ⟨sign, modifier, signEq, unmodified⟩ := exists_uses_of_leadingModifier signed'
  refine ⟨before ++ (heart ++ (after ++ closing' :: sign)), .group lead heartUses trail modifier,
    ?_, fun isOpen => unmodified ?_⟩
  · rw [whole]
    nth_rewrite 1 [signEq]
    simp
  · refine @Modifier.Uses.eq_nil _ _ (⟨.opening, .opening, index, value⟩ ::
      (before ++ (heart ++ (after ++ [closing'])))) modifier ?_
    rw [← isOpen]
    simp

/-- What is read first is an item with its lexemes. -/
theorem exists_uses_of_next (signed : ∀ lexeme ∈ lexemes, lexeme.IsSigned)
    (read : next lexemes = .ok (some (item, rest))) :
    ∃ uses, item.Uses uses ∧ lexemes = lexemesOf uses ++ rest ∧
      (endsOpen uses = true → BeginsUnmodified rest) := by
  unfold next at read
  split at read
  · rename_i core afterCore core?
    cases read
    obtain ⟨heart, uses, rfl⟩ := exists_uses_of_leadingCore? core?
    obtain ⟨sign, modifier, signEq, unmodified⟩ := @exists_uses_of_leadingModifier afterCore
      fun lexeme member => signed lexeme (List.mem_append_right _ member)
    refine ⟨heart ++ sign, .key uses modifier, ?_, fun isOpen => unmodified (modifier.eq_nil isOpen)⟩
    rw [lexemesOf_append, List.append_assoc]
    exact congrArg (lexemesOf heart ++ ·) signEq
  · split at read
    · cases read
      exact ⟨_, .plain, rfl, nofun⟩
    · cases read
      exact ⟨_, .escaped, rfl, nofun⟩
    · obtain ⟨_, group, same⟩ := map_eq_ok read
      cases same
      obtain ⟨uses, isItem, rfl, unmodified⟩ :=
        exists_uses_of_groupBody (List.forall_mem_cons.1 signed).2 group _ _
      exact ⟨_, isItem, rfl, unmodified⟩
    · cases read
    · cases read

theorem next_eq_none (read : next lexemes = .ok none) :
    ∃ index value rest, lexemes = ⟨.finish, index, value⟩ :: rest := by
  unfold next at read
  split at read
  · cases read
  · split at read <;> first | cases read | skip
    · obtain ⟨_, _, same⟩ := map_eq_ok read
      cases same
    · exact ⟨_, _, _, rfl⟩

theorem length_leadingModifier_le (lexemes : List Lexeme) :
    (leadingModifier lexemes).2.length ≤ lexemes.length := by
  cases lexemes with
  | nil => exact Nat.le_refl _
  | cons lexeme lexemes =>
    simp only [leadingModifier]
    split <;> simp

theorem length_lt_of_leadingCore? (read : leadingCore? lexemes = some (core, rest)) :
    rest.length < lexemes.length := by
  obtain ⟨heart, uses, rfl⟩ := exists_uses_of_leadingCore? read
  rw [List.length_append]
  cases uses <;> exact Nat.lt_add_of_pos_left (Nat.succ_pos _)

theorem length_lt_of_groupBody (read : groupBody lexemes = .ok (item, rest)) :
    rest.length < lexemes.length := by
  obtain ⟨core, afterCore, index, value, afterTrail, ⟨core?, noCore⟩, closing, -, rfl⟩ :=
    groupBody_eq_ok read
  have lead := (List.dropWhile_sublist isText (l := lexemes)).length_le
  have trail := (List.dropWhile_sublist isText (l := afterCore)).length_le
  have sign := length_leadingModifier_le afterTrail
  have inside : afterCore.length ≤ (leadingText lexemes).2.length := by
    cases core with
    | none => rw [noCore rfl]
    | some core => exact Nat.le_of_lt (length_lt_of_leadingCore? core?)
  have closing := congrArg List.length closing
  simp only [leadingText, List.length_cons] at *
  omega

/-- Every item covers a lexeme. -/
theorem length_lt_of_next (read : next lexemes = .ok (some (item, rest))) :
    rest.length < lexemes.length := by
  unfold next at read
  split at read
  · rename_i core afterCore core?
    cases read
    exact Nat.lt_of_le_of_lt (length_leadingModifier_le afterCore) (length_lt_of_leadingCore? core?)
  · split at read
    · cases read
      exact Nat.lt_succ_self _
    · cases read
      exact Nat.lt_succ_self _
    · obtain ⟨_, group, same⟩ := map_eq_ok read
      cases same
      exact Nat.lt_succ_of_lt (length_lt_of_groupBody group)
    · cases read
    · cases read

/-- Reading stops before the lexemes, at the end of the pattern or with an error. -/
def StopsAt (lexemes : List Lexeme) : Option ParseError → Prop
  | none => next lexemes = .ok none
  | some error => next lexemes = .error error

/-- What is read up to where reading stops is a division. -/
theorem exists_divides_of_upTo {bound : Nat} (signed : ∀ lexeme ∈ lexemes, lexeme.IsSigned)
    (room : lexemes.length < bound) :
    ∃ uses rest, Divides (upTo bound lexemes).1 uses ∧ lexemes = lexemesOf uses ++ rest ∧
      (endsOpen uses = true → BeginsUnmodified rest) ∧ StopsAt rest (upTo bound lexemes).2 := by
  induction bound generalizing lexemes with
  | zero => cases room
  | succ bound ih =>
    unfold upTo
    split
    · rename_i error first
      exact ⟨[], lexemes, .nil, rfl, nofun, first⟩
    · rename_i first
      exact ⟨[], lexemes, .nil, rfl, nofun, first⟩
    · rename_i item afterItem first
      have less := length_lt_of_next first
      obtain ⟨uses, isItem, rfl, unmodified⟩ := exists_uses_of_next signed first
      obtain ⟨more, rest, divides, rfl, unmodified', stops⟩ := ih
        (fun lexeme member => signed lexeme (List.mem_append_right _ member)) (by omega)
      refine ⟨uses ++ more, rest, .cons isItem (fun isOpen => (unmodified isOpen).of_append) divides,
        by rw [lexemesOf_append, List.append_assoc], ?_, stops⟩
      cases more with
      | nil => simpa using unmodified
      | cons use more => rwa [endsOpen_append_cons]

end Item

/-! ### What divides is read -/

/-- A pattern that comes next is read as that of the name. -/
def IsBareName (uses : List Use) : Prop := ∃ index name, uses = [⟨.name, .name, index, name⟩]

/-- Text, once it ends, is read as one. -/
def StopsText (lexemes : List Lexeme) : Prop :=
  ∀ lexeme ∈ lexemes.head?, Item.isText lexeme = false

theorem TextUses.append {lead trail : String} {before after : List Use}
    (isLead : TextUses lead before) (isTrail : TextUses trail after) :
    TextUses (lead ++ trail) (before ++ after) := by
  obtain ⟨isText, rfl⟩ := isLead
  obtain ⟨isText', rfl⟩ := isTrail
  refine ⟨fun use member => ?_, ?_⟩
  · rcases List.mem_append.1 member with member | member
    · exact isText use member
    · exact isText' use member
  · rw [List.map_append, String.join_append]

/-- No pattern comes after the text, unless one follows. -/
theorem TextUses.head?_ne_pattern {text : String} {uses : List Use} {rest : List Lexeme}
    (h : TextUses text uses) (follows : ∀ lexeme ∈ rest.head?, lexeme.kind ≠ .pattern) :
    ∀ lexeme ∈ (lexemesOf uses ++ rest).head?, lexeme.kind ≠ .pattern := by
  cases uses with
  | nil => exact follows
  | cons use uses =>
    rintro _ ⟨⟩ kind
    have isText := (h.1 use List.mem_cons_self).2
    simp [Item.isText, kind] at isText

theorem Core.Uses.stopsText {core : Core} {heart : List Use} (h : core.Uses heart)
    (rest : List Lexeme) : StopsText (lexemesOf heart ++ rest) := by
  cases h <;> rintro _ ⟨⟩ <;> rfl

namespace Item

variable {rest : List Lexeme}

theorem leadingModifier_append {modifier : Modifier} {sign : List Use} (h : modifier.Uses sign)
    (unmodified : sign = [] → BeginsUnmodified rest) :
    leadingModifier (lexemesOf sign ++ rest) = (modifier, rest) := by
  cases h with
  | none => exact leadingModifier_of_unmodified (unmodified rfl)
  | sign kinds value =>
    rcases kinds with kind | kind <;>
      simp only [lexemesOf, List.map_cons, List.map_nil, List.cons_append, List.nil_append,
        leadingModifier, kind, value, Modifier.ofSymbol?_symbol, Option.getD_some]

theorem leadingCore?_append {core : Core} {heart : List Use} (h : core.Uses heart)
    (alone : IsBareName heart → ∀ lexeme ∈ rest.head?, lexeme.kind ≠ .pattern) :
    leadingCore? (lexemesOf heart ++ rest) = some (core, rest) := by
  cases h with
  | name =>
    have alone := alone ⟨_, _, rfl⟩
    cases rest with
    | nil => rfl
    | cons lexeme rest =>
      obtain ⟨kind, _, _⟩ := lexeme
      cases kind <;> first | rfl | exact absurd rfl (alone _ rfl)
  | _ => rfl

theorem leadingText_append {text : String} {uses : List Use} (h : TextUses text uses)
    (stops : StopsText rest) : leadingText (lexemesOf uses ++ rest) = (text, rest) := by
  obtain ⟨isText, rfl⟩ := h
  have all : ∀ lexeme ∈ lexemesOf uses, Item.isText lexeme = true := by
    intro lexeme member
    obtain ⟨use, present, rfl⟩ := List.mem_map.1 member
    exact (isText use present).2
  have none : rest.takeWhile Item.isText = [] ∧ rest.dropWhile Item.isText = rest := by
    cases rest with
    | nil => exact ⟨rfl, rfl⟩
    | cons lexeme rest => simp [stops lexeme rfl]
  rw [leadingText, List.takeWhile_append_of_pos all, List.dropWhile_append_of_pos all, none.1,
    none.2, List.append_nil, lexemesOf, List.map_map]
  rfl

/-- The body of a group is read, though the texts before and after a core that is missing are read
as one. -/
theorem exists_groupBody_of_uses {core : Option Core} {modifier : Modifier} {lead trail : String}
    {before heart after sign : List Use} {index : Nat} {value : String}
    (isLead : TextUses lead before) (isHeart : HeartUses core heart) (isTrail : TextUses trail after)
    (isSign : modifier.Uses sign) (unmodified : sign = [] → BeginsUnmodified rest) :
    ∃ item, groupBody (lexemesOf before ++ (lexemesOf heart ++ (lexemesOf after ++
      ⟨.closing, index, value⟩ :: (lexemesOf sign ++ rest)))) = .ok (item, rest) := by
  have read := leadingModifier_append isSign unmodified
  generalize lexemesOf sign ++ rest = afterTrail at read
  have stops : StopsText (⟨.closing, index, value⟩ :: afterTrail) := by
    rintro _ ⟨⟩
    rfl
  cases isHeart with
  | none =>
    have text := leadingText_append (isLead.append isTrail) stops
    have noText := @leadingText_append _ "" [] ⟨nofun, rfl⟩ stops
    rw [lexemesOf_append, List.append_assoc] at text
    refine ⟨.group (lead ++ trail) none "" modifier, ?_⟩
    have core : leadingCore? (⟨.closing, index, value⟩ :: afterTrail) = none := rfl
    simp only [lexemesOf, List.map_nil, List.nil_append] at noText text ⊢
    simp only [groupBody, text, core, noText, read]
  | @some core _ isHeart =>
    have afterCore := leadingText_append isTrail stops
    have noPattern : ∀ lexeme ∈ (lexemesOf after ++ ⟨.closing, index, value⟩ :: afterTrail).head?,
        lexeme.kind ≠ .pattern := by
      refine isTrail.head?_ne_pattern ?_
      rintro _ ⟨⟩
      nofun
    have inside := leadingCore?_append isHeart fun _ => noPattern
    have text := leadingText_append isLead
      (isHeart.stopsText (lexemesOf after ++ ⟨.closing, index, value⟩ :: afterTrail))
    refine ⟨.group lead (some core) trail modifier, ?_⟩
    simp only [groupBody, text, inside, afterCore, read]

/-- An item is read from its lexemes, unless a pattern is taken with a name before it. -/
theorem exists_next_of_uses {item : Item} {uses : List Use} (isItem : item.Uses uses)
    (unmodified : endsOpen uses = true → BeginsUnmodified rest)
    (alone : IsBareName uses → ∀ lexeme ∈ rest.head?, lexeme.kind ≠ .pattern) :
    ∃ item, next (lexemesOf uses ++ rest) = .ok (some (item, rest)) := by
  cases isItem with
  | plain => exact ⟨_, rfl⟩
  | escaped => exact ⟨_, rfl⟩
  | @key core modifier heart sign isHeart isSign =>
    have read := leadingModifier_append isSign fun (none : sign = []) =>
      unmodified (none ▸ isHeart.endsOpen [] ▸ by simp)
    have alone' : IsBareName heart → ∀ lexeme ∈ (lexemesOf sign ++ rest).head?,
        lexeme.kind ≠ .pattern := by
      intro bare
      cases isSign with
      | none => exact alone ((List.append_nil heart).symm ▸ bare)
      | sign kinds =>
        rintro _ ⟨⟩ kind
        rcases kinds with kind' | kind' <;> rw [kind] at kind' <;> cases kind'
    refine ⟨.key core modifier, ?_⟩
    rw [lexemesOf_append, List.append_assoc]
    unfold next
    rw [leadingCore?_append isHeart alone']
    simp only [read]
  | @group core modifier lead trail _ value _ index before heart after sign isLead isHeart isTrail
      isSign =>
    have unmodified' : sign = [] → BeginsUnmodified rest := by
      rintro rfl
      refine unmodified ?_
      simp only [endsOpen, ← List.append_assoc, ← List.cons_append, List.getLast?_concat]
      rfl
    obtain ⟨item, body⟩ := @exists_groupBody_of_uses _ _ _ _ _ _ _ _ _ index value isLead isHeart
      isTrail isSign unmodified'
    refine ⟨item, ?_⟩
    simp only [lexemesOf, List.map_cons, List.map_append, List.cons_append, List.append_assoc]
      at body ⊢
    unfold next
    simp only [leadingCore?, body]
    rfl

theorem upTo_of_next {lexemes : List Lexeme} {item : Item}
    (first : next lexemes = .ok (some (item, rest))) (bound : Nat) :
    (upTo (bound + 1) lexemes).2 = (upTo bound rest).2 := by
  simp only [upTo, first]

/-- Where there is a division, reading goes on after it, unless it takes more. -/
theorem upTo_append_of_divides {items : List Item} {uses : List Use} (h : Divides items uses)
    (unmodified : endsOpen uses = true → BeginsUnmodified rest)
    (noPattern : ∀ lexeme ∈ rest.head?, lexeme.kind ≠ .pattern) {bound : Nat}
    (more : uses.length < bound) :
    ∃ left, (upTo bound (lexemesOf uses ++ rest)).2 = (upTo (left + 1) rest).2 := by
  induction h generalizing bound with
  | nil =>
    obtain ⟨bound, rfl⟩ := Nat.exists_eq_add_one_of_ne_zero (Nat.ne_of_gt more)
    exact ⟨bound, rfl⟩
  | @cons item items uses others isItem unmodified' divides ih =>
    obtain ⟨bound, rfl⟩ := Nat.exists_eq_add_one_of_ne_zero (Nat.ne_zero_of_lt more)
    have covers := List.length_pos_iff.2 isItem.ne_nil
    rw [List.length_append] at more
    rw [lexemesOf_append, List.append_assoc]
    have isOpen : endsOpen others = true → BeginsUnmodified rest := by
      refine fun isOpen => unmodified ?_
      cases others with
      | nil => cases isOpen
      | cons use others => rwa [endsOpen_append_cons]
    by_cases alone : IsBareName uses →
        ∀ lexeme ∈ (lexemesOf others ++ rest).head?, lexeme.kind ≠ .pattern
    · have here : endsOpen uses = true → BeginsUnmodified (lexemesOf others ++ rest) := by
        cases others with
        | nil => simpa using unmodified
        | cons use others => exact unmodified'
      obtain ⟨item, first⟩ := exists_next_of_uses isItem here alone
      rw [upTo_of_next first]
      exact ih isOpen (by omega)
    · -- The pattern of the next item is taken with the name, and the rest is the same.
      push Not at alone
      obtain ⟨⟨place, name, rfl⟩, ⟨_, place', text⟩, next, rfl⟩ := alone
      cases others with
      | nil => exact absurd rfl (noPattern _ next)
      | cons use others =>
        obtain ⟨left, other⟩ :=
          @ih isOpen (bound + 1) (by simp only [List.length_singleton] at *; omega)
        obtain ⟨role, lexeme⟩ := use
        cases next
        simp only [lexemesOf, List.map_cons, List.cons_append] at other
        rw [@upTo_of_next _ _ (.key (.unnamed text place') _) rfl] at other
        exact ⟨left,
          (@upTo_of_next _ _ (.key (.named name place (some text)) _) rfl bound).trans other⟩

/-- Where the whole pattern divides, reading stops at its end. -/
theorem upTo_of_divides {items : List Item} {uses : List Use} (h : Divides items uses)
    (index : Nat) (value : String) {bound : Nat} (more : uses.length < bound) :
    (upTo bound (lexemesOf uses ++ ⟨.finish, index, value⟩ :: rest)).2 = none := by
  have unmodified : BeginsUnmodified (⟨.finish, index, value⟩ :: rest) := by
    rintro _ ⟨⟩
    rfl
  have noPattern : ∀ lexeme ∈ (⟨.finish, index, value⟩ :: rest : List Lexeme).head?,
      lexeme.kind ≠ .pattern := by
    rintro _ ⟨⟩
    nofun
  obtain ⟨left, same⟩ := upTo_append_of_divides h (fun _ => unmodified) noPattern more
  exact same

end Item

end PathTemplate
