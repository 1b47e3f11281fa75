/-
Patterns that are refused.

A pattern that divides into lexemes is refused for a name that was given before, or for a lexeme
that cannot stand where it does. The error points to that lexeme, and unless a group is open there,
the pattern up to it is accepted while nothing longer is.

* `tokensOf_eq_error`: why a pattern is refused, by its items.
* `isRefusal_of_tokensOf`: what the error says of the lexemes and of the pattern.
-/

import PathTemplate.Proofs.Token.Accepted
import PathTemplate.Proofs.Token.Faults

namespace PathTemplate

/-! ### Names that are refused -/

namespace Assembly

variable {options : Options} {assembly before next : Assembly} {error : ParseError}

/-- A name that is refused is one that a lexeme gives, and it was claimed before. -/
theorem claimFor_eq_error {core : Core} {error : ParseError} (ordinals : assembly.HasOrdinals)
    (refused : assembly.claimFor core = .error error) :
    ∃ name index pattern, core = .named name index pattern ∧
      .explicit name ∈ assembly.names ∧ error = .duplicateName (.explicit name) index := by
  cases core with
  | named name index pattern =>
    refine ⟨name, index, pattern, rfl, ?_⟩
    by_cases taken : assembly.names.contains (.explicit name)
    · simp only [claimFor, claim, taken] at refused
      cases refused
      exact ⟨by simpa using taken, rfl⟩
    · simp only [claimFor, claim, taken] at refused
      cases refused
  | unnamed pattern index =>
    obtain ⟨claimed, claim⟩ := @exists_claimFor assembly (.unnamed pattern index) ordinals
      (by rintro _ ⟨⟩)
    rw [claim] at refused
    cases refused

theorem add_eq_error {item : Item} {error : ParseError} (ordinals : assembly.HasOrdinals)
    (refused : assembly.add options item = .error error) :
    ∃ name index pattern, item.core? = some (.named name index pattern) ∧
      .explicit name ∈ assembly.names ∧ error = .duplicateName (.explicit name) index := by
  cases has : item.core? with
  | none =>
    obtain ⟨next, added, _⟩ := @add_of_no_core options assembly item has
    rw [added] at refused
    cases refused
  | some core =>
    obtain ⟨before, key, ⟨names, ordinal⟩, added⟩ := @add_of_core? options assembly core item has
    obtain ⟨name, index, pattern, rfl, taken, rfl⟩ := claimFor_eq_error
      (by rw [HasOrdinals, names, ordinal]; exact ordinals) (map_eq_error (added.symm.trans refused))
    exact ⟨name, index, pattern, rfl, names ▸ taken, rfl⟩

/-- The names that items have claimed are those that they give. -/
theorem claimed_of_foldlM {items : List Item} (ordinals : assembly.HasOrdinals)
    (run : items.foldlM (add options) assembly = .ok next) :
    next.HasOrdinals ∧ ∀ text, .explicit text ∈ next.names ↔
      text ∈ items.filterMap Item.name? ∨ .explicit text ∈ assembly.names := by
  induction items generalizing assembly with
  | nil =>
    cases run
    exact ⟨ordinals, fun text => by simp⟩
  | cons item items ih =>
    rw [List.foldlM_cons] at run
    cases added : assembly.add options item with
    | error error =>
      rw [added] at run
      cases run
    | ok middle =>
      rw [added] at run
      obtain ⟨_, explicit, ordinals⟩ := claims_of_add ordinals added
      obtain ⟨ordinals, later⟩ := ih ordinals run
      refine ⟨ordinals, fun text => ?_⟩
      rw [later, explicit, List.filterMap_cons]
      cases item.name? <;> simp [or_left_comm, or_assoc, eq_comm]

end Assembly

/-- A division of items is one of those that come first, and one of the next. -/
theorem Divides.exists_append {earlier later : List Item} {item : Item} {uses : List Use}
    (h : Divides (earlier ++ item :: later) uses) :
    ∃ before here after, uses = before ++ (here ++ after) ∧ item.Uses here ∧
      Divides earlier before := by
  induction earlier generalizing uses with
  | nil =>
    cases h with
    | @cons _ _ here after isItem => exact ⟨[], here, after, rfl, isItem, .nil⟩
  | cons first earlier ih =>
    cases h with
    | @cons _ _ uses rest isItem unmodified divides =>
      obtain ⟨before, here, after, rfl, isHere, divides⟩ := ih divides
      refine ⟨uses ++ before, here, after, (List.append_assoc ..).symm, isHere,
        .cons isItem (fun isOpen => ?_) divides⟩
      have unmodified := unmodified isOpen
      rw [lexemesOf_append] at unmodified
      exact unmodified.of_append

theorem Lexeme.eq_of_name? {lexeme : Lexeme} {name : String} (has : lexeme.name? = some name) :
    ∃ index, lexeme = ⟨.name, index, name⟩ := by
  obtain ⟨kind, index, value⟩ := lexeme
  unfold name? at has
  split at has
  · rename_i isName
    obtain rfl : kind = .name := isName
    cases has
    exact ⟨index, rfl⟩
  · cases has

/-- The name of a core is that of a lexeme. -/
theorem Core.Uses.mem_of_named {name : String} {index : Nat} {pattern : Option String}
    {heart : List Use} (h : (Core.named name index pattern).Uses heart) :
    ⟨.name, index, name⟩ ∈ lexemesOf heart := by
  cases h <;> exact List.mem_cons_self

theorem Item.Uses.mem_of_named {item : Item} {uses : List Use} (h : item.Uses uses) {name : String}
    {index : Nat} {pattern : Option String} (has : item.core? = some (.named name index pattern)) :
    ⟨.name, index, name⟩ ∈ lexemesOf uses := by
  cases h with
  | plain | escaped => cases has
  | key isHeart isSign =>
    cases has
    rw [lexemesOf_append]
    exact List.mem_append_left _ isHeart.mem_of_named
  | group _ isHeart _ _ =>
    cases has
    cases isHeart with
    | some isHeart =>
      have member := isHeart.mem_of_named
      simp only [lexemesOf, List.map_cons, List.map_append, List.mem_cons, List.mem_append] at member ⊢
      exact .inr (.inr (.inl member))

/-! ### Lexemes that cannot stand where they do -/

/-- A group was opened and not closed. -/
def IsUnclosed (lexemes : List Lexeme) : Prop :=
  ∃ outer brace inner, lexemes = outer ++ brace :: inner ∧ brace.kind = .opening ∧
    ∀ lexeme ∈ inner, lexeme.kind ≠ .closing

namespace Item

variable {lexemes : List Lexeme} {error : ParseError}

/-- In a group, what follows its core and its texts has to be the brace that closes it. -/
theorem groupBody_eq_error (read : groupBody lexemes = .error error) :
    ∃ inner rest, lexemes = inner ++ rest ∧
      (∀ lexeme ∈ inner, lexeme.kind ≠ .closing ∧ lexeme.kind ≠ .finish) ∧
      (∀ lexeme ∈ rest.head?, lexeme.kind ≠ .closing) ∧ error = unexpected rest .closing := by
  have texts (lexemes : List Lexeme) : ∃ texts, lexemes = texts ++ (leadingText lexemes).2 ∧
      ∀ lexeme ∈ texts, lexeme.kind ≠ .closing ∧ lexeme.kind ≠ .finish := by
    refine ⟨lexemes.takeWhile isText, List.takeWhile_append_dropWhile.symm, fun lexeme member => ?_⟩
    have isText := List.mem_takeWhile_imp member
    constructor <;> intro kind <;> simp [Item.isText, kind] at isText
  have hearts : ∃ heart,
      (leadingText lexemes).2 = heart ++ ((leadingCore? (leadingText lexemes).2).elim
        (leadingText lexemes).2 Prod.snd) ∧
      ∀ lexeme ∈ heart, lexeme.kind ≠ .closing ∧ lexeme.kind ≠ .finish := by
    cases core : leadingCore? (leadingText lexemes).2 with
    | none => exact ⟨[], rfl, List.forall_mem_nil _⟩
    | some found =>
      obtain ⟨core', rest⟩ := found
      obtain ⟨heart, uses, same⟩ := exists_uses_of_leadingCore? core
      refine ⟨lexemesOf heart, same, ?_⟩
      cases uses <;> simp
  obtain ⟨before, beforeEq, isLead⟩ := texts lexemes
  obtain ⟨heart, heartEq, isHeart⟩ := hearts
  simp only [groupBody] at read
  generalize coreEq : (leadingCore? (leadingText lexemes).2).elim (leadingText lexemes).2 Prod.snd =
    afterCore at heartEq
  obtain ⟨after, afterEq, isTrail⟩ := texts afterCore
  refine ⟨before ++ (heart ++ after), (leadingText afterCore).2, ?_, ?_, ?_⟩
  · rw [List.append_assoc, List.append_assoc, ← afterEq, ← heartEq]
    exact beforeEq
  · intro lexeme member
    rcases List.mem_append.1 member with member | member
    · exact isLead lexeme member
    · exact (List.mem_append.1 member).elim (isHeart lexeme) (isTrail lexeme)
  · cases core : leadingCore? (leadingText lexemes).2 with
    | none | some =>
      rw [core] at read coreEq
      obtain rfl := coreEq
      split at read
      · cases read
      · rename_i noClose
        cases read
        refine ⟨fun lexeme first kind => ?_, rfl⟩
        obtain ⟨others, there⟩ := List.head?_eq_some_iff.1 first
        obtain ⟨_, index, value⟩ := lexeme
        cases kind
        exact noClose index value others there

/-- Where no item can be read, a group is not closed, or a lexeme stands that begins none. -/
theorem next_eq_error (finish : ∃ lexeme ∈ lexemes, lexeme.kind = .finish)
    (valid : ∀ lexeme ∈ lexemes, lexeme.kind ≠ .invalid) (read : next lexemes = .error error) :
    ∃ earlier bad later, lexemes = earlier ++ bad :: later ∧
      ((error = .unexpected bad.kind bad.index .closing ∧ bad.kind ≠ .closing ∧
          IsUnclosed earlier) ∨
        (error = .unexpected bad.kind bad.index .finish ∧
          (bad.kind = .modifier ∨ bad.kind = .closing) ∧ earlier = [])) := by
  unfold next at read
  split at read
  · cases read
  · rename_i noCore
    split at read
    · cases read
    · cases read
    · obtain ⟨inner, rest, rfl, others, noClose, rfl⟩ := groupBody_eq_error (map_eq_error read)
      cases rest with
      | nil =>
        obtain ⟨lexeme, member, kind⟩ := finish
        rw [List.append_nil] at member
        rcases List.mem_cons.1 member with rfl | member
        · cases kind
        · exact absurd kind (others lexeme member).2
      | cons bad later =>
        exact ⟨_ :: inner, bad, later, rfl, .inl ⟨rfl, noClose bad rfl, [], _, inner, rfl, rfl,
          fun lexeme member => (others lexeme member).1⟩⟩
    · cases read
    · rename_i noPlain noEscaped noOpening noFinish
      cases read
      cases lexemes with
      | nil =>
        obtain ⟨_, ⟨⟩, _⟩ := finish
      | cons bad later =>
        refine ⟨[], bad, later, rfl, .inr ⟨rfl, ?_, rfl⟩⟩
        obtain ⟨kind, index, value⟩ := bad
        cases kind with
        | modifier => exact .inl rfl
        | closing => exact .inr rfl
        | opening => exact absurd rfl (noOpening index value later)
        | plain => exact absurd rfl (noPlain index value later)
        | escaped => exact absurd rfl (noEscaped index value later)
        | finish => exact absurd rfl (noFinish index value later)
        | invalid => exact absurd rfl (valid _ List.mem_cons_self)
        | pattern | asterisk => cases noCore
        | name =>
          unfold leadingCore? at noCore
          split at noCore <;> simp_all

/-- A modifier and a brace that closes a group begin no item. -/
theorem next_of_stray {bad : Lexeme} (kinds : bad.kind = .modifier ∨ bad.kind = .closing)
    (later : List Lexeme) :
    next (bad :: later) = .error (.unexpected bad.kind bad.index .finish) := by
  obtain ⟨kind, index, value⟩ := bad
  rcases kinds with rfl | rfl <;> rfl

end Item

/-- They are read from one character, whatever follows it. -/
theorem Lexeme.first_of_stray {index further : Nat} {c : Char} {rest : List Char} {bad : Lexeme}
    (read : first index c rest = .ok (bad, further))
    (kinds : bad.kind = .modifier ∨ bad.kind = .closing) :
    ∀ kept, first index c kept = .ok (bad, 0) := by
  unfold first at read
  split at read
  case h_2 | h_3 | h_5 =>
    cases read
    exact fun _ => rfl
  all_goals first
    | cases read
      exact kinds.elim nofun nofun
    | split at read <;> cases read
      exact kinds.elim nofun nofun

/-- The lexeme has the part of a brace if it is one, and the end of the pattern has no part. -/
structure Use.IsApt (use : Use) : Prop where
  opening : use.lexeme.kind = .opening → use.role = .opening
  closing : use.role = .closing → use.lexeme.kind = .closing
  proper : use.lexeme.kind ≠ .finish

theorem Use.isApt_of_other {use : Use} (opening : use.lexeme.kind ≠ .opening)
    (closing : use.role ≠ .closing) (proper : use.lexeme.kind ≠ .finish) : use.IsApt where
  opening kind := absurd kind opening
  closing role := absurd role closing
  proper := proper

theorem TextUses.isApt {text : String} {uses : List Use} (isText : TextUses text uses) :
    ∀ use ∈ uses, use.IsApt := by
  intro use member
  obtain ⟨role, text⟩ := isText.1 use member
  refine Use.isApt_of_other (fun kind => ?_) (by simp [role]) (fun kind => ?_)
  · simp [Item.isText, kind] at text
  · simp [Item.isText, kind] at text

theorem Core.Uses.isApt {core : Core} {heart : List Use} (isCore : core.Uses heart) :
    ∀ use ∈ heart, use.IsApt := by
  have name {index : Nat} {text : String} : Use.IsApt ⟨.name, .name, index, text⟩ :=
    Use.isApt_of_other (by simp) (by simp) (by simp)
  have pattern {index : Nat} {text : String} : Use.IsApt ⟨.pattern, .pattern, index, text⟩ :=
    Use.isApt_of_other (by simp) (by simp) (by simp)
  cases isCore with
  | name => exact List.forall_mem_singleton.2 name
  | namePattern => exact List.forall_mem_cons.2 ⟨name, List.forall_mem_singleton.2 pattern⟩
  | pattern => exact List.forall_mem_singleton.2 pattern
  | wildcard =>
    exact List.forall_mem_singleton.2 (Use.isApt_of_other (by simp) (by simp) (by simp))

theorem HeartUses.isApt {core : Option Core} {heart : List Use} (isHeart : HeartUses core heart) :
    ∀ use ∈ heart, use.IsApt := by
  cases isHeart with
  | none => exact List.forall_mem_nil _
  | some isCore => exact isCore.isApt

theorem Modifier.Uses.isApt {modifier : Modifier} {sign : List Use}
    (isSign : modifier.Uses sign) : ∀ use ∈ sign, use.IsApt := by
  cases isSign with
  | none => exact List.forall_mem_nil _
  | sign kinds =>
    refine List.forall_mem_singleton.2 (Use.isApt_of_other ?_ (by simp) ?_)
    · rcases kinds with kind | kind <;> simp [kind]
    · rcases kinds with kind | kind <;> simp [kind]

theorem Item.Uses.isApt {item : Item} {uses : List Use} (h : item.Uses uses) :
    ∀ use ∈ uses, use.IsApt := by
  cases h with
  | plain | escaped =>
    exact List.forall_mem_singleton.2 (Use.isApt_of_other (by simp) (by simp) (by simp))
  | key isHeart isSign => exact List.forall_mem_append.2 ⟨isHeart.isApt, isSign.isApt⟩
  | @group _ _ _ _ sign₁ sign₂ index₁ index₂ _ _ _ _ isLead isHeart isTrail isSign =>
    have opens : Use.IsApt ⟨.opening, .opening, index₁, sign₁⟩ :=
      ⟨fun _ => rfl, fun closing => (by cases closing), (by simp)⟩
    have closes : Use.IsApt ⟨.closing, .closing, index₂, sign₂⟩ :=
      ⟨fun opening => (by cases opening), fun _ => rfl, (by simp)⟩
    refine List.forall_mem_cons.2 ⟨opens, List.forall_mem_append.2 ⟨isLead.isApt, ?_⟩⟩
    refine List.forall_mem_append.2 ⟨isHeart.isApt, List.forall_mem_append.2 ⟨isTrail.isApt, ?_⟩⟩
    exact List.forall_mem_cons.2 ⟨closes, isSign.isApt⟩

namespace Divides

variable {items : List Item} {uses : List Use}

theorem isApt (h : Divides items uses) : ∀ use ∈ uses, use.IsApt := by
  induction h with
  | nil => exact nofun
  | cons isItem _ _ ih => exact List.forall_mem_append.2 ⟨isItem.isApt, ih⟩

theorem not_inGroup (h : Divides items uses) : ¬ InGroup uses := by
  induction h with
  | nil =>
    rintro ⟨_, _, _, none, _⟩
    simp at none
  | cons isItem _ _ ih => exact fun inside => ih (inside.of_append isItem)

/-- Where items end, no group is open. -/
theorem not_isUnclosed (h : Divides items uses) : ¬ IsUnclosed (lexemesOf uses) := by
  rintro ⟨outer, brace, inner, split, opens, unclosed⟩
  obtain ⟨outer, rest, rfl, rfl, there⟩ := List.map_eq_append_iff.1 split
  obtain ⟨brace, inner, rfl, rfl, rfl⟩ := List.map_eq_cons_iff.1 there
  obtain ⟨here, others⟩ := List.forall_mem_cons.1 (List.forall_mem_append.1 h.isApt).2
  exact h.not_inGroup ⟨outer, brace, inner, rfl, here.opening opens, fun use member role =>
    unclosed use.lexeme (List.mem_map_of_mem member) ((others use member).closing role)⟩

end Divides

/-! ### Patterns that are refused -/

section Refusals

variable {options : Options} {pattern : String} {found : List Lexeme} {error : ParseError}

/-- A pattern is refused where an item cannot be added, or where reading its items stops. -/
theorem tokensOf_eq_error (read : lexemes pattern = .ok found)
    (refused : tokensOf options pattern = .error error) :
    (∃ earlier item later before, (items found).1 = earlier ++ item :: later ∧
        earlier.foldlM (Assembly.add options) {} = .ok before ∧
        before.add options item = .error error) ∨
      (items found).2 = some error ∧
        ∃ last, (items found).1.foldlM (Assembly.add options) {} = .ok last := by
  rw [tokensOf, read] at refused
  simp only [tokensOfLexemes, tokensOfItems] at refused
  generalize items found = result at refused
  obtain ⟨items, stop⟩ := result
  cases run : items.foldlM (Assembly.add options) {} with
  | error error =>
    simp only [run] at refused
    cases refused
    exact .inl (exists_of_foldlM_eq_error run)
  | ok last =>
    simp only [run] at refused
    cases stop with
    | none => cases refused
    | some stop =>
      cases refused
      exact .inr ⟨rfl, last, rfl⟩

/-- Where reading stops with an error, the items before it are a division. -/
theorem exists_bad_of_items (read : lexemes pattern = .ok found)
    (stop : (items found).2 = some error) :
    ∃ earlier bad later, found = earlier ++ bad :: later ∧
      ((error = .unexpected bad.kind bad.index .closing ∧ bad.kind ≠ .closing ∧
          IsUnclosed earlier) ∨
        (error = .unexpected bad.kind bad.index .finish ∧
          (bad.kind = .modifier ∨ bad.kind = .closing) ∧
          ∃ uses, Divides (items found).1 uses ∧ lexemesOf uses = earlier ∧
            (endsOpen uses = true → bad.isModifier = false))) := by
  obtain ⟨uses, rest, divides, whole, unmodified, stops⟩ := exists_divides_of_items read
  obtain ⟨body, last, rfl, _⟩ := Lexeme.strictFrom_eq_ok read
  rw [stop] at stops
  have finish : ∃ lexeme ∈ rest, lexeme.kind = .finish := by
    have member : ⟨.finish, last, ""⟩ ∈ lexemesOf uses ++ rest := whole ▸ by simp
    rcases List.mem_append.1 member with member | member
    · obtain ⟨use, member, same⟩ := List.mem_map.1 member
      exact absurd (congrArg Lexeme.kind same) (divides.isApt use member).proper
    · exact ⟨_, member, rfl⟩
  have valid : ∀ lexeme ∈ rest, lexeme.kind ≠ .invalid := fun lexeme member =>
    (Lexeme.lenientFrom_of_strictFrom read).2 lexeme (whole ▸ List.mem_append_right _ member)
  obtain ⟨earlier, bad, later, rfl, reason⟩ := Item.next_eq_error finish valid stops
  refine ⟨lexemesOf uses ++ earlier, bad, later, by rw [whole, List.append_assoc], ?_⟩
  rcases reason with ⟨same, other, outer, brace, inner, rfl, unclosed⟩ | ⟨same, kinds, rfl⟩
  · exact .inl ⟨same, other, lexemesOf uses ++ outer, brace, inner, by simp, unclosed⟩
  · exact .inr ⟨same, kinds, uses, divides, (List.append_nil _).symm,
      fun isOpen => unmodified isOpen bad rfl⟩

/-- What comes before a lexeme is a pattern, if it divides and gives no name twice. -/
theorem exists_tokensOf_take {later : List Lexeme} {bad : Lexeme} {items : List Item}
    {uses : List Use} (read : lexemes pattern = .ok (lexemesOf uses ++ bad :: later))
    (divides : Divides items uses) (names : (items.filterMap Item.name?).Nodup) :
    ∃ tokens, tokensOf options (String.ofList (pattern.toList.take bad.index)) = .ok tokens := by
  have cut := Lexeme.lexemes_take read bad.index (Nat.le_refl _)
  rw [List.drop_eq_nil_of_le (List.length_take_le _ _)] at cut
  refine (tokensOf_ok_iff_divides cut).1.2 ⟨?_, items, uses, divides, ?_⟩
  · rw [List.dropLast_concat, ← divides.names]
    exact names
  · rw [List.dropLast_concat]

/-- A text that goes on after a modifier or a brace goes on after the lexeme. -/
theorem exists_later_of_lexemes_take {earlier later found' : List Lexeme} {bad : Lexeme}
    (read : lexemes pattern = .ok (earlier ++ bad :: later))
    (kinds : bad.kind = .modifier ∨ bad.kind = .closing) {count : Nat} (longer : bad.index < count)
    (read' : lexemes (String.ofList (pattern.toList.take count)) = .ok found') :
    ∃ later', found' = earlier ++ bad :: later' := by
  have whole := Lexeme.lexemes_take read (max bad.index pattern.toList.length) (Nat.le_max_left ..)
  rw [List.take_of_length_le (Nat.le_max_right ..), String.ofList_toList, read] at whole
  obtain ⟨others, rest, same⟩ := map_eq_ok whole.symm
  obtain rfl := List.append_cancel_left same
  rw [Lexeme.lexemes_take read count (Nat.le_of_lt longer), List.drop_take] at read'
  obtain ⟨count, more⟩ := Nat.exists_eq_add_one_of_ne_zero (Nat.sub_ne_zero_of_lt longer)
  rw [more] at read'
  obtain ⟨others', rest', rfl⟩ := map_eq_ok read'
  cases text : pattern.toList.drop bad.index with
  | nil =>
    rw [text] at rest
    injection rest with same
    rw [← (List.cons.inj same).1] at kinds
    exact kinds.elim nofun nofun
  | cons c text' =>
    rw [text, Lexeme.strictFrom] at rest
    cases first : Lexeme.first bad.index c text' with
    | error fault =>
      rw [first] at rest
      cases rest
    | ok result =>
      rw [first] at rest
      obtain ⟨_, _, same⟩ := map_eq_ok rest
      obtain ⟨lexeme, further⟩ := result
      obtain rfl := (List.cons.inj same).1
      rw [text, List.take_succ_cons, Lexeme.strictFrom, Lexeme.first_of_stray first kinds] at rest'
      obtain ⟨later', _, rfl⟩ := map_eq_ok rest'
      exact ⟨later', rfl⟩

/-- Where a lexeme cannot stand, no longer text is a pattern. -/
theorem tokensOf_take_ne_ok {later : List Lexeme} {bad : Lexeme} {items : List Item}
    {uses : List Use} (read : lexemes pattern = .ok (lexemesOf uses ++ bad :: later))
    (kinds : bad.kind = .modifier ∨ bad.kind = .closing) (divides : Divides items uses)
    (unmodified : endsOpen uses = true → bad.isModifier = false) {count : Nat}
    (longer : bad.index < count) (tokens : List Token) :
    tokensOf options (String.ofList (pattern.toList.take count)) ≠ .ok tokens := by
  intro parsed
  cases read' : lexemes (String.ofList (pattern.toList.take count)) with
  | error fault =>
    rw [tokensOf, read'] at parsed
    cases parsed
  | ok found' =>
    obtain ⟨later', rfl⟩ := exists_later_of_lexemes_take read kinds longer read'
    have stops := ((exists_tokensOf_iff read').1 ⟨tokens, parsed⟩).1
    have noPattern : ∀ lexeme ∈ (bad :: later').head?, lexeme.kind ≠ .pattern := by
      rintro _ ⟨⟩ kind
      rcases kinds with other | other <;> cases kind.symm.trans other
    obtain ⟨left, same⟩ := @Item.upTo_append_of_divides (bad :: later') _ _ divides
      (fun isOpen => by rintro _ ⟨⟩; exact unmodified isOpen) noPattern
      ((lexemesOf uses ++ bad :: later').length + 1)
      (by rw [List.length_append, lexemesOf, List.length_map]; omega)
    rw [PathTemplate.items, same, Item.upTo, Item.next_of_stray kinds] at stops
    cases stops

/-- What the error with which a pattern is refused says of the lexemes and of the pattern. -/
inductive IsRefusal (options : Options) (pattern : String) (found : List Lexeme) :
    ParseError → Prop where
  /-- A lexeme stands in a group where the group has to be closed. -/
  | unclosed (earlier : List Lexeme) (bad : Lexeme) (later : List Lexeme) :
      found = earlier ++ bad :: later → IsUnclosed earlier → bad.kind ≠ .closing →
      IsRefusal options pattern found (.unexpected bad.kind bad.index .closing)
  /-- A lexeme begins no item. The text before it is a pattern, and no text that goes on is. -/
  | stray (earlier : List Lexeme) (bad : Lexeme) (later : List Lexeme) :
      found = earlier ++ bad :: later → ¬ IsUnclosed earlier →
      (bad.kind = .modifier ∨ bad.kind = .closing) →
      (∃ tokens, tokensOf options (String.ofList (pattern.toList.take bad.index)) = .ok tokens) →
      (∀ count > bad.index, ∀ tokens,
        tokensOf options (String.ofList (pattern.toList.take count)) ≠ .ok tokens) →
      IsRefusal options pattern found (.unexpected bad.kind bad.index .finish)
  /-- A name is given that was given before. -/
  | duplicate (name : String) (index before : Nat) :
      ⟨.name, index, name⟩ ∈ found → ⟨.name, before, name⟩ ∈ found → before < index →
      IsRefusal options pattern found (.duplicateName (.explicit name) index)

theorem isRefusal_of_tokensOf (read : lexemes pattern = .ok found)
    (refused : tokensOf options pattern = .error error) :
    IsRefusal options pattern found error := by
  have fresh : Assembly.HasOrdinals {} := fun _ _ => List.not_mem_nil
  rcases tokensOf_eq_error read refused with
    ⟨earlier, item, later, before, all, run, refused⟩ | ⟨stop, assembled⟩
  · obtain ⟨ordinals, claimed⟩ := Assembly.claimed_of_foldlM fresh run
    obtain ⟨name, index, pattern', has, taken, rfl⟩ := Assembly.add_eq_error ordinals refused
    obtain ⟨uses, rest, divides, rfl, _⟩ := exists_divides_of_items read
    rw [all] at divides
    obtain ⟨uses, here, after, rfl, isItem, divides⟩ := divides.exists_append
    have member := isItem.mem_of_named has
    have given : name ∈ (lexemesOf uses).filterMap Lexeme.name? := by
      rw [← divides.names]
      exact ((claimed name).1 taken).resolve_right List.not_mem_nil
    obtain ⟨first, before, same⟩ := List.mem_filterMap.1 given
    obtain ⟨place, rfl⟩ := Lexeme.eq_of_name? same
    have ascending := (Lexeme.tiling_strictFrom read (Nat.zero_le _)).pairwise_index
    simp only [lexemesOf_append, List.append_assoc] at ascending ⊢
    exact .duplicate name index place (by simp [member]) (by simp [before])
      ((List.pairwise_append.1 ascending).2.2 _ before _ (List.mem_append_left _ member))
  · obtain ⟨earlier, bad, later, rfl, ⟨rfl, other, unclosed⟩ | ⟨rfl, kinds, uses, divides, rfl, apart⟩⟩ :=
      exists_bad_of_items read stop
    · exact .unclosed earlier bad later rfl unclosed other
    · have names := ((Assembly.exists_foldlM_iff fresh).1 assembled).1
      exact .stray _ bad later rfl divides.not_isUnclosed kinds
        (exists_tokensOf_take read divides names)
        fun count longer tokens => tokensOf_take_ne_ok read kinds divides apart longer tokens

/-- An error points to the lexeme that cannot stand where it does. What was expected there is the
brace that closes a group, if one is open, and else the end of the pattern; in that case the text up
to there is a pattern and no text that goes on as this one does. A name that is refused is one that
was given before. -/
theorem exists_lexeme_of_tokensOf_eq_error (read : lexemes pattern = .ok found) :
    (∀ kind index expected, tokensOf options pattern = .error (.unexpected kind index expected) →
      ∃ earlier bad later, found = earlier ++ bad :: later ∧ bad.kind = kind ∧ bad.index = index ∧
        kind ≠ expected ∧ (expected = .closing ∨ expected = .finish) ∧
        (expected = .closing ↔ IsUnclosed earlier) ∧
        (expected = .finish → (kind = .modifier ∨ kind = .closing) ∧
          (∃ tokens,
            tokensOf options (String.ofList (pattern.toList.take index)) = .ok tokens) ∧
          ∀ count > index, ∀ tokens,
            tokensOf options (String.ofList (pattern.toList.take count)) ≠ .ok tokens)) ∧
    ∀ name index, tokensOf options pattern = .error (.duplicateName name index) →
      ∃ text before, name = .explicit text ∧ ⟨.name, index, text⟩ ∈ found ∧
        ⟨.name, before, text⟩ ∈ found ∧ before < index := by
  refine ⟨fun kind index expected refused => ?_, fun name index refused => ?_⟩
  · cases isRefusal_of_tokensOf read refused with
    | unclosed earlier bad later whole unclosed other =>
      exact ⟨earlier, bad, later, whole, rfl, rfl, other, .inl rfl, iff_of_true rfl unclosed, nofun⟩
    | stray earlier bad later whole closed kinds before longer =>
      refine ⟨earlier, bad, later, whole, rfl, rfl, ?_, .inr rfl, iff_of_false nofun closed,
        fun _ => ⟨kinds, before, longer⟩⟩
      rcases kinds with kind | kind <;> simp [kind]
  · cases isRefusal_of_tokensOf read refused with
    | duplicate text _ before here there less => exact ⟨text, before, rfl, here, there, less⟩

/-- A group that is not closed, a brace that closes none, and a name that is given in a group. -/
theorem exists_lexeme_of_tokensOf_eq_error_cases :
    (∃ found, lexemes "/\x7ba:b(c)\x7bd\x7d" = .ok found ∧
      ∃ earlier bad later, found = earlier ++ bad :: later ∧ bad.index = 8 ∧
        IsUnclosed earlier) ∧
    (∃ found, lexemes "/:a*\x7d:b" = .ok found ∧
      ∃ earlier bad later, found = earlier ++ bad :: later ∧ bad.index = 4 ∧
        ¬ IsUnclosed earlier) ∧
    ∃ found, lexemes "/:a\x7b-:a\x7d?" = .ok found ∧
      ∃ before, ⟨.name, before, "a"⟩ ∈ found ∧ before < 5 := by
  have ok {pattern : String} (some : (lexemes pattern).toOption.isSome) :
      ∃ found, lexemes pattern = .ok found :=
    ⟨_, toOption_eq_some_iff.1 (Option.some_get some).symm⟩
  refine ⟨?_, ?_, ?_⟩
  · obtain ⟨found, read⟩ := ok (show (lexemes "/\x7ba:b(c)\x7bd\x7d").toOption.isSome by decide +kernel)
    obtain ⟨earlier, bad, later, whole, _, index, _, _, group, _⟩ :=
      (@exists_lexeme_of_tokensOf_eq_error {} _ _ read).1 .opening 8 .closing (by decide +kernel)
    exact ⟨found, read, earlier, bad, later, whole, index, group.1 rfl⟩
  · obtain ⟨found, read⟩ := ok (show (lexemes "/:a*\x7d:b").toOption.isSome by decide +kernel)
    obtain ⟨earlier, bad, later, whole, _, index, _, _, group, _⟩ :=
      (@exists_lexeme_of_tokensOf_eq_error {} _ _ read).1 .closing 4 .finish (by decide +kernel)
    exact ⟨found, read, earlier, bad, later, whole, index, mt group.2 nofun⟩
  · obtain ⟨found, read⟩ := ok (show (lexemes "/:a\x7b-:a\x7d?").toOption.isSome by decide +kernel)
    obtain ⟨text, before, same, _, there, less⟩ :=
      (@exists_lexeme_of_tokensOf_eq_error {} _ _ read).2 (.explicit "a") 5 (by decide +kernel)
    cases same
    exact ⟨found, read, before, there, less⟩

end Refusals

end PathTemplate
