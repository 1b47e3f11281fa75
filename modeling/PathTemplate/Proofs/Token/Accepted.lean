/-
Patterns that are accepted.

Items can be put together unless they give a name twice, and lexemes can be read as items if they
divide into some. Nothing else can go wrong.

* `Divides.names`: the names of the items are those of the lexemes.
* `Assembly.exists_foldlM_iff`: items can be put together exactly if they give no name twice.
* `tokensOf_ok_iff_divides`: which patterns are accepted, and how their lexemes are read.
-/

import PathTemplate.Proofs.Token.Placement

namespace PathTemplate

/-! ### Names -/

/-- The name that the lexeme gives to a key. -/
def Lexeme.name? (lexeme : Lexeme) : Option String :=
  if lexeme.kind = .name then some lexeme.value else none

/-- The name that the core gives to its key. -/
def Core.name? : Core → Option String
  | .named name _ _ => some name
  | .unnamed _ _ => none

/-- The name that the item gives to its key. -/
def Item.name? (item : Item) : Option String := item.core?.bind Core.name?

theorem Core.Uses.names {core : Core} {heart : List Use} (h : core.Uses heart) :
    (lexemesOf heart).filterMap Lexeme.name? = core.name?.toList := by
  cases h <;> rfl

theorem TextUses.names {text : String} {uses : List Use} (h : TextUses text uses) :
    (lexemesOf uses).filterMap Lexeme.name? = [] := by
  refine List.filterMap_eq_nil_iff.2 fun lexeme member => ?_
  obtain ⟨use, present, rfl⟩ := List.mem_map.1 member
  have isText := (h.1 use present).2
  rw [Lexeme.name?, if_neg]
  rintro kind
  simp [Item.isText, kind] at isText

theorem Modifier.Uses.names {modifier : Modifier} {sign : List Use} (h : modifier.Uses sign) :
    (lexemesOf sign).filterMap Lexeme.name? = [] := by
  cases h with
  | none => rfl
  | sign kinds => rcases kinds with kind | kind <;> simp [Lexeme.name?, kind]

theorem Item.Uses.names {item : Item} {uses : List Use} (h : item.Uses uses) :
    (lexemesOf uses).filterMap Lexeme.name? = item.name?.toList := by
  cases h with
  | plain => rfl
  | escaped => rfl
  | key isCore isSign =>
    rw [lexemesOf_append, List.filterMap_append, isCore.names, isSign.names, List.append_nil]
    rfl
  | group isLead isHeart isTrail isSign =>
    have inside := isLead.names
    have outside := isTrail.names
    have after := isSign.names
    simp only [lexemesOf, List.map_cons, List.map_append, List.filterMap_cons,
      List.filterMap_append] at inside outside after ⊢
    rw [inside, outside, after]
    cases isHeart with
    | none => rfl
    | some isCore =>
      rw [isCore.names]
      simp [Lexeme.name?, Item.name?, Item.core?]

/-- The names of the items are those of the lexemes. -/
theorem Divides.names {items : List Item} {uses : List Use} (h : Divides items uses) :
    items.filterMap Item.name? = (lexemesOf uses).filterMap Lexeme.name? := by
  induction h with
  | nil => rfl
  | @cons item items uses rest isItem _ _ ih =>
    rw [lexemesOf_append, List.filterMap_append, isItem.names, ← ih, List.filterMap_cons]
    cases item.name? <;> rfl

/-- A core of the items is made of some of the lexemes that divide into them. -/
theorem Divides.exists_uses {items : List Item} {uses : List Use} (h : Divides items uses) :
    ∀ item ∈ items, ∀ core ∈ item.core?, ∃ heart ⊆ uses, core.Uses heart := by
  have one {item : Item} {uses : List Use} (isItem : item.Uses uses) :
      ∀ core ∈ item.core?, ∃ heart ⊆ uses, core.Uses heart := by
    cases isItem with
    | plain | escaped => exact nofun
    | key isCore _ =>
      rintro _ ⟨⟩
      exact ⟨_, List.subset_append_left _ _, isCore⟩
    | group _ isHeart _ _ =>
      cases isHeart with
      | none => exact nofun
      | some isCore =>
        rintro _ ⟨⟩
        exact ⟨_, fun use member => by simp [member], isCore⟩
  induction h with
  | nil => exact nofun
  | cons isItem _ _ ih =>
    refine List.forall_mem_cons.2 ⟨fun core has => ?_, fun item member core has => ?_⟩
    · obtain ⟨heart, inside, isCore⟩ := one isItem core has
      exact ⟨heart, fun _ use => List.mem_append_left _ (inside use), isCore⟩
    · obtain ⟨heart, inside, isCore⟩ := ih item member core has
      exact ⟨heart, fun _ use => List.mem_append_right _ (inside use), isCore⟩

namespace Assembly

variable {options : Options} {assembly before next : Assembly} {core : Core} {item : Item}

/-- The further ordinals can still be claimed. -/
def HasOrdinals (assembly : Assembly) : Prop := ∀ k ≥ assembly.ordinal, .ordinal k ∉ assembly.names

/-- What was added had no name that was claimed before, and its name is claimed now. -/
structure Claims (assembly : Assembly) (name? : Option String) (next : Assembly) : Prop where
  fresh : ∀ text ∈ name?, .explicit text ∉ assembly.names
  explicit : ∀ text, .explicit text ∈ next.names ↔
    name? = some text ∨ .explicit text ∈ assembly.names
  ordinals : next.HasOrdinals

/-- A name that was not claimed before is claimed. -/
theorem exists_claimFor (ordinals : assembly.HasOrdinals)
    (fresh : ∀ text ∈ core.name?, .explicit text ∉ assembly.names) :
    ∃ claimed, assembly.claimFor core = .ok claimed := by
  cases core with
  | named name index pattern =>
    have unclaimed : assembly.names.contains (.explicit name) = false := by simp [fresh name rfl]
    simp only [claimFor, claim, unclaimed]
    exact ⟨_, rfl⟩
  | unnamed pattern index =>
    have unclaimed : assembly.names.contains (.ordinal assembly.ordinal) = false := by
      simp [ordinals _ (Nat.le_refl _)]
    simp only [claimFor, claim, unclaimed]
    exact ⟨_, rfl⟩

theorem claims_of_claimFor (ordinals : assembly.HasOrdinals) {claimed : Name × Assembly}
    (h : assembly.claimFor core = .ok claimed) : assembly.Claims core.name? claimed.2 := by
  cases core with
  | named name index pattern =>
    simp only [claimFor, bind, Except.bind] at h
    split at h
    · cases h
    · rename_i claim
      cases h
      obtain ⟨fresh, rfl⟩ := claim_eq_ok claim
      refine ⟨?_, fun text => ?_, fun k later => ?_⟩
      · rintro _ ⟨⟩
        exact fresh
      · simp [Core.name?, eq_comm]
      · simp [ordinals k later]
  | unnamed pattern index =>
    simp only [claimFor, bind, Except.bind] at h
    split at h
    · cases h
    · rename_i claim
      cases h
      obtain ⟨fresh, rfl⟩ := claim_eq_ok claim
      refine ⟨?_, fun text => by simp [Core.name?], fun k later => ?_⟩
      · rintro _ ⟨⟩
      refine List.not_mem_cons_of_ne_of_not_mem (fun same => ?_) (ordinals k (Nat.le_of_lt later))
      injection same with same
      exact Nat.ne_of_gt later same

/-- The assemblies have claimed the same names. -/
def SameNames (assembly before : Assembly) : Prop :=
  before.names = assembly.names ∧ before.ordinal = assembly.ordinal

theorem SameNames.flush (same : assembly.SameNames before) :
    assembly.SameNames (before.flush options) := by
  obtain ⟨names, ordinal⟩ := same
  unfold Assembly.flush
  split <;> exact ⟨names, ordinal⟩

/-- An item that has a core becomes a key under the name that is claimed for the core. -/
theorem add_of_core? (has : item.core? = some core) :
    ∃ (before : Assembly) (key : Name → Key), assembly.SameNames before ∧
      assembly.add options item =
        (before.claimFor core).map fun claimed => claimed.2.push (key claimed.1) := by
  have join (before : Assembly) (key : Name → Key) :
      (before.claimFor core >>= fun claimed => pure (claimed.2.push (key claimed.1))) =
        (before.claimFor core).map fun claimed => claimed.2.push (key claimed.1) := by
    cases before.claimFor core <;> rfl
  cases item with
  | plain | escaped => cases has
  | key _ modifier =>
    cases has
    simp only [add, addKey]
    split
    · let before := { assembly with held := "" }.flush options
      let key : Name → Key := fun name =>
        { name, lead := options.encodePart assembly.held, pattern := patternFor options core,
          modifier }
      exact ⟨before, key, .flush ⟨rfl, rfl⟩, join before key⟩
    · let before := assembly.release.flush options
      let key : Name → Key := fun name =>
        { name, lead := options.encodePart "", pattern := patternFor options core, modifier }
      exact ⟨before, key, .flush ⟨rfl, rfl⟩, join before key⟩
  | group lead _ trail modifier =>
    cases has
    let before := assembly.release.flush options
    let key : Name → Key := fun name =>
      { name, lead := options.encodePart lead, trail := options.encodePart trail,
        pattern := patternFor options core, modifier }
    exact ⟨before, key, .flush ⟨rfl, rfl⟩, join before key⟩

theorem add_of_no_core (none : item.core? = none) :
    ∃ next, assembly.add options item = .ok next ∧ assembly.SameNames next := by
  cases item with
  | plain | escaped => exact ⟨_, rfl, rfl, rfl⟩
  | key => cases none
  | group lead core trail modifier =>
    cases none
    simp only [add, addGroup]
    split
    · exact ⟨_, rfl, rfl, rfl⟩
    · split
      · exact ⟨_, rfl, rfl, rfl⟩
      · exact ⟨_, rfl, @SameNames.flush _ _ assembly.release ⟨rfl, rfl⟩⟩

theorem exists_add (ordinals : assembly.HasOrdinals)
    (fresh : ∀ text ∈ item.name?, .explicit text ∉ assembly.names) :
    ∃ next, assembly.add options item = .ok next := by
  cases has : item.core? with
  | none =>
    obtain ⟨next, added, _⟩ := @add_of_no_core options assembly item has
    exact ⟨next, added⟩
  | some core =>
    obtain ⟨before, key, ⟨names, ordinal⟩, added⟩ := @add_of_core? options assembly core item has
    rw [Item.name?, has] at fresh
    obtain ⟨claimed, claim⟩ := @exists_claimFor before core
      (by rw [HasOrdinals, names, ordinal]; exact ordinals) (names ▸ fresh)
    exact ⟨_, added.trans (by rw [claim]; rfl)⟩

theorem claims_of_add (ordinals : assembly.HasOrdinals)
    (added : assembly.add options item = .ok next) : assembly.Claims item.name? next := by
  cases has : item.core? with
  | none =>
    obtain ⟨next', added', names, ordinal⟩ := @add_of_no_core options assembly item has
    cases added.symm.trans added'
    rw [Item.name?, has]
    exact ⟨nofun, fun text => by simp [names], by rw [HasOrdinals, names, ordinal]; exact ordinals⟩
  | some core =>
    obtain ⟨before, key, ⟨names, ordinal⟩, added'⟩ := @add_of_core? options assembly core item has
    obtain ⟨claimed, claim, rfl⟩ := map_eq_ok (added'.symm.trans added)
    obtain ⟨fresh, explicit, ordinals⟩ := claims_of_claimFor
      (by rw [HasOrdinals, names, ordinal]; exact ordinals) claim
    rw [Item.name?, has]
    exact ⟨names ▸ fresh, names ▸ explicit, ordinals⟩

/-- Items can be put together exactly if they give no name twice. -/
theorem exists_foldlM_iff {items : List Item} (ordinals : assembly.HasOrdinals) :
    (∃ last, items.foldlM (add options) assembly = .ok last) ↔
      (items.filterMap Item.name?).Nodup ∧
        ∀ text ∈ items.filterMap Item.name?, .explicit text ∉ assembly.names := by
  induction items generalizing assembly with
  | nil => exact ⟨fun _ => ⟨.nil, nofun⟩, fun _ => ⟨assembly, rfl⟩⟩
  | cons item items ih =>
    have both : (item :: items).filterMap Item.name? =
        item.name?.toList ++ items.filterMap Item.name? := by
      rw [List.filterMap_cons]
      cases item.name? <;> rfl
    rw [List.foldlM_cons, both]
    constructor
    · rintro ⟨last, run⟩
      cases added : assembly.add options item with
      | error error =>
        rw [added] at run
        cases run
      | ok next =>
        rw [added] at run
        obtain ⟨fresh, explicit, ordinals⟩ := claims_of_add ordinals added
        obtain ⟨distinct, others⟩ := (ih ordinals).1 ⟨last, run⟩
        simp only [explicit, not_or] at others
        refine ⟨List.nodup_append.2 ⟨by cases item.name? <;> simp, distinct, ?_⟩, ?_⟩
        · rintro text first _ later rfl
          exact (others text later).1 (Option.mem_toList.1 first)
        · intro text member
          rcases List.mem_append.1 member with first | later
          · exact fresh text (Option.mem_toList.1 first)
          · exact (others text later).2
    · rintro ⟨distinct, unclaimed⟩
      obtain ⟨_, distinct, apart⟩ := List.nodup_append.1 distinct
      obtain ⟨next, added⟩ := @exists_add options assembly item ordinals fun text first =>
        unclaimed text (List.mem_append_left _ (Option.mem_toList.2 first))
      obtain ⟨_, explicit, ordinals⟩ := claims_of_add ordinals added
      rw [added]
      refine (ih ordinals).2 ⟨distinct, fun text later claimed => ?_⟩
      rcases (explicit text).1 claimed with first | before
      · exact apart text (Option.mem_toList.2 first) text later rfl
      · exact unclaimed text (List.mem_append_right _ later) before

end Assembly

/-! ### Patterns that are accepted -/

/-- The lexemes before the end of the pattern divide into these items. -/
def DividesInto (found : List Lexeme) (items : List Item) (uses : List Use) : Prop :=
  Divides items uses ∧ lexemesOf uses = found.dropLast

/-- Before the end of a pattern there is no other end. -/
theorem eq_of_append_finish {body uses rest : List Lexeme} {last finish : Lexeme}
    (none : ∀ lexeme ∈ body, lexeme.kind ≠ .finish) (kind : finish.kind = .finish)
    (same : body ++ [last] = uses ++ finish :: rest) : uses = body := by
  rcases List.append_eq_append_iff.1 same with ⟨more, rfl, here⟩ | ⟨more, rfl, here⟩
  · cases more with
    | nil => exact List.append_nil body
    | cons _ more => simp at here
  · cases more with
    | nil => exact (List.append_nil uses).symm
    | cons _ more =>
      cases here
      exact absurd kind (none finish (by simp))

section Acceptance

variable {options : Options} {pattern : String} {found : List Lexeme}

/-- The items that are read are a division of the lexemes before the place where reading stops. -/
theorem exists_divides_of_items (read : lexemes pattern = .ok found) :
    ∃ uses rest, Divides (items found).1 uses ∧ found = lexemesOf uses ++ rest ∧
      (endsOpen uses = true → BeginsUnmodified rest) ∧ Item.StopsAt rest (items found).2 := by
  obtain ⟨body, last, rfl, sound⟩ := Lexeme.strictFrom_eq_ok read
  exact Item.exists_divides_of_upTo (List.forall_mem_append.2
    ⟨fun lexeme member => (sound lexeme member).2, List.forall_mem_singleton.2 nofun⟩)
    (Nat.lt_succ_self _)

/-- Reading stops at the end exactly if there is a division, and then it gives one. -/
theorem items_eq_none_iff (read : lexemes pattern = .ok found) :
    ((items found).2 = none ↔ ∃ items uses, DividesInto found items uses) ∧
      ((items found).2 = none → ∃ uses, DividesInto found (items found).1 uses) := by
  have divides (stop : (items found).2 = none) :
      ∃ uses, DividesInto found (items found).1 uses := by
    obtain ⟨uses, rest, divides, same, _, stops⟩ := exists_divides_of_items read
    obtain ⟨body, last, rfl, sound⟩ := Lexeme.strictFrom_eq_ok read
    rw [stop] at stops
    obtain ⟨index, value, rest, rfl⟩ := Item.next_eq_none stops
    refine ⟨uses, divides, ?_⟩
    rw [List.dropLast_concat]
    exact eq_of_append_finish (fun lexeme member => (sound lexeme member).1) rfl same
  refine ⟨⟨fun stop => ⟨_, divides stop⟩, ?_⟩, divides⟩
  obtain ⟨body, last, rfl, _⟩ := Lexeme.strictFrom_eq_ok read
  rintro ⟨items, uses, division, whole⟩
  obtain rfl := whole.trans List.dropLast_concat
  refine Item.upTo_of_divides division last "" ?_
  rw [List.length_append, lexemesOf, List.length_map]
  exact Nat.lt_succ_of_le (Nat.le_add_right ..)

/-- A pattern has tokens exactly if reading its items stops at the end and the items can be put
together. -/
theorem exists_tokensOf_iff (read : lexemes pattern = .ok found) :
    (∃ tokens, tokensOf options pattern = .ok tokens) ↔ (items found).2 = none ∧
      ∃ last, (items found).1.foldlM (Assembly.add options) {} = .ok last := by
  rw [tokensOf, read]
  simp only [tokensOfLexemes, tokensOfItems]
  generalize items found = result
  obtain ⟨items, stop⟩ := result
  cases items.foldlM (Assembly.add options) {} with
  | error error => exact iff_of_false (by rintro ⟨_, ⟨⟩⟩) (by rintro ⟨-, _, ⟨⟩⟩)
  | ok last =>
    cases stop with
    | none => exact ⟨fun _ => ⟨rfl, last, rfl⟩, fun _ => ⟨_, rfl⟩⟩
    | some error => exact iff_of_false (by rintro ⟨_, ⟨⟩⟩) (by rintro ⟨⟨⟩, -⟩)

/-- Every core of a pattern is made of lexemes before its end. -/
theorem exists_uses_of_tokensOf {tokens : List Token} (read : lexemes pattern = .ok found)
    (parsed : tokensOf options pattern = .ok tokens) :
    ∀ item ∈ (items found).1, ∀ core ∈ item.core?,
      ∃ heart, lexemesOf heart ⊆ found.dropLast ∧ core.Uses heart := by
  obtain ⟨uses, divides, same⟩ :=
    (items_eq_none_iff read).2 ((exists_tokensOf_iff read).1 ⟨tokens, parsed⟩).1
  intro item member core has
  obtain ⟨heart, inside, isCore⟩ := divides.exists_uses item member core has
  exact ⟨heart, same ▸ List.map_subset _ inside, isCore⟩

/-- A text that has lexemes is a pattern exactly if no name is given twice and the lexemes divide
into items. Then the items that are read are a division, and in every division an asterisk and a
modifier stand in their places. -/
theorem tokensOf_ok_iff_divides (read : lexemes pattern = .ok found) :
    ((∃ tokens, tokensOf options pattern = .ok tokens) ↔
      (found.dropLast.filterMap Lexeme.name?).Nodup ∧ ∃ items uses, DividesInto found items uses) ∧
    ((∃ tokens, tokensOf options pattern = .ok tokens) →
      ∃ uses, DividesInto found (items found).1 uses) ∧
    ∀ items earlier use later, DividesInto found items (earlier ++ use :: later) →
      use.IsPlaced earlier later := by
  obtain ⟨stops, divides⟩ := items_eq_none_iff read
  have names (stop : (items found).2 = none) :
      (items found).1.filterMap Item.name? = found.dropLast.filterMap Lexeme.name? := by
    obtain ⟨uses, division, same⟩ := divides stop
    rw [division.names, same]
  have assembled := @Assembly.exists_foldlM_iff options {} (items found).1 fun _ _ => List.not_mem_nil
  refine ⟨?_, fun accepted => divides ((exists_tokensOf_iff read).1 accepted).1,
    fun _ _ _ _ division => division.1.isPlaced⟩
  rw [exists_tokensOf_iff read, ← stops, and_comm]
  refine and_congr_left fun stop => ?_
  rw [assembled, names stop]
  exact and_iff_left fun _ _ => List.not_mem_nil

/-- Asterisks that are keys, modifiers and the core of a group. -/
theorem tokensOf_ok_iff_divides_asterisks :
    ∃ found, lexemes "**\x7ba*\x7d*:b?" = .ok found ∧
      (∃ tokens, tokensOf {} "**\x7ba*\x7d*:b?" = .ok tokens) ∧
      ∃ uses, DividesInto found (items found).1 uses := by
  have read := toOption_eq_some_iff.1 <| Eq.symm <| Option.some_get <|
    show (lexemes "**\x7ba*\x7d*:b?").toOption.isSome by decide +kernel
  have accepted := toOption_eq_some_iff.1 <| Eq.symm <| Option.some_get <|
    show (tokensOf {} "**\x7ba*\x7d*:b?").toOption.isSome by decide +kernel
  exact ⟨_, read, ⟨_, accepted⟩, (tokensOf_ok_iff_divides read).2.1 ⟨_, accepted⟩⟩

end Acceptance

end PathTemplate
