/-
Asterisks and modifiers.

An asterisk is a key, the core of a group or a modifier. Which of them it is depends on what stands
before it, and on nothing else, so that all divisions of a pattern agree on it.

* `Divides.fitFrom`: an asterisk or a modifier is what the lexeme before it lets it be.
* `Divides.asterisk`: an asterisk in a group is its core.
* `Divides.isPlaced`: where asterisks and modifiers stand.
-/

import PathTemplate.Proofs.Token.Grammar

namespace PathTemplate

/-! ### One lexeme after the other -/

/-- What the lexeme is depends on whether a modifier that stands there belongs to the lexeme
before. -/
structure Use.Fits (isOpen : Bool) (use : Use) : Prop where
  asterisk : use.lexeme.kind = .asterisk → use.role = if isOpen then .modifier else .wildcard
  modifier : use.lexeme.kind = .modifier → use.role = .modifier ∧ isOpen = true

/-- Every lexeme does. -/
def FitFrom : (isOpen : Bool) → List Use → Prop
  | _, [] => True
  | isOpen, use :: uses => use.Fits isOpen ∧ FitFrom use.role.takesModifier uses

/-- A lexeme of another kind may stand anywhere. -/
theorem Use.fits_of_ne {isOpen : Bool} {use : Use} (notAsterisk : use.lexeme.kind ≠ .asterisk)
    (notModifier : use.lexeme.kind ≠ .modifier) : use.Fits isOpen :=
  ⟨fun same => absurd same notAsterisk, fun same => absurd same notModifier⟩

theorem fitFrom_append {isOpen : Bool} {uses more : List Use} : FitFrom isOpen (uses ++ more) ↔
    FitFrom isOpen uses ∧ FitFrom (uses.getLast?.elim isOpen (·.role.takesModifier)) more := by
  induction uses generalizing isOpen with
  | nil => simp [FitFrom]
  | cons use uses ih =>
    rw [List.cons_append, FitFrom, FitFrom, ih, and_assoc, List.getLast?_cons]
    cases uses.getLast? <;> rfl

theorem TextUses.fitFrom {text : String} {uses : List Use} (h : TextUses text uses)
    (isOpen : Bool) : FitFrom isOpen uses := by
  obtain ⟨isText, -⟩ := h
  induction uses generalizing isOpen with
  | nil => trivial
  | cons use uses ih =>
    obtain ⟨⟨_, first⟩, others⟩ := List.forall_mem_cons.1 isText
    refine ⟨⟨fun kind => ?_, fun kind => ?_⟩, ih _ others⟩ <;> simp [Item.isText, kind] at first

/-- After a text no modifier is taken. -/
theorem TextUses.closed {text : String} {uses : List Use} (h : TextUses text uses) :
    uses.getLast?.elim false (·.role.takesModifier) = false := by
  cases last : uses.getLast? with
  | none => rfl
  | some use =>
    have role := (h.1 use (List.mem_of_getLast? last)).1
    simp [role, Role.takesModifier]

theorem Core.Uses.fitFrom {core : Core} {heart : List Use} (h : core.Uses heart) {isOpen : Bool}
    (apart : isOpen = true → BeginsUnmodified (lexemesOf heart)) : FitFrom isOpen heart := by
  cases h with
  | name | pattern => exact ⟨Use.fits_of_ne (by simp) (by simp), trivial⟩
  | namePattern =>
    exact ⟨Use.fits_of_ne (by simp) (by simp), Use.fits_of_ne (by simp) (by simp), trivial⟩
  | wildcard =>
    cases isOpen with
    | true => cases apart rfl _ rfl
    | false => exact ⟨⟨fun _ => rfl, nofun⟩, trivial⟩

theorem Modifier.Uses.fitFrom {modifier : Modifier} {sign : List Use} (h : modifier.Uses sign) :
    FitFrom true sign := by
  cases h with
  | none => trivial
  | sign => exact ⟨⟨fun _ => rfl, fun _ => ⟨rfl, rfl⟩⟩, trivial⟩

theorem Item.Uses.fitFrom {item : Item} {uses : List Use} (h : item.Uses uses) {isOpen : Bool}
    (apart : isOpen = true → BeginsUnmodified (lexemesOf uses)) : FitFrom isOpen uses := by
  cases h with
  | plain | escaped => exact ⟨Use.fits_of_ne (by simp) (by simp), trivial⟩
  | @key core modifier heart sign isHeart isSign =>
    rw [lexemesOf_append] at apart
    have isOpen' : heart.getLast?.elim isOpen (·.role.takesModifier) = true := by
      cases isHeart <;> rfl
    exact fitFrom_append.2
      ⟨isHeart.fitFrom fun before => (apart before).of_append, isOpen' ▸ isSign.fitFrom⟩
  | @group core _ _ _ _ _ _ _ before heart after sign isLead isHeart isTrail isSign =>
    have closed := isLead.closed
    refine ⟨Use.fits_of_ne (by simp) (by simp), fitFrom_append.2 ⟨isLead.fitFrom _,
      fitFrom_append.2 ⟨?_, fitFrom_append.2 ⟨isTrail.fitFrom _,
        Use.fits_of_ne (by simp) (by simp), isSign.fitFrom⟩⟩⟩⟩
    rw [Role.takesModifier, closed]
    cases isHeart with
    | none => trivial
    | some isHeart => exact isHeart.fitFrom fun opened => absurd opened (by decide)

theorem Divides.fitFrom {items : List Item} {uses : List Use} (h : Divides items uses)
    {isOpen : Bool} (apart : isOpen = true → BeginsUnmodified (lexemesOf uses)) :
    FitFrom isOpen uses := by
  induction h generalizing isOpen with
  | nil => trivial
  | @cons item items uses rest isItem unmodified _ ih =>
    rw [lexemesOf_append] at apart
    refine fitFrom_append.2 ⟨isItem.fitFrom fun before => (apart before).of_append, ih fun after => ?_⟩
    refine unmodified ?_
    have covers := isItem.ne_nil
    rw [endsOpen]
    cases last : uses.getLast? with
    | none => exact absurd (List.getLast?_eq_none_iff.1 last) covers
    | some use =>
      rw [last] at after
      exact after

/-! ### Groups -/

/-- A group is open: its brace was read, and the one that closes it was not. -/
def InGroup (earlier : List Use) : Prop :=
  ∃ outer brace inner, earlier = outer ++ brace :: inner ∧ brace.role = .opening ∧
    ∀ use ∈ inner, use.role ≠ .closing

/-- The lexemes of a group: what stands between its braces is text, apart from an asterisk that is
the core. -/
structure IsEnclosed (uses : List Use) (brace : Use) (inside : List Use) (closing : Use)
    (sign : List Use) : Prop where
  whole : uses = brace :: (inside ++ closing :: sign)
  opens : brace.role = .opening
  closes : closing.role = .closing
  kind : closing.lexeme.kind = .closing
  once : ∀ use ∈ inside ++ closing :: sign, use.role ≠ .opening
  core : ∀ before use after, inside = before ++ use :: after → use.lexeme.kind = .asterisk →
    use.role = .wildcard ∧ ∀ other ∈ before ++ after, other.role = .text

theorem TextUses.kind_ne_asterisk {text : String} {uses : List Use} (h : TextUses text uses) :
    ∀ use ∈ uses, use.lexeme.kind ≠ .asterisk := by
  intro use member kind
  have isText := (h.1 use member).2
  simp [Item.isText, kind] at isText

theorem HeartUses.role_ne_opening {core : Option Core} {heart : List Use}
    (h : HeartUses core heart) : ∀ use ∈ heart, use.role ≠ .opening := by
  cases h with
  | none => exact nofun
  | some h => cases h <;> simp

theorem Modifier.Uses.role_eq {modifier : Modifier} {sign : List Use} (h : modifier.Uses sign) :
    ∀ use ∈ sign, use.role = .modifier := by
  cases h <;> simp

/-- An asterisk between texts is a core, and nothing else stands there. -/
theorem HeartUses.core {core : Option Core} {lead trail : String} {lead' heart trail' : List Use}
    (isHeart : HeartUses core heart) (isLead : TextUses lead lead') (isTrail : TextUses trail trail')
    {before after : List Use} {use : Use} (split : lead' ++ (heart ++ trail') = before ++ use :: after)
    (kind : use.lexeme.kind = .asterisk) :
    use.role = .wildcard ∧ ∀ other ∈ before ++ after, other.role = .text := by
  have noLead : use ∉ lead' := fun member => isLead.kind_ne_asterisk use member kind
  have noTrail : use ∉ trail' := fun member => isTrail.kind_ne_asterisk use member kind
  have member : use ∈ heart := by
    have member : use ∈ lead' ++ (heart ++ trail') := split ▸ by simp
    simpa [noLead, noTrail] using member
  cases isHeart with
  | none => cases member
  | some isHeart =>
    cases isHeart with
    | wildcard =>
      obtain rfl := List.mem_singleton.1 member
      obtain ⟨rfl, -, rfl⟩ := (List.append_cons_inj_of_notMem noLead noTrail).1 split
      refine ⟨rfl, fun other member => ?_⟩
      rcases List.mem_append.1 member with member | member
      · exact (isLead.1 other member).1
      · exact (isTrail.1 other member).1
    | name | pattern =>
      obtain rfl := List.mem_singleton.1 member
      cases kind
    | namePattern => simp at member; rcases member with rfl | rfl <;> cases kind

theorem Item.Uses.isEnclosed {item : Item} {uses : List Use} (h : item.Uses uses) :
    (∀ use ∈ uses, use.role ≠ .opening) ∨
      ∃ brace inside closing sign, IsEnclosed uses brace inside closing sign := by
  cases h with
  | plain | escaped => exact .inl (by simp)
  | key isHeart isSign =>
    refine .inl fun use member => ?_
    rcases List.mem_append.1 member with member | member
    · exact (HeartUses.some isHeart).role_ne_opening use member
    · exact isSign.role_eq use member ▸ nofun
  | @group core _ _ _ value value' index index' before heart after sign isLead isHeart isTrail
      isSign =>
    refine .inr ⟨⟨.opening, .opening, index, value⟩, before ++ (heart ++ after),
      ⟨.closing, .closing, index', value'⟩, sign, ?_, rfl, rfl, rfl, fun use member => ?_,
      fun _ _ _ split kind => isHeart.core isLead isTrail split kind⟩
    · rw [List.append_assoc, List.append_assoc]
    simp only [List.mem_append, List.mem_cons] at member
    rcases member with (member | member | member) | rfl | member
    · exact (isLead.1 use member).1 ▸ nofun
    · exact isHeart.role_ne_opening use member
    · exact (isTrail.1 use member).1 ▸ nofun
    · exact nofun
    · exact isSign.role_eq use member ▸ nofun

/-- The brace that opens a group is the first of its lexemes. -/
theorem IsEnclosed.eq_of_opening {outer more inside sign : List Use} {brace first closing : Use}
    (h : IsEnclosed (outer ++ brace :: more) first inside closing sign)
    (opens : brace.role = .opening) : outer = [] ∧ more = inside ++ closing :: sign := by
  have whole := h.whole
  cases outer with
  | nil => exact ⟨rfl, (List.cons.inj whole).2⟩
  | cons use outer =>
    have member : brace ∈ inside ++ closing :: sign := (List.cons.inj whole).2 ▸ by simp
    exact absurd opens (h.once brace member)

/-- No group is open after an item. -/
theorem InGroup.of_append {item : Item} {uses earlier : List Use} (isItem : item.Uses uses)
    (inside : InGroup (uses ++ earlier)) : InGroup earlier := by
  obtain ⟨outer, brace, inner, split, opens, unclosed⟩ := inside
  rcases List.append_eq_append_iff.1 split with ⟨more, rfl, rfl⟩ | ⟨more, rfl, rest⟩
  · exact ⟨more, brace, inner, rfl, opens, unclosed⟩
  · cases more with
    | nil => exact ⟨[], brace, inner, rest.symm, opens, unclosed⟩
    | cons _ more =>
      cases rest
      rcases isItem.isEnclosed with none | ⟨_, body, closing, sign, group⟩
      · exact absurd opens (none brace (by simp))
      · obtain ⟨-, rfl⟩ := group.eq_of_opening opens
        exact absurd group.closes (unclosed closing (by simp))

/-- The lexeme stands in a group, and apart from it there is only text in the group. -/
def IsAloneInGroup (earlier later : List Use) : Prop :=
  ∃ outer brace before after closing rest, earlier = outer ++ brace :: before ∧
    later = after ++ closing :: rest ∧ brace.role = .opening ∧ closing.role = .closing ∧
      ∀ other ∈ before ++ after, other.role = .text

/-- An asterisk in a group is its core. -/
theorem IsEnclosed.asterisk {uses earlier later inside sign : List Use} {use brace closing : Use}
    (h : IsEnclosed uses brace inside closing sign) (split : uses = earlier ++ use :: later)
    (kind : use.lexeme.kind = .asterisk) (inGroup : InGroup earlier) :
    use.role = .wildcard ∧ IsAloneInGroup earlier later := by
  obtain ⟨outer, brace', before, rfl, opens, unclosed⟩ := inGroup
  obtain rfl := split
  rw [List.append_assoc, List.cons_append] at h
  obtain ⟨rfl, body⟩ := h.eq_of_opening opens
  rcases List.append_eq_append_iff.1 body with ⟨more, rfl, rest⟩ | ⟨more, rfl, rest⟩
  · cases more with
    | nil =>
      -- The lexeme is no closing brace.
      cases rest
      cases kind.symm.trans h.kind
    | cons _ after =>
      cases rest
      obtain ⟨role, texts⟩ := h.core before use after rfl kind
      exact ⟨role, [], brace', before, after, closing, sign, rfl, rfl, opens, h.closes, texts⟩
  · cases more with
    | nil =>
      cases rest
      cases kind.symm.trans h.kind
    | cons _ more =>
      cases rest
      exact absurd h.closes (unclosed closing (by simp))

/-- So it is wherever the group stands. -/
theorem Divides.asterisk {items : List Item} {uses : List Use} (h : Divides items uses)
    {earlier later : List Use} {use : Use} (split : uses = earlier ++ use :: later)
    (kind : use.lexeme.kind = .asterisk) (inGroup : InGroup earlier) :
    use.role = .wildcard ∧ IsAloneInGroup earlier later := by
  induction h generalizing earlier with
  | nil => simp at split
  | @cons item items uses rest isItem _ _ ih =>
    rcases List.append_eq_append_iff.1 split with ⟨more, rfl, here⟩ | ⟨more, rfl, here⟩
    · obtain ⟨role, outer, brace, before, after, closing, rest, rfl, alone⟩ :=
        ih here (inGroup.of_append isItem)
      exact ⟨role, uses ++ outer, brace, before, after, closing, rest,
        (List.append_assoc ..).symm, alone⟩
    · cases more with
      | nil =>
        rw [List.append_nil] at isItem
        obtain ⟨_, _, _, none, -⟩ := @InGroup.of_append _ _ [] isItem
          ((List.append_nil earlier).symm ▸ inGroup)
        simp at none
      | cons _ more =>
        cases here
        rcases isItem.isEnclosed with none | ⟨_, body, closing, sign, group⟩
        · obtain ⟨outer, brace, inner, rfl, opens, -⟩ := inGroup
          exact absurd opens (none brace (by simp))
        · obtain ⟨role, outer, brace, before, after, closing', others, same, rfl, alone⟩ :=
            group.asterisk rfl kind inGroup
          exact ⟨role, outer, brace, before, after, closing', others ++ rest, same,
            by simp, alone⟩

/-- Where an asterisk and a modifier may stand. -/
structure Use.IsPlaced (earlier : List Use) (use : Use) (later : List Use) : Prop where
  /-- An asterisk is the modifier of what stands before it, if that takes one, and a key else. -/
  asterisk : use.lexeme.kind = .asterisk →
    use.role = if endsOpen earlier then .modifier else .wildcard
  /-- In a group, an asterisk is the core. -/
  core : use.lexeme.kind = .asterisk → InGroup earlier →
    use.role = .wildcard ∧ IsAloneInGroup earlier later
  /-- The other modifiers stand only after what takes one. -/
  modifier : use.lexeme.kind = .modifier → use.role = .modifier ∧ endsOpen earlier = true

/-- So they are placed in every division. -/
theorem Divides.isPlaced {items : List Item} {earlier later : List Use} {use : Use}
    (h : Divides items (earlier ++ use :: later)) : use.IsPlaced earlier later := by
  obtain ⟨-, fits, -⟩ := fitFrom_append.1 (@Divides.fitFrom _ _ h false nofun)
  have isOpen : earlier.getLast?.elim false (·.role.takesModifier) = endsOpen earlier := by
    rw [endsOpen]
    cases earlier.getLast? <;> rfl
  rw [isOpen] at fits
  exact ⟨fits.asterisk, h.asterisk rfl, fits.modifier⟩

end PathTemplate
