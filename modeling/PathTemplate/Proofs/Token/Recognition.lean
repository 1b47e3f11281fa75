/-
Custom patterns that are recognised.

A custom pattern ends with the parenthesis that closes it. Which one that is depends on what comes
before it: a parenthesis that a backslash takes the meaning of does not count, and one that opens a
group has to say that the group captures nothing. `Closes` says so of the text alone, by counting,
without the reader that takes it character by character.

* `balanced_iff_closes`: what the reader counts is what `Closes` says.
* `isDelimited_iff_lexemes`: which ASCII texts are custom patterns when put between parentheses.
* `exists_fault_of_lexemes`: what comes of a character that is not ASCII.
* `isAscii_bare_of_lexemes`: outside of what is escaped, every custom pattern is ASCII.
* `exists_pattern_not_ascii`: what is escaped need not be.
-/

import Mathlib.Data.List.Infix
import PathTemplate.Proofs.Token.Patterns
import PathTemplate.Proofs.Token.Tiling

namespace PathTemplate

namespace Lexeme

/-! ### Escapes -/

/-- Nothing else is left of a text without its escapes. -/
theorem mem_of_mem_bare {c : Char} {text : List Char} (member : c ∈ bare text) : c ∈ text := by
  fun_induction bare text with
  | case1 d rest ih => exact List.mem_cons_of_mem _ (List.mem_cons_of_mem _ (ih member))
  | case2 d rest _ ih =>
    rcases List.mem_cons.1 member with rfl | member
    · exact List.mem_cons_self
    · exact List.mem_cons_of_mem _ (ih member)
  | case3 => cases member

/-! ### Groups -/

/-- Wherever the text is cut, it does not close more groups than it opens and `depth` more. -/
def StaysOpen (depth : Nat) (text : List Char) : Prop :=
  ∀ earlier, earlier <+: text → (bare earlier).count ')' ≤ depth + (bare earlier).count '('

instance (depth : Nat) (text : List Char) : Decidable (StaysOpen depth text) :=
  decidable_of_iff (∀ earlier ∈ text.inits,
      (bare earlier).count ')' ≤ depth + (bare earlier).count '(') <| by
    simp only [List.mem_inits, StaysOpen]

/-- The text closes the groups that it opens and `depth` more, and does so never too early. -/
structure Closes (depth : Nat) (text : List Char) : Prop where
  /-- Every backslash that is not itself escaped has a character after it. -/
  escapes : '\\' ∉ bare text
  /-- Every parenthesis that is not escaped opens a group only before a question mark. -/
  groups : ∀ earlier later, text = earlier ++ '(' :: later → '\\' ∉ bare earlier →
    later.head? = some '?'
  /-- No part at the beginning closes more than it may. -/
  bounded : StaysOpen depth text
  all : (bare text).count ')' = depth + (bare text).count '('

/-- The text may stand between the parentheses of a custom pattern. -/
structure IsDelimited (text : List Char) : Prop where
  nonempty : text ≠ []
  begins : text.head? ≠ some '?'
  closes : Closes 0 text

section Groups

variable {depth : Nat} {c : Char} {text : List Char}

/-- What is left to close after a character that is not escaped. -/
def depthAfter (depth : Nat) (c : Char) : Nat :=
  if c = ')' then depth - 1 else if c = '(' then depth + 1 else depth

/-- Counting may begin after the first character. -/
theorem count_cons (may : c = ')' → 0 < depth) (others : List Char) :
    ((c :: others).count ')' ≤ depth + (c :: others).count '(' ↔
        others.count ')' ≤ depthAfter depth c + others.count '(') ∧
      ((c :: others).count ')' = depth + (c :: others).count '(' ↔
        others.count ')' = depthAfter depth c + others.count '(') := by
  unfold depthAfter
  split
  · subst c
    have := may rfl
    simp only [List.count_cons_self, List.count_cons_of_ne (show (')' : Char) ≠ '(' by decide)]
    omega
  · rename_i notClose
    split
    · subst c
      simp only [List.count_cons_self, List.count_cons_of_ne (show ('(' : Char) ≠ ')' by decide)]
      omega
    · rename_i notOpen
      rw [List.count_cons_of_ne notClose, List.count_cons_of_ne notOpen]
      exact ⟨.rfl, .rfl⟩

namespace StaysOpen

theorem nil : StaysOpen depth [] := by
  intro earlier part
  rw [List.prefix_nil.1 part]
  exact Nat.zero_le _

theorem escaped_iff : StaysOpen depth ('\\' :: c :: text) ↔ StaysOpen depth text := by
  refine ⟨fun stays earlier part => stays ('\\' :: c :: earlier) (by simpa using part),
    fun stays earlier part => ?_⟩
  -- The text may be cut before the escaped character, too.
  rcases earlier with _ | ⟨d, _ | ⟨e, earlier⟩⟩
  · exact Nat.zero_le _
  · obtain ⟨rfl, _⟩ := List.cons_prefix_cons.1 part
    exact Nat.zero_le _
  · obtain ⟨rfl, there⟩ := List.cons_prefix_cons.1 part
    exact stays earlier (List.cons_prefix_cons.1 there).2

theorem cons_iff (notEscape : c ≠ '\\') : StaysOpen depth (c :: text) ↔
    (c = ')' → 0 < depth) ∧ StaysOpen (depthAfter depth c) text := by
  constructor
  · intro stays
    have may : c = ')' → 0 < depth := by
      rintro rfl
      exact stays [')'] (by simp)
    refine ⟨may, fun earlier part => ?_⟩
    have here := stays (c :: earlier) (by simpa using part)
    rw [bare_cons notEscape] at here
    exact ((count_cons may _).1).1 here
  · rintro ⟨may, stays⟩ earlier part
    cases earlier with
    | nil => exact Nat.zero_le _
    | cons d earlier =>
      obtain ⟨rfl, there⟩ := List.cons_prefix_cons.1 part
      rw [bare_cons notEscape]
      exact ((count_cons may _).1).2 (stays earlier there)

end StaysOpen

namespace Closes

theorem nil_iff : Closes depth [] ↔ depth = 0 := by
  refine ⟨fun closes => ?_, ?_⟩
  · simpa [bare, eq_comm] using closes.all
  · rintro rfl
    refine ⟨List.not_mem_nil, fun earlier later split => ?_, .nil, rfl⟩
    simp at split

/-- What is escaped does not count. -/
theorem escaped_iff : Closes depth ('\\' :: c :: text) ↔ Closes depth text := by
  constructor
  · rintro ⟨escapes, groups, bounded, all⟩
    exact ⟨escapes,
      fun earlier later split => groups ('\\' :: c :: earlier) later (by rw [split]; rfl),
      StaysOpen.escaped_iff.1 bounded, all⟩
  · rintro ⟨escapes, groups, bounded, all⟩
    refine ⟨escapes, fun earlier later split => ?_, StaysOpen.escaped_iff.2 bounded, all⟩
    rcases earlier with _ | ⟨d, _ | ⟨e, earlier⟩⟩
    · simp at split
    · obtain ⟨rfl, _⟩ := List.cons.inj split
      exact fun free => absurd List.mem_cons_self free
    · obtain ⟨rfl, there⟩ := List.cons.inj split
      exact groups earlier later (List.cons.inj there).2

/-- Any other character counts if it is a parenthesis. -/
theorem cons_iff (notEscape : c ≠ '\\') : Closes depth (c :: text) ↔
    (c = '(' → text.head? = some '?') ∧ (c = ')' → 0 < depth) ∧
      Closes (depthAfter depth c) text := by
  constructor
  · rintro ⟨escapes, groups, bounded, all⟩
    obtain ⟨may, bounded⟩ := (StaysOpen.cons_iff notEscape).1 bounded
    rw [bare_cons notEscape] at escapes all
    refine ⟨?_, may, List.not_mem_of_not_mem_cons escapes, fun earlier later split free => ?_,
      bounded, ((count_cons may _).2).1 all⟩
    · rintro rfl
      exact groups [] text rfl List.not_mem_nil
    · refine groups (c :: earlier) later (by rw [split]; rfl) ?_
      rw [bare_cons notEscape]
      exact List.not_mem_cons_of_ne_of_not_mem notEscape.symm free
  · rintro ⟨opens, may, escapes, groups, bounded, all⟩
    refine ⟨?_, fun earlier later split => ?_, (StaysOpen.cons_iff notEscape).2 ⟨may, bounded⟩, ?_⟩
    · rw [bare_cons notEscape]
      exact List.not_mem_cons_of_ne_of_not_mem notEscape.symm escapes
    · cases earlier with
      | nil =>
        obtain ⟨rfl, rfl⟩ := List.cons.inj split
        exact fun _ => opens rfl
      | cons d earlier =>
        obtain ⟨rfl, there⟩ := List.cons.inj split
        rw [bare_cons notEscape]
        exact fun free => groups earlier later there (List.not_mem_of_not_mem_cons free)
    · rw [bare_cons notEscape]
      exact ((count_cons may _).2).2 all

end Closes

theorem Balanced.closes (balanced : Balanced depth text) : Closes depth text := by
  induction balanced with
  | nil => exact Closes.nil_iff.2 rfl
  | escaped c _ ih => exact Closes.escaped_iff.2 ih
  | closing _ ih => exact (Closes.cons_iff (by decide)).2 ⟨nofun, fun _ => Nat.succ_pos _, ih⟩
  | opening mark _ ih => exact (Closes.cons_iff (by decide)).2 ⟨fun _ => mark, nofun, ih⟩
  | plain notEscape notClose notOpen _ ih =>
    refine (Closes.cons_iff notEscape).2 ⟨fun h => absurd h notOpen, fun h => absurd h notClose, ?_⟩
    rwa [depthAfter, if_neg notClose, if_neg notOpen]

theorem Closes.balanced (closes : Closes depth text) : Balanced depth text := by
  have free := closes.escapes
  fun_induction bare text generalizing depth with
  | case1 c text ih => exact .escaped c (ih (Closes.escaped_iff.1 closes) free)
  | case2 c text _ ih =>
    have notEscape : c ≠ '\\' := fun same => free (same ▸ List.mem_cons_self)
    obtain ⟨opens, may, closes⟩ := (Closes.cons_iff notEscape).1 closes
    have balanced := ih closes closes.escapes
    by_cases close : c = ')'
    · subst close
      obtain ⟨depth, rfl⟩ := Nat.exists_eq_add_one_of_ne_zero (Nat.ne_of_gt (may rfl))
      exact .closing balanced
    by_cases opening : c = '('
    · subst opening
      exact .opening (opens rfl) balanced
    rw [depthAfter, if_neg close, if_neg opening] at balanced
    exact .plain notEscape close opening balanced
  | case3 =>
    obtain rfl := Closes.nil_iff.1 closes
    exact .nil

/-- Counting character by character and counting over all parts at the beginning come to the
same. -/
theorem balanced_iff_closes : Balanced depth text ↔ Closes depth text :=
  ⟨Balanced.closes, Closes.balanced⟩

end Groups

/-! ### Custom patterns -/

section Patterns

variable {index : Nat} {body rest : List Char}

theorem customPattern_eq_ok_iff_isDelimited : customPattern index (body ++ ')' :: rest) = .ok body ↔
    IsDelimited body ∧ IsAscii (bare body) := by
  rw [customPattern_eq_ok_iff, balanced_iff_closes]
  constructor
  · rintro ⟨nonempty, begins, -, closes, ascii⟩
    exact ⟨⟨nonempty, begins, closes⟩, ascii⟩
  · rintro ⟨⟨nonempty, begins, closes⟩, ascii⟩
    exact ⟨nonempty, begins, ⟨rest, rfl⟩, closes, ascii⟩

end Patterns

section Parentheses

variable {text : String}

theorem head?_lenientLexemes_iff (rest : String) :
    (lenientLexemes ("(" ++ text ++ ")" ++ rest)).head? = some ⟨.pattern, 0, text⟩ ↔
      customPattern 0 (text.toList ++ ')' :: rest.toList) = .ok text.toList := by
  have whole : ("(" ++ text ++ ")" ++ rest).toList =
      '(' :: (text.toList ++ ')' :: rest.toList) := by
    simp
  rw [lenientLexemes, whole, lenientFrom]
  cases read : customPattern 0 (text.toList ++ ')' :: rest.toList) with
  | error fault => simp [first, read]
  | ok body =>
    simp only [first, read, List.head?_cons, Option.some.injEq, Lexeme.mk.injEq, true_and,
      Except.ok.injEq]
    rw [← String.toList_inj, String.toList_ofList]

theorem lexemes_parentheses_iff : lexemes ("(" ++ text ++ ")") =
      .ok [⟨.pattern, 0, text⟩, ⟨.finish, text.length + 2, ""⟩] ↔
    customPattern 0 (text.toList ++ [')']) = .ok text.toList := by
  refine ⟨customPattern_of_lexemes, fun read => ?_⟩
  have whole : ("(" ++ text ++ ")").toList = '(' :: (text.toList ++ [')']) := by simp
  have covered := strictFrom_covered 1 (text.toList ++ [')']) []
  have place : 1 + (text.toList.length + 1) = text.length + 2 := by
    rw [String.length_toList]
    omega
  rw [List.append_nil, List.length_append, List.length_singleton] at covered
  rw [lexemes, whole, strictFrom]
  simp only [first, read]
  rw [covered, String.ofList_toList, place]
  rfl

end Parentheses

/-- An ASCII text between parentheses is read as a custom pattern, whatever follows it where reading
is lenient, just if it closes all groups that it opens, none too early and each with a question mark
after its parenthesis, and does not begin with one. -/
theorem isDelimited_iff_lexemes {text : String} (ascii : IsAscii text.toList) (rest : String) :
    ((lenientLexemes ("(" ++ text ++ ")" ++ rest)).head? = some ⟨.pattern, 0, text⟩ ↔
        IsDelimited text.toList) ∧
      (lexemes ("(" ++ text ++ ")") =
          .ok [⟨.pattern, 0, text⟩, ⟨.finish, text.length + 2, ""⟩] ↔
        IsDelimited text.toList) := by
  have bare : IsAscii (bare text.toList) := fun c member => ascii c (mem_of_mem_bare member)
  rw [head?_lenientLexemes_iff, lexemes_parentheses_iff, customPattern_eq_ok_iff_isDelimited,
    customPattern_eq_ok_iff_isDelimited]
  exact ⟨and_iff_left bare, and_iff_left bare⟩

/-- Alternatives in a group, one of them an escaped parenthesis; and a group that captures. -/
theorem isDelimited_iff_lexemes_groups :
    IsAscii "(?:a|\\))+".toList ∧ IsDelimited "(?:a|\\))+".toList ∧
      (lenientLexemes ("(" ++ "(?:a|\\))+" ++ ")" ++ "/(")).head? =
        some ⟨.pattern, 0, "(?:a|\\))+"⟩ ∧
      ¬ IsDelimited "a(b)".toList := by
  have ascii : IsAscii "(?:a|\\))+".toList := by decide +kernel
  obtain ⟨lenient, strict⟩ := isDelimited_iff_lexemes ascii "/("
  have delimited := strict.1 (by decide +kernel)
  exact ⟨ascii, delimited, lenient.2 delimited,
    mt (isDelimited_iff_lexemes (by decide +kernel) "").2.2 (by decide +kernel)⟩

/-! ### Texts that go on -/

section Longer

variable {index covered further : Nat} {c : Char} {text rest : List Char} {lexeme : Lexeme}

/-- A lexeme is read the same where the text goes on, unless that is with characters of a name. -/
theorem first_append (read : first index c text = .ok (lexeme, further)) (stops : StopsName rest) :
    first index c (text ++ rest) = .ok (lexeme, further) := by
  unfold first at read
  split at read
  case h_6 =>
    cases text with
    | nil => cases read
    | cons escaped text => exact read
  case h_7 =>
    split at read
    · cases read
    · rename_i nonempty
      cases read
      obtain ⟨after, split, whole, stops'⟩ := exists_after_of_leadingName nonempty rfl
      have longer : StopsName (after ++ rest) := by
        intro d head
        rw [List.head?_append] at head
        cases after with
        | nil => exact stops d head
        | cons e after => exact stops' d head
      have same : leadingName (text ++ rest) = leadingName text := by
        conv_lhs => rw [split, List.append_assoc]
        exact leadingName_append whole longer
      simp only [first, same]
  case h_8 =>
    split at read
    · cases read
    · rename_i body custom
      cases read
      obtain ⟨after, rfl⟩ := exists_after_of_customPattern custom
      have here : customPattern index (body ++ ')' :: (after ++ rest)) = .ok body :=
        customPattern_eq_ok custom index
      rw [List.append_assoc, List.cons_append]
      simp only [first, here]
  all_goals
    cases read
    simp only [first]

/-- What is read of a text is read as well where the text goes on. -/
theorem strictFrom_append {found : List Lexeme} (read : strictFrom index covered text = .ok found)
    (room : covered ≤ text.length) (stops : StopsName rest) :
    strictFrom index covered (text ++ rest) =
      (strictFrom (index + text.length) 0 rest).map (found.dropLast ++ ·) := by
  fun_induction strictFrom index covered text generalizing found with
  | case1 index covered =>
    cases read
    obtain rfl : covered = 0 := by simpa using room
    exact (congrFun Except.map_id _).symm
  | case2 index c text covered ih =>
    have more := ih read (by simpa using room)
    rwa [List.length_cons, Nat.add_comm text.length, ← Nat.add_assoc]
  | case3 => cases read
  | case4 index c text first further begins ih =>
    obtain ⟨others, more, rfl⟩ := map_eq_ok read
    obtain ⟨covered, after, rfl, rfl, _⟩ := exists_spans_of_first begins
    have there := ih more (by simp)
    obtain ⟨body, last, rfl, _⟩ := strictFrom_eq_ok more
    have front : (first :: (body ++ [⟨.finish, last, ""⟩])).dropLast = first :: body :=
      @List.dropLast_concat _ (first :: body) _
    rw [List.dropLast_concat] at there
    simp only [List.cons_append, strictFrom, first_append begins stops, there, List.length_cons,
      Nat.add_assoc, Nat.add_comm 1, front]
    cases strictFrom (index + ((covered ++ after).length + 1)) 0 rest <;> rfl

end Longer

/-! ### Characters that are not ASCII -/

section Foreign

variable {start index depth : Nat} {c : Char} {inner rest : List Char}

/-- Another character is taken if it is ASCII, and a parenthesis only where it may stand. -/
theorem patternBody_cons (ascii : c.toNat < 0x80) (notEscape : c ≠ '\\')
    (opens : c = '(' → rest.head? = some '?') (may : c = ')' → 0 < depth) :
    patternBody start index depth (c :: rest) =
      (patternBody start (index + 1) (depthAfter depth c) rest).map (c :: ·) := by
  rw [patternBody.eq_def]
  by_cases close : c = ')'
  · subst close
    obtain ⟨depth, rfl⟩ := Nat.exists_eq_add_one_of_ne_zero (Nat.ne_of_gt (may rfl))
    rfl
  · by_cases opening : c = '('
    · subst opening
      exact if_pos (opens rfl)
    · simp only [if_neg (Nat.not_le_of_lt ascii), if_neg notEscape, if_neg close, if_neg opening,
        depthAfter]

/-- A custom pattern cannot be read on from a character that is not ASCII, unless it is escaped. -/
theorem exists_fault_of_patternBody (stays : StaysOpen depth inner) (free : '\\' ∉ bare inner)
    (foreign : 0x80 ≤ c.toNat) :
    ∃ fault, patternBody start index depth (inner ++ c :: rest) = .error fault ∧
      (fault = .nonAscii c (index + inner.length) ∨
        index ≤ fault.index ∧ fault.index < index + inner.length) := by
  fun_induction bare inner generalizing index depth with
  | case1 d inner ih =>
    obtain ⟨fault, read, there⟩ := @ih (index + 2) _ (StaysOpen.escaped_iff.1 stays) free
    refine ⟨fault, ?_, there.imp (fun same => ?_) fun between => ?_⟩
    · exact (patternBody_escaped d _).trans (congrArg (Except.map _) read)
    · rw [same, List.length_cons, List.length_cons, Nat.add_assoc, Nat.add_comm 2]
    · simp only [List.length_cons]
      omega
  | case2 d inner _ ih =>
    have notEscape : d ≠ '\\' := fun same => free (same ▸ List.mem_cons_self)
    obtain ⟨may, stays⟩ := (StaysOpen.cons_iff notEscape).1 stays
    obtain ⟨fault, read, there⟩ := @ih (index + 1) _ stays (List.not_mem_of_not_mem_cons free)
    -- The character before may be at fault already, for itself or for the group that it opens.
    by_cases ascii : d.toNat < 0x80
    swap
    · refine ⟨.nonAscii d index, ?_, .inr ⟨Nat.le_refl _, ?_⟩⟩
      · rw [patternBody.eq_def]
        exact if_pos (Nat.le_of_not_lt ascii)
      · simp [Fault.index]
    by_cases opens : d = '(' → (inner ++ c :: rest).head? = some '?'
    swap
    · obtain ⟨rfl, noMark⟩ := Classical.not_imp.1 opens
      refine ⟨.capturingGroup index, ?_, .inr ⟨Nat.le_refl _, ?_⟩⟩
      · rw [patternBody.eq_def]
        exact if_neg noMark
      · simp [Fault.index]
    refine ⟨fault, ?_, there.imp (fun same => ?_) fun between => ?_⟩
    · exact (patternBody_cons ascii notEscape opens may).trans (congrArg (Except.map _) read)
    · rw [same, List.length_cons, Nat.add_assoc, Nat.add_comm 1]
    · simp only [List.length_cons]
      omega
  | case3 =>
    refine ⟨.nonAscii c index, ?_, .inl rfl⟩
    rw [patternBody.eq_def]
    exact if_pos foreign

theorem exists_fault_of_customPattern (stays : StaysOpen 0 inner) (free : '\\' ∉ bare inner)
    (foreign : 0x80 ≤ c.toNat) :
    ∃ fault, customPattern index (inner ++ c :: rest) = .error fault ∧
      (fault = .nonAscii c (index + 1 + inner.length) ∨
        index < fault.index ∧ fault.index < index + 1 + inner.length) := by
  by_cases mark : (inner ++ c :: rest).head? = some '?'
  · refine ⟨_, if_pos mark, .inr ⟨Nat.lt_succ_self _, ?_⟩⟩
    cases inner with
    | nil =>
      obtain rfl : c = '?' := by simpa using mark
      exact absurd foreign (by decide)
    | cons d inner =>
      simp only [Fault.index, List.length_cons]
      omega
  · obtain ⟨fault, read, there⟩ :=
      @exists_fault_of_patternBody index (index + 1) 0 c inner rest stays free foreign
    exact ⟨fault, by rw [customPattern, if_neg mark, read], there⟩

/-- The fault is the character itself, or it stands between the parenthesis and the character. -/
theorem exists_fault_of_lexemes {before : List Char} {found : List Lexeme}
    (reached : lexemes (String.ofList before) = .ok found) (stays : StaysOpen 0 inner)
    (free : '\\' ∉ bare inner) (foreign : 0x80 ≤ c.toNat) :
    ∃ fault, lexemes (String.ofList (before ++ '(' :: (inner ++ c :: rest))) = .error fault ∧
      (fault = .nonAscii c (before.length + 1 + inner.length) ∨
        before.length < fault.index ∧ fault.index < before.length + 1 + inner.length) := by
  have stops : StopsName ('(' :: (inner ++ c :: rest)) := by
    rintro _ ⟨⟩
    decide +kernel
  rw [lexemes, String.toList_ofList] at reached ⊢
  rw [strictFrom_append reached (Nat.zero_le _) stops, Nat.zero_add]
  obtain ⟨fault, read, there⟩ :=
    @exists_fault_of_customPattern before.length c inner rest stays free foreign
  exact ⟨fault, by simp only [strictFrom, first, read, Except.map], there⟩

end Foreign

theorem isAscii_bare_of_first {index further : Nat} {c : Char} {text : List Char} {lexeme : Lexeme}
    (read : first index c text = .ok (lexeme, further)) (kind : lexeme.kind = .pattern) :
    IsAscii (bare lexeme.value.toList) := by
  obtain ⟨body, custom, same⟩ := exists_customPattern_of_first read kind
  rw [same, String.toList_ofList]
  exact (customPattern_eq_ok_iff.1 custom).2.2.2.2

theorem isAscii_bare_of_lenientFrom (index covered : Nat) (text : List Char) :
    ∀ lexeme ∈ lenientFrom index covered text, lexeme.kind = .pattern →
      IsAscii (bare lexeme.value.toList) := by
  fun_induction lenientFrom index covered text with
  | case1 =>
    refine List.forall_mem_singleton.2 ?_
    rintro ⟨⟩
  | case2 index c text covered ih => exact ih
  | case3 index c text fault _ ih =>
    refine List.forall_mem_cons.2 ⟨?_, ih⟩
    rintro ⟨⟩
  | case4 index c text lexeme further begins ih =>
    exact List.forall_mem_cons.2 ⟨isAscii_bare_of_first begins, ih⟩

/-- Outside of what is escaped, the custom patterns among the lexemes of a pattern are ASCII, in
both ways of reading. Another character between the parentheses of a custom pattern, unless it is
escaped, is a fault of the pattern, if there is none between the parenthesis and it. -/
theorem isAscii_bare_of_lexemes (pattern : String) :
    (∀ lexeme ∈ lenientLexemes pattern, lexeme.kind = .pattern →
      IsAscii (bare lexeme.value.toList)) ∧
    (∀ found, lexemes pattern = .ok found → ∀ lexeme ∈ found, lexeme.kind = .pattern →
      IsAscii (bare lexeme.value.toList)) ∧
    ∀ before inner c rest found, pattern.toList = before ++ '(' :: (inner ++ c :: rest) →
      lexemes (String.ofList before) = .ok found → StaysOpen 0 inner → '\\' ∉ bare inner →
      0x80 ≤ c.toNat →
      ∃ fault, lexemes pattern = .error fault ∧
        (fault = .nonAscii c (before.length + 1 + inner.length) ∨
          before.length < fault.index ∧ fault.index < before.length + 1 + inner.length) := by
  refine ⟨isAscii_bare_of_lenientFrom 0 0 pattern.toList, fun found read lexeme member kind => ?_,
    fun before inner c rest found split reached stays free foreign => ?_⟩
  · obtain ⟨body, last, rfl, each⟩ := exists_body_of_strictFrom isAscii_bare_of_first read
    rcases List.mem_append.1 member with member | member
    · exact each lexeme member kind
    · rw [List.mem_singleton.1 member] at kind
      cases kind
  · obtain ⟨fault, read, there⟩ :=
      @exists_fault_of_lexemes c inner rest _ _ reached stays free foreign
    rw [← split, String.ofList_toList] at read
    exact ⟨fault, read, there⟩

/-- An accented letter is passed over where it is escaped and is a fault in a group. -/
theorem isAscii_bare_of_lexemes_accents :
    (∃ lexeme ∈ lenientLexemes "/:a(\\éb)", lexeme.kind = .pattern ∧
        IsAscii (bare lexeme.value.toList)) ∧
      ∃ fault, lexemes "/:a(\\éb)(x(?:yé))" = .error fault ∧
        (fault = .nonAscii 'é' 14 ∨ 8 < fault.index ∧ fault.index < 14) := by
  refine ⟨⟨⟨.pattern, 3, "\\éb"⟩, by decide +kernel, rfl, ?_⟩, ?_⟩
  · exact (isAscii_bare_of_lexemes "/:a(\\éb)").1 _ (by decide +kernel) rfl
  · have reached := toOption_eq_some_iff.1 <| Eq.symm <| Option.some_get <|
      show (lexemes (String.ofList "/:a(\\éb)".toList)).toOption.isSome by decide +kernel
    exact (isAscii_bare_of_lexemes "/:a(\\éb)(x(?:yé))").2.2 "/:a(\\éb)".toList "x(?:y".toList 'é'
      "))".toList _ (by decide +kernel) reached (by decide +kernel) (by decide +kernel) (by decide)

/-- An escaped character is taken into a custom pattern whatever it is. -/
theorem exists_pattern_not_ascii :
    ∃ found lexeme, lexemes "(\\é)" = .ok found ∧ lenientLexemes "(\\é)" = found ∧ lexeme ∈ found ∧
      lexeme.kind = .pattern ∧ ¬ IsAscii lexeme.value.toList := by
  refine ⟨[⟨.pattern, 0, "\\é"⟩, ⟨.finish, 4, ""⟩], _, ?_, ?_, List.mem_cons_self, rfl, ?_⟩ <;>
    decide +kernel

end Lexeme

end PathTemplate
