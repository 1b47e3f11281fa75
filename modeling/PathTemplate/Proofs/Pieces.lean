/-
Pieces of a text between the occurrences of a separator.

Put together again with the separator between them they give the text, and the separator is in none
of them. Conversely, texts in which the separator cannot even begin are the pieces of what they give
together. Texts that were put together with another separator are taken apart again only where there
is just one of them.
-/

import PathTemplate.Matcher

namespace PathTemplate

section Pieces

variable {separator : List Char}

theorem pieces_ne_nil (covered : Nat) (text : List Char) : pieces separator covered text ≠ [] := by
  fun_induction pieces separator covered text with
  | case2 covered c rest ih => exact ih
  | _ => exact List.cons_ne_nil _ _

theorem intercalate_cons {first : List Char} {others : List (List Char)} (some : others ≠ []) :
    separator.intercalate (first :: others) =
      first ++ (separator ++ separator.intercalate others) := by
  obtain ⟨second, others, rfl⟩ := List.exists_cons_of_ne_nil some
  simp [List.intercalate]

theorem intercalate_eq_append {first : List Char} {others : List (List Char)} :
    separator.intercalate (first :: others) =
      first ++ (others.map (separator ++ ·)).flatten := by
  induction others generalizing first with
  | nil => simp [List.intercalate]
  | cons second others ih =>
    rw [intercalate_cons (List.cons_ne_nil _ _), ih, List.map_cons, List.flatten_cons,
      List.append_assoc]

/-- The pieces of a text, with the separator between them, are the text again. -/
theorem intercalate_pieces (nonempty : separator ≠ []) (covered : Nat) (text : List Char) :
    separator.intercalate (pieces separator covered text) = text.drop covered := by
  fun_induction pieces separator covered text with
  | case1 => simp [List.intercalate]
  | case2 covered c rest ih => simpa using ih
  | case3 c rest found ih =>
    obtain ⟨after, split⟩ := List.isPrefixOf_iff_prefix.1 found
    obtain ⟨d, tail, rfl⟩ := List.exists_cons_of_ne_nil nonempty
    obtain ⟨rfl, rfl⟩ := List.cons.inj split
    rw [intercalate_cons (pieces_ne_nil _ _), ih]
    simp
  | case4 c rest absent none => exact absurd none (pieces_ne_nil _ _)
  | case5 c rest absent piece others more ih =>
    rw [more, List.drop_zero] at ih
    rw [List.drop_zero, ← ih]
    cases others with
    | nil => simp [List.intercalate]
    | cons second others =>
      rw [intercalate_cons (List.cons_ne_nil _ _), intercalate_cons (List.cons_ne_nil _ _)]
      rfl

/-- Nothing is found inside the separator that was found last. -/
theorem pieces_append_covered (covered rest : List Char) :
    pieces separator covered.length (covered ++ rest) = pieces separator 0 rest := by
  induction covered with
  | nil => rfl
  | cons c covered ih =>
    rw [List.cons_append, List.length_cons, pieces]
    exact ih

/-- A separator at the beginning ends a piece. -/
theorem pieces_separator_append (nonempty : separator ≠ []) (rest : List Char) :
    pieces separator 0 (separator ++ rest) = [] :: pieces separator 0 rest := by
  obtain ⟨head, tail, rfl⟩ := List.exists_cons_of_ne_nil nonempty
  have present : (head :: tail).isPrefixOf (head :: (tail ++ rest)) = true :=
    List.isPrefixOf_iff_prefix.2 ⟨rest, rfl⟩
  rw [List.cons_append, pieces, if_pos present, List.length_cons, Nat.add_sub_cancel,
    pieces_append_covered]

/-- So does the first separator that a text has. -/
theorem pieces_append_separator (nonempty : separator ≠ []) {text : List Char} (rest : List Char)
    (first : ∀ before after, text = before ++ after → after ≠ [] →
      ¬separator <+: after ++ (separator ++ rest)) :
    pieces separator 0 (text ++ (separator ++ rest)) = text :: pieces separator 0 rest := by
  induction text with
  | nil => exact pieces_separator_append nonempty rest
  | cons c text ih =>
    have absent : separator.isPrefixOf (c :: (text ++ (separator ++ rest))) = false :=
      Bool.eq_false_iff.2 fun found =>
        first [] (c :: text) rfl (List.cons_ne_nil _ _) (List.isPrefixOf_iff_prefix.1 found)
    have later := ih fun before after split => first (c :: before) after (congrArg (c :: ·) split)
    rw [List.cons_append, pieces, absent, later]
    rfl

/-- No piece has the separator in it. -/
theorem not_infix_of_mem_pieces (nonempty : separator ≠ []) {covered : Nat} {text piece : List Char}
    (member : piece ∈ pieces separator covered text) : ¬separator <:+: piece := by
  fun_induction pieces separator covered text generalizing piece with
  | case1 =>
    rw [List.mem_singleton.1 member]
    simpa using nonempty
  | case2 covered c rest ih => exact ih member
  | case3 c rest found ih =>
    rcases List.mem_cons.1 member with rfl | member
    · simpa using nonempty
    · exact ih member
  | case4 c rest absent none => exact absurd none (pieces_ne_nil _ _)
  | case5 c rest absent first others more ih =>
    rw [more] at ih
    rcases List.mem_cons.1 member with rfl | member
    · rw [List.infix_cons_iff, not_or]
      refine ⟨fun found => absent ?_, ih List.mem_cons_self⟩
      have whole := intercalate_pieces nonempty 0 rest
      rw [more, intercalate_eq_append, List.drop_zero] at whole
      have longer : c :: first <+: c :: rest := ⟨_, congrArg (c :: ·) whole⟩
      exact List.isPrefixOf_iff_prefix.2 (found.trans longer)
    · exact ih (List.mem_cons_of_mem _ member)

section Marked

variable {plain : Char → Prop} {front tail : List Char} {mark : Char}
  (split : separator = front ++ mark :: tail) (front_plain : ∀ c ∈ front, plain c)
  (marked : ¬plain mark)
include split marked

/-- The separator does not begin before its mark. -/
theorem isPrefixOf_eq_false_of_plain {text rest : List Char} (longer : front.length < text.length)
    (free : ∀ c ∈ text, plain c) : separator.isPrefixOf (text ++ rest) = false := by
  refine Bool.eq_false_iff.2 fun found => ?_
  obtain ⟨after, same⟩ := List.isPrefixOf_iff_prefix.1 found
  have here : text[front.length]? = some mark := by
    rw [← List.getElem?_append_left longer, ← same, split, List.append_assoc,
      List.getElem?_append_right (Nat.le_refl _), Nat.sub_self]
    rfl
  exact marked (free _ (List.mem_of_getElem? here))

include front_plain

/-- A text without the mark of the separator belongs to the piece after it. -/
theorem pieces_append_free {text rest piece : List Char} {others : List (List Char)}
    (free : ∀ c ∈ text, plain c) (next : rest = [] ∨ ∃ more, rest = separator ++ more)
    (after : pieces separator 0 rest = piece :: others) :
    pieces separator 0 (text ++ rest) = (text ++ piece) :: others := by
  induction text with
  | nil => exact after
  | cons c text ih =>
    have absent : separator.isPrefixOf (c :: (text ++ rest)) = false := by
      rcases next with rfl | ⟨more, rfl⟩
      · by_cases longer : front.length < (c :: text).length
        · exact isPrefixOf_eq_false_of_plain split marked longer free
        · refine Bool.eq_false_iff.2 fun found => ?_
          have most := (List.isPrefixOf_iff_prefix.1 found).length_le
          rw [split] at most
          simp only [List.length_append, List.length_cons, List.append_nil] at most longer
          omega
      · have longer : front.length < (c :: text ++ front).length := by
          rw [List.length_append, List.length_cons]
          omega
        have short := @isPrefixOf_eq_false_of_plain separator _ _ _ _ split marked _
          (mark :: tail ++ more) longer (List.forall_mem_append.2 ⟨free, front_plain⟩)
        simpa [split] using short
    rw [List.cons_append, pieces, absent, ih (List.forall_mem_cons.1 free).2]
    rfl

/-- Texts without the mark of the separator are the pieces of what they give together. -/
theorem pieces_intercalate_of_mark {first : List Char} {others : List (List Char)}
    (free : ∀ text ∈ first :: others, ∀ c ∈ text, plain c) :
    pieces separator 0 (separator.intercalate (first :: others)) = first :: others := by
  induction others generalizing first with
  | nil =>
    have alone := pieces_append_free split front_plain marked (free first List.mem_cons_self)
      (.inl rfl) (show pieces separator 0 [] = [] :: [] from rfl)
    simpa [List.intercalate] using alone
  | cons second others ih =>
    obtain ⟨here, free⟩ := List.forall_mem_cons.1 free
    rw [intercalate_cons (List.cons_ne_nil _ _)]
    have nonempty : separator ≠ [] := split ▸ by simp
    have found : pieces separator 0 (separator ++ separator.intercalate (second :: others)) =
        [] :: second :: others := by
      rw [pieces_separator_append nonempty, ih free]
    rw [pieces_append_free split front_plain marked here (.inr ⟨_, rfl⟩) found, List.append_nil]

end Marked

/-- Texts in which the separator cannot begin are the pieces of what they give together. -/
theorem pieces_intercalate {head : Char} {tail first : List Char} {others : List (List Char)}
    (free : ∀ text ∈ first :: others, head ∉ text) :
    pieces (head :: tail) 0 ((head :: tail).intercalate (first :: others)) = first :: others :=
  @pieces_intercalate_of_mark _ (· ≠ head) [] tail head rfl nofun (fun differs => differs rfl)
    first others fun text member _ inside same => free text member (same ▸ inside)

/-- A text is one piece just where the separator does not occur in it. -/
theorem pieces_eq_singleton_iff (nonempty : separator ≠ []) {text : List Char} :
    pieces separator 0 text = [text] ↔ ¬separator <:+: text := by
  induction text with
  | nil => simp [pieces, nonempty]
  | cons c text ih =>
    rw [pieces, List.infix_cons_iff, ← List.isPrefixOf_iff_prefix]
    cases found : separator.isPrefixOf (c :: text) with
    | true => simp
    | false =>
      obtain ⟨piece, others, more⟩ :=
        List.exists_cons_of_ne_nil (@pieces_ne_nil separator 0 text)
      rw [more] at ih ⊢
      simpa using ih

/-- A longer separator gives a longer text. -/
theorem length_intercalate_le {shorter longer : List Char}
    (shorter_le : shorter.length ≤ longer.length) (texts : List (List Char)) :
    (shorter.intercalate texts).length ≤ (longer.intercalate texts).length := by
  cases texts with
  | nil => exact Nat.le_refl _
  | cons first others =>
    rw [intercalate_eq_append, intercalate_eq_append, List.length_append, List.length_append]
    refine Nat.add_le_add_left ?_ _
    induction others with
    | nil => exact Nat.le_refl _
    | cons second others ih =>
      simp only [List.map_cons, List.flatten_cons, List.length_append]
      omega

/-- Two texts or more tell what stands between them from one character. -/
theorem separator_eq_of_intercalate_eq {c : Char} {first second : List Char}
    {others : List (List Char)} (nonempty : separator ≠ [])
    (same : separator.intercalate (first :: second :: others) =
      [c].intercalate (first :: second :: others)) : separator = [c] := by
  obtain ⟨head, tail, rfl⟩ := List.exists_cons_of_ne_nil nonempty
  rw [intercalate_cons (List.cons_ne_nil _ _), intercalate_cons (List.cons_ne_nil _ _),
    List.append_cancel_left_eq, List.cons_append, List.cons_append, List.nil_append] at same
  obtain ⟨rfl, rest⟩ := List.cons.inj same
  have longer := @length_intercalate_le [head] (head :: tail) (by simp) (second :: others)
  have lengths := congrArg List.length rest
  rw [List.length_append] at lengths
  rw [List.length_eq_zero_iff.1 (by omega : tail.length = 0)]

theorem Key.occurrences_ne_nil (key : Key) (captured : String) : key.occurrences captured ≠ [] := by
  rw [occurrences]
  split
  · exact List.cons_ne_nil _ _
  · simpa using pieces_ne_nil 0 captured.toList

/-- A captured text is left in one piece if the key has no separator or it does not occur. -/
theorem Key.occurrences_eq_singleton_iff {key : Key} {captured : String} :
    key.occurrences captured = [captured] ↔
      key.separator = "" ∨ ¬key.separator.toList <:+: captured.toList := by
  by_cases none : key.separator = ""
  · simp [occurrences, none]
  · have nonempty : key.separator.toList ≠ [] := by simpa using none
    rw [occurrences, if_neg none, ← pieces_eq_singleton_iff nonempty]
    constructor
    · intro alone
      obtain ⟨piece, pieces, same⟩ := List.map_eq_singleton_iff.1 alone
      rw [pieces, ← same, String.toList_ofList]
      exact .inr rfl
    · rintro (absent | alone)
      · exact absurd absent none
      · rw [alone, List.map_singleton, String.ofList_toList]

/-- The occurrences of a key, with its separator between them, are the captured text again. -/
theorem Key.intercalate_occurrences (key : Key) (captured : String) :
    key.separator.intercalate (key.occurrences captured) = captured := by
  by_cases none : key.separator = ""
  · rw [occurrences, if_pos none, none]
    rfl
  · have nonempty : key.separator.toList ≠ [] := by simpa using none
    have same : String.toList ∘ String.ofList = id := funext fun _ => String.toList_ofList
    rw [occurrences, if_neg none, ← String.toList_inj, String.toList_intercalate, List.map_map,
      same, List.map_id, intercalate_pieces nonempty, List.drop_zero]

/-- None of them has the separator in it. -/
theorem Key.not_infix_of_mem_occurrences {key : Key} (separated : key.separator ≠ "")
    {captured part : String} (member : part ∈ key.occurrences captured) :
    ¬key.separator.toList <:+: part.toList := by
  have nonempty : key.separator.toList ≠ [] := by simpa using separated
  rw [occurrences, if_neg separated] at member
  obtain ⟨piece, found, rfl⟩ := List.mem_map.1 member
  rw [String.toList_ofList]
  exact not_infix_of_mem_pieces nonempty found

/-- A captured text is taken apart into the values between the separators, if these have a character
that no value has, nor what stands before it in a separator. -/
theorem Key.occurrences_intercalate_of_mark {key : Key} {plain : Char → Prop} {mark : Char}
    {front tail first : List Char} {others : List (List Char)}
    (split : key.separator.toList = front ++ mark :: tail) (front_plain : ∀ c ∈ front, plain c)
    (marked : ¬plain mark) (free : ∀ u ∈ first :: others, ∀ c ∈ u, plain c) :
    key.occurrences (String.ofList (key.separator.toList.intercalate (first :: others))) =
      (first :: others).map String.ofList := by
  have nonempty : key.separator ≠ "" := fun none => by
    rw [none] at split
    exact absurd split.symm (List.append_ne_nil_of_right_ne_nil _ (List.cons_ne_nil _ _))
  rw [Key.occurrences, if_neg nonempty, String.toList_ofList,
    pieces_intercalate_of_mark split front_plain marked free]

/-- The same if the separator cannot begin inside of the values. -/
theorem Key.occurrences_intercalate {key : Key} {c : Char} {tail first : List Char}
    {others : List (List Char)} (begins : key.separator.toList = c :: tail)
    (free : ∀ u ∈ first :: others, c ∉ u) :
    key.occurrences (String.ofList (key.separator.toList.intercalate (first :: others))) =
      (first :: others).map String.ofList :=
  @Key.occurrences_intercalate_of_mark key (· ≠ c) c [] tail first others begins nofun
    (fun differs => differs rfl) fun u member _ inside same => free u member (same ▸ inside)

/-- Texts that do not have the separator, which is one character, are the occurrences in what they give
together. -/
theorem Key.occurrences_intercalate_singleton {key : Key} {c : Char}
    (single : key.separator = String.singleton c) {first : String} {others : List String}
    (free : ∀ text ∈ first :: others, ¬key.separator.toList <:+: text.toList) :
    key.occurrences (key.separator.intercalate (first :: others)) = first :: others := by
  have begins : key.separator.toList = [c] := by rw [single, String.toList_singleton]
  have absent : ∀ u ∈ first.toList :: others.map String.toList, c ∉ u := by
    intro u member inside
    obtain ⟨text, among, rfl⟩ := List.mem_map.1 (List.map_cons ▸ member)
    obtain ⟨front, back, split⟩ := List.append_of_mem inside
    exact free text among ⟨front, back, by rw [begins, split]; simp⟩
  have apart := Key.occurrences_intercalate begins absent
  rw [← List.map_cons, ← String.toList_intercalate, String.ofList_toList, List.map_map] at apart
  rw [apart]
  simp

/-- Texts that were put together with one character, which none of them has, are taken apart again
just where the key has this separator, or where there is nothing to take apart. -/
theorem Key.occurrences_intercalate_iff {key : Key} {c : Char} {first : List Char}
    {others : List (List Char)} (free : ∀ u ∈ first :: others, c ∉ u) :
    key.occurrences (String.ofList ([c].intercalate (first :: others))) =
        (first :: others).map String.ofList ↔
      key.separator.toList = [c] ∨ c ∉ [c].intercalate (first :: others) ∧
        (key.separator = "" ∨ ¬key.separator.toList <:+: [c].intercalate (first :: others)) := by
  refine ⟨fun apart => ?_, ?_⟩
  · cases others with
    | nil =>
      have alone : [c].intercalate [first] = first := List.intercalate_singleton
      rw [alone, List.map_singleton, Key.occurrences_eq_singleton_iff] at apart
      rw [alone]
      exact .inr ⟨free first List.mem_cons_self, by simpa using apart⟩
    | cons second others =>
      rw [Key.occurrences] at apart
      split at apart
      · simpa using congrArg List.length apart
      · have nonempty : key.separator.toList ≠ [] := by simpa using ‹key.separator ≠ ""›
        rw [String.toList_ofList] at apart
        have whole := intercalate_pieces nonempty 0 ([c].intercalate (first :: second :: others))
        rw [(List.map_inj_right fun _ _ => String.ofList_injective).1 apart] at whole
        exact .inl (separator_eq_of_intercalate_eq nonempty whole)
  · rintro (same | ⟨absent, alone⟩)
    · rw [← same]
      exact Key.occurrences_intercalate same free
    · cases others with
      | nil =>
        have single : [c].intercalate [first] = first := List.intercalate_singleton
        rw [single] at alone ⊢
        rw [List.map_singleton, Key.occurrences_eq_singleton_iff, String.toList_ofList]
        exact alone
      | cons second others =>
        rw [intercalate_cons (List.cons_ne_nil _ _)] at absent
        simp at absent

end Pieces

end PathTemplate
