/-
Slots take captures apart between characters.

UTF-8 synchronises itself: where the bytes of a text occur in those of another one, there is the
text itself (`exists_of_occursAt`). So a finder that reports the leftmost occurrences of the separator
without overlap leads to slices at boundaries of characters, and to the pieces of the text
(`slices_of_leftmost`). What holds of pieces then holds of the occurrences of a key.

* `Slot.split_ofKey`: a slot never refuses a slice, and gives what `Key.occurrences` does.
* `Slot.split_occurrences`: taking apart is lossless, tight and keeps to characters.
-/

import PathTemplate.Proofs.Pieces
import PathTemplate.Proofs.Results
import PathTemplate.Slot

namespace PathTemplate

/-! ### Where bytes occur -/

/-- The bytes of `needle` are those of `haystack` from this offset on. -/
def OccursAt (needle haystack : ByteArray) (pos : Nat) : Prop :=
  haystack.extract pos (pos + needle.size) = needle

instance (needle haystack : ByteArray) (pos : Nat) : Decidable (OccursAt needle haystack pos) :=
  inferInstanceAs (Decidable (_ = _))

/-- What occurs ends inside. -/
theorem OccursAt.le {needle haystack : ByteArray} {pos : Nat} (nonempty : needle.size ≠ 0)
    (occurs : OccursAt needle haystack pos) : pos + needle.size ≤ haystack.size := by
  have size := congrArg ByteArray.size occurs
  rw [ByteArray.size_extract] at size
  omega

section Texts

variable {needle text before after : String} {pos : Nat}

theorem isValid_iff_exists : String.Pos.Raw.IsValid text ⟨pos⟩ ↔
    ∃ before after, text = before ++ after ∧ before.utf8ByteSize = pos := by
  rw [String.Pos.Raw.isValid_iff_exists_append]
  constructor
  · rintro ⟨before, after, split, same⟩
    exact ⟨before, after, split, congrArg String.Pos.Raw.byteIdx same.symm⟩
  · rintro ⟨before, after, split, rfl⟩
    exact ⟨before, after, split, rfl⟩

/-- Where a text is, its bytes occur. -/
theorem occursAt_of_append (split : text = before ++ (needle ++ after)) :
    OccursAt needle.toByteArray text.toByteArray before.utf8ByteSize := by
  rw [split, OccursAt, String.toByteArray_append, String.toByteArray_append,
    ← String.size_toByteArray]
  have shifted := ByteArray.extract_append_size_add (a := before.toByteArray)
    (b := needle.toByteArray ++ after.toByteArray) (i := 0) (j := needle.toByteArray.size)
  rw [Nat.add_zero] at shifted
  rw [shifted, ByteArray.extract_append_eq_left rfl]

/-- The same, said of characters. -/
theorem occursAt_of_toList {before after : List Char}
    (split : text.toList = before ++ (needle.toList ++ after)) :
    OccursAt needle.toByteArray text.toByteArray (String.ofList before).utf8ByteSize := by
  refine @occursAt_of_append needle text (String.ofList before) (String.ofList after) ?_
  rw [← String.toList_inj]
  simpa using split

/-- Bytes of a text occur at boundaries of characters only. -/
theorem isValid_of_occursAt (nonempty : needle ≠ "")
    (occurs : OccursAt needle.toByteArray text.toByteArray pos) :
    String.Pos.Raw.IsValid text ⟨pos⟩ := by
  have positive : 0 < needle.toByteArray.size := by
    rw [String.size_toByteArray]
    exact Nat.pos_of_ne_zero (mt String.utf8ByteSize_eq_zero_iff.1 nonempty)
  have inside : pos < text.toByteArray.size := by
    have ends := occurs.le (by omega)
    omega
  have same : needle.toByteArray[0] = text.toByteArray[pos] := by
    have here : 0 < (text.toByteArray.extract pos (pos + needle.toByteArray.size)).size := by
      rwa [occurs]
    calc
      needle.toByteArray[0] =
          (text.toByteArray.extract pos (pos + needle.toByteArray.size))[0] := by
        congr 1
        exact occurs.symm
      _ = text.toByteArray[pos] := ByteArray.getElem_extract here
  refine String.Pos.Raw.isValid_iff_isUTF8FirstByte.2 (.inr ⟨inside, ?_⟩)
  rw [show text.getUTF8Byte ⟨pos⟩ inside = text.toByteArray[pos] from rfl, ← same]
  exact String.isUTF8FirstByte_getUTF8Byte_zero (h := positive)

/-- UTF-8 synchronises itself: the bytes of a text occur just where the text does. -/
theorem exists_of_occursAt (nonempty : needle ≠ "")
    (occurs : OccursAt needle.toByteArray text.toByteArray pos) :
    ∃ before after, text = before ++ (needle ++ after) ∧ before.utf8ByteSize = pos := by
  obtain ⟨before, rest, rfl, rfl⟩ := isValid_iff_exists.1 (isValid_of_occursAt nonempty occurs)
  have begins : rest.toByteArray.extract 0 needle.toByteArray.size = needle.toByteArray := by
    rw [OccursAt, String.toByteArray_append, ← String.size_toByteArray] at occurs
    rw [← ByteArray.extract_append_size_add (a := before.toByteArray)]
    exact occurs
  have whole : needle.toByteArray ++
      rest.toByteArray.extract needle.toByteArray.size rest.toByteArray.size =
        rest.toByteArray := by
    have inside : needle.toByteArray.size ≤ rest.toByteArray.size := by
      have size := congrArg ByteArray.size begins
      rw [ByteArray.size_extract] at size
      omega
    have cut := ByteArray.extract_eq_extract_append_extract (a := rest.toByteArray) _
      (Nat.zero_le _) inside
    rw [begins, ByteArray.extract_zero_size] at cut
    exact cut.symm
  rw [← String.utf8Encode_toList, ← @String.utf8Encode_toList rest] at whole
  obtain ⟨after, same⟩ := List.isPrefix_of_utf8Encode_append_eq_utf8Encode _ whole
  refine ⟨before, String.ofList after, congrArg (before ++ ·) ?_, rfl⟩
  rw [← String.toList_inj, String.toList_append, String.toList_ofList, same]

theorem slice?_append (before part after : String) :
    slice? (before ++ (part ++ after)) before.utf8ByteSize
      (before.utf8ByteSize + part.utf8ByteSize) = some part := by
  have first : String.Pos.Raw.IsValid (before ++ (part ++ after)) ⟨before.utf8ByteSize⟩ :=
    isValid_iff_exists.2 ⟨before, part ++ after, rfl, rfl⟩
  have last : String.Pos.Raw.IsValid (before ++ (part ++ after))
      ⟨before.utf8ByteSize + part.utf8ByteSize⟩ :=
    isValid_iff_exists.2
      ⟨before ++ part, after, String.append_assoc.symm, String.utf8ByteSize_append⟩
  rw [slice?, dif_pos ⟨Nat.le_add_right _ _, first, last⟩, Option.some.injEq,
    ← String.toByteArray_inj, String.toByteArray_extract]
  have occurs := @occursAt_of_append part (before ++ (part ++ after)) before after rfl
  rwa [OccursAt, String.size_toByteArray] at occurs

/-- Of two ways to divide a text, one goes further than the other. -/
theorem exists_append_of_le {rest later : String} (same : before ++ rest = after ++ later)
    (le : before.utf8ByteSize ≤ after.utf8ByteSize) :
    ∃ between, after = before ++ between ∧ rest = between ++ later := by
  have characters := congrArg String.toList same
  rw [String.toList_append, String.toList_append] at characters
  obtain ⟨between, longer, others⟩ :
      ∃ between, after.toList = before.toList ++ between ∧ rest.toList = between ++ later.toList := by
    rcases List.append_eq_append_iff.1 characters with found | ⟨between, longer, others⟩
    · exact found
    · have split : before = after ++ String.ofList between := by
        rw [← String.toList_inj]
        simpa using longer
      rw [split, String.utf8ByteSize_append] at le
      have none : between = [] := by
        have empty := String.utf8ByteSize_eq_zero_iff.1
          (by omega : (String.ofList between).utf8ByteSize = 0)
        simpa using empty
      exact ⟨[], by simp [longer, none], by simp [others, none]⟩
  refine ⟨String.ofList between, ?_, ?_⟩
  · rw [← String.toList_inj]
    simpa using longer
  · rw [← String.toList_inj]
    simpa using others

/-- What is sliced lies between boundaries of characters. -/
theorem isValid_of_slice? {first last : Nat} {part : String}
    (sliced : slice? text first last = some part) :
    first ≤ last ∧ last ≤ text.utf8ByteSize ∧
      String.Pos.Raw.IsValid text ⟨first⟩ ∧ String.Pos.Raw.IsValid text ⟨last⟩ := by
  rw [slice?] at sliced
  split at sliced
  · rename_i valid
    exact ⟨valid.1, valid.2.2.le_utf8ByteSize, valid.2⟩
  · cases sliced

end Texts

/-! ### Finders -/

/-- The occurrences from `start` on at these offsets are the leftmost ones that do not overlap. -/
inductive Leftmost (needle haystack : ByteArray) : (start : Nat) → List Nat → Prop where
  | done {start : Nat} : (∀ pos, start ≤ pos → ¬OccursAt needle haystack pos) →
      Leftmost needle haystack start []
  | found {start pos : Nat} {offsets : List Nat} : start ≤ pos → OccursAt needle haystack pos →
      (∀ earlier, start ≤ earlier → earlier < pos → ¬OccursAt needle haystack earlier) →
      Leftmost needle haystack (pos + needle.size) offsets →
      Leftmost needle haystack start (pos :: offsets)

/-- What a finder promises of byte strings that are not empty. -/
def Finder.IsLeftmost (find : Finder) : Prop :=
  ∀ needle haystack, needle.size ≠ 0 → Leftmost needle haystack 0 (find needle haystack)

/-- The leftmost of these offsets, without overlap; the first `covered` of them are inside of what
was found last. -/
def leftmostOf (needle haystack : ByteArray) (covered : Nat) : (offsets : List Nat) → List Nat
  | [] => []
  | pos :: offsets =>
    match covered with
    | covered + 1 => leftmostOf needle haystack covered offsets
    | 0 =>
      if OccursAt needle haystack pos then
        pos :: leftmostOf needle haystack (needle.size - 1) offsets
      else leftmostOf needle haystack 0 offsets

/-- The finder that looks at every offset. -/
def Finder.naive : Finder := fun needle haystack =>
  leftmostOf needle haystack 0 (List.range haystack.size)

/-- An offset without an occurrence may be passed over. -/
theorem Leftmost.of_succ {needle haystack : ByteArray} {start : Nat} {offsets : List Nat}
    (absent : ¬OccursAt needle haystack start)
    (leftmost : Leftmost needle haystack (start + 1) offsets) :
    Leftmost needle haystack start offsets := by
  cases leftmost with
  | done none =>
    refine .done fun pos later => ?_
    rcases Nat.eq_or_lt_of_le later with rfl | later
    · exact absent
    · exact none pos later
  | found later occurs first rest =>
    refine .found (Nat.le_of_succ_le later) occurs (fun earlier after before => ?_) rest
    rcases Nat.eq_or_lt_of_le after with rfl | after
    · exact absent
    · exact first earlier after before

theorem leftmost_leftmostOf {needle haystack : ByteArray} (nonempty : needle.size ≠ 0)
    {start covered count : Nat} (whole : start + count = haystack.size) :
    Leftmost needle haystack (start + covered)
      (leftmostOf needle haystack covered (List.range' start count)) := by
  induction count generalizing start covered with
  | zero =>
    refine .done fun pos later occurs => ?_
    have inside := occurs.le nonempty
    omega
  | succ count ih =>
    rw [List.range'_succ]
    cases covered with
    | succ covered =>
      have rest := @ih (start + 1) covered (by omega)
      rwa [Nat.add_right_comm] at rest
    | zero =>
      rw [leftmostOf]
      split
      · rename_i occurs
        have rest := @ih (start + 1) (needle.size - 1) (by omega)
        rw [show start + 1 + (needle.size - 1) = start + needle.size by omega] at rest
        exact .found (Nat.le_refl _) occurs (fun earlier after before => by omega) rest
      · exact .of_succ ‹_› (@ih (start + 1) 0 (by omega))

theorem Finder.naive_isLeftmost : Finder.naive.IsLeftmost := by
  intro needle haystack nonempty
  have whole := @leftmost_leftmostOf needle haystack nonempty 0 0 haystack.size (Nat.zero_add _)
  rwa [← List.range_eq_range'] at whole

/-! ### Slices -/

theorem length_partsBetween (step size last : Nat) (offsets : List Nat) :
    (partsBetween step size last offsets).length = offsets.length + 1 := by
  induction offsets generalizing last with
  | nil => rfl
  | cons pos offsets ih => exact congrArg (· + 1) (ih _)

section Separator

variable {separator text covered rest : String}

/-- A text is not found where its bytes are not. -/
theorem not_infix_of_not_occursAt (whole : text = covered ++ rest)
    (none : ∀ pos, covered.utf8ByteSize ≤ pos →
      ¬OccursAt separator.toByteArray text.toByteArray pos) :
    ¬separator.toList <:+: rest.toList := by
  rintro ⟨before, after, split⟩
  refine none _ ?_ (@occursAt_of_toList _ _ (covered.toList ++ before) after ?_)
  · rw [String.ofList_append, String.ofList_toList, String.utf8ByteSize_append]
    exact Nat.le_add_right _ _
  · rw [whole, String.toList_append, ← split, List.append_assoc, List.append_assoc]

/-- Nor does it begin before the first offset at which its bytes are. -/
theorem not_prefix_of_not_occursAt {piece : String} (whole : text = covered ++ (piece ++ rest))
    (first : ∀ pos, covered.utf8ByteSize ≤ pos → pos < (covered ++ piece).utf8ByteSize →
      ¬OccursAt separator.toByteArray text.toByteArray pos)
    {front back : List Char} (cut : piece.toList = front ++ back) (nonempty : back ≠ []) :
    ¬separator.toList <+: back ++ rest.toList := by
  rintro ⟨tail, same⟩
  have sizes : (covered ++ piece).utf8ByteSize =
      (String.ofList (covered.toList ++ front)).utf8ByteSize +
        (String.ofList back).utf8ByteSize := by
    rw [← String.utf8ByteSize_append, ← String.ofList_append, List.append_assoc, ← cut,
      ← String.toList_append, String.ofList_toList]
  have positive : (String.ofList back).utf8ByteSize ≠ 0 := by
    simpa [String.utf8ByteSize_eq_zero_iff] using nonempty
  refine first _ ?_ (by omega) (@occursAt_of_toList _ _ (covered.toList ++ front) tail ?_)
  · rw [String.ofList_append, String.ofList_toList, String.utf8ByteSize_append]
    exact Nat.le_add_right _ _
  · rw [whole, String.toList_append, String.toList_append, cut, same]
    simp only [List.append_assoc]

/-- The slices between the leftmost occurrences of a separator are the pieces of the text. -/
theorem slices_of_leftmost (nonempty : separator ≠ "") {start : Nat} {offsets : List Nat}
    (leftmost : Leftmost separator.toByteArray text.toByteArray start offsets)
    (whole : text = covered ++ rest) (begins : covered.utf8ByteSize = start) :
    List.Forall₂ (fun slice part => slice? text slice.1 slice.2 = some part)
      (partsBetween separator.toByteArray.size text.utf8ByteSize start offsets)
      ((pieces separator.toList 0 rest.toList).map String.ofList) := by
  have characters : separator.toList ≠ [] := by simpa using nonempty
  induction leftmost generalizing covered rest with
  | done none =>
    subst whole begins
    have sliced := slice?_append covered rest ""
    rw [String.append_empty, ← String.utf8ByteSize_append] at sliced
    have absent := not_infix_of_not_occursAt rfl none
    rw [(pieces_eq_singleton_iff characters).2 absent, List.map_singleton, String.ofList_toList]
    exact .cons sliced .nil
  | found later occurs first leftmost ih =>
    obtain ⟨before, after, split, rfl⟩ := exists_of_occursAt nonempty occurs
    obtain ⟨piece, rfl, rfl⟩ := exists_append_of_le (whole.symm.trans split) (begins ▸ later)
    subst begins
    have sliced := slice?_append covered piece (separator ++ after)
    rw [← whole, ← String.utf8ByteSize_append] at sliced
    have others := @ih (covered ++ piece ++ separator) after (split.trans String.append_assoc.symm)
      (by rw [String.utf8ByteSize_append, String.size_toByteArray])
    have fresh (front back : List Char) (cut : piece.toList = front ++ back) (some : back ≠ []) :
        ¬separator.toList <+: back ++ (separator.toList ++ after.toList) := by
      rw [← String.toList_append]
      exact not_prefix_of_not_occursAt whole first cut some
    rw [String.toList_append, String.toList_append, pieces_append_separator characters _ fresh,
      List.map_cons, String.ofList_toList]
    exact .cons sliced others

end Separator

namespace Slot

variable {find : Finder} {key : Key}

/-- A key that occurs once, or without anything between its occurrences, is not taken apart. -/
theorem needle?_ofKey_eq_none (alone : key.modifier.isRepeating = false ∨ key.separator = "") :
    (ofKey key).needle? = none := by
  rcases alone with once | nothing
  · simp [ofKey, once]
  · simp [ofKey, nothing]

theorem needle?_ofKey (repeating : key.modifier.isRepeating = true)
    (separated : key.separator ≠ "") :
    (ofKey key).needle? = some key.separator.toByteArray := by
  simp [ofKey, repeating, separated]

section Repeating

variable (leftmost : find.IsLeftmost) (repeating : key.modifier.isRepeating = true)
include leftmost repeating

/-- A value is sliced into its occurrences. -/
theorem forall₂_slices (separated : key.separator ≠ "") (value : String) :
    List.Forall₂ (fun slice part => slice? value slice.1 slice.2 = some part)
      ((ofKey key).slices find value) (key.occurrences value) := by
  have nonempty : key.separator.toByteArray.size ≠ 0 := by
    rw [String.size_toByteArray]
    exact mt String.utf8ByteSize_eq_zero_iff.1 separated
  rw [slices, needle?_ofKey repeating separated, Key.occurrences, if_neg separated]
  exact slices_of_leftmost separated (leftmost _ value.toByteArray nonempty)
    String.empty_append.symm rfl

/-- A slot refuses no slice, and gives the occurrences of the key. -/
theorem split_ofKey (value : String) :
    (ofKey key).split find value = some (key.occurrences value) := by
  by_cases separated : key.separator = ""
  · rw [split, needle?_ofKey_eq_none (.inr separated), Key.occurrences, if_pos separated]
  · rw [split, needle?_ofKey repeating separated]
    exact mapM_eq_some_iff.2 (forall₂_slices leftmost repeating separated value)

end Repeating

/-- So a slot makes of a capture what the key does. -/
theorem value?_ofKey (leftmost : find.IsLeftmost) (decode : String → Key → String)
    (captured : String) :
    (ofKey key).value? find decode captured = some (key.value decode captured) := by
  have own : (ofKey key).key = key := rfl
  rw [value?, Key.value, own]
  split
  · rename_i repeating
    rw [split_ofKey leftmost repeating, Option.map_some]
  · rfl

/-- Whatever bytes separate the occurrences of a repeated key, a captured text is sliced at boundaries
of its characters only, each slice in order and inside of the text. Joined with the separator the parts
are the text again; none of them has the separator in it; and there is one more of them than
there are leftmost occurrences without overlap. Texts that were joined with a separator of one
character, and do not have it, are the parts of what they give. -/
theorem split_occurrences (leftmost : find.IsLeftmost)
    (repeating : key.modifier.isRepeating = true) (separated : key.separator ≠ "")
    (value : String) :
    (∀ slice ∈ (ofKey key).slices find value,
      slice.1 ≤ slice.2 ∧ slice.2 ≤ value.utf8ByteSize ∧
        String.Pos.Raw.IsValid value ⟨slice.1⟩ ∧ String.Pos.Raw.IsValid value ⟨slice.2⟩) ∧
    (ofKey key).split find value = some (key.occurrences value) ∧
    key.separator.intercalate (key.occurrences value) = value ∧
    (∀ part ∈ key.occurrences value, ¬key.separator.toList <:+: part.toList) ∧
    (key.occurrences value).length =
      (find key.separator.toByteArray value.toByteArray).length + 1 ∧
    ∀ c first others, key.separator = String.singleton c →
      (∀ text ∈ first :: others, ¬key.separator.toList <:+: text.toList) →
      value = key.separator.intercalate (first :: others) →
      key.occurrences value = first :: others := by
  have sliced := forall₂_slices leftmost repeating separated value
  refine ⟨fun slice member => ?_, split_ofKey leftmost repeating value,
    key.intercalate_occurrences value,
    fun part member => Key.not_infix_of_mem_occurrences separated member, ?_,
    fun c first others single free joined => ?_⟩
  · obtain ⟨part, _, here⟩ := exists_of_forall₂_left sliced member
    exact isValid_of_slice? here
  · rw [← sliced.length_eq, slices, needle?_ofKey repeating separated]
    exact length_partsBetween _ _ _ _
  · rw [joined]
    exact Key.occurrences_intercalate_singleton single free

/-- Separators of several characters that overlap with themselves, and the same text divided at one
character. -/
theorem split_occurrences_overlapping :
    let key (trail : String) : Key :=
      { name := .ordinal 0, lead := "→", trail, pattern := "x", modifier := .oneOrMore }
    Finder.naive.IsLeftmost ∧
      (ofKey (key "→")).slices Finder.naive "é→→→b→→" = [(0, 2), (8, 12), (18, 18)] ∧
      String.Pos.Raw.IsValid "é→→→b→→" ⟨8⟩ ∧
      (ofKey (key "→")).split Finder.naive "é→→→b→→" = some ["é", "→b", ""] ∧
      ¬"→→".toList <:+: "→b".toList ∧
      (ofKey (key "")).split Finder.naive "é→→b" = some ["é", "", "b"] := by
  intro key
  have leftmost := Finder.naive_isLeftmost
  obtain ⟨valid, parts, -, tight, -, -⟩ :=
    split_occurrences leftmost (show (key "→").modifier.isRepeating = true from rfl)
      (by decide) "é→→→b→→"
  obtain ⟨-, parts', -, -, -, apart⟩ :=
    split_occurrences leftmost (show (key "").modifier.isRepeating = true from rfl)
      (by decide) "é→→b"
  have slices : (ofKey (key "→")).slices Finder.naive "é→→→b→→" = [(0, 2), (8, 12), (18, 18)] := by
    decide +kernel
  refine ⟨leftmost, slices, ?_, ?_, ?_, ?_⟩
  · exact (valid (8, 12) (slices ▸ by decide)).2.2.1
  · rw [parts]
    decide +kernel
  · exact tight "→b" (by decide +kernel)
  · rw [parts', apart '→' "é" ["", "b"] rfl (by decide) rfl]

end Slot

end PathTemplate
