/-
The table of case folding.

Rows fold characters to others, and a character that no row concerns is alike only to itself.

* `mem_foldRows_or`: the rows that are not looked at for a character do not concern it.
* `eq_of_mem_caseOrbit`: what is alike to a character without another case is that character.
-/

import PathTemplate.Text.Folding

namespace PathTemplate

theorem mem_foldRows {c : Char} {row : FoldRow} (member : row ∈ foldRows c) :
    row ∈ asciiFoldRows ++ otherFoldRows := by
  unfold foldRows at member
  split at member
  · exact List.mem_append_left _ member
  · exact member

/-- A row folds characters to others, and none of them is a surrogate. -/
structure FoldRow.IsProper (row : FoldRow) : Prop where
  shift : row.shift ≠ 0
  codes : row.last < 0xD800 ∨ 0xE000 ≤ row.first ∧ row.last < 0x110000
  targets : 0 ≤ row.first + row.shift ∧ (row.last + row.shift < 0xD800 ∨
    0xE000 ≤ row.first + row.shift ∧ row.last + row.shift < 0x110000)

theorem isProper_of_mem {row : FoldRow} (member : row ∈ asciiFoldRows ++ otherFoldRows) :
    row.IsProper := by
  have all : (asciiFoldRows ++ otherFoldRows).all (fun row =>
      row.shift ≠ 0 ∧ (row.last < 0xD800 ∨ 0xE000 ≤ row.first ∧ row.last < 0x110000) ∧
        0 ≤ row.first + row.shift ∧ (row.last + row.shift < 0xD800 ∨
          0xE000 ≤ row.first + row.shift ∧ row.last + row.shift < 0x110000)) = true := by
    decide +kernel
  have here := of_decide_eq_true (List.all_eq_true.1 all row member)
  exact ⟨here.1, here.2.1, here.2.2⟩

/-- The rows that are not looked at for a character of ASCII do not concern it. -/
theorem mem_foldRows_or {c : Char} {row : FoldRow} (member : row ∈ asciiFoldRows ++ otherFoldRows) :
    row ∈ foldRows c ∨ c.toNat < row.first ∧ c.toNat < row.first + row.shift := by
  have all : otherFoldRows.all (fun row => 0x80 ≤ row.first ∧ 0x80 ≤ row.first + row.shift) = true := by
    decide +kernel
  unfold foldRows
  split
  · rename_i ascii
    refine (List.mem_append.1 member).imp id fun other => ?_
    obtain ⟨first, target⟩ := of_decide_eq_true (List.all_eq_true.1 all row other)
    omega
  · exact .inl member

theorem toNat_ofNat {code : Nat} (valid : code < 0xD800 ∨ 0xE000 ≤ code ∧ code < 0x110000) :
    (Char.ofNat code).toNat = code := by
  have isValid : code.isValidChar := by
    simp only [Nat.isValidChar]
    omega
  rw [Char.ofNat, dif_pos isValid]
  rfl

namespace FoldRow

variable {row : FoldRow} (member : row ∈ asciiFoldRows ++ otherFoldRows) {code : Nat}
  (covers : row.covers code = true)
include member covers

/-- What a row folds is a character, and so is what it is folded to. -/
theorem toNat_eq : (Char.ofNat code).toNat = code ∧
    (Char.ofNat (row.target code)).toNat = row.target code ∧
      (row.target code : Int) = code + row.shift := by
  obtain ⟨_, codes, targets⟩ := isProper_of_mem member
  simp only [FoldRow.covers, Bool.and_eq_true, decide_eq_true_eq] at covers
  have target : (row.target code : Int) = code + row.shift := by
    unfold FoldRow.target
    omega
  exact ⟨toNat_ofNat (by omega), toNat_ofNat (by omega), target⟩

theorem source?_target : row.source? (row.target code) = some code := by
  have target := (toNat_eq member covers).2.2
  have candidate : ((row.target code : Int) - row.shift).toNat = code := by omega
  simp only [FoldRow.source?, candidate, covers, beq_self_eq_true, Bool.and_self, if_true]

end FoldRow

section Alone

variable {d : Char} (alone : ∀ e ∈ caseOrbit d, e = d)
include alone

/-- No row folds a character that is alike only to itself, ... -/
theorem not_covers_of_alone {row : FoldRow} (member : row ∈ asciiFoldRows ++ otherFoldRows) :
    ¬row.covers d.toNat = true := by
  intro covers
  have fixed := alone _ (foldCase_mem_caseOrbit d)
  unfold foldCase at fixed
  split at fixed
  · rename_i other found
    have member := mem_foldRows (List.mem_of_find?_eq_some found)
    have folds := List.find?_some found
    obtain ⟨_, target, shifted⟩ := FoldRow.toNat_eq member folds
    rw [fixed] at target
    exact (isProper_of_mem member).shift (by omega)
  · rename_i none
    rcases @mem_foldRows_or d row member with here | ⟨less, _⟩
    · exact List.find?_eq_none.1 none row here covers
    · simp only [FoldRow.covers, Bool.and_eq_true, decide_eq_true_eq] at covers
      omega

/-- ... or folds another character to it. -/
theorem target_ne_of_alone {row : FoldRow} (member : row ∈ asciiFoldRows ++ otherFoldRows)
    {code : Nat} (covers : row.covers code = true) : row.target code ≠ d.toNat := by
  intro same
  obtain ⟨valid, _, shifted⟩ := FoldRow.toNat_eq member covers
  rcases @mem_foldRows_or d row member with here | ⟨_, less⟩
  · have source := FoldRow.source?_target member covers
    have fixed : foldCase d = d := alone _ (foldCase_mem_caseOrbit d)
    have alike : Char.ofNat code ∈ caseOrbit d := by
      simp only [caseOrbit, fixed, List.mem_cons, List.mem_filterMap]
      exact .inr (.inr ⟨row, here, by rw [← same, source]; rfl⟩)
    have equal := congrArg Char.toNat (alone _ alike)
    rw [valid] at equal
    exact not_covers_of_alone alone member (equal ▸ covers)
  · simp only [FoldRow.covers, Bool.and_eq_true, decide_eq_true_eq] at covers
    omega

/-- What such a character is alike to is that character. -/
theorem eq_of_mem_caseOrbit {c : Char} (alike : d ∈ caseOrbit c) : c = d := by
  simp only [caseOrbit, List.mem_cons, List.mem_filterMap, Option.map_eq_some_iff] at alike
  rcases alike with rfl | folded | ⟨row, member, code, source, same⟩
  · rfl
  · unfold foldCase at folded
    split at folded
    · rename_i row found
      have member := mem_foldRows (List.mem_of_find?_eq_some found)
      have covers := List.find?_some found
      obtain ⟨_, target, _⟩ := FoldRow.toNat_eq member covers
      exact absurd (target ▸ folded ▸ rfl) (target_ne_of_alone alone member covers)
    · exact folded.symm
  · simp only [FoldRow.source?] at source
    split at source <;> cases source
    rename_i both
    obtain ⟨covers, _⟩ := Bool.and_eq_true_iff.1 both
    have valid := (FoldRow.toNat_eq (mem_foldRows member) covers).1
    rw [same] at valid
    exact absurd (valid ▸ covers) (not_covers_of_alone alone (mem_foldRows member))

end Alone

end PathTemplate
