/-
Expressions whose digits and word characters are those of ASCII.

* `CharSet.narrowed`, `Expr.narrowed`: the set and the expression where `\d` and `\w` mean ASCII.
* `CharSet.Narrows`, `Expr.Narrows`: the second one has just these characters, however they are
  described.
* `Expr.Narrows.search?`: such an expression finds in every text just what the narrowed one finds.
* `Expr.Narrows.settled?`: it is accepted just where the first one is.
-/

import PathTemplate.Expression.Settle
import PathTemplate.Proofs.Expression.Folding
import PathTemplate.Proofs.Expression.Sequence
import PathTemplate.Proofs.Results

namespace PathTemplate

/-! ### Sets -/

namespace CharSet

/-- The letters and digits of ASCII, and the underscore. -/
def asciiWord : CharSet := ofRanges [('0', '9'), ('A', 'Z'), ('a', 'z'), ('_', '_')]

/-- The set with the digits and word characters of ASCII in the place of those of all scripts. -/
def narrowed : CharSet → CharSet
  | .digit => .range '0' '9'
  | .word => asciiWord
  | .union a b => .union a.narrowed b.narrowed
  | .inter a b => .inter a.narrowed b.narrowed
  | .compl a => .compl a.narrowed
  | .folded a => .folded a.narrowed
  | .none => .none
  | .range first last => .range first last
  | .blank => .blank

/-- The second set has just the characters that the first one has once it is narrowed. -/
def Narrows (a b : CharSet) : Prop := ∀ c, b.contains c = a.narrowed.contains c

section Narrows

variable {a a' b b' : CharSet}

theorem narrows_narrowed (a : CharSet) : a.Narrows a.narrowed := fun _ => rfl

/-- A set without digits and word characters of other scripts stays as it is. -/
theorem narrows_self (fixed : a.narrowed = a) : a.Narrows a := fun _ => by rw [fixed]

theorem Narrows.union (first : a.Narrows a') (second : b.Narrows b') :
    (union a b).Narrows (.union a' b') := fun c => by
  simp only [narrowed, contains, first c, second c]

theorem Narrows.inter (first : a.Narrows a') (second : b.Narrows b') :
    (inter a b).Narrows (.inter a' b') := fun c => by
  simp only [narrowed, contains, first c, second c]

theorem Narrows.compl (h : a.Narrows a') : (compl a).Narrows (.compl a') := fun c => by
  simp only [narrowed, contains, h c]

theorem Narrows.folded (h : a.Narrows a') : (folded a).Narrows (.folded a') := fun c => by
  simp only [narrowed, contains, funext h]

theorem Narrows.diff (first : a.Narrows a') (second : b.Narrows b') :
    (diff a b).Narrows (diff a' b') := first.inter second.compl

theorem Narrows.symmDiff (first : a.Narrows a') (second : b.Narrows b') :
    (symmDiff a b).Narrows (symmDiff a' b') := (first.diff second).union (second.diff first)

theorem Narrows.foldIf (h : a.Narrows a') (fold : Bool) :
    (foldIf fold a).Narrows (foldIf fold a') := by
  cases fold
  · exact h
  · exact h.folded

theorem Narrows.complIf (h : a.Narrows a') (negated : Bool) :
    (complIf negated a).Narrows (complIf negated a') := by
  cases negated
  · exact h
  · exact h.compl

end Narrows

theorem narrowed_single (c : Char) : (single c).narrowed = single c := rfl

theorem narrowed_foldIf (fold : Bool) (a : CharSet) :
    (foldIf fold a).narrowed = foldIf fold a.narrowed := by
  cases fold <;> rfl

theorem narrowed_of_named? {name : List Char} {set : CharSet} (named : named? name = some set) :
    set.narrowed = set := by
  unfold named? at named
  split at named <;> cases named <;> rfl

end CharSet

/-! ### Digits have no case -/

/-- No row folds a digit of ASCII, or folds anything to one. -/
theorem FoldRow.apart_digits : ∀ row ∈ asciiFoldRows ++ otherFoldRows,
    57 < row.first ∧ (57 < row.first + row.shift ∨ row.last + row.shift < 48) := by
  have all : (asciiFoldRows ++ otherFoldRows).all (fun row =>
      57 < row.first ∧ (57 < row.first + row.shift ∨ row.last + row.shift < 48)) = true := by
    decide +kernel
  intro row member
  exact of_decide_eq_true (List.all_eq_true.1 all row member)

theorem isDigit_iff {c : Char} : c.isDigit = true ↔ 48 ≤ c.toNat ∧ c.toNat ≤ 57 := by
  simp [Char.isDigit, UInt32.le_iff_toNat_le]

theorem isDigit_ofNat {code : Nat} (apart : code < 48 ∨ 57 < code) :
    (Char.ofNat code).isDigit = false := by
  unfold Char.ofNat
  by_cases valid : code.isValidChar
  · rw [dif_pos valid]
    refine Bool.eq_false_iff.2 fun digit => ?_
    have range := isDigit_iff.1 digit
    have same : (Char.ofNatAux code valid).toNat = code := rfl
    omega
  · rw [dif_neg valid]
    rfl

theorem FoldRow.isDigit_target {row : FoldRow} (member : row ∈ asciiFoldRows ++ otherFoldRows)
    {code : Nat} (covers : row.covers code = true) :
    57 < code ∧ (Char.ofNat (row.target code)).isDigit = false := by
  obtain ⟨first, apart⟩ := apart_digits row member
  simp only [FoldRow.covers, Bool.and_eq_true, decide_eq_true_eq] at covers
  refine ⟨by omega, isDigit_ofNat ?_⟩
  unfold FoldRow.target
  omega

/-- Digits of ASCII are alike only to themselves. -/
theorem isDigit_foldCase (c : Char) : (foldCase c).isDigit = c.isDigit := by
  unfold foldCase
  split
  · rename_i row found
    have member := mem_foldRows (List.mem_of_find?_eq_some found)
    have covers := List.find?_some found
    obtain ⟨code, target⟩ := FoldRow.isDigit_target member covers
    rw [target, eq_comm]
    exact Bool.eq_false_iff.2 fun digit => by
      have range := isDigit_iff.1 digit
      omega
  · rfl

theorem isDigit_of_mem_caseOrbit {c d : Char} (alike : d ∈ caseOrbit c) :
    d.isDigit = c.isDigit := by
  simp only [caseOrbit, List.mem_cons, List.mem_filterMap, Option.map_eq_some_iff] at alike
  rcases alike with rfl | rfl | ⟨row, member, code, source, rfl⟩
  · rfl
  · exact isDigit_foldCase c
  · simp only [FoldRow.source?] at source
    split at source <;> cases source
    rename_i both
    rw [Bool.and_eq_true, beq_iff_eq] at both
    obtain ⟨covers, target⟩ := both
    have apart := FoldRow.isDigit_target (mem_foldRows member) covers
    rw [target, Char.ofNat_toNat, isDigit_foldCase] at apart
    rw [apart.2]
    exact isDigit_ofNat (.inr apart.1)

namespace CharSet

theorem contains_digits (c : Char) : (range '0' '9').contains c = c.isDigit := by
  rw [Bool.eq_iff_iff, isDigit_iff]
  simp [contains, Char.le_def, UInt32.le_iff_toNat_le]

/-- Letter case makes no difference to digits. -/
theorem contains_foldIf_digits (fold : Bool) (c : Char) :
    (foldIf fold (range '0' '9')).contains c = (range '0' '9').contains c := by
  cases fold with
  | false => rfl
  | true =>
    rw [contains_digits, foldIf, if_pos rfl, contains, Bool.eq_iff_iff, List.any_eq_true]
    constructor
    · rintro ⟨d, alike, digit⟩
      rwa [contains_digits, isDigit_of_mem_caseOrbit alike] at digit
    · exact fun digit => ⟨c, mem_caseOrbit_self c, by rwa [contains_digits]⟩

end CharSet

/-! ### Expressions -/

namespace Expr

/-- The expression with the digits and word characters of ASCII only. -/
def narrowed : Expr → Expr
  | .empty => .empty
  | .never => .never
  | .one set => .one set.narrowed
  | .seq a b => .seq a.narrowed b.narrowed
  | .alt a b => .alt a.narrowed b.narrowed
  | .group number a => .group number a.narrowed
  | .loop least most greedy emptyPass a => .loop least most greedy emptyPass a.narrowed
  | .edge kind => .edge kind
  | .ahead negated a => .ahead negated a.narrowed
  | .behind negated a => .behind negated a.narrowed
  | .atomic a => .atomic a.narrowed
  | .back number => .back number

/-- The second expression is the first one, narrowed, but for how its sets are described. -/
inductive Narrows : Expr → Expr → Prop where
  | empty : Narrows .empty .empty
  | never : Narrows .never .never
  | one {set set' : CharSet} : set.Narrows set' → Narrows (.one set) (.one set')
  | seq {a a' b b' : Expr} : Narrows a a' → Narrows b b' → Narrows (.seq a b) (.seq a' b')
  | alt {a a' b b' : Expr} : Narrows a a' → Narrows b b' → Narrows (.alt a b) (.alt a' b')
  | group (number : Nat) {a a' : Expr} :
      Narrows a a' → Narrows (.group number a) (.group number a')
  | loop (least : Nat) (most : Option Nat) (greedy : Bool) (emptyPass : EmptyPass) {a a' : Expr} :
      Narrows a a' →
      Narrows (.loop least most greedy emptyPass a) (.loop least most greedy emptyPass a')
  | edge (kind : Edge) : Narrows (.edge kind) (.edge kind)
  | ahead (negated : Bool) {a a' : Expr} :
      Narrows a a' → Narrows (.ahead negated a) (.ahead negated a')
  | behind (negated : Bool) {a a' : Expr} :
      Narrows a a' → Narrows (.behind negated a) (.behind negated a')
  | atomic {a a' : Expr} : Narrows a a' → Narrows (.atomic a) (.atomic a')
  | back (number : Nat) : Narrows (.back number) (.back number)

section Narrows

variable {e e' a a' b b' : Expr}

theorem Narrows.character (fold : Bool) (c : Char) :
    (character fold c).Narrows (character fold c) :=
  .one (CharSet.narrows_self ((CharSet.narrowed_foldIf ..).trans (by rw [CharSet.narrowed_single])))

theorem Narrows.eq_empty_iff (h : e.Narrows e') : e = .empty ↔ e' = .empty := by
  cases h <;> simp

theorem Narrows.append (first : a.Narrows a') (second : b.Narrows b') :
    (a.append b).Narrows (a'.append b') := by
  rcases append_cases a b with rfl | rfl | ⟨left, right, same⟩
  · obtain rfl := first.eq_empty_iff.1 rfl
    exact second
  · obtain rfl := second.eq_empty_iff.1 rfl
    rw [append_empty, append_empty]
    exact first
  · rcases append_cases a' b' with rfl | rfl | ⟨-, -, same'⟩
    · exact absurd (first.eq_empty_iff.2 rfl) left
    · exact absurd (second.eq_empty_iff.2 rfl) right
    · rw [same, same']
      exact first.seq second

theorem Narrows.isRepeatable (h : e.Narrows e') : e'.isRepeatable = e.isRepeatable := by
  cases h <;> rfl

theorem Narrows.references (h : e.Narrows e') : e'.references = e.references := by
  induction h with
  | seq _ _ iha ihb | alt _ _ iha ihb => simp only [Expr.references, iha, ihb]
  | group _ _ ih | loop _ _ _ _ _ ih | ahead _ _ ih | behind _ _ ih | atomic _ ih => exact ih
  | _ => rfl

theorem Narrows.width? (h : e.Narrows e') : e'.width? = e.width? := by
  induction h with
  | seq _ _ iha ihb | alt _ _ iha ihb | loop _ _ _ _ _ ih => simp only [Expr.width?, *]
  | group _ _ ih | atomic _ ih => exact ih
  | _ => rfl

theorem Narrows.isHard (h : e.Narrows e') (references : List Nat) :
    e'.isHard references = e.isHard references := by
  induction h with
  | seq _ _ iha ihb | alt _ _ iha ihb => simp only [Expr.isHard, iha, ihb]
  | group _ _ ih => simp only [Expr.isHard, ih]
  | loop _ _ _ _ _ ih => exact ih
  | _ => rfl

theorem narrows_narrowed (e : Expr) : e.Narrows e.narrowed := by
  induction e with
  | one set => exact .one set.narrows_narrowed
  | _ => constructor <;> assumption

/-! ### What is found -/

theorem Narrows.outcomes (h : e.Narrows e') (references : List Nat) :
    e'.outcomes references = e.narrowed.outcomes references := by
  induction h with
  | one sets => funext place; simp only [narrowed, Expr.outcomes, funext sets]
  | seq _ _ iha ihb | alt _ _ iha ihb => funext place; simp only [narrowed, Expr.outcomes, iha, ihb]
  | group _ _ ih | loop _ _ _ _ _ ih | ahead _ _ ih | atomic _ ih =>
    funext place
    simp only [narrowed, Expr.outcomes, ih]
  | behind _ inner ih =>
    funext place
    simp only [narrowed, Expr.outcomes, ih, inner.width?, (narrows_narrowed _).width?]
  | _ => rfl

theorem searchFrom_congr {references : List Nat}
    (same : e'.outcomes references = e.outcomes references) (position : Nat)
    (before after : List Char) :
    searchFrom references e' position before after =
      searchFrom references e position before after := by
  induction after generalizing position before with
  | nil => simp only [searchFrom, searchFrom.attempt, same]
  | cons c rest ih => simp only [searchFrom, searchFrom.attempt, same, ih]

/-- The expression finds just what the narrowed one finds. -/
theorem Narrows.search? (h : e.Narrows e') : e'.search? = e.narrowed.search? := by
  funext text
  rw [Expr.search?, Expr.search?, h.references, (narrows_narrowed e).references]
  exact searchFrom_congr (h.outcomes _) ..

/-! ### What is accepted -/

/-- Parts that are settled alike make up expressions that are. -/
theorem rel_map {o o' : Option Expr} {f f' : Expr → Expr} (part : Option.Rel Narrows o o')
    (whole : ∀ {a a' : Expr}, a.Narrows a' → (f a).Narrows (f' a')) :
    Option.Rel Narrows (o.bind fun a => some (f a)) (o'.bind fun a => some (f' a)) :=
  rel_bind part fun _ _ _ _ related => .some (whole related)

theorem rel_map₂ {o o' p p' : Option Expr} {f f' : Expr → Expr → Expr}
    (first : Option.Rel Narrows o o') (second : Option.Rel Narrows p p')
    (whole : ∀ {a a' b b' : Expr}, a.Narrows a' → b.Narrows b' → (f a b).Narrows (f' a' b')) :
    Option.Rel Narrows (o.bind fun a => p.bind fun b => some (f a b))
      (o'.bind fun a => p'.bind fun b => some (f' a b)) :=
  rel_bind first fun _ _ _ _ left => rel_map second (whole left)

theorem Narrows.simple? (h : e.Narrows e') : Option.Rel Narrows e.simple? e'.simple? := by
  induction h with
  | seq _ _ iha ihb => exact rel_map₂ iha ihb .seq
  | alt _ _ iha ihb => exact rel_map₂ iha ihb .alt
  | group number _ ih => exact rel_map ih (.group number)
  | loop least most greedy emptyPass _ ih =>
    simp only [Expr.simple?]
    split
    · exact rel_map ih (.loop least most greedy .endsLoop)
    · exact .none
  | ahead negated _ ih => exact rel_map ih (.ahead negated)
  | behind negated _ ih => exact rel_map ih (.behind negated)
  | atomic _ ih => exact rel_map ih .atomic
  | one sets => exact .some (.one sets)
  | empty => exact .some .empty
  | never => exact .some .never
  | edge kind => exact .some (.edge kind)
  | back number => exact .some (.back number)

theorem Narrows.lookBehind? (h : e.Narrows e') (negated : Bool) :
    Option.Rel Narrows (e.lookBehind? negated) (e'.lookBehind? negated) := by
  have whole {a a' : Expr} (h : a.Narrows a') :
      Option.Rel Narrows (if a.width?.isSome then some (.behind negated a) else none)
        (if a'.width?.isSome then some (.behind negated a') else none) := by
    rw [h.width?]
    split
    · exact .some (.behind negated h)
    · exact .none
  induction h with
  | @alt a a' b b' first second ih =>
    simp only [Expr.lookBehind?, (first.alt second).width?, second.width?]
    split
    · exact .some (.behind negated (first.alt second))
    · split
      · refine rel_bind ih fun _ _ _ _ left => ?_
        cases negated
        · exact .some (left.alt (.behind _ second))
        · exact .some (left.seq (.behind _ second))
      · exact .none
  | one sets => exact whole (.one sets)
  | empty => exact whole .empty
  | never => exact whole .never
  | edge kind => exact whole (.edge kind)
  | back number => exact whole (.back number)
  | seq first second => exact whole (.seq first second)
  | group number inner => exact whole (.group number inner)
  | loop least most greedy emptyPass inner => exact whole (.loop least most greedy emptyPass inner)
  | ahead negated inner => exact whole (.ahead negated inner)
  | behind negated inner => exact whole (.behind negated inner)
  | atomic inner => exact whole (.atomic inner)

theorem Narrows.settle? (h : e.Narrows e') (references : List Nat) (last : Bool) :
    Option.Rel Narrows (e.settle? references last) (e'.settle? references last) := by
  induction h generalizing last with
  | @seq a a' b b' first second iha ihb =>
    simp only [Expr.settle?, (first.seq second).isHard, second.isHard]
    split
    · exact (first.seq second).simple?
    · split
      · refine rel_map₂ ?_ second.simple? .seq
        cases first <;> exact iha _
      · exact rel_map₂ (iha _) (ihb _) .seq
  | alt first second iha ihb =>
    simp only [Expr.settle?, (first.alt second).isHard]
    split
    · exact (first.alt second).simple?
    · exact rel_map₂ (iha _) (ihb _) .alt
  | group number inner ih =>
    simp only [Expr.settle?, (inner.group number).isHard]
    split
    · exact (inner.group number).simple?
    · exact rel_map (ih _) (.group number)
  | loop least most greedy emptyPass inner ih =>
    simp only [Expr.settle?, inner.isHard]
    split
    · exact (inner.loop least most greedy emptyPass).simple?
    · exact rel_map (ih _) (.loop least most greedy .refused)
  | ahead negated _ ih => exact rel_map (ih true) (.ahead negated)
  | behind negated _ ih => exact rel_bind (ih true) fun _ _ _ _ inner => inner.lookBehind? negated
  | atomic _ ih => exact rel_map (ih true) .atomic
  | one sets => exact .some (.one sets)
  | empty => exact .some .empty
  | never => exact .some .never
  | edge kind => exact .some (.edge kind)
  | back number => exact .some (.back number)

/-- The expression is accepted just where the first one is. -/
theorem Narrows.settled? (h : e.Narrows e') : Option.Rel Narrows e.settled? e'.settled? := by
  unfold Expr.settled?
  rw [h.references, h.isHard]
  split
  · exact h.settle? ..
  · exact h.simple?

end Narrows

end Expr

end PathTemplate
