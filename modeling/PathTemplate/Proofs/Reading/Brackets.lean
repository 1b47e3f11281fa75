/-
Bracket classes that go on in the same way with the digits and word characters of ASCII.

* `OpenClass.Narrows`: the second class holds what the first one does once it is narrowed. Where
  the first one just took a shorthand, the second one may have read what stands for it.
* `ClassReader.Narrows.step`: a symbol that means the same in both keeps this up, unless it faults
  in the first class for following a shorthand and a dash, which begin no range.
-/

import Mathlib.Data.List.Forall2
import PathTemplate.Proofs.Expression.Narrowing
import PathTemplate.Proofs.Reading.Resemblance

namespace PathTemplate

/-- Narrowing changes nothing of the symbol. -/
def ClassSymbol.IsFixed : ClassSymbol → Prop
  | .plain _ | .quoted _ => True
  | .shorthand set | .nested set => set.narrowed = set

namespace OpenClass

/-- Narrowing changes nothing of the member. -/
def Member.IsFixed : Member → Prop
  | .character _ => True
  | .shorthand set => set.narrowed = set

/-- Narrowing changes nothing of what is undecided. -/
def Stage.IsFixed : Stage → Prop
  | .member first | .dash first => first.IsFixed
  | _ => True

theorem Member.IsFixed.narrows {first : Member} (fixed : first.IsFixed) :
    first.set.Narrows first.set := by
  cases first with
  | character c => exact CharSet.narrows_self rfl
  | shorthand set => exact CharSet.narrows_self fixed

/-- Apart from what is undecided, the second class holds what the first one does, narrowed. -/
structure Parallels (cls cls' : OpenClass) : Prop where
  negated : cls'.negated = cls.negated
  members : cls.members.Narrows cls'.members
  left : Option.Rel (fun before before' => before.1.Narrows before'.1 ∧ before'.2 = before.2)
    cls.left cls'.left

/-- The second class goes on as the first one does, narrowed. -/
inductive Narrows (cls cls' : OpenClass) : Prop where
  | same : cls.Parallels cls' → cls'.stage = cls.stage → cls.stage.IsFixed → Narrows cls cls'
  /-- What stands for a shorthand ended in a range or a class. -/
  | closed (set : CharSet) : cls.stage = .member (.shorthand set) → cls'.stage = .between →
      (cls.add set).Parallels cls' → Narrows cls cls'
  /-- What stands for a shorthand ended in an underscore. -/
  | spelled (set : CharSet) : cls.stage = .member (.shorthand set) →
      cls'.stage = .member (.character '_') →
      (cls.add set).Parallels (cls'.add (.single '_')) → Narrows cls cls'
  | dashClosed (set : CharSet) : cls.stage = .dash (.shorthand set) → cls'.stage = .half '-' →
      (cls.add set).Parallels cls' → Narrows cls cls'
  | dashSpelled (set : CharSet) : cls.stage = .dash (.shorthand set) →
      cls'.stage = .dash (.character '_') →
      (cls.add set).Parallels (cls'.add (.single '_')) → Narrows cls cls'

section Parallels

variable {cls cls' : OpenClass} {a a' : CharSet}

theorem Parallels.add (h : cls.Parallels cls') (sets : a.Narrows a') :
    (cls.add a).Parallels (cls'.add a') :=
  ⟨h.negated, h.members.union sets, h.left⟩

theorem Parallels.enter (h : cls.Parallels cls') (stage stage' : Stage) :
    (cls.enter stage).Parallels (cls'.enter stage') :=
  ⟨h.negated, h.members, h.left⟩

theorem Parallels.operand (h : cls.Parallels cls') (fold : Bool) :
    (cls.operand fold).Narrows (cls'.operand fold) := by
  have left := h.left
  unfold OpenClass.operand
  generalize cls.left = before at left
  generalize cls'.left = before' at left
  cases left with
  | none => exact h.members
  | @some left left' both =>
    obtain ⟨set, operator⟩ := left
    obtain ⟨set', operator'⟩ := left'
    dsimp only at both
    obtain ⟨sets, rfl⟩ := both
    have sets := CharSet.Narrows.foldIf sets fold
    have members := h.members.foldIf fold
    cases operator'
    · exact sets.inter members
    · exact sets.diff members
    · exact sets.symmDiff members

theorem Parallels.set (h : cls.Parallels cls') (fold : Bool) :
    (cls.set fold).Narrows (cls'.set fold) := by
  unfold OpenClass.set
  rw [h.negated]
  exact ((h.operand fold).foldIf fold).complIf _

theorem Parallels.operate (h : cls.Parallels cls') (fold : Bool) (operator : Operator) :
    (cls.operate fold operator).Parallels (cls'.operate fold operator) :=
  ⟨h.negated, CharSet.narrows_self rfl, .some ⟨h.operand fold, rfl⟩⟩

/-- Between two members both classes are at the same stage. -/
theorem Parallels.between (h : cls.Parallels cls') :
    (cls.enter .between).Narrows (cls'.enter .between) :=
  .same (h.enter _ _) rfl trivial

/-- Nothing is undecided any more. -/
theorem settle_settle (cls : OpenClass) : cls.settle.settle = cls.settle := by
  have between : cls.settle.stage = .between := by
    unfold settle
    split <;> rfl
  generalize cls.settle = settled at between
  obtain ⟨negated, members, left, stage⟩ := settled
  cases between
  rfl

/-- What is undecided makes no difference in the end. -/
theorem Narrows.settle (h : cls.Narrows cls') : cls.settle.Parallels cls'.settle := by
  have dash : (CharSet.single '-').Narrows (.single '-') := CharSet.narrows_self rfl
  cases h with
  | same contents stage fixed =>
    unfold OpenClass.settle
    rw [stage]
    generalize cls.stage = stage at fixed
    cases stage with
    | member first => exact (contents.add fixed.narrows).enter _ _
    | dash first => exact ((contents.add fixed.narrows).add dash).enter _ _
    | half sign => exact (contents.add (CharSet.narrows_self rfl)).enter _ _
    | _ => exact contents.enter _ _
  | closed set stage stage' contents =>
    simp only [OpenClass.settle, stage, stage']
    exact contents.enter _ _
  | spelled set stage stage' contents =>
    simp only [OpenClass.settle, stage, stage']
    exact contents.enter _ _
  | dashClosed set stage stage' contents =>
    simp only [OpenClass.settle, stage, stage']
    exact (contents.add dash).enter _ _
  | dashSpelled set stage stage' contents =>
    simp only [OpenClass.settle, stage, stage']
    exact (contents.add dash).enter _ _

/-- Narrowing changes nothing of characters. -/
theorem parallels_ofCharacters (characters : List Char) :
    (ofCharacters characters).Parallels (ofCharacters characters) := by
  unfold ofCharacters
  split
  · exact ⟨rfl, CharSet.narrows_self rfl, .none⟩
  · rename_i earlier reversed
    refine ⟨rfl, ?_, .none⟩
    clear reversed
    induction earlier with
    | nil => exact CharSet.narrows_self rfl
    | cons c earlier ih => exact ih.union (CharSet.narrows_self rfl)

theorem isFixed_ofCharacters (characters : List Char) :
    (ofCharacters characters).stage.IsFixed := by
  unfold ofCharacters
  split <;> trivial

theorem enter_of_stage {stage : Stage} (here : cls.stage = stage) : cls.enter stage = cls := by
  subst here
  rfl

theorem narrowed_of_named? {fold : Bool} {text : List Char} (named : named? fold text = some a) :
    a.narrowed = a := by
  unfold named? at named
  split at named
  · obtain ⟨inner, known, rfl⟩ := Option.map_eq_some_iff.1 named
    rw [CharSet.narrowed, CharSet.narrowed_foldIf, CharSet.narrowed_of_named? known]
  · exact CharSet.narrowed_of_named? named

end Parallels

end OpenClass

namespace ClassReader

/-- The classes around the current one hold the same, narrowed. -/
structure Parallels (cls cls' : ClassReader) : Prop where
  fold : cls'.fold = cls.fold
  outer : List.Forall₂ OpenClass.Parallels cls.outer cls'.outer

/-- The second reader goes on as the first one does, narrowed. -/
structure Narrows (cls cls' : ClassReader) : Prop extends Parallels cls cls' where
  current : cls.current.Narrows cls'.current

/-- A shorthand and a dash were read, so that only a bracket or a dash may follow. -/
def isStuck (cls : ClassReader) : Bool :=
  match cls.current.stage with
  | .dash (.shorthand _) => true
  | _ => false

inductive Result.Narrows : Result → Result → Prop where
  | more {cls cls' : ClassReader} : cls.Narrows cls' → Narrows (.more cls) (.more cls')
  | done {set set' : CharSet} : set.Narrows set' → Narrows (.done set) (.done set')

section Steps

variable {cls cls' : ClassReader} {symbol : ClassSymbol}

theorem Parallels.continueWith (h : cls.Parallels cls') {current current' : OpenClass}
    (currents : current.Narrows current') :
    Option.Rel Result.Narrows (cls.continueWith current) (cls'.continueWith current') :=
  .some (.more ⟨⟨h.fold, h.outer⟩, currents⟩)

theorem Parallels.close (h : cls.Parallels cls')
    (settled : cls.current.settle.Parallels cls'.current.settle) :
    Result.Narrows cls.close cls'.close := by
  have outer := h.outer
  unfold ClassReader.close
  rw [h.fold]
  generalize cls.outer = classes at outer
  generalize cls'.outer = classes' at outer
  cases outer with
  | nil => exact .done (settled.set _)
  | cons parent rest => exact .more ⟨⟨rfl, rest⟩, (parent.add (settled.set _)).between⟩

theorem close_settled (cls : ClassReader) :
    ClassReader.close { cls with current := cls.current.settle } = cls.close := by
  unfold close
  rw [OpenClass.settle_settle]

/-- Where nothing is undecided the classes read on in the same way. -/
theorem Parallels.readFresh (h : cls.Parallels cls')
    (contents : cls.current.Parallels cls'.current)
    (settled : cls.current.settle.Parallels cls'.current.settle) (fixed : symbol.IsFixed) :
    Option.Rel Result.Narrows (cls.readFresh symbol) (cls'.readFresh symbol) := by
  have enter {stage : OpenClass.Stage} (fixed : stage.IsFixed) :
      Option.Rel Result.Narrows (cls.continueWith (cls.current.enter stage))
        (cls'.continueWith (cls'.current.enter stage)) :=
    h.continueWith (.same (contents.enter _ _) rfl fixed)
  unfold ClassReader.readFresh
  split
  · exact .some (h.close settled)
  · exact enter trivial
  · split <;> exact enter trivial
  · exact enter trivial
  · exact enter fixed
  · exact h.continueWith (contents.add (CharSet.narrows_self fixed)).between

/-- A symbol that begins something else decides what was undecided. -/
theorem Parallels.readSettled (h : cls.Parallels cls')
    (settled : cls.current.settle.Parallels cls'.current.settle) (fixed : symbol.IsFixed) :
    Option.Rel Result.Narrows
      (ClassReader.readFresh { cls with current := cls.current.settle } symbol)
      (ClassReader.readFresh { cls' with current := cls'.current.settle } symbol) := by
  refine Parallels.readFresh ⟨h.fold, h.outer⟩ settled ?_ fixed
  rw [OpenClass.settle_settle, OpenClass.settle_settle]
  exact settled

theorem Parallels.readAfterMember (h : cls.Parallels cls')
    (contents : cls.current.Parallels cls'.current)
    (settled : cls.current.settle.Parallels cls'.current.settle) {first : OpenClass.Member}
    (member : first.IsFixed) (fixed : symbol.IsFixed) :
    Option.Rel Result.Narrows (cls.readAfterMember first symbol)
      (cls'.readAfterMember first symbol) := by
  unfold ClassReader.readAfterMember
  split
  · exact h.continueWith (.same (contents.enter _ _) rfl member)
  · exact h.readSettled settled fixed

theorem Parallels.readAfterDash (h : cls.Parallels cls')
    (contents : cls.current.Parallels cls'.current)
    (settled : cls.current.settle.Parallels cls'.current.settle) {first : OpenClass.Member}
    (member : first.IsFixed) :
    Option.Rel Result.Narrows (cls.readAfterDash first symbol)
      (cls'.readAfterDash first symbol) := by
  have goes {last : Char} {set : CharSet} (range : OpenClass.range? first last = some set) :
      Option.Rel Result.Narrows (cls.continueWith ((cls.current.add set).enter .between))
        (cls'.continueWith ((cls'.current.add set).enter .between)) := by
    have fixed : set.narrowed = set := by
      cases first with
      | character c =>
        simp only [OpenClass.range?] at range
        split at range <;> cases range
        rfl
      | shorthand => cases range
    exact h.continueWith (contents.add (CharSet.narrows_self fixed)).between
  unfold ClassReader.readAfterDash
  split
  · exact .some (h.close settled)
  · rw [h.fold]
    exact h.continueWith
      (.same (((contents.add member.narrows).enter _ _).operate _ _) rfl trivial)
  · exact .none
  · rename_i last _ _ _
    cases range : OpenClass.range? first last with
    | none => exact .none
    | some set => exact goes range
  · rename_i last
    cases range : OpenClass.range? first last with
    | none => exact .none
    | some set => exact goes range
  · exact .none
  · exact .none

theorem Parallels.readOpened (h : cls.Parallels cls')
    (contents : cls.current.Parallels cls'.current)
    (settled : cls.current.settle.Parallels cls'.current.settle) (caret : Bool)
    (fixed : symbol.IsFixed) :
    Option.Rel Result.Narrows (cls.readOpened caret symbol) (cls'.readOpened caret symbol) := by
  have empty : cls'.outer.isEmpty = cls.outer.isEmpty := by
    have length := h.outer.length_eq
    cases outer : cls.outer <;> cases outer' : cls'.outer <;> simp [outer, outer'] at length ⊢
  unfold ClassReader.readOpened
  rw [empty]
  split
  · split
    · exact h.continueWith (.same (contents.enter _ _) rfl trivial)
    · exact h.continueWith (.same ⟨rfl, contents.members, contents.left⟩ rfl trivial)
  · exact h.continueWith
      (.same ((contents.add (CharSet.narrows_self rfl)).enter _ _) rfl trivial)
  · split
    · exact h.continueWith (contents.add (CharSet.narrows_self rfl)).between
    · exact .none
  · exact h.readFresh contents settled fixed

theorem Parallels.readInside (h : cls.Parallels cls')
    (contents : cls.current.Parallels cls'.current) (characters : List Char)
    (fixed : symbol.IsFixed) :
    Option.Rel Result.Narrows (cls.readInside characters symbol)
      (cls'.readInside characters symbol) := by
  have same := OpenClass.parallels_ofCharacters characters
  have member := OpenClass.isFixed_ofCharacters characters
  have settled := (OpenClass.Narrows.same same rfl member).settle
  have around : Parallels
      { cls with
        outer := cls.current.enter .between :: cls.outer
        current := OpenClass.ofCharacters characters }
      { cls' with
        outer := cls'.current.enter .between :: cls'.outer
        current := OpenClass.ofCharacters characters } :=
    ⟨h.fold, .cons (contents.enter _ _) h.outer⟩
  simp only [ClassReader.readInside]
  split
  · rename_i stage
    rw [stage] at member
    exact around.readAfterMember same settled member fixed
  · exact around.readOpened same settled false fixed

/-- What is read in the same way, unless it faults where a shorthand and a dash were read. -/
def NarrowsTo (stuck : Bool) (o o' : Option Result) : Prop :=
  (stuck = true → o.isSome = true) → Option.Rel Result.Narrows o o'

theorem Narrows.step (h : cls.Narrows cls') (fixed : symbol.IsFixed) :
    NarrowsTo cls.isStuck (cls.step symbol) (cls'.step symbol) := by
  intro free
  have around := h.toParallels
  have settled := h.current.settle
  cases h.current with
  | same contents stage member =>
    unfold ClassReader.step
    rw [stage, h.fold]
    cases here : cls.current.stage with
    | opened caret => exact around.readOpened contents settled caret fixed
    | dashes =>
      dsimp only
      split
      · exact around.continueWith
          (.same (contents.add (CharSet.narrows_self rfl)) stage (here ▸ trivial))
      · exact around.readFresh contents settled fixed
    | between => exact around.readFresh contents settled fixed
    | member first => exact around.readAfterMember contents settled (here ▸ member :) fixed
    | dash first => exact around.readAfterDash contents settled (here ▸ member :)
    | half sign =>
      have plain : (OpenClass.Member.character sign).IsFixed := trivial
      dsimp only
      repeat' split
      · exact around.continueWith (.same ((contents.enter _ _).operate _ _) rfl trivial)
      · exact around.readAfterMember contents settled plain fixed
      · exact around.readAfterMember contents settled plain fixed
    | bracket =>
      dsimp only
      split
      · exact around.continueWith (.same (contents.enter _ _) rfl trivial)
      · exact around.readInside contents _ fixed
    | named text =>
      dsimp only
      repeat' split
      all_goals first
        | exact around.continueWith (.same (contents.enter _ _) rfl trivial)
        | exact around.readInside contents _ fixed
    | nameEnd text =>
      dsimp only
      split
      · rename_i named
        exact around.continueWith
          (contents.add (CharSet.narrows_self (OpenClass.narrowed_of_named? named))).between
      · exact around.readInside contents _ fixed
  | closed set stage stage' contents =>
    simp only [ClassReader.step, stage, stage']
    by_cases dash : symbol = .plain '-'
    · subst dash
      exact around.continueWith (.dashClosed set rfl rfl (contents.enter _ _))
    · have fresh := around.readSettled settled fixed
      simp only [OpenClass.settle, stage', OpenClass.enter_of_stage stage'] at fresh
      simpa only [ClassReader.readAfterMember, dash, if_false, OpenClass.settle, stage] using fresh
  | spelled set stage stage' contents =>
    simp only [ClassReader.step, stage, stage', ClassReader.readAfterMember]
    split
    · exact around.continueWith (.dashSpelled set rfl rfl (contents.enter _ _))
    · exact around.readSettled settled fixed
  | dashClosed set stage stage' contents =>
    have goes := Option.isSome_iff_ne_none.1 (free (by simp [isStuck, stage]))
    simp only [ClassReader.step, stage, stage'] at goes ⊢
    rcases readAfterDash_shorthand set symbol with none | rfl | rfl
    · exact absurd none goes
    · change Option.Rel Result.Narrows (some cls.close)
        (some (ClassReader.close { cls' with current := cls'.current.settle }))
      rw [close_settled]
      exact .some (around.close settled)
    · rw [h.fold]
      exact around.continueWith (.same ((contents.enter _ _).operate _ _) rfl trivial)
  | dashSpelled set stage stage' contents =>
    have goes := Option.isSome_iff_ne_none.1 (free (by simp [isStuck, stage]))
    simp only [ClassReader.step, stage, stage'] at goes ⊢
    rcases readAfterDash_shorthand set symbol with none | rfl | rfl
    · exact absurd none goes
    · exact .some (around.close settled)
    · simp only [ClassReader.readAfterDash, h.fold]
      exact around.continueWith (.same ((contents.enter _ _).operate _ _) rfl trivial)

end Steps

end ClassReader

end PathTemplate
