/-
What is kept where some classes of characters are other ones.

Where two readings differ only in which characters some classes have, they give expressions that
cannot be told apart without looking at characters, and they read on in the same way.

* `Expr.Resembles`: what is kept of an expression.
* `ClassReader.Like`: readers of classes that read on in the same way. Where the first one read a
  shorthand, the second one may have read a range, or characters of which the last one is an
  underscore.
-/

import PathTemplate.Expression.Bracket
import PathTemplate.Proofs.Expression.Sequence

namespace PathTemplate

namespace Expr

/-- A part of the expression refers back to a group. A reference to a group that is open where it
stands has become one that matches nowhere. -/
def refers : Expr → Bool
  | .empty | .one _ | .edge _ => false
  | .never | .back _ => true
  | .seq a b | .alt a b => a.refers || b.refers
  | .group _ a | .loop _ _ _ _ a | .ahead _ a | .behind _ a | .atomic a => a.refers

theorem refers_append (a b : Expr) : (a.append b).refers = (a.refers || b.refers) := by
  rcases append_cases a b with rfl | rfl | ⟨_, _, same⟩
  · rfl
  · simp [refers]
  · rw [same, refers]

theorem refers_of_isPlain {e : Expr} (plain : e.isPlain = true) : e.refers = false := by
  induction e with
  | seq a b iha ihb | alt a b iha ihb =>
    rw [isPlain, Bool.and_eq_true] at plain
    rw [refers, iha plain.1, ihb plain.2]
    rfl
  | loop least most greedy emptyPass a ih =>
    rw [isPlain, Bool.and_eq_true] at plain
    exact ih plain.2
  | empty | one => rfl
  | _ => cases plain

/-- The form of the expression does not tell that it covers a character. -/
def isNullable : Expr → Bool
  | .never | .one _ => false
  | .empty | .edge _ | .ahead .. | .behind .. | .back _ => true
  | .seq a b => a.isNullable && b.isNullable
  | .alt a b => a.isNullable || b.isNullable
  | .loop least most _ _ a => least = 0 || most = some 0 || a.isNullable
  | .group _ a | .atomic a => a.isNullable

theorem isNullable_append (a b : Expr) :
    (a.append b).isNullable = (a.isNullable && b.isNullable) := by
  rcases append_cases a b with rfl | rfl | ⟨_, _, same⟩
  · rfl
  · simp [isNullable]
  · rw [same, isNullable]

/-- What is kept of an expression where some of its sets are other ones. The second expression has
no groups. -/
structure Resembles (e e' : Expr) : Prop where
  nonempty : e ≠ .empty → e' ≠ .empty
  repeatable : e.isRepeatable = true → e'.isRepeatable = true
  plain : e.isPlain = true → e'.isPlain = true
  own : e.refers = false → e'.refers = false
  nullable : e'.isNullable = true → e.isNullable = true
  groups : e'.groups = []

section Resembles

variable {a a' b b' : Expr}

theorem Resembles.refl (groups : a.groups = []) : a.Resembles a :=
  ⟨id, id, id, id, id, groups⟩

theorem resembles_one (set set' : CharSet) : (one set).Resembles (one set') :=
  ⟨fun _ => nofun, id, id, id, id, rfl⟩

theorem resembles_edge (kind kind' : Edge) : (edge kind).Resembles (edge kind') :=
  ⟨fun _ => nofun, id, nofun, id, id, rfl⟩

theorem Resembles.append (first : a.Resembles a') (second : b.Resembles b') :
    (a.append b).Resembles (a'.append b') where
  nonempty := by
    intro some none
    obtain ⟨rfl, rfl⟩ := append_eq_empty_iff.1 none
    refine some (append_eq_empty_iff.2 ⟨?_, ?_⟩)
    · exact Decidable.byContradiction fun some => first.nonempty some rfl
    · exact Decidable.byContradiction fun some => second.nonempty some rfl
  repeatable := by
    intro repeatable
    refine isRepeatable_append_iff.2 ?_
    rcases isRepeatable_append_iff.1 repeatable with left | right | ⟨left, right⟩
    · exact .inl (first.repeatable left)
    · exact .inr (.inl (second.repeatable right))
    · exact .inr (.inr ⟨first.nonempty left, second.nonempty right⟩)
  plain := by
    intro plain
    rw [isPlain_append, Bool.and_eq_true] at plain ⊢
    exact ⟨first.plain plain.1, second.plain plain.2⟩
  own := by
    intro own
    rw [refers_append, Bool.or_eq_false_iff] at own ⊢
    exact ⟨first.own own.1, second.own own.2⟩
  nullable := by
    intro nullable
    rw [isNullable_append, Bool.and_eq_true] at nullable ⊢
    exact ⟨first.nullable nullable.1, second.nullable nullable.2⟩
  groups := by rw [groups_append, first.groups, second.groups, List.append_nil]

theorem Resembles.alt (first : a.Resembles a') (second : b.Resembles b') :
    (a.alt b).Resembles (a'.alt b') where
  nonempty := fun _ => nofun
  repeatable := id
  plain := by
    intro plain
    rw [isPlain, Bool.and_eq_true] at plain ⊢
    exact ⟨first.plain plain.1, second.plain plain.2⟩
  own := by
    intro own
    rw [refers, Bool.or_eq_false_iff] at own ⊢
    exact ⟨first.own own.1, second.own own.2⟩
  nullable := by
    intro nullable
    rw [isNullable, Bool.or_eq_true] at nullable ⊢
    exact nullable.imp first.nullable second.nullable
  groups := by rw [Expr.groups, first.groups, second.groups, List.append_nil]

theorem Resembles.loop (h : a.Resembles a') (least : Nat) (most : Option Nat)
    (greedy greedy' : Bool) (emptyPass : EmptyPass) :
    (loop least most greedy emptyPass a).Resembles (loop least most greedy' emptyPass a') where
  nonempty := fun _ => nofun
  repeatable := id
  plain := by
    intro plain
    rw [isPlain, Bool.and_eq_true] at plain ⊢
    exact ⟨plain.1, h.plain plain.2⟩
  own := h.own
  nullable := by
    intro nullable
    rw [isNullable, Bool.or_eq_true] at nullable ⊢
    exact nullable.imp_right h.nullable
  groups := h.groups

theorem Resembles.atomic (h : a.Resembles a') : (atomic a).Resembles (atomic a') :=
  ⟨fun _ => nofun, id, nofun, h.own, h.nullable, h.groups⟩

/-- Plain parts may come in addition. -/
theorem Resembles.append_right (h : a.Resembles a') (plain : b.isPlain = true) :
    a.Resembles (a'.append b) where
  nonempty := fun some none => h.nonempty some (append_eq_empty_iff.1 none).1
  repeatable := fun repeatable => isRepeatable_append_iff.2 (.inl (h.repeatable repeatable))
  plain := fun whole => by rw [isPlain_append, h.plain whole, plain]; rfl
  own := fun own => by rw [refers_append, h.own own, refers_of_isPlain plain]; rfl
  nullable := fun nullable => by
    rw [isNullable_append, Bool.and_eq_true] at nullable
    exact h.nullable nullable.1
  groups := by rw [groups_append, h.groups, groups_of_isPlain plain, List.append_nil]

end Resembles

end Expr

/-! ### Classes -/

namespace OpenClass

/-- What follows is read in the same way at both stages, or with more freedom at the second. -/
inductive Stage.Like : Stage → Stage → Prop where
  | same (stage : Stage) : Like stage stage
  | closed (set : CharSet) : Like (.member (.shorthand set)) .between
  | spelled (set : CharSet) : Like (.member (.shorthand set)) (.member (.character '_'))
  | dashClosed (set : CharSet) : Like (.dash (.shorthand set)) (.half '-')
  | dashSpelled (set : CharSet) : Like (.dash (.shorthand set)) (.dash (.character '_'))

/-- Whether letter case matters says nothing about which names there are. -/
theorem isSome_named? (fold fold' : Bool) (text : List Char) :
    (named? fold text).isSome = (named? fold' text).isSome := by
  unfold named?
  split <;> simp

end OpenClass

namespace ClassReader

/-- Readers of classes inside equally many other ones. The sets that they describe may differ. -/
structure Alike (cls cls' : ClassReader) : Prop where
  outer : cls'.outer.length = cls.outer.length

/-- Readers of classes that are read on in the same way. -/
structure Like (cls cls' : ClassReader) : Prop extends Alike cls cls' where
  stage : cls.current.stage.Like cls'.current.stage

/-- Both results close a class, or neither does. -/
inductive Result.Like : Result → Result → Prop where
  | more {cls cls' : ClassReader} : cls.Like cls' → Like (.more cls) (.more cls')
  | done (set set' : CharSet) : Like (.done set) (.done set')

/-- Where the first reading goes on, so does the second one, in the same way. -/
def Tracks (o o' : Option Result) : Prop :=
  ∀ result, o = some result → ∃ result', o' = some result' ∧ result.Like result'

section Alike

variable {cls cls' : ClassReader}

theorem tracks_none {o' : Option Result} : Tracks none o' := fun _ h => nomatch h

theorem Alike.tracks (like : cls.Alike cls') {current current' : OpenClass}
    (stage : current.stage.Like current'.stage) :
    Tracks (cls.continueWith current) (cls'.continueWith current') := by
  rintro _ ⟨⟩
  exact ⟨_, rfl, .more ⟨⟨like.outer⟩, stage⟩⟩

theorem Alike.enter (like : cls.Alike cls') (stage : OpenClass.Stage) :
    Tracks (cls.continueWith (cls.current.enter stage))
      (cls'.continueWith (cls'.current.enter stage)) :=
  like.tracks (.same stage)

theorem Alike.close (like : cls.Alike cls') : Tracks (some cls.close) (some cls'.close) := by
  rintro _ ⟨⟩
  have length := like.outer
  unfold ClassReader.close
  cases outer : cls.outer with
  | nil =>
    cases outer' : cls'.outer with
    | nil => exact ⟨_, rfl, .done _ _⟩
    | cons => simp [outer, outer'] at length
  | cons parent rest =>
    cases outer' : cls'.outer with
    | nil => simp [outer, outer'] at length
    | cons parent' rest' =>
      refine ⟨_, rfl, .more ⟨⟨?_⟩, .same _⟩⟩
      simpa [outer, outer'] using length

theorem Alike.readFresh (like : cls.Alike cls') (symbol : ClassSymbol) :
    Tracks (cls.readFresh symbol) (cls'.readFresh symbol) := by
  unfold ClassReader.readFresh
  repeat' split
  all_goals first
    | exact like.close
    | exact like.enter _
    | exact like.tracks (.same _)

theorem Alike.settled (like : cls.Alike cls') (current current' : OpenClass) :
    Alike { cls with current } { cls' with current := current' } := ⟨like.outer⟩

theorem Alike.readAfterMember (like : cls.Alike cls') (first : OpenClass.Member)
    (symbol : ClassSymbol) :
    Tracks (cls.readAfterMember first symbol) (cls'.readAfterMember first symbol) := by
  unfold ClassReader.readAfterMember
  split
  · exact like.enter _
  · exact (like.settled _ _).readFresh symbol

theorem Alike.readAfterDash (like : cls.Alike cls') (first : OpenClass.Member)
    (symbol : ClassSymbol) :
    Tracks (cls.readAfterDash first symbol) (cls'.readAfterDash first symbol) := by
  unfold ClassReader.readAfterDash
  repeat' split
  all_goals first
    | exact like.close
    | exact like.tracks (.same _)
    | exact tracks_none

/-- A shorthand begins no range. -/
theorem readAfterDash_shorthand (set : CharSet) (symbol : ClassSymbol) :
    cls.readAfterDash (.shorthand set) symbol = none ∨
      symbol = .plain ']' ∨ symbol = .plain '-' := by
  unfold ClassReader.readAfterDash
  repeat' split
  all_goals simp_all [OpenClass.range?]

theorem Alike.readOpened (like : cls.Alike cls') (caret : Bool) (symbol : ClassSymbol) :
    Tracks (cls.readOpened caret symbol) (cls'.readOpened caret symbol) := by
  have empty : cls'.outer.isEmpty = cls.outer.isEmpty := by
    have length := like.outer
    cases outer : cls.outer <;> cases outer' : cls'.outer <;> simp [outer, outer'] at length ⊢
  unfold ClassReader.readOpened
  rw [empty]
  repeat' split
  all_goals first
    | exact like.enter _
    | exact like.tracks (.same _)
    | exact tracks_none
    | exact like.readFresh _

theorem Alike.readInside (like : cls.Alike cls') (characters : List Char) (symbol : ClassSymbol) :
    Tracks (cls.readInside characters symbol) (cls'.readInside characters symbol) := by
  have inner (current current' parent parent' : OpenClass) :
      Alike { cls with outer := parent :: cls.outer, current }
        { cls' with outer := parent' :: cls'.outer, current := current' } :=
    ⟨congrArg (· + 1) like.outer⟩
  simp only [ClassReader.readInside]
  split
  · exact (inner _ _ _ _).readAfterMember _ symbol
  · exact (inner _ _ _ _).readOpened false symbol

/-- Readers of like classes read any symbol in the same way. -/
theorem Like.step (like : cls.Like cls') (symbol : ClassSymbol) :
    Tracks (cls.step symbol) (cls'.step symbol) := by
  have alike := like.toAlike
  have stages := like.stage
  unfold ClassReader.step
  generalize cls.current.stage = stage at stages
  generalize cls'.current.stage = stage' at stages
  cases stages with
  | same =>
    cases stage with
    | opened caret => exact alike.readOpened caret symbol
    | dashes =>
      dsimp only
      split
      · exact alike.tracks like.stage
      · exact alike.readFresh symbol
    | between => exact alike.readFresh symbol
    | member first => exact alike.readAfterMember first symbol
    | dash first => exact alike.readAfterDash first symbol
    | half sign =>
      dsimp only
      repeat' split
      · exact alike.tracks (.same _)
      · exact alike.readAfterMember _ symbol
      · exact alike.readAfterMember _ symbol
    | bracket =>
      dsimp only
      split
      · exact alike.enter _
      · exact alike.readInside _ symbol
    | named text =>
      dsimp only
      repeat' split
      all_goals first
        | exact alike.enter _
        | exact alike.readInside _ _
    | nameEnd text =>
      dsimp only
      have named := OpenClass.isSome_named? cls.fold cls'.fold text
      by_cases close : symbol = .plain ']'
      · subst close
        cases found : OpenClass.named? cls.fold text <;>
          cases found' : OpenClass.named? cls'.fold text <;> simp [found, found'] at named
        · exact alike.readInside _ _
        · exact alike.tracks (.same _)
      · split
        · exact absurd rfl close
        · split
          · exact absurd rfl close
          · exact alike.readInside _ _
  | closed set =>
    dsimp only
    by_cases dash : symbol = .plain '-'
    · subst dash
      exact alike.tracks (.dashClosed set)
    · simp only [ClassReader.readAfterMember, dash, if_false]
      exact (show Alike _ cls' from alike.settled _ cls'.current).readFresh symbol
  | spelled set =>
    dsimp only
    by_cases dash : symbol = .plain '-'
    · subst dash
      exact alike.tracks (.dashSpelled set)
    · simp only [ClassReader.readAfterMember, dash, if_false]
      exact (alike.settled _ _).readFresh symbol
  | dashClosed set =>
    dsimp only
    rcases @readAfterDash_shorthand cls set symbol with none | rfl | rfl
    · rw [none]
      exact tracks_none
    · exact (show Alike cls _ from alike.settled cls.current _).close
    · exact alike.tracks (.same _)
  | dashSpelled set =>
    dsimp only
    rcases @readAfterDash_shorthand cls set symbol with none | rfl | rfl
    · rw [none]
      exact tracks_none
    · exact alike.close
    · exact alike.tracks (.same _)

end Alike

end ClassReader

end PathTemplate
