/-
Reading after a leading part.

What a text reads as does not depend on what the branch at the bottom begins with. `Reader.Led`
relates two readers of which the second one has one more part there, before all others, and
`Reader.Led.step` says that a step keeps this up. There is one lemma for each function of the reader.

* `Reader.Led.read`: both readings of a text go on in the same way, or neither does.
* `Reader.Led.exists_parts`: where nothing else is open and there is one branch, it has the same parts
  in both readings, after the leading one.
-/

import PathTemplate.Proofs.Reading.Progress
import PathTemplate.Proofs.Results

namespace PathTemplate

/-- Both have the same parts, the second one after a leading one. -/
def Expr.Led (lead e e' : Expr) : Prop := ∃ parts, e = .join parts ∧ e' = .join (lead :: parts)

theorem Expr.Led.append {lead e e' : Expr} (led : Led lead e e') (part : Expr) :
    Led lead (e.append part) (e'.append part) := by
  obtain ⟨parts, rfl, rfl⟩ := led
  refine ⟨parts ++ [part], ?_, ?_⟩
  · rw [join, join, List.foldl_append]
    rfl
  · rw [← List.cons_append, join, join, List.foldl_append]
    rfl

/-- A level and the frames around it, in two readings of which the second one has a leading part in
its branch at the bottom. Once there are several branches, nothing is said of them. -/
inductive Level.Led (lead : Expr) : Level → List Frame → Level → List Frame → Prop where
  | bottom {level level' : Level} : level'.earlier.isSome = level.earlier.isSome →
      (level.earlier = none → Expr.Led lead level.branch level'.branch) → Led lead level [] level' []
  | inside {level around around' : Level} {opener : Opener} {frames frames' : List Frame} :
      Led lead around frames around' frames' →
      Led lead level (⟨opener, around⟩ :: frames) level (⟨opener, around'⟩ :: frames')

namespace Level.Led

variable {lead : Expr} {level level' : Level} {frames frames' : List Frame}
  (led : Level.Led lead level frames level' frames')
include led

theorem push (part : Expr) : Level.Led lead (level.push part) frames (level'.push part) frames' := by
  cases led with
  | bottom several branch => exact .bottom several fun one => (branch one).append part
  | inside around => exact .inside around

theorem split : Level.Led lead level.split frames level'.split frames' := by
  cases led with
  | bottom => exact .bottom rfl nofun
  | inside around => exact .inside around

theorem several : level'.earlier.isSome = level.earlier.isSome := by
  cases led with
  | bottom several => exact several
  | inside => rfl

theorem openers : frames'.map Frame.opener = frames.map Frame.opener := by
  induction led with
  | bottom => rfl
  | inside _ ih => rw [List.map_cons, List.map_cons, ih]

theorem length : frames'.length = frames.length := by
  rw [← List.length_map Frame.opener, led.openers, List.length_map]

end Level.Led

namespace Reader

/-- The second reader is the first one, but for a leading part in its branch at the bottom. -/
inductive Led (lead : Expr) (reader : Reader) : Reader → Prop where
  | mk {level : Level} {frames : List Frame} :
      Level.Led lead reader.level reader.frames level frames →
      Led lead reader { reader with level, frames }

/-- Both readings go on in the same way, or neither does. -/
abbrev BothLed (lead : Expr) : Option Reader → Option Reader → Prop := Option.Rel (Led lead)

section Steps

variable {lead : Expr} {reader reader' : Reader} {c : Char}

theorem Led.flags (led : reader.Led lead reader') : reader'.flags = reader.flags := by
  cases led
  rfl

theorem Led.mode (led : reader.Led lead reader') : reader'.mode = reader.mode := by
  cases led
  rfl

theorem Led.names (led : reader.Led lead reader') : reader'.names = reader.names := by
  cases led
  rfl

theorem Led.frames (led : reader.Led lead reader') (closed : reader.frames = []) :
    reader'.frames = [] := by
  cases led with
  | mk level => exact List.length_eq_zero_iff.1 (level.length.trans (congrArg List.length closed))

theorem Led.enter (led : reader.Led lead reader') (mode : Mode) :
    (reader.enter mode).Led lead (reader'.enter mode) := by
  cases led with
  | mk level => exact .mk level

theorem Led.flush (led : reader.Led lead reader') (pending : Pending) :
    (reader.flush pending).Led lead (reader'.flush pending) := by
  cases led with
  | mk level => exact .mk (level.push _)

theorem Led.atom (led : reader.Led lead reader') (pending : Pending) (e : Expr) :
    (reader.atom pending e).Led lead (reader'.atom pending e) :=
  (led.flush pending).enter _

theorem Led.literal (led : reader.Led lead reader') (d : Char) :
    (reader.literal d).Led lead (reader'.literal d) := by
  rw [Reader.literal, Reader.literal, led.flags]
  exact led.atom _ _

theorem Led.loop (led : reader.Led lead reader') : reader'.loop = reader.loop := by
  cases led
  rfl

theorem Led.split (led : reader.Led lead reader') :
    ({ reader with level := reader.level.split } : Reader).Led lead
      { reader' with level := reader'.level.split } := by
  cases led with
  | mk level => exact .mk level.split

theorem Led.both (led : reader.Led lead reader') : BothLed lead (some reader) (some reader') :=
  .some led

theorem Led.classSymbol (led : reader.Led lead reader') (cls : ClassReader) (symbol : ClassSymbol) :
    BothLed lead (reader.classSymbol cls symbol) (reader'.classSymbol cls symbol) := by
  unfold Reader.classSymbol
  split
  · exact .none
  · exact (led.enter _).both
  · exact (led.atom _ _).both

theorem Led.escaped (led : reader.Led lead reader') (cls : Option ClassReader) (fold : Bool)
    (d : Char) : BothLed lead (reader.escaped cls fold d) (reader'.escaped cls fold d) := by
  cases cls with
  | none => exact (led.atom _ _).both
  | some cls => exact led.classSymbol cls _

theorem Led.stepEscape (led : reader.Led lead reader') (cls : Option ClassReader) :
    BothLed lead (reader.stepEscape cls c) (reader'.stepEscape cls c) := by
  unfold Reader.stepEscape
  repeat' split
  all_goals first
    | exact .none
    | exact (led.enter _).both
    | exact (led.atom _ _).both
    | exact led.classSymbol _ _

theorem Led.quantify (led : reader.Led lead reader') (pending : Pending) (least : Nat)
    (most : Option Nat) :
    BothLed lead (reader.quantify pending least most) (reader'.quantify pending least most) := by
  unfold Reader.quantify
  repeat' split
  all_goals first
    | exact (led.enter _).both
    | exact .none

theorem Led.openGroup (led : reader.Led lead reader') (opener : Opener) :
    BothLed lead (reader.openGroup opener) (reader'.openGroup opener) := by
  cases led with
  | mk level =>
    unfold Reader.openGroup
    rw [level.length]
    split
    · exact .some (.mk (.inside level))
    · exact .none

theorem Led.openCapture (led : reader.Led lead reader') :
    BothLed lead reader.openCapture reader'.openCapture := by
  cases led with
  | mk level =>
    have opened : ({ reader with opened := reader.opened + 1 } : Reader).Led lead
        { reader with opened := reader.opened + 1, level := _, frames := _ } := .mk level
    exact opened.openGroup _

theorem Led.levelAllowed (led : reader.Led lead reader') :
    reader'.levelAllowed = reader.levelAllowed := by
  cases led with
  | mk level => rw [Reader.levelAllowed, Reader.levelAllowed, level.several]

theorem Led.closeGroup (led : reader.Led lead reader') :
    BothLed lead reader.closeGroup reader'.closeGroup := by
  have allowed := led.levelAllowed
  obtain ⟨mode, level, frames, flags, opened, names, referred⟩ := reader
  obtain @⟨level', frames', led⟩ := led
  cases led with
  | bottom => exact .none
  | inside around =>
    simp only [Reader.closeGroup, allowed]
    split
    · exact .some (.mk around)
    · exact .none

theorem Led.stepReady (led : reader.Led lead reader') (pending : Pending) :
    BothLed lead (reader.stepReady pending c) (reader'.stepReady pending c) := by
  have base := led.flush pending
  have several := base.split
  unfold Reader.stepReady
  simp only [led.flags, led.loop]
  repeat' split
  all_goals first
    | exact .none
    | exact led.both
    | exact base.both
    | exact several.both
    | exact (led.enter _).both
    | exact (led.flush _).both
    | exact (base.enter _).both
    | exact (base.atom _ _).both
    | exact (base.literal _).both
    | exact led.quantify _ _ _
    | exact base.closeGroup

theorem Led.stepFlags (led : reader.Led lead reader') (flags : Flags) (off dash begun : Bool) :
    BothLed lead (reader.stepFlags flags off dash begun c)
      (reader'.stepFlags flags off dash begun c) := by
  have changed : ({ reader with flags } : Reader).Led lead { reader' with flags } := by
    cases led with
    | mk level => exact .mk level
  have closed : ({ reader with flags, mode := .ready (.atom .empty) } : Reader).Led lead
      { reader' with flags, mode := .ready (.atom .empty) } := changed.enter _
  have length : reader'.frames.length = reader.frames.length := by
    cases led with
    | mk level => exact level.length
  unfold Reader.stepFlags
  simp only [led.flags, length]
  repeat' split
  all_goals first
    | exact .none
    | exact (led.enter _).both
    | exact closed.both
    | exact changed.openGroup _

theorem Led.stepOpener (led : reader.Led lead reader') (pending : Pending) (text : List Char) :
    BothLed lead (reader.stepOpener pending text c) (reader'.stepOpener pending text c) := by
  have base := led.flush pending
  unfold Reader.stepOpener
  simp only [led.flags, base.flags]
  split
  case h_1 =>
    split
    · exact (led.enter _).both
    · split
      · exact led.both
      · have opened := base.openCapture
        generalize (reader.flush pending).openCapture = o at opened ⊢
        generalize (reader'.flush pending).openCapture = o' at opened ⊢
        cases opened with
        | some led => exact led.stepReady _
        | none => exact .none
  all_goals repeat' split
  all_goals first
    | exact .none
    | exact (led.enter _).both
    | exact (base.enter _).both
    | exact base.openGroup _
    | exact base.stepFlags _ _ _ _

theorem Led.stepGroupName (led : reader.Led lead reader') (text : List Char) :
    BothLed lead (reader.stepGroupName text c) (reader'.stepGroupName text c) := by
  unfold Reader.stepGroupName
  repeat' split
  · exact (led.enter _).both
  · cases led with
    | mk level =>
      have named : ({ reader with names := (text.reverse, reader.opened + 1) :: reader.names } :
          Reader).Led lead
          { reader with
            names := (text.reverse, reader.opened + 1) :: reader.names
            level := _
            frames := _ } := .mk level
      exact named.openCapture
  · exact .none

theorem Led.spelledOut (led : reader.Led lead reader') (ready : reader.IsReady) (fold : Bool)
    (text : List Char) :
    (reader.spelledOut fold text).Led lead (reader'.spelledOut fold text) := by
  induction text generalizing reader reader' with
  | nil => exact led
  | cons c text ih =>
    obtain ⟨pending, mode⟩ := ready
    have first : (reader.took (.character fold c)).Led lead (reader'.took (.character fold c)) := by
      rw [took, took, flushed_eq mode, flushed_eq (led.mode.trans mode)]
      exact (led.flush pending).enter _
    exact ih first ⟨_, rfl⟩

theorem Led.spellBrace (led : reader.Led lead reader') (atom : Expr) (text : List Char) :
    (reader.spellBrace atom text).Led lead (reader'.spellBrace atom text) := by
  rw [spellBrace_eq, spellBrace_eq, led.flags]
  exact (led.enter _).spelledOut ⟨_, rfl⟩ _ _

theorem Led.stepBrace (led : reader.Led lead reader') (atom : Expr) (text : List Char) :
    BothLed lead (reader.stepBrace atom text c) (reader'.stepBrace atom text c) := by
  have spelled := led.spellBrace atom text
  unfold Reader.stepBrace
  simp only [led.flags, spelled.mode]
  repeat' split
  all_goals first
    | exact .none
    | exact (led.enter _).both
    | exact led.quantify _ _ _
    | exact spelled.stepReady _

theorem Led.refer (led : reader.Led lead reader') (number : Nat) :
    BothLed lead (reader.refer number) (reader'.refer number) := by
  have same : reader'.opened = reader.opened ∧ reader'.isOpen number = reader.isOpen number := by
    cases led with
    | mk level =>
      have any (frames : List Frame) : (frames.any fun frame => frame.opener = .capture number) =
          (frames.map Frame.opener).any fun opener => opener = .capture number := by
        rw [List.any_map]
        rfl
      refine ⟨rfl, ?_⟩
      rw [isOpen, isOpen, any, any, level.openers]
  unfold Reader.refer
  rw [same.1, same.2]
  split
  · exact (led.atom _ _).both
  · exact .none

theorem Led.referDecimal (led : reader.Led lead reader') (number : Nat) :
    BothLed lead (reader.referDecimal number) (reader'.referDecimal number) := by
  cases led with
  | @mk level frames led =>
    have referred : ({ reader with referred := some (max number (reader.referred.getD 0)) } :
        Reader).Led lead
        { reader with
          referred := some (max number (reader.referred.getD 0))
          level
          frames } := .mk led
    exact referred.refer number

theorem Led.referNamed (led : reader.Led lead reader') (text : List Char) :
    BothLed lead (reader.referNamed text) (reader'.referNamed text) := by
  unfold Reader.referNamed
  simp only [led.names]
  repeat' split
  all_goals first
    | exact .none
    | exact led.refer _

theorem Led.stepReferenceName (led : reader.Led lead reader') (close : Char) (text : List Char) :
    BothLed lead (reader.stepReferenceName close text c)
      (reader'.stepReferenceName close text c) := by
  unfold Reader.stepReferenceName
  repeat' split
  · exact (led.enter _).both
  · exact led.referNamed text
  · exact .none

theorem Led.hexDone (led : reader.Led lead reader') (cls : Option ClassReader) (value : Nat) :
    BothLed lead (reader.hexDone cls value) (reader'.hexDone cls value) := by
  unfold Reader.hexDone
  rw [led.flags]
  split
  · exact led.escaped _ _ _
  · exact .none

theorem Led.stepHexOpen (led : reader.Led lead reader') (cls : Option ClassReader) (digits : Nat) :
    BothLed lead (reader.stepHexOpen cls digits c) (reader'.stepHexOpen cls digits c) := by
  unfold Reader.stepHexOpen
  repeat' split
  all_goals first
    | exact .none
    | exact (led.enter _).both

theorem Led.stepHex (led : reader.Led lead reader') (cls : Option ClassReader)
    (digits value : Nat) :
    BothLed lead (reader.stepHex cls digits value c) (reader'.stepHex cls digits value c) ∧
      BothLed lead (reader.stepHexBrace cls digits value c)
        (reader'.stepHexBrace cls digits value c) := by
  unfold Reader.stepHex Reader.stepHexBrace
  constructor <;> repeat' split
  all_goals first
    | exact .none
    | exact (led.enter _).both
    | exact led.hexDone _ _

/-- After one more character, both readers are related as before, or neither can go on. -/
theorem Led.step (led : reader.Led lead reader') (c : Char) :
    BothLed lead (reader.step c) (reader'.step c) := by
  unfold Reader.step
  rw [led.mode]
  split
  case h_1 => exact led.stepReady _
  case h_2 => exact led.stepBrace _ _
  case h_3 => exact led.stepEscape _
  case h_4 number _ =>
    split
    · exact (led.enter _).both
    · have referred := led.referDecimal number
      generalize reader.referDecimal number = o at referred ⊢
      generalize reader'.referDecimal number = o' at referred ⊢
      cases referred with
      | none => exact .none
      | some led =>
        simp only [led.mode]
        split
        · exact led.stepReady _
        · exact .none
  case h_5 =>
    split
    · exact (led.enter _).both
    · exact (led.enter _).both
    · exact .none
  case h_6 => exact led.stepReferenceName _ _
  case h_7 => exact led.stepHexOpen _ _
  case h_8 => exact (led.stepHex _ _ _).1
  case h_9 => exact (led.stepHex _ _ _).2
  case h_10 =>
    split
    · exact (led.enter _).both
    · exact led.classSymbol _ _
  case h_11 => exact led.stepOpener _ _
  case h_12 => exact led.stepGroupName _
  case h_13 => exact led.stepFlags _ _ _ _
  case h_14 =>
    repeat' split
    all_goals first
      | exact led.both
      | exact (led.enter _).both
  case h_15 =>
    split
    · exact (led.enter _).both
    · exact led.both

/-- Both readings of a text go on in the same way, or neither does. -/
theorem Led.read (led : reader.Led lead reader') (text : List Char) :
    BothLed lead (reader.read text) (reader'.read text) := by
  induction text generalizing reader reader' with
  | nil => exact led.both
  | cons c text ih =>
    rw [read_cons, read_cons]
    exact rel_bind (led.step c) fun _ _ _ _ led => ih led

end Steps

section Parts

variable {lead : Expr} {reader reader' : Reader}

theorem Led.flushed (led : reader.Led lead reader') (ready : reader.IsReady) :
    reader'.IsReady ∧ reader.flushed.Led lead reader'.flushed := by
  obtain ⟨pending, mode⟩ := ready
  have mode' := led.mode.trans mode
  rw [flushed_eq mode, flushed_eq mode']
  exact ⟨⟨pending, mode'⟩, led.flush pending⟩

end Parts

end Reader

end PathTemplate
