/-
The numbers of capture groups.

Capture groups are numbered in the order in which they open. `Reader.groups` are the groups of all
that a reader has read, the open ones included, and `Reader.numbers_of_step` says what one step does
to them: it opens at most one, and `Mode.opens` tells which.

* `Reader.numbers_of_step`, `Reader.numbers_of_read`: what a step and a text open.
* `Expression.groups_of_compile?`: the groups of an expression are numbered from 1 on, without a
  gap.
-/

import Mathlib.Data.List.Induction
import PathTemplate.Proofs.Expression.Settling
import PathTemplate.Proofs.Reading.Moves

namespace PathTemplate

/-! ### The groups of what was read -/

/-- The number of the group, if it captures. -/
def Opener.groups : Opener → List Nat
  | .capture number => [number]
  | _ => []

/-- The groups around an open group, and that group. -/
def Frame.groups (frame : Frame) : List Nat := frame.around.expr.groups ++ frame.opener.groups

def Pending.groups : Pending → List Nat
  | .nothing => []
  | .atom expr | .counted _ _ expr | .reluctant expr => expr.groups

/-- The groups of the part that is not finished. -/
def Mode.groups : Mode → List Nat
  | .ready pending | .opener pending _ | .comment pending _ | .lineComment pending => pending.groups
  | .brace atom _ => atom.groups
  | _ => []

@[simp] theorem Mode.groups_ready (pending : Pending) :
    (Mode.ready pending).groups = pending.groups := rfl

@[simp] theorem Pending.groups_nothing : Pending.nothing.groups = [] := rfl

@[simp] theorem Pending.groups_atom (e : Expr) : (Pending.atom e).groups = e.groups := rfl

theorem Mode.groups_eq (mode : Mode) : mode.groups = mode.pending.groups := by
  cases mode <;> rfl

/-- The names of the groups that the character opens, none for a group without a name. -/
def Mode.opens (spaced : Bool) (c : Char) : Mode → List (Option (List Char))
  | .opener _ [] => if c = '?' || (spaced && isSpacing c) then [] else [none]
  | .groupName text => if isGroupNameCharacter c then [] else [some text.reverse]
  | _ => []

/-- The names among those of the groups, with their numbers, from the one after `opened` on. -/
def namedFrom (opened : Nat) : List (Option (List Char)) → List (List Char × Nat)
  | [] => []
  | none :: names => namedFrom (opened + 1) names
  | some name :: names => (name, opened + 1) :: namedFrom (opened + 1) names

theorem namedFrom_append (opened : Nat) (names more : List (Option (List Char))) :
    namedFrom opened (names ++ more) =
      namedFrom opened names ++ namedFrom (opened + names.length) more := by
  induction names generalizing opened with
  | nil => rfl
  | cons name names ih =>
    have place : opened + (name :: names).length = opened + 1 + names.length := by
      rw [List.length_cons, Nat.add_assoc, Nat.add_comm 1]
    rw [place]
    cases name with
    | none => exact ih (opened + 1)
    | some name => exact congrArg ((name, opened + 1) :: ·) (ih (opened + 1))

namespace Level

variable {level : Level} {e : Expr}

theorem groups_push : (level.push e).expr.groups = level.expr.groups ++ e.groups := by
  obtain ⟨earlier, branch⟩ := level
  cases earlier with
  | none => exact Expr.groups_append
  | some earlier =>
    simp only [push, expr, Expr.groups, Expr.groups_append, List.append_assoc]

theorem groups_split : level.split.expr.groups = level.expr.groups := List.append_nil _

end Level

theorem Opener.groups_of_plain {opener : Opener} (plain : ∀ number, opener ≠ .capture number) :
    opener.groups = [] := by
  cases opener with
  | capture number => exact absurd rfl (plain number)
  | _ => rfl

theorem Opener.groups_wrap (opener : Opener) (e : Expr) :
    (opener.wrap e).groups = opener.groups ++ e.groups := by
  cases opener <;> rfl

namespace Mode

variable {flags : Flags} {c : Char} {mode next : Mode} {e : Expr}

theorem Turns.opens (turns : mode.Turns flags c next) : mode.opens flags.spaced c = [] := by
  cases turns with
  | mark sign => simp [Mode.opens, sign]
  | gap blank => simp [Mode.opens, blank]
  | nameMore more => simp [Mode.opens, more]
  | _ => rfl

theorem Completes.opens {spaced : Bool} (completes : mode.Completes c e) :
    mode.opens spaced c = [] := by
  cases completes <;> rfl

theorem Completes.groups (completes : mode.Completes c e) : e.groups = [] := by
  cases completes with
  | sign _ free | escape free | hex _ free | hexBrace _ free => exact free
  | bracket => rfl
  | reference _ refers => rcases refers with rfl | ⟨number, rfl⟩ <;> rfl

theorem opens_of_isPart {spaced : Bool} (part : mode.isPart = true) : mode.opens spaced c = [] := by
  cases mode with
  | ready | brace => rfl
  | _ => cases part

theorem opens_of_isMarked {spaced : Bool} (marked : mode.isMarked = true) :
    mode.opens spaced c = [] := by
  unfold isMarked at marked
  split at marked <;> first | rfl | cases marked

theorem groups_of_isMarked (marked : mode.isMarked = true) : mode.groups = [] := by
  rw [groups_eq, pending_of_isMarked marked]
  rfl

end Mode

namespace Reader

/-- The groups of all that was read, in the order in which they opened. -/
def groups (reader : Reader) : List Nat :=
  reader.frames.reverse.flatMap Frame.groups ++ (reader.level.expr.groups ++ reader.mode.groups)

/-- The names of the groups that a text opens. -/
def opensIn : Reader → List Char → List (Option (List Char))
  | _, [] => []
  | reader, c :: text =>
    reader.mode.opens reader.flags.spaced c ++
      (reader.step c).elim [] fun next => opensIn next text

/-- Between `reader` and `next`, groups with these names were opened. -/
structure Numbers (new : List (Option (List Char))) (reader next : Reader) : Prop where
  opened : next.opened = reader.opened + new.length
  groups : next.groups = reader.groups ++ List.range' (reader.opened + 1) new.length
  names : next.names = (namedFrom reader.opened new).reverse ++ reader.names

section Steps

variable {reader base next last : Reader} {c : Char}

theorem Numbers.refl (reader : Reader) : Numbers [] reader reader :=
  ⟨rfl, (List.append_nil _).symm, rfl⟩

theorem Numbers.trans {new more : List (Option (List Char))} (first : Numbers new reader next)
    (then_ : Numbers more next last) : Numbers (new ++ more) reader last where
  opened := by rw [then_.opened, first.opened, List.length_append, Nat.add_assoc]
  groups := by
    rw [then_.groups, first.groups, first.opened, List.length_append, List.append_assoc,
      Nat.add_right_comm, List.range'_append_1]
  names := by
    rw [then_.names, first.names, first.opened, namedFrom_append, List.reverse_append,
      List.append_assoc]

/-- No group was opened. -/
theorem Numbers.of_groups (groups : next.groups = reader.groups) (opened : next.opened = reader.opened)
    (names : next.names = reader.names) : Numbers [] reader next :=
  ⟨opened, groups.trans (List.append_nil _).symm, names⟩

/-- Only the mode is another one. -/
theorem numbers_enter {mode : Mode} (same : mode.groups = reader.mode.groups) :
    Numbers [] reader (reader.enter mode) := by
  refine .of_groups ?_ rfl rfl
  simp only [groups, enter, same]

theorem groups_part (pending : Pending) : (reader.part pending).groups = pending.groups := by
  cases pending <;> rfl

theorem numbers_flush {pending : Pending} (mode : reader.mode.groups = pending.groups) :
    Numbers [] reader (reader.flush pending) := by
  refine .of_groups ?_ rfl rfl
  simp only [groups, flush, Level.groups_push, groups_part, mode, Mode.groups_ready,
    Pending.groups_nothing, List.append_nil]

theorem numbers_split (reader : Reader) :
    Numbers [] reader { reader with level := reader.level.split } := by
  refine .of_groups ?_ rfl rfl
  simp only [groups, Level.groups_split]

theorem numbers_flags (flags : Flags) : Numbers [] reader { reader with flags } :=
  .of_groups rfl rfl rfl

theorem numbers_atom {pending : Pending} {e : Expr} (mode : reader.mode.groups = pending.groups)
    (none : e.groups = []) : Numbers [] reader (reader.atom pending e) :=
  (numbers_flush mode).trans (numbers_enter none)

theorem numbers_spelledOut {fold : Bool} {text : List Char} (ready : reader.IsReady) :
    Numbers [] reader (reader.spelledOut fold text) := by
  induction text generalizing reader with
  | nil => exact .refl reader
  | cons d text ih =>
    obtain ⟨pending, mode⟩ := ready
    have first : Numbers [] reader (reader.took (.character fold d)) := by
      rw [took, flushed_eq mode]
      exact (numbers_flush (congrArg Mode.groups mode)).trans (numbers_enter rfl)
    exact first.trans (ih (isReady_took _ reader))

theorem numbers_spellBrace {atom : Expr} {text : List Char} (mode : reader.mode = .brace atom text) :
    Numbers [] reader (reader.spellBrace atom text) := by
  rw [spellBrace_eq]
  have first : Numbers [] reader (reader.enter (.ready (.atom atom))) :=
    numbers_enter (by rw [mode]; rfl)
  exact first.trans (numbers_spelledOut ⟨_, rfl⟩)

theorem numbers_resolved (h : reader.resolved = some next) : Numbers [] reader next := by
  unfold resolved at h
  split at h
  case h_1 =>
    cases h
    exact .refl reader
  case h_2 mode =>
    cases h
    exact numbers_spellBrace mode
  case h_3 mode =>
    obtain ⟨e, rfl, which⟩ := refer_eq_some h
    have free : e.groups = [] := by
      rcases which with rfl | ⟨number, rfl⟩ <;> rfl
    obtain ⟨opened, groups, names⟩ :=
      @numbers_atom { reader with referred := _ } .nothing e (congrArg Mode.groups mode) free
    exact ⟨opened, groups, names⟩
  case h_4 => cases h

theorem numbers_closeGroup (mode : reader.mode.groups = []) (h : reader.closeGroup = some next) :
    Numbers [] reader next := by
  obtain ⟨frame, frames, flags, here, rfl⟩ := closeGroup_eq_some h
  refine .of_groups ?_ rfl rfl
  simp [groups, here, mode, Opener.groups_wrap, Frame.groups]

/-- A group was opened, with a number if it captures. -/
theorem groups_openGroup {opener : Opener} (mode : reader.mode.groups = [])
    (h : reader.openGroup opener = some next) :
    next.groups = reader.groups ++ opener.groups ∧ next.opened = reader.opened ∧
      next.names = reader.names := by
  unfold openGroup at h
  split at h <;> cases h
  refine ⟨?_, rfl, rfl⟩
  simp [groups, mode, Frame.groups, Level.expr, Expr.groups]

theorem numbers_openGroup {opener : Opener} (mode : reader.mode.groups = [])
    (plain : opener.groups = []) (h : reader.openGroup opener = some next) :
    Numbers [] reader next := by
  obtain ⟨groups, opened, names⟩ := groups_openGroup mode h
  rw [plain, List.append_nil] at groups
  exact .of_groups groups opened names

/-- A capture group is the next one, under its name if it was given one. -/
theorem numbers_openCapture {name? : Option (List Char)} (mode : reader.mode.groups = [])
    (h : { reader with names := namedFrom reader.opened [name?] ++ reader.names }.openCapture =
      some next) : Numbers [name?] reader next := by
  obtain ⟨groups, opened, names⟩ := groups_openGroup (by exact mode) h
  refine ⟨opened, groups, ?_⟩
  rw [names]
  cases name? <;> rfl

/-- A step opens at most one group: an unnamed one with the character after its parenthesis, a named
one with the end of its name. -/
theorem Moves.numbers (moves : Moves c reader next) :
    Numbers (reader.mode.opens reader.flags.spaced c) reader next := by
  induction moves with
  | turns turns =>
    rw [turns.opens]
    exact numbers_enter (by rw [Mode.groups_eq, Mode.groups_eq, turns.pending])
  | completes completes =>
    rw [completes.opens]
    exact numbers_atom (by rw [Mode.groups_eq, completes.pending]) completes.groups
  | counts part pending =>
    rw [Mode.opens_of_isPart part]
    exact numbers_enter (by rw [Mode.groups_eq, Mode.groups_eq, pending]; rfl)
  | reluctant mode =>
    rw [mode]
    exact numbers_enter (by rw [mode]; rfl)
  | possessive mode =>
    rw [mode]
    exact numbers_flush (by rw [mode]; exact (groups_part _).symm)
  | @splits reader mode =>
    have none : reader.mode.opens reader.flags.spaced c = [] := by
      rw [mode]
      rfl
    rw [none]
    exact numbers_split reader
  | opens marked _ opened plain =>
    rw [Mode.opens_of_isMarked marked]
    exact (numbers_flags _).trans (numbers_openGroup (by exact Mode.groups_of_isMarked marked)
      (Opener.groups_of_plain plain) opened)
  | names mode _ sign opened =>
    rw [mode]
    subst sign
    exact numbers_openCapture (congrArg Mode.groups mode) opened
  | closes mode _ closed =>
    rw [mode]
    exact numbers_closeGroup (congrArg Mode.groups mode) closed
  | @sets reader flags marked =>
    rw [Mode.opens_of_isMarked marked]
    have none : (Mode.ready (.atom .empty)).groups = reader.mode.groups :=
      (Mode.groups_of_isMarked marked).symm
    exact (numbers_flags flags).trans (numbers_enter none)
  | @resolves reader base next resolved _ ih =>
    have none : reader.mode.opens reader.flags.spaced c = [] := by
      rcases isPart_of_resolved resolved with part | ⟨number, mode⟩
      · exact Mode.opens_of_isPart part
      · rw [mode]
        rfl
    obtain ⟨pending, ready⟩ := isReady_resolved resolved
    rw [ready] at ih
    rw [none]
    exact (numbers_resolved resolved).trans ih
  | flushes mode _ ih =>
    rw [mode]
    exact (numbers_flush (congrArg Mode.groups mode)).trans ih
  | @flushesOpener reader next pending text mode _ ih =>
    have same : reader.mode.opens reader.flags.spaced c =
        (Mode.opener .nothing text).opens reader.flags.spaced c := by
      rw [mode]
      cases text <;> rfl
    have first : Numbers [] reader ((reader.flush pending).enter (.opener .nothing text)) :=
      (numbers_flush (congrArg Mode.groups mode)).trans (numbers_enter rfl)
    rw [same]
    exact first.trans ih
  | @captures reader base next mode sign visible opened _ ih =>
    have one : reader.mode.opens reader.flags.spaced c = [none] := by
      rw [mode]
      simp [Mode.opens, sign, visible]
    rw [(openCapture_eq_some opened).2] at ih
    rw [one]
    exact (@numbers_openCapture reader base none (congrArg Mode.groups mode) opened).trans ih

theorem numbers_of_step (h : reader.step c = some next) :
    Numbers (reader.mode.opens reader.flags.spaced c) reader next :=
  (moves_of_step h).numbers

theorem numbers_of_read {text : List Char} (h : reader.read text = some last) :
    Numbers (reader.opensIn text) reader last := by
  induction text generalizing reader with
  | nil =>
    cases h
    exact .refl _
  | cons c text ih =>
    rw [read_cons] at h
    obtain ⟨next, first, others⟩ := Option.bind_eq_some_iff.1 h
    rw [opensIn, first]
    exact (numbers_of_step first).trans (ih others)

/-- Nothing is pending at the end, and no group is open. -/
theorem numbers_of_finish (h : reader.finish = some last) :
    Numbers [] reader last ∧ last.groups = last.level.expr.groups := by
  obtain ⟨base, from_, rfl, frames⟩ := finish_eq_some h
  have first : Numbers [] reader base := by
    rcases from_ with resolved | rfl
    · exact numbers_resolved resolved
    · exact .refl _
  refine ⟨first.trans (numbers_flush (Mode.groups_eq _)), ?_⟩
  simp [groups, flush, frames]

end Steps

/-- The name of the group with this number, if it was given one. -/
def groupName? (reader : Reader) (number : Nat) : Option (List Char) :=
  (reader.names.find? fun entry => entry.2 = number).map Prod.fst

theorem le_of_mem_namedFrom {opened : Nat} {names : List (Option (List Char))}
    {entry : List Char × Nat} (member : entry ∈ namedFrom opened names) :
    entry.2 ≤ opened + names.length := by
  induction names generalizing opened with
  | nil => cases member
  | cons name names ih =>
    have place : opened + (name :: names).length = opened + 1 + names.length := by
      rw [List.length_cons, Nat.add_assoc, Nat.add_comm 1]
    rw [place]
    cases name with
    | none => exact ih member
    | some name =>
      rcases List.mem_cons.1 member with rfl | member
      · exact Nat.le_add_right ..
      · exact ih member

/-- The names of groups, looked up by their numbers. -/
theorem map_find?_namedFrom (names : List (Option (List Char))) :
    ((List.range' 1 names.length).map fun number =>
      ((namedFrom 0 names).reverse.find? fun entry => entry.2 = number).map Prod.fst) = names := by
  induction names using List.reverseRecOn with
  | nil => rfl
  | append_singleton names name ih =>
    have none : (namedFrom 0 names).reverse.find? (fun entry => entry.2 = names.length + 1) = none := by
      refine List.find?_eq_none.2 fun entry member => ?_
      have least := le_of_mem_namedFrom (List.mem_reverse.1 member)
      simp only [decide_eq_true_eq]
      omega
    rw [List.length_append, List.length_singleton, ← List.range'_append_1, List.map_append,
      namedFrom_append, List.reverse_append]
    refine congrArg₂ _ (Eq.trans (List.map_congr_left fun number member => ?_) ih) ?_
    · have bound := (List.mem_range'_1.1 member).2
      cases name with
      | none => rfl
      | some name =>
        have other : ¬(names.length + 1 = number) := by omega
        simp [namedFrom, other]
    · cases name with
      | none => simpa [namedFrom, List.range', Nat.add_comm 1] using none
      | some name => simp [namedFrom, List.range', Nat.add_comm 1]

/-- Every group has the name with which it was opened. -/
theorem map_groupName? {names : List (Option (List Char))} {last : Reader}
    (h : Numbers names {} last) : (List.range' 1 last.opened).map last.groupName? = names := by
  obtain ⟨opened, -, known⟩ := h
  rw [opened, Nat.zero_add]
  refine Eq.trans (List.map_congr_left fun number _ => ?_) (map_find?_namedFrom names)
  rw [groupName?, known, List.append_nil]

end Reader

namespace Expression

/-- The names of the capture groups of a source text, in the order of their numbers. -/
def groupNames? (source : String) : Option (List (Option (List Char))) := do
  let reader ← (← ({} : Reader).read source.toList).finish
  return (List.range' 1 reader.opened).map reader.groupName?

/-- The groups of an expression are numbered in the order in which they open, from 1 on, without a
gap. -/
theorem groups_of_compile? {source : String} {expression : Expression}
    (compiled : compile? source = some expression) :
    groupNames? source = some (({} : Reader).opensIn source.toList) ∧
      expression.expr.groups = List.range' 1 (({} : Reader).opensIn source.toList).length := by
  obtain ⟨expr, described, rfl⟩ := Option.map_eq_some_iff.1 compiled
  simp only [expr?, Option.bind_eq_bind, Option.bind_eq_some_iff] at described
  obtain ⟨reader, read, last, finish, settled⟩ := described
  obtain ⟨ended, whole⟩ := Reader.numbers_of_finish finish
  have numbers : Reader.Numbers (({} : Reader).opensIn source.toList) {} last := by
    rw [← List.append_nil (({} : Reader).opensIn _)]
    exact (Reader.numbers_of_read read).trans ended
  refine ⟨?_, ?_⟩
  · rw [← Reader.map_groupName? numbers, groupNames?, read]
    simp [finish]
  · split at settled
    · rw [(Expr.settles_of_settled? settled).groups, ← whole, numbers.groups]
      rfl
    · cases settled

end Expression

end PathTemplate
