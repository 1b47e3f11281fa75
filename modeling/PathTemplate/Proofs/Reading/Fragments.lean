/-
Reading an expression part by part.

Between two parts the reader is ready: a part was read and is pending, because a quantifier may
follow. `Reader.flushed` is the reader once nothing more belongs to the pending part, and what
a further part does to it does not depend on what was pending.

* `Ends` states what holds where a reading ends, and whether it has to end.
* `Reader.read_escapeWhere`, `Reader.read_group`, `Reader.read_capture`, `Reader.step_symbol`:
  characters that stand for themselves, groups, and what a modifier makes of an atom.
-/

import PathTemplate.Escape
import PathTemplate.Modifier
import PathTemplate.Expression.Reader
import PathTemplate.Proofs.Expression.Sequence

namespace PathTemplate

/-- If there is a result, it has the property; if `total`, there is one. -/
inductive Ends {α : Type} (total : Bool) (post : α → Prop) : Option α → Prop where
  | fails : total = false → Ends total post none
  | reaches {a : α} : post a → Ends total post (some a)

section Ends

variable {α β : Type} {total : Bool} {post post' : α → Prop} {o : Option α}

theorem Ends.mono (h : Ends total post o) (imp : ∀ a, post a → post' a) : Ends total post' o := by
  cases h with
  | fails partial_ => exact .fails partial_
  | reaches holds => exact .reaches (imp _ holds)

theorem Ends.bind {next : α → Option β} {post' : β → Prop} (h : Ends total post o)
    (then_ : ∀ a, post a → Ends total post' (next a)) : Ends total post' (o.bind next) := by
  cases h with
  | fails partial_ => exact .fails partial_
  | reaches holds => exact then_ _ holds

/-- Where the result is known, it has the property. -/
theorem Ends.apply {a : α} (h : Ends total post o) (result : o = some a) : post a := by
  cases h with
  | fails => cases result
  | reaches holds => exact Option.some.inj result ▸ holds

theorem Ends.exists (h : Ends true post o) : ∃ a, o = some a ∧ post a := by
  cases h with
  | fails partial_ => cases partial_
  | reaches holds => exact ⟨_, rfl, holds⟩

end Ends

theorem escapeWhere_cons (special : Char → Bool) (c : Char) (text : List Char) :
    escapeWhere special (c :: text) =
      (if special c then ['\\', c] else [c]) ++ escapeWhere special text :=
  List.flatMap_cons

namespace Reader

@[simp] theorem read_nil (reader : Reader) : reader.read [] = some reader := rfl

theorem read_cons (reader : Reader) (c : Char) (text : List Char) :
    reader.read (c :: text) = (reader.step c).bind fun reader => reader.read text := rfl

/-- A part was read, and perhaps its quantifier. -/
def IsReady (reader : Reader) : Prop := ∃ pending, reader.mode = .ready pending

/-- What is pending. -/
def pending (reader : Reader) : Pending :=
  match reader.mode with
  | .ready pending => pending
  | _ => .nothing

/-- The reader once nothing more belongs to what is pending. -/
def flushed (reader : Reader) : Reader := reader.flush reader.pending

/-- The reader after an atom. -/
def took (e : Expr) (reader : Reader) : Reader := reader.flushed.enter (.ready (.atom e))

/-- The reader with a further part in its branch. -/
def push (e : Expr) (reader : Reader) : Reader := { reader with level := reader.level.push e }

section Ready

variable {reader : Reader} {pending : Pending}

theorem isReady_took (e : Expr) (reader : Reader) : (reader.took e).IsReady := ⟨_, rfl⟩

theorem flushed_eq (ready : reader.mode = .ready pending) :
    reader.flushed = reader.flush pending := by
  simp only [flushed, Reader.pending, ready]

/-- What follows the pending part does not see what it was. -/
theorem atom_flush (e : Expr) :
    (reader.flush pending).atom .nothing e = (reader.flush pending).enter (.ready (.atom e)) := by
  simp [atom, flush, part, Level.push]

/-- A character without a meaning of its own stands for itself. Blanks and the sign for comments
have one only where the flag `x` holds. -/
theorem step_literal (ready : reader.IsReady) {c : Char}
    (spaced : reader.flags.spaced = false ∨ (isSpacing c = false ∧ c ≠ '#'))
    (plain : c ∉ syntaxCharacters) :
    reader.step c = some (reader.took (.character reader.flags.fold c)) := by
  obtain ⟨pending, ready⟩ := ready
  have visible : (reader.flags.spaced && isSpacing c) = false := by
    rcases spaced with spaced | ⟨spaced, _⟩ <;> simp [spaced]
  rw [took, flushed_eq ready, ← atom_flush]
  simp only [step, ready, stepReady, visible, Bool.false_eq_true, if_false]
  simp only [syntaxCharacters, List.mem_cons, List.not_mem_nil, or_false, not_or] at plain
  split <;> simp_all [literal] <;> rfl

/-- A backslash takes the meaning from any character that has one. -/
theorem read_escaped (ready : reader.IsReady) (spaced : reader.flags.spaced = false) {c : Char}
    (special : c ∈ syntaxCharacters) :
    reader.read ['\\', c] = some (reader.took (.character false c)) := by
  obtain ⟨pending, ready⟩ := ready
  have backslash : reader.step '\\' = some (reader.flushed.enter (.escape none)) := by
    rw [flushed_eq ready]
    simp [step, ready, stepReady, spaced]
  have afterwards :
      (reader.flushed.enter (.escape none)).step c = some (reader.took (.character false c)) := by
    rw [took, flushed_eq ready, ← atom_flush]
    simp only [syntaxCharacters, List.mem_cons, List.not_mem_nil, or_false] at special
    rcases special with rfl | rfl | rfl | rfl | rfl | rfl | rfl | rfl | rfl | rfl | rfl | rfl |
      rfl | rfl | rfl | rfl | rfl | rfl <;> rfl
  simp [read_cons, backslash, afterwards]

end Ready

/-! ### Parts and the groups around them -/

/-- Apart from the branch, the flags and what is pending, `next` differs from `reader` in the
number of groups that were opened in between. -/
structure Keeps (total : Bool) (groups : Nat) (reader next : Reader) : Prop where
  frames : next.frames = reader.frames
  opened : next.opened = reader.opened + groups
  names : next.names = reader.names
  referred : total = true → next.referred = reader.referred

/-- A text leads from `reader` to `next` and adds these parts to the branch. -/
structure Adds (total : Bool) (groups : Nat) (parts : List Expr) (reader next : Reader) : Prop
    extends Keeps total groups reader next where
  ready : next.IsReady
  level : next.flushed.level = parts.foldl (fun level e => level.push e) reader.flushed.level

/-- A text leads from `reader` to `next` and is an atom, to which a quantifier may belong. -/
structure Takes (total : Bool) (groups : Nat) (e : Expr) (reader next : Reader) : Prop
    extends Keeps total groups reader next where
  mode : next.mode = .ready (.atom e)
  level : next.level = reader.flushed.level

/-- Where a group ends or a branch begins, `next` is as good as `last`, which is between two
parts. It may itself be in a brace or a reference that turns out to be complete. -/
structure Resumes (next last : Reader) : Prop where
  ready : last.IsReady
  flags : last.flags = next.flags
  step : ∀ c, c = ')' ∨ c = '|' → next.step c = last.step c

/-- A text leads from `reader` to `next` and is all that a group holds. -/
def Fills (total : Bool) (groups : Nat) (e : Expr) (reader next : Reader) : Prop :=
  ∃ last, next.Resumes last ∧ Keeps total groups reader last ∧ last.flushed.level.expr = e

/-- The reader is where a group begins. -/
structure IsFresh (reader : Reader) : Prop where
  mode : reader.mode = .ready .nothing
  level : reader.level = {}

section Parts

variable {total : Bool} {m n : Nat} {e : Expr} {parts further : List Expr}
  {reader middle next : Reader}

theorem Keeps.refl (reader : Reader) : Keeps total 0 reader reader := ⟨rfl, rfl, rfl, fun _ => rfl⟩

theorem Keeps.trans (h₁ : Keeps total m reader middle) (h₂ : Keeps total n middle next) :
    Keeps total (m + n) reader next where
  frames := h₂.frames.trans h₁.frames
  opened := by rw [h₂.opened, h₁.opened, Nat.add_assoc]
  names := h₂.names.trans h₁.names
  referred := fun h => (h₂.referred h).trans (h₁.referred h)

theorem Resumes.refl (ready : next.IsReady) : next.Resumes next := ⟨ready, rfl, fun _ _ => rfl⟩

theorem IsFresh.flushed_level (fresh : reader.IsFresh) : reader.flushed.level = {} := by
  rw [flushed_eq fresh.mode, flush, fresh.level]
  rfl

theorem Adds.nil (ready : reader.IsReady) : Adds total 0 [] reader reader :=
  { Keeps.refl reader with ready, level := rfl }

theorem Adds.append (h₁ : Adds total m parts reader middle)
    (h₂ : Adds total n further middle next) : Adds total (m + n) (parts ++ further) reader next :=
  { h₁.toKeeps.trans h₂.toKeeps with
    ready := h₂.ready
    level := by rw [h₂.level, h₁.level, List.foldl_append] }

theorem Takes.adds (h : Takes total n e reader next) : Adds total n [e] reader next :=
  { h.toKeeps with
    ready := ⟨_, h.mode⟩
    level := by rw [flushed_eq h.mode]; simp [flush, part, h.level] }

theorem takes_took (total : Bool) (e : Expr) (reader : Reader) :
    Takes total 0 e reader (reader.took e) :=
  { Keeps.refl _ with mode := rfl, level := rfl }

end Parts

section Parts

variable {total : Bool} {m n : Nat} {e : Expr} {parts : List Expr} {reader next : Reader}

theorem branch_foldl_push (level : Level) (parts : List Expr) :
    parts.foldl (fun level e => level.push e) level =
      { level with branch := parts.foldl Expr.append level.branch } := by
  induction parts generalizing level with
  | nil => rfl
  | cons e parts ih => rw [List.foldl_cons, ih]; rfl

/-- Parts fill a group that nothing was in. -/
theorem Adds.fills (h : Adds total n parts reader next) (fresh : reader.IsFresh) :
    Fills total n (.join parts) reader next := by
  refine ⟨next, .refl h.ready, h.toKeeps, ?_⟩
  rw [h.level, fresh.flushed_level, branch_foldl_push]
  rfl

end Parts

/-! ### Texts that stand for themselves -/

end Reader

/-- What a character reads as after `escape`. A backslash takes the case folding away, which
means nothing to the characters that get one. -/
def Expr.spelled (fold : Bool) (c : Char) : Expr :=
  .character (fold && !syntaxCharacters.contains c) c

/-- What a text reads as, character by character. -/
def spelling (fold : Bool) (text : String) : List Expr := text.toList.map (Expr.spelled fold)

namespace Reader

theorem read_escapeWhere (total : Bool) {reader : Reader} (ready : reader.IsReady)
    (spaced : reader.flags.spaced = false) (text : List Char) :
    ∃ next, reader.read (escapeWhere syntaxCharacters.contains text) = some next ∧
      Adds total 0 (text.map (Expr.spelled reader.flags.fold)) reader next ∧
      next.flags = reader.flags := by
  induction text generalizing reader with
  | nil => exact ⟨reader, rfl, .nil ready, rfl⟩
  | cons c text ih =>
    have one : reader.read (if syntaxCharacters.contains c then ['\\', c] else [c]) =
        some (reader.took (.spelled reader.flags.fold c)) := by
      by_cases special : c ∈ syntaxCharacters
      · simp [special, read_escaped ready spaced special, Expr.spelled]
      · simp [special, read_cons, step_literal ready (.inl spaced) special, Expr.spelled]
    obtain ⟨next, others, adds, flags⟩ := ih (isReady_took (.spelled reader.flags.fold c) reader)
      spaced
    refine ⟨next, ?_, ?_, flags⟩
    · rw [escapeWhere_cons, read_append, one]
      exact others
    · exact (takes_took total _ reader).adds.append adds

/-! ### Groups -/

/-- The reader directly after what opens a group. -/
def opening (opener : Opener) (reader : Reader) : Reader :=
  { reader with
    frames := ⟨opener, reader.flushed.level⟩ :: reader.frames
    level := {}
    mode := .ready .nothing }

section Groups

variable {total : Bool} {n : Nat} {reader : Reader} {body : List Char}
  (post : Expr → Flags → Prop)

/-- The opener with the characters that open it. -/
inductive Opens : Opener → Flags → List Char → Prop where
  | plain (flags : Flags) : Opens (.plain flags) flags ['(', '?', ':']
  | ahead (flags : Flags) : Opens (.ahead false) flags ['(', '?', '=']

theorem read_opens {opener : Opener} {text : List Char} (ready : reader.IsReady)
    (opens : Opens opener reader.flags text) :
    reader.read text =
      if reader.frames.length < nestingLimit then some (reader.opening opener) else none := by
  obtain ⟨pending, ready⟩ := ready
  have paren : reader.step '(' = some (reader.enter (.opener pending [])) := by
    simp [step, ready, stepReady, show isSpacing '(' = false from rfl]
  have mark : (reader.enter (.opener pending [])).step '?' =
      some (reader.enter (.opener pending ['?'])) := rfl
  have base : (reader.enter (.opener pending ['?'])).flush pending = reader.flushed := by
    rw [flushed_eq ready]; rfl
  cases opens with
  | plain =>
    have colon : (reader.enter (.opener pending ['?'])).step ':' =
        reader.flushed.openGroup (.plain reader.flags) := by
      rw [← base]
      simp [step, enter, stepOpener, stepFlags, show isSpacing ':' = false from rfl, flush]
    simp only [read_cons, paren, mark, colon, Option.bind_some, read_nil, Option.bind_fun_some]
    rfl
  | ahead =>
    have equals : (reader.enter (.opener pending ['?'])).step '=' =
        reader.flushed.openGroup (.ahead false) := by
      rw [← base]; rfl
    simp only [read_cons, paren, mark, equals, Option.bind_some, read_nil, Option.bind_fun_some]
    rfl

/-- The flags after a group at whose end these ones hold. Only a group that captures nothing and
looks nowhere restores those from before it. -/
def flagsAfter (flags : Flags) : Opener → Flags
  | .plain restored => restored
  | _ => flags

theorem step_parenthesis {reader : Reader} {pending : Pending}
    (ready : reader.mode = .ready pending) : reader.step ')' = (reader.flush pending).closeGroup := by
  simp [step, ready, stepReady, show isSpacing ')' = false from rfl]

theorem step_close {next : Reader} {opener : Opener} {around : Level} {frames : List Frame}
    (ready : next.IsReady) (names : next.names = [])
    (here : next.frames = ⟨opener, around⟩ :: frames) :
    next.step ')' =
      some
        { next with
          mode := .ready (.atom (opener.wrap next.flushed.level.expr))
          level := around
          frames
          flags := flagsAfter next.flags opener } := by
  obtain ⟨pending, ready⟩ := ready
  rw [step_parenthesis ready, flushed_eq ready]
  simp only [closeGroup, flush, here, levelAllowed, names, List.isEmpty_nil, Bool.or_true, if_true]
  cases opener <;> rfl

/-- A body is read inside its group, and the parenthesis makes one atom of it. -/
theorem ends_close (opened : Reader) {opener : Opener} {m : Nat}
    (names : reader.names = [])
    (frames : opened.frames = ⟨opener, reader.flushed.level⟩ :: reader.frames)
    (opens : Keeps total m reader { opened with frames := reader.frames })
    (inside : Ends total (fun next => ∃ e, post e next.flags ∧ Fills total n e opened next)
      (opened.read body)) :
    Ends total (fun next => ∃ e flags, post e flags ∧ next.flags = flagsAfter flags opener ∧
      Takes total (m + n) (opener.wrap e) reader next) (opened.read (body ++ [')'])) := by
  rw [read_append]
  refine inside.bind fun next ⟨e, holds, last, resumes, keeps, expr⟩ => ?_
  have noNames : last.names = [] := keeps.names.trans (opens.names.trans names)
  rw [read_cons, resumes.step _ (.inl rfl),
    step_close resumes.ready noNames (keeps.frames.trans frames)]
  refine .reaches ⟨e, next.flags, holds, congrArg (flagsAfter · opener) resumes.flags, ?_, ?_, rfl⟩
  · exact ⟨rfl, (keeps.opened.trans (congrArg (· + n) opens.opened)).trans (Nat.add_assoc ..),
      keeps.names.trans opens.names, fun h => (keeps.referred h).trans (opens.referred h)⟩
  · rw [expr]

/-- A group that captures nothing, or looks ahead. -/
theorem ends_group {opener : Opener} {text : List Char} (ready : reader.IsReady)
    (names : reader.names = []) (room : total = true → reader.frames.length < nestingLimit)
    (opens : Opens opener reader.flags text)
    (inside : Ends total (fun next => ∃ e, post e next.flags ∧
      Fills total n e (reader.opening opener) next) ((reader.opening opener).read body)) :
    Ends total (fun next => ∃ e flags, post e flags ∧ next.flags = flagsAfter flags opener ∧
      Takes total n (opener.wrap e) reader next) (reader.read (text ++ (body ++ [')']))) := by
  rw [read_append, read_opens ready opens]
  split
  · have closed := ends_close (m := 0) post (reader.opening opener) names rfl
      ⟨rfl, rfl, rfl, fun _ => rfl⟩ inside
    rwa [Nat.zero_add] at closed
  · rename_i full
    exact .fails (Bool.eq_false_iff.2 fun h => full (room h))

/-- The reader directly after what opens a capture group. -/
def capturing (reader : Reader) : Reader :=
  { reader with opened := reader.opened + 1 }.opening (.capture (reader.opened + 1))

theorem read_paren (ready : reader.IsReady) (spaced : reader.flags.spaced = false) {c : Char}
    (notMark : c ≠ '?') (text : List Char) :
    reader.read ('(' :: c :: text) =
      if reader.frames.length < nestingLimit then reader.capturing.read (c :: text) else none := by
  obtain ⟨pending, ready⟩ := ready
  have paren : reader.step '(' = some (reader.enter (.opener pending [])) := by
    simp [step, ready, stepReady, show isSpacing '(' = false from rfl]
  have base : (reader.enter (.opener pending [])).flush pending = reader.flushed := by
    rw [flushed_eq ready]; rfl
  have opens : reader.flushed.openCapture =
      if reader.frames.length < nestingLimit then some reader.capturing else none := rfl
  have first : (reader.enter (.opener pending [])).step c =
      if reader.frames.length < nestingLimit then reader.capturing.step c else none := by
    simp only [step, enter, stepOpener, notMark, if_false, spaced, Bool.false_and,
      Bool.false_eq_true]
    rw [enter] at base
    rw [base, opens]
    by_cases room : reader.frames.length < nestingLimit
    · rw [if_pos room, if_pos room]
      rfl
    · rw [if_neg room, if_neg room]
  rw [read_cons, paren, Option.bind_some, read_cons, first]
  split
  · rfl
  · rfl

/-- A capture group takes the next number. -/
theorem ends_capture {c : Char} (ready : reader.IsReady) (spaced : reader.flags.spaced = false)
    (names : reader.names = []) (room : total = true → reader.frames.length < nestingLimit)
    (notMark : c ≠ '?')
    (inside : Ends total
      (fun next => ∃ e, post e next.flags ∧ Fills total n e reader.capturing next)
      (reader.capturing.read (c :: body))) :
    Ends total (fun next => ∃ e, post e next.flags ∧
      Takes total (n + 1) (.group (reader.opened + 1) e) reader next)
      (reader.read ('(' :: c :: (body ++ [')']))) := by
  rw [read_paren ready spaced notMark]
  split
  · have closed := ends_close (m := 1) post reader.capturing names rfl ⟨rfl, rfl, rfl, fun _ => rfl⟩
      inside
    refine closed.mono fun next ⟨e, flags, holds, same, takes⟩ => ⟨e, same ▸ holds, ?_⟩
    rwa [Nat.add_comm] at takes
  · rename_i full
    exact .fails (Bool.eq_false_iff.2 fun h => full (room h))

end Groups

end Reader

/-! ### Modifiers, edges and alternatives -/

/-- Where `$` holds. -/
def endEdge (lines : Bool) : Edge := if lines then .lineEnd else .textEnd

/-- What a modifier makes of an expression. -/
def Expr.modified (greedy : Bool) (e : Expr) : Modifier → Expr
  | .once => e
  | .optional => .loop 0 (some 1) greedy .refused e
  | .oneOrMore => .loop 1 none greedy .refused e
  | .zeroOrMore => .loop 0 none greedy .refused e

namespace Reader

section Signs

variable {total : Bool} {m n : Nat} {e : Expr} {parts : List Expr} {reader middle next : Reader}

/-- The sign after an atom makes a loop of it, which is greedy or not as the flags say. -/
theorem Takes.ends_modifier (takes : Takes total n e reader next) (modifier : Modifier)
    (repeatable : total = true → modifier ≠ .once → e.isRepeatable = true) :
    Ends total (fun last => last.flags = next.flags ∧
      ∃ greedy, Adds total n [e.modified greedy modifier] reader last)
      (next.read modifier.symbol.toList) := by
  -- A quantifier stays pending until it is known whether a further sign belongs to it.
  have counted (least : Nat) (most : Option Nat) (again : total = true → e.isRepeatable = true) :
      Ends total (fun last => last.flags = next.flags ∧
        ∃ greedy, Adds total n [.loop least most greedy .refused e] reader last)
        (next.quantify (.atom e) least most) := by
    simp only [quantify]
    split
    · refine .reaches ⟨rfl, next.flags.swapGreed == false,
        { takes.toKeeps with ready := ⟨_, rfl⟩, level := ?_ }⟩
      rw [flushed_eq rfl]
      simp only [flush, enter, part, loop, takes.level]
      rfl
    · rename_i notRepeatable
      exact .fails (Bool.eq_false_iff.2 fun h => notRepeatable (again h))
  have mark : next.step '?' = next.quantify (.atom e) 0 (some 1) := by
    simp [step, takes.mode, stepReady, show isSpacing '?' = false from rfl]
  have plus : next.step '+' = next.quantify (.atom e) 1 none := by
    simp [step, takes.mode, stepReady, show isSpacing '+' = false from rfl]
  have star : next.step '*' = next.quantify (.atom e) 0 none := by
    simp [step, takes.mode, stepReady, show isSpacing '*' = false from rfl]
  cases modifier with
  | once => exact .reaches ⟨rfl, true, takes.adds⟩
  | optional =>
    have ends := counted 0 (some 1) fun t => repeatable t Modifier.noConfusion
    simpa [Modifier.symbol, Expr.modified, read_cons, mark] using ends
  | oneOrMore =>
    have ends := counted 1 none fun t => repeatable t Modifier.noConfusion
    simpa [Modifier.symbol, Expr.modified, read_cons, plus] using ends
  | zeroOrMore =>
    have ends := counted 0 none fun t => repeatable t Modifier.noConfusion
    simpa [Modifier.symbol, Expr.modified, read_cons, star] using ends

theorem step_caret (ready : reader.IsReady) (lines : reader.flags.lines = false) :
    reader.step '^' = some (reader.took (.edge .textStart)) := by
  obtain ⟨pending, ready⟩ := ready
  rw [took, flushed_eq ready, ← atom_flush]
  simp [step, ready, stepReady, lines, show isSpacing '^' = false from rfl]

theorem step_dollar (ready : reader.IsReady) :
    reader.step '$' = some (reader.took (.edge (endEdge reader.flags.lines))) := by
  obtain ⟨pending, ready⟩ := ready
  rw [took, flushed_eq ready, ← atom_flush]
  simp [step, ready, stepReady, endEdge, show isSpacing '$' = false from rfl]

theorem step_dot (ready : reader.IsReady) : ∃ set, reader.step '.' = some (reader.took (.one set)) := by
  obtain ⟨pending, ready⟩ := ready
  refine ⟨if reader.flags.dotAll then .all else .compl (.single '\n'), ?_⟩
  rw [took, flushed_eq ready, ← atom_flush]
  simp [step, ready, stepReady, show isSpacing '.' = false from rfl]

/-- The reader with a further branch. -/
def split (reader : Reader) : Reader :=
  { reader.flushed with level := reader.flushed.level.split }

theorem step_bar (ready : reader.IsReady) : reader.step '|' = some reader.split := by
  obtain ⟨pending, ready⟩ := ready
  rw [split, flushed_eq ready]
  simp [step, ready, stepReady, show isSpacing '|' = false from rfl]

/-- A further branch is one more choice. -/
theorem Fills.alternative (keeps : Keeps total m reader middle)
    (expr : middle.flushed.level.expr = e) (after : Adds total n parts middle.split next) :
    Fills total (m + n) (.alt e (.join parts)) reader next := by
  have fresh : middle.split.flushed.level = middle.flushed.level.split := by
    rw [flushed_eq (show middle.split.mode = .ready .nothing from rfl)]
    simp [split, flush, part, Level.push]
  refine ⟨next, .refl after.ready,
    keeps.trans ⟨after.frames, after.opened, after.names, after.referred⟩, ?_⟩
  rw [after.level, fresh, branch_foldl_push]
  simp only [Level.split, Level.expr]
  rw [← expr]
  rfl

end Signs

end Reader

end PathTemplate
