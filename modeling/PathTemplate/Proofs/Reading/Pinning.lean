/-
Pinning shorthands changes which characters a pattern matches and nothing else.

A shorthand that is written out as a class, or inside of a class as a list of ranges, is read as
one more atom or as further members. After a comment that holds a bracket it may be written out as
mere characters, but even then a pattern stays complete. `Reader.Like.pinned` says that the
readers of a pattern before and after pinning are alike.
-/

import PathTemplate.Proofs.Reading.Likeness

namespace PathTemplate

/-! ### What shorthands are written out as -/

/-- The classes that stand for shorthands, without their opening bracket. -/
def writtenClasses : List (List Char) :=
  ["0-9]".toList, "^0-9]".toList, "0-9A-Za-z_]".toList, "^0-9A-Za-z_]".toList]

/-- The members that stand for shorthands inside a class, without the first one. -/
def writtenMembers : List (List Char) := ["-9".toList, "-9A-Za-z_".toList]

/-- The text stands for a shorthand. -/
def IsWritten (text : List Char) : Prop :=
  (∃ body ∈ writtenClasses, text = '[' :: body) ∨ ∃ members ∈ writtenMembers, text = '0' :: members

/-- Nothing that stands for a shorthand ends a comment, or escapes anything. -/
theorem IsWritten.silent {text : List Char} (written : IsWritten text) :
    ∀ c ∈ text, c ≠ ')' ∧ c ≠ '\\' ∧ c ≠ '\n' := by
  have all : text.all (fun c => c ≠ ')' ∧ c ≠ '\\' ∧ c ≠ '\n') = true := by
    simp only [IsWritten, writtenClasses, writtenMembers, List.mem_cons, List.not_mem_nil,
      or_false] at written
    rcases written with ⟨_, rfl | rfl | rfl | rfl, rfl⟩ | ⟨_, rfl | rfl, rfl⟩ <;> decide
  intro c member
  exact of_decide_eq_true (List.all_eq_true.1 all c member)

/-- The shorthands that are written out. -/
def pinnedShorthands : List Char := ['d', 'D', 'w', 'W']

theorem pinEscape_cases (inClass : Bool) (c : Char) :
    pinEscape inClass c = ['\\', c] ∨ (c ∈ pinnedShorthands ∧ IsWritten (pinEscape inClass c)) := by
  by_cases shorthand : c ∈ pinnedShorthands
  · cases inClass with
    | false =>
      refine .inr ⟨shorthand, .inl ?_⟩
      simp only [pinnedShorthands, List.mem_cons, List.not_mem_nil, or_false] at shorthand
      rcases shorthand with rfl | rfl | rfl | rfl
      · exact ⟨_, by decide, rfl⟩
      · exact ⟨_, by decide, rfl⟩
      · exact ⟨_, by decide, rfl⟩
      · exact ⟨_, by decide, rfl⟩
    | true =>
      simp only [pinnedShorthands, List.mem_cons, List.not_mem_nil, or_false] at shorthand
      rcases shorthand with rfl | rfl | rfl | rfl
      · exact .inr ⟨by decide, .inr ⟨_, List.mem_cons_self, rfl⟩⟩
      · exact .inl rfl
      · exact .inr ⟨by decide, .inr ⟨_, List.mem_cons_of_mem _ List.mem_cons_self, rfl⟩⟩
      · exact .inl rfl
  · left
    simp only [pinnedShorthands, List.mem_cons, List.not_mem_nil, or_false, not_or] at shorthand
    obtain ⟨_, _, _, _⟩ := shorthand
    unfold pinEscape
    split <;> simp_all

/-- Outside of classes shorthands are written out as classes. -/
theorem pinEscape_outside {c : Char} (shorthand : c ∈ pinnedShorthands) :
    ∃ body ∈ writtenClasses, pinEscape false c = '[' :: body := by
  simp only [pinnedShorthands, List.mem_cons, List.not_mem_nil, or_false] at shorthand
  rcases shorthand with rfl | rfl | rfl | rfl
  · exact ⟨_, by decide, rfl⟩
  · exact ⟨_, by decide, rfl⟩
  · exact ⟨_, by decide, rfl⟩
  · exact ⟨_, by decide, rfl⟩

theorem pinFrom_cons {inClass : Bool} {c : Char} {text : List Char} (notSlash : c ≠ '\\') :
    pinFrom inClass (c :: text) =
      c :: pinFrom (if c = '[' then true else if c = ']' then false else inClass) text := by
  rw [pinFrom.eq_def]
  split
  · contradiction
  · rename_i same
    exact absurd (List.cons.inj same).1 notSlash
  · rename_i same
    obtain ⟨rfl, rfl⟩ := List.cons.inj same
    rfl

/-! ### In classes -/

/-- The number of classes that a symbol opens which turns out to be inside of them. -/
def OpenClass.Stage.depth : OpenClass.Stage → Nat
  | .bracket | .named _ | .nameEnd _ => 1
  | _ => 0

/-- The symbol is a shorthand, or the first one of what it may be written out as. -/
def ClassSymbol.IsInert (symbol : ClassSymbol) : Prop :=
  symbol = .plain '0' ∨ symbol = .plain '[' ∨ ∃ set, symbol = .shorthand set

theorem OpenClass.Stage.Like.depth {stage stage' : OpenClass.Stage} (like : stage.Like stage') :
    stage'.depth = stage.depth := by
  cases like <;> rfl

theorem OpenClass.Stage.Like.noDash {stage stage' : OpenClass.Stage} (like : stage.Like stage')
    (noDash : ∀ first, stage ≠ .dash first) (first : OpenClass.Member) : stage' ≠ .dash first := by
  cases like with
  | same => exact noDash first
  | closed | spelled | dashClosed => exact nofun
  | dashSpelled set => exact absurd rfl (noDash _)

namespace ClassReader

variable {cls cls' : ClassReader}

/-- Shorthands, and what they may be written out as, begin a member of their own. -/
theorem step_inert (noDash : ∀ first, cls.current.stage ≠ .dash first) :
    ∃ base : ClassReader,
      (∀ symbol : ClassSymbol, symbol.IsInert → cls.step symbol = base.readFresh symbol) ∧
      base.fold = cls.fold ∧ base.outer.length = cls.outer.length + cls.current.stage.depth := by
  have settled (cls : ClassReader) (first : OpenClass.Member) (symbol : ClassSymbol)
      (inert : symbol.IsInert) : cls.readAfterMember first symbol =
        { cls with current := cls.current.settle }.readFresh symbol := by
    rcases inert with rfl | rfl | ⟨set, rfl⟩ <;> rfl
  have opened (cls : ClassReader) (caret : Bool) (symbol : ClassSymbol)
      (inert : symbol.IsInert) : cls.readOpened caret symbol = cls.readFresh symbol := by
    rcases inert with rfl | rfl | ⟨set, rfl⟩ <;> rfl
  have inside (characters : List Char) : ∃ base : ClassReader,
      (∀ symbol : ClassSymbol, symbol.IsInert →
        cls.readInside characters symbol = base.readFresh symbol) ∧
      base.fold = cls.fold ∧ base.outer.length = cls.outer.length + 1 := by
    simp only [readInside]
    split
    · exact ⟨_, settled _ _, rfl, rfl⟩
    · exact ⟨_, opened _ _, rfl, rfl⟩
  unfold step
  cases stage : cls.current.stage with
  | opened caret => exact ⟨cls, opened cls caret, rfl, rfl⟩
  | dashes =>
    refine ⟨cls, fun symbol inert => if_neg ?_, rfl, rfl⟩
    rcases inert with rfl | rfl | ⟨set, rfl⟩ <;> simp
  | between => exact ⟨cls, fun _ _ => rfl, rfl, rfl⟩
  | member first => exact ⟨_, settled cls first, rfl, rfl⟩
  | dash first => exact absurd stage (noDash first)
  | half sign =>
    refine ⟨_, fun symbol inert => Eq.trans ?_ (settled cls (.character sign) symbol inert),
      rfl, rfl⟩
    dsimp only
    split
    · rename_i operator found
      refine if_neg ?_
      rcases inert with rfl | rfl | ⟨set, rfl⟩
      · rintro ⟨⟩
        cases found
      · rintro ⟨⟩
        cases found
      · simp
    · rfl
  | bracket =>
    obtain ⟨base, same, rest⟩ := inside []
    refine ⟨base, fun symbol inert => Eq.trans (if_neg ?_) (same symbol inert), rest⟩
    rcases inert with rfl | rfl | ⟨set, rfl⟩ <;> simp
  | named text =>
    obtain ⟨base, same, rest⟩ := inside (':' :: text.reverse)
    refine ⟨base, fun symbol inert => Eq.trans ?_ (same symbol inert), rest⟩
    rcases inert with rfl | rfl | ⟨set, rfl⟩ <;> rfl
  | nameEnd text =>
    obtain ⟨base, same, rest⟩ := inside (':' :: text.reverse ++ [':'])
    refine ⟨base, fun symbol inert => Eq.trans ?_ (same symbol inert), rest⟩
    rcases inert with rfl | rfl | ⟨set, rfl⟩ <;> rfl

/-- Where a shorthand goes on it does not end a range. -/
theorem noDash_of_step_shorthand {set : CharSet} {result : Result}
    (h : cls.step (.shorthand set) = some result) (first : OpenClass.Member) :
    cls.current.stage ≠ .dash first := by
  intro stage
  have after : cls.step (.shorthand set) = cls.readAfterDash first (.shorthand set) := by
    unfold ClassReader.step
    rw [stage]
  rw [after] at h
  cases h

/-- Where the first reader takes a shorthand, the second one may take the beginning of what the
shorthand is written out as. -/
theorem Like.shorthand (like : cls.Like cls') {set : CharSet} {result : Result}
    (h : cls.step (.shorthand set) = some result) :
    ∃ next, result = .more next ∧ next.current.stage = .member (.shorthand set) ∧
      ∀ first stage, (first = '0' ∧ stage = .member (.character '0')) ∨
          (first = '[' ∧ stage = .bracket) →
        ∃ next', cls'.step (.plain first) = some (.more next') ∧ next.Alike next' ∧
          next'.current.stage = stage := by
  have noDash := noDash_of_step_shorthand h
  obtain ⟨base, same, -, outer⟩ := step_inert noDash
  rw [same _ (.inr (.inr ⟨set, rfl⟩))] at h
  cases h
  refine ⟨_, rfl, rfl, fun first stage begins => ?_⟩
  have inert : ClassSymbol.IsInert (.plain first) := by
    rcases begins with ⟨rfl, _⟩ | ⟨rfl, _⟩
    · exact .inl rfl
    · exact .inr (.inl rfl)
  obtain ⟨base', same', -, outer'⟩ := step_inert (like.stage.noDash noDash)
  have alike : base.Alike base' :=
    ⟨by rw [outer', outer, like.outer, like.stage.depth]⟩
  rw [same' _ inert]
  rcases begins with ⟨rfl, rfl⟩ | ⟨rfl, rfl⟩
  · exact ⟨_, rfl, ⟨alike.outer⟩, rfl⟩
  · exact ⟨_, rfl, ⟨alike.outer⟩, rfl⟩

end ClassReader

namespace Reader

variable {reader : Reader} {cls : ClassReader}

/-- A class that is written out inside of another one is read in full. -/
theorem read_writtenClass_nested (stage : cls.current.stage = .bracket) {body : List Char}
    (written : body ∈ writtenClasses) : ∃ members,
      (reader.enter (.bracket cls)).read body = some (reader.enter (.bracket
        { cls with current := { cls.current with members, stage := .between } })) := by
  obtain ⟨fold, outer, negated, members, left, _⟩ := cls
  cases stage
  simp only [writtenClasses, List.mem_cons, List.not_mem_nil, or_false] at written
  rcases written with rfl | rfl | rfl | rfl
  · exact ⟨_, rfl⟩
  · exact ⟨_, rfl⟩
  · exact ⟨_, rfl⟩
  · exact ⟨_, rfl⟩

/-- So are the members that stand for a shorthand. -/
theorem read_writtenMembers (stage : cls.current.stage = .member (.character '0'))
    {text : List Char} (written : text ∈ writtenMembers) : ∃ members stage,
      (stage = .between ∨ stage = .member (.character '_')) ∧
      (reader.enter (.bracket cls)).read text = some (reader.enter (.bracket
        { cls with current := { cls.current with members, stage } })) := by
  obtain ⟨fold, outer, negated, members, left, _⟩ := cls
  cases stage
  simp only [writtenMembers, List.mem_cons, List.not_mem_nil, or_false] at written
  rcases written with rfl | rfl
  · exact ⟨_, .between, .inl rfl, rfl⟩
  · exact ⟨_, .member (.character '_'), .inr rfl, rfl⟩

/-- A class that is written out outside of others is an atom. -/
theorem read_writtenClass (fold : Bool) {body : List Char} (written : body ∈ writtenClasses) :
    ∃ set, (reader.enter (.bracket { fold })).read body =
      some (reader.atom .nothing (.one set)) := by
  simp only [writtenClasses, List.mem_cons, List.not_mem_nil, or_false] at written
  rcases written with rfl | rfl | rfl | rfl
  · exact ⟨_, rfl⟩
  · exact ⟨_, rfl⟩
  · exact ⟨_, rfl⟩
  · exact ⟨_, rfl⟩

/-! ### Backslashes -/

/-- Where a backslash is read, and what the reader is afterwards. -/
inductive Escapes (reader : Reader) : Reader → Prop where
  | part {last : Reader} : reader.resolved = some last →
      Escapes reader (last.flushed.enter (.escape none))
  | member {cls : ClassReader} : reader.mode = .bracket cls →
      Escapes reader (reader.enter (.escape (some cls)))
  | comment {p : Pending} : reader.mode = .comment p false →
      Escapes reader (reader.enter (.comment p true))
  | lineComment {p : Pending} : reader.mode = .lineComment p → Escapes reader reader

theorem step_backslash {last : Reader} (resolved : reader.resolved = some last) :
    reader.step '\\' = some (last.flushed.enter (.escape none)) := by
  obtain ⟨pending, ready⟩ := isReady_resolved resolved
  rw [step_resolved resolved (show IsSign '\\' by unfold IsSign; decide), flushed_eq ready]
  simp [Reader.step, ready, Reader.stepReady, show isSpacing '\\' = false from rfl]

theorem Like.escapes {shared : Flags.Shared} {reader' next : Reader}
    (like : reader.Like shared reader')
    (h : reader.step '\\' = some next) (none : next.opened = 0)
    (quiet : reader.mode.isQuoting = false) : Escapes reader next := by
  have part {last : Reader} (resolved : reader.resolved = some last) : Escapes reader next := by
    rw [step_backslash resolved] at h
    exact Option.some.inj h ▸ .part resolved
  have modes := like.mode
  generalize mode : reader.mode = here at modes
  generalize reader'.mode = here' at modes
  cases modes with
  | ready => exact part (resolved_of_isReady ⟨_, mode⟩)
  | @brace atom _ text =>
    exact @part (reader.spellBrace atom text) (by simp only [Reader.resolved, mode])
  | reference number =>
    cases found : reader.referDecimal number with
    | some last => exact @part last (by simp only [Reader.resolved, mode, found])
    | none =>
      simp [Reader.step, mode, found, show '\\'.isDigit = false from rfl] at h
  | bracket =>
    simp only [Reader.step, mode, if_true, Option.some.injEq] at h
    exact h ▸ .member mode
  | comment escaped =>
    cases escaped with
    | true => rw [mode] at quiet; cases quiet
    | false =>
      simp only [Reader.step, mode, Bool.false_eq_true, if_true, if_false, Option.some.injEq] at h
      exact h ▸ .comment mode
  | lineComment =>
    simp only [Reader.step, mode] at h
    cases h
    exact .lineComment mode
  | escape => rw [mode] at quiet; cases quiet
  | opener text =>
    -- Directly after a parenthesis a backslash begins a capture group.
    simp only [Reader.step, mode, Reader.stepOpener] at h
    split at h
    · simp only [show ('\\' : Char) ≠ '?' by decide, show isSpacing '\\' = false from rfl,
        Bool.and_false, Bool.false_eq_true, if_false] at h
      split at h
      · rename_i opening
        obtain ⟨more, ready⟩ := openCapture_eq_some opening
        have later := (proceeds_stepReady ready h).opened
        omega
      · cases h
    · simp [Reader.stepFlags, show isSpacing '\\' = false from rfl, Flags.update?] at h
    · simp [show isGroupNameCharacter '\\' = false from rfl] at h
    · simp at h
    · cases h
  | groupName =>
    simp [Reader.step, mode, Reader.stepGroupName,
      show isGroupNameCharacter '\\' = false from rfl] at h
  | flags =>
    simp [Reader.step, mode, Reader.stepFlags, show isSpacing '\\' = false from rfl,
      Flags.update?] at h
  | referenceOpen => simp [Reader.step, mode] at h
  | referenceName text notSlash =>
    simp [Reader.step, mode, Reader.stepReferenceName,
      show isGroupNameCharacter '\\' = false from rfl, notSlash.symm] at h
  | hexOpen =>
    simp [Reader.step, mode, Reader.stepHexOpen,
      show hexValue? '\\' = Option.none from rfl] at h
  | hex => simp [Reader.step, mode, Reader.stepHex, show hexValue? '\\' = Option.none from rfl] at h
  | hexBrace =>
    simp [Reader.step, mode, Reader.stepHexBrace, show hexValue? '\\' = Option.none from rfl] at h

/-! ### Shorthands -/

/-- A character that means the same whatever the flags are. -/
def IsCalm (c : Char) : Prop := c ∉ syntaxCharacters ∧ isSpacing c = false ∧ c ≠ '#'

theorem read_calm (ready : reader.IsReady) {text : List Char} (calm : ∀ c ∈ text, IsCalm c) :
    reader.read text = some (reader.spelledOut reader.flags.fold text) := by
  induction text generalizing reader with
  | nil => rfl
  | cons c text ih =>
    obtain ⟨plain, visible⟩ := calm c List.mem_cons_self
    rw [read_cons, step_literal ready (.inr visible) plain, Option.bind_some,
      ih ⟨_, rfl⟩ fun d member => calm d (List.mem_cons_of_mem _ member)]
    rfl

theorem isCalm_writtenMembers {text : List Char} (written : text ∈ writtenMembers) :
    (∀ c ∈ text, IsCalm c) ∧ ∃ more, text = '-' :: more := by
  simp only [writtenMembers, List.mem_cons, List.not_mem_nil, or_false] at written
  have all : text.all (fun c => c ∉ syntaxCharacters ∧ isSpacing c = false ∧ c ≠ '#') = true := by
    rcases written with rfl | rfl <;> decide
  constructor
  · intro c member
    unfold IsCalm
    exact of_decide_eq_true (List.all_eq_true.1 all c member)
  · rcases written with rfl | rfl <;> exact ⟨_, rfl⟩

/-- Outside of classes, the members that stand for a shorthand are mere characters. The first one
may still belong to a brace, or to a reference. -/
theorem read_spelledMembers {last : Reader} (h : reader.resolved = some last)
    (zero : ∀ number, reader.mode = .reference number → number = 0) {text : List Char}
    (written : text ∈ writtenMembers) : ∃ front, (front = [] ∨ front = ['0']) ∧
      reader.read ('0' :: text) = some (last.spelledOut last.flags.fold (front ++ text)) := by
  obtain ⟨calm, more, rfl⟩ := isCalm_writtenMembers written
  have dash : IsSign '-' := by
    unfold IsSign
    decide
  have zeroCalm : IsCalm '0' := by
    unfold IsCalm
    decide
  cases mode : reader.mode with
  | ready pending =>
    rw [resolved_of_isReady ⟨_, mode⟩] at h
    cases h
    refine ⟨['0'], .inr rfl, read_calm ⟨_, mode⟩ fun c member => ?_⟩
    rcases List.mem_cons.1 member with rfl | member
    · exact zeroCalm
    · exact calm c member
  | brace atom text =>
    have first : reader.step '0' = some (reader.enter (.brace atom ('0' :: text))) := by
      simp [step, mode, stepBrace, show '0'.isDigit = true from rfl]
    have resolved' : (reader.enter (.brace atom ('0' :: text))).resolved =
        some ((reader.enter (.brace atom ('0' :: text))).spellBrace atom ('0' :: text)) := rfl
    simp only [resolved, mode] at h
    cases h
    refine ⟨['0'], .inr rfl, ?_⟩
    have spelled : (reader.enter (.brace atom ('0' :: text))).spellBrace atom ('0' :: text) =
        (reader.spellBrace atom text).took (.character reader.flags.fold '0') := by
      have chars (spaced : Bool) :
          braceText spaced ('0' :: text) = braceText spaced text ++ ['0'] := by
        cases spaced
        · simp [braceText]
        · simp [braceText, show isSpacing '0' = false from rfl]
      rw [spellBrace_eq, spellBrace_eq, chars]
      exact List.foldl_append
    have fold : (reader.spellBrace atom text).flags = reader.flags := by
      obtain ⟨mode, level, same⟩ := spellBrace_same atom text reader
      rw [same]
    rw [read_cons, first, Option.bind_some, read_resolved resolved' dash, spelled,
      read_calm (isReady_took ..) calm, fold]
    exact congrArg (fun flags : Flags => some (((reader.spellBrace atom text).took
      (.character reader.flags.fold '0')).spelledOut flags.fold ('-' :: more))) fold
  | reference number =>
    obtain rfl := zero number mode
    have first : reader.step '0' = some reader := by
      simp only [step, mode]
      cases reader
      cases mode
      rfl
    refine ⟨[], .inl rfl, ?_⟩
    rw [read_cons, first, Option.bind_some, read_resolved h dash,
      read_calm (isReady_resolved h) calm]
    rfl
  | _ => simp [resolved, mode] at h

section Units

variable {shared : Flags.Shared} {reader' : Reader}

/-- An atom may stand against several ones. -/
theorem Alike.took_spelledOut {last last' : Reader}
    (alike : last.flushed.Alike shared last'.flushed)
    (set : CharSet) (fold : Bool) {text : List Char} (nonempty : text ≠ []) :
    (last.took (.one set)).Like shared (last'.spelledOut fold text) := by
  induction text generalizing last' with
  | nil => exact absurd rfl nonempty
  | cons c text ih =>
    have next : last.flushed.Alike shared (last'.took (.character fold c)).flushed :=
      ⟨⟨alike.level.earlier, alike.level.branch.append_right rfl⟩, alike.frames, alike.flags,
        alike.opened, alike.names, alike.referred⟩
    cases text with
    | nil => exact alike.enter (.ready (.atom (Expr.resembles_one _ _)))
    | cons d text => exact ih next (List.cons_ne_nil _ _)

/-- A class that is written out between two parts is an atom. -/
theorem read_writtenClass_resolved {last : Reader} (resolved : reader.resolved = some last)
    {body : List Char} (written : body ∈ writtenClasses) :
    ∃ set, reader.read ('[' :: body) = some (last.took (.one set)) := by
  obtain ⟨set, whole⟩ := @read_writtenClass last.flushed last.flags.fold body written
  obtain ⟨pending, ready⟩ := isReady_resolved resolved
  have bracket : last.step '[' =
      some (last.flushed.enter (.bracket { fold := last.flags.fold })) := by
    rw [flushed_eq ready]
    simp [Reader.step, ready, Reader.stepReady, show isSpacing '[' = false from rfl]
  refine ⟨set, ?_⟩
  rw [read_resolved resolved (by unfold IsSign; decide), read_cons, bracket, Option.bind_some,
    whole, flushed_eq ready, atom_flush, Reader.took, flushed_eq ready]

/-- A shorthand outside of classes. -/
theorem Like.pinned_part (like : reader.Like shared reader') {last : Reader}
    (h : reader.resolved = some last) (none : last.opened = 0) (set : CharSet) {text : List Char}
    (written : IsWritten text) :
    ∃ next', reader'.read text = some next' ∧ (last.took (.one set)).Like shared next' := by
  obtain ⟨last', resolved', likes⟩ := like.resolved last h none
  rcases written with ⟨body, written, rfl⟩ | ⟨members, written, rfl⟩
  · obtain ⟨set', whole⟩ := read_writtenClass_resolved resolved' written
    exact ⟨_, whole, likes.took (Expr.resembles_one _ _)⟩
  · -- A reference is one to the whole match, which no further zero changes.
    have zero : ∀ number, reader'.mode = .reference number → number = 0 := by
      intro number mode'
      have modes := like.mode
      rw [mode'] at modes
      cases mode : reader.mode <;> rw [mode] at modes <;> cases modes
      simp only [Reader.resolved, mode, Reader.referDecimal, Reader.refer, like.opened.1] at h
      split at h
      · rename_i first
        exact Nat.le_zero.1 first
      · cases h
    obtain ⟨front, _, whole⟩ := read_spelledMembers resolved' zero written
    obtain ⟨_, more, rfl⟩ := isCalm_writtenMembers written
    exact ⟨_, whole, likes.flushed.toAlike.took_spelledOut _ _ (by simp)⟩

/-- A shorthand in a class. -/
theorem Like.pinned_member (like : reader.Like shared reader') {cls : ClassReader}
    (mode : reader.mode = .bracket cls) {set : CharSet} {next : Reader}
    (h : reader.classSymbol cls (.shorthand set) = some next) {text : List Char}
    (written : IsWritten text) :
    ∃ cls', reader'.read text = some (reader'.enter (.bracket cls')) ∧
      next.Like shared (reader'.enter (.bracket cls')) := by
  have modes := like.mode
  rw [mode] at modes
  cases mode' : reader'.mode <;> rw [mode'] at modes <;> cases modes
  rename_i cls' likes
  have begins {c : Char} {cls₁ : ClassReader} (notSlash : c ≠ '\\')
      (step : cls'.step (.plain c) = some (.more cls₁)) :
      reader'.step c = some (reader'.enter (.bracket cls₁)) := by
    simp only [Reader.step, mode', notSlash, if_false, Reader.classSymbol, step]
  unfold Reader.classSymbol at h
  cases result : cls.step (.shorthand set) with
  | none => simp [result] at h
  | some result =>
    obtain ⟨cls₁, rfl, stage, follow⟩ := likes.shorthand result
    rw [‹cls.step _ = _›] at h
    cases h
    rcases written with ⟨body, written, rfl⟩ | ⟨members, written, rfl⟩
    · obtain ⟨cls₁', step, alike, stage'⟩ := follow '[' _ (.inr ⟨rfl, rfl⟩)
      obtain ⟨_, whole⟩ := @read_writtenClass_nested reader' cls₁' stage' body written
      refine ⟨_, by rw [read_cons, begins (by decide) step]; exact whole,
        like.toAlike.enter (.bracket ?_)⟩
      exact ⟨⟨alike.outer⟩, by rw [stage]; exact .closed set⟩
    · obtain ⟨cls₁', step, alike, stage'⟩ := follow '0' _ (.inl ⟨rfl, rfl⟩)
      obtain ⟨_, _, last, whole⟩ := @read_writtenMembers reader' cls₁' stage' members written
      refine ⟨_, by rw [read_cons, begins (by decide) step]; exact whole,
        like.toAlike.enter (.bracket ?_)⟩
      refine ⟨⟨alike.outer⟩, ?_⟩
      rw [stage]
      rcases last with rfl | rfl
      · exact .closed set
      · exact .spelled set

/-- Characters that change nothing may all be read. -/
theorem read_silent {text : List Char} (silent : ∀ c ∈ text, reader.step c = some reader) :
    reader.read text = some reader := by
  induction text with
  | nil => rfl
  | cons c text ih =>
    rw [read_cons, silent c List.mem_cons_self]
    exact ih fun d member => silent d (List.mem_cons_of_mem _ member)

theorem step_shorthand {c : Char} (shorthand : c ∈ pinnedShorthands) :
    ∃ set, ∀ (reader : Reader) cls, reader.stepEscape cls c = reader.shorthand cls set := by
  simp only [pinnedShorthands, List.mem_cons, List.not_mem_nil, or_false] at shorthand
  rcases shorthand with rfl | rfl | rfl | rfl
  · exact ⟨_, fun _ _ => rfl⟩
  · exact ⟨_, fun _ _ => rfl⟩
  · exact ⟨_, fun _ _ => rfl⟩
  · exact ⟨_, fun _ _ => rfl⟩

/-- Between two parts a shorthand is an atom. -/
theorem step_shorthand_took {last : Reader} (ready : last.IsReady) {c : Char} {set : CharSet}
    (sets : ∀ (reader : Reader) cls, reader.stepEscape cls c = reader.shorthand cls set) :
    (last.flushed.enter (.escape none)).step c = some (last.took (.one set)) := by
  obtain ⟨pending, ready⟩ := ready
  rw [Reader.took, flushed_eq ready, ← atom_flush]
  exact sets _ _

/-- A backslash and a character are read in the same way after pinning. -/
theorem Like.pinEscape (like : reader.Like shared reader') (quiet : reader.mode.isQuoting = false)
    (inClass : Bool) (c : Char) :
    Tracks shared (reader.read ['\\', c]) (reader'.read (pinEscape inClass c)) := by
  rcases pinEscape_cases inClass c with kept | ⟨shorthand, written⟩
  · rw [kept]
    exact like.read _
  · intro next found none
    rw [read_cons] at found
    obtain ⟨middle, first, second⟩ := Option.bind_eq_some_iff.1 found
    simp only [read_cons, read_nil, Option.bind_fun_some] at second
    obtain ⟨set, sets⟩ := step_shorthand shorthand
    have more := (proceeds_of_step second).opened
    cases like.escapes first (by omega) quiet with
    | @part last resolved =>
      rw [step_shorthand_took (isReady_resolved resolved) sets] at second
      cases second
      exact like.pinned_part resolved none set written
    | @member cls mode =>
      obtain ⟨cls', whole, likes⟩ :=
        like.pinned_member mode ((sets _ (some cls)).symm.trans second) written
      exact ⟨_, whole, likes⟩
    | @comment p mode =>
      have modes := like.mode
      rw [mode] at modes
      cases mode' : reader'.mode <;> rw [mode'] at modes <;> cases modes
      rename_i pending
      refine ⟨reader', read_silent fun d member => ?_, ?_⟩
      · obtain ⟨notClose, notSlash, _⟩ := written.silent d member
        simp [Reader.step, mode', notClose, notSlash]
      · cases second
        exact ⟨⟨like.level, like.frames, like.flags, like.opened, like.names, like.referred⟩,
          by rw [mode']; exact .comment false pending⟩
    | @lineComment p mode =>
      have modes := like.mode
      rw [mode] at modes
      cases mode' : reader'.mode <;> rw [mode'] at modes <;> cases modes
      refine ⟨reader', read_silent fun d member => ?_, ?_⟩
      · obtain ⟨_, _, notBreak⟩ := written.silent d member
        simp [Reader.step, mode', notBreak]
      · have notBreak : c ≠ '\n' := by
          rintro rfl
          exact absurd shorthand (by decide)
        simp only [Reader.step, mode, notBreak, if_false] at second
        cases second
        exact like

theorem Like.quiet_of_escape (like : reader.Like shared reader')
    (quiet : reader.mode.isQuoting = false)
    {c : Char} {next : Reader} (h : reader.read ['\\', c] = some next) (none : next.opened = 0) :
    next.mode.isQuoting = false := by
  simp only [read_cons, read_nil, Option.bind_fun_some] at h
  obtain ⟨middle, first, second⟩ := Option.bind_eq_some_iff.1 h
  have proceeds := proceeds_of_step second
  have more := proceeds.opened
  refine Bool.eq_false_iff.2 fun quoting => ?_
  obtain ⟨rfl, silent⟩ := proceeds.quoting quoting
  cases like.escapes first (by omega) quiet with
  | part | member | comment => cases silent
  | lineComment =>
    rw [first] at second
    cases second
    rw [silent] at quoting
    cases quoting

/-- A pattern is read in the same way after pinning. -/
theorem Like.pinFrom (like : reader.Like shared reader') (quiet : reader.mode.isQuoting = false)
    (inClass : Bool) (text : List Char) :
    Tracks shared (reader.read text) (reader'.read (pinFrom inClass text)) := by
  fun_induction PathTemplate.pinFrom inClass text generalizing reader reader' with
  | case1 => exact like.tracks
  | case2 inClass c rest ih =>
    intro next found none
    rw [show '\\' :: c :: rest = ['\\', c] ++ rest from rfl, read_append] at found
    obtain ⟨middle, first, others⟩ := Option.bind_eq_some_iff.1 found
    have more := (rests_of_read others).opened
    change middle.opened ≤ next.opened at more
    obtain ⟨middle', first', likes⟩ := like.pinEscape quiet inClass c middle first (by omega)
    have still := like.quiet_of_escape quiet first (by omega)
    obtain ⟨next', others', likes'⟩ := ih likes still next others none
    exact ⟨next', by rw [read_append, first']; exact others', likes'⟩
  | case3 inClass c rest single inClass' =>
    rename_i ih
    intro next found none
    rw [read_cons] at found
    obtain ⟨middle, first, others⟩ := Option.bind_eq_some_iff.1 found
    have more := (rests_of_read others).opened
    change middle.opened ≤ next.opened at more
    obtain ⟨middle', first', likes⟩ := like.step c middle first (by omega)
    cases rest with
    | nil =>
      cases others
      exact ⟨middle', by rw [read_cons, first']; rfl, likes⟩
    | cons d rest =>
      have still : middle.mode.isQuoting = false := by
        refine Bool.eq_false_iff.2 fun quoting => ?_
        exact single d rest ((proceeds_of_step first).quoting quoting).1 rfl
      obtain ⟨next', others', likes'⟩ := ih likes still next others none
      exact ⟨next', by rw [read_cons, first']; exact others', likes'⟩

end Units

end Reader

end PathTemplate
