/-
What a pattern means once its shorthands are pinned.

A class stands for a shorthand, or inside of a class some ranges do. `Reader.admitsPinned` says
where the engine takes them for the shorthand, and `isPinnable` that it does so all over a pattern.

* `Reader.Narrows.pinEscape`: what stands for a shorthand is read as it, narrowed to ASCII.
* `Reader.Narrows.pinFrom`: so is a whole pattern, from any two readers of which one has read what
  the other one has, narrowed.
* `Expression.map_search?_pinShorthands`: a pinned pattern is accepted just where the pattern is,
  and finds what the pattern finds where `\d` and `\w` are those of ASCII.
-/

import PathTemplate.Proofs.Reading.Counting
import PathTemplate.Proofs.Reading.Narrowing
import PathTemplate.Proofs.Reading.Sizes

namespace PathTemplate

/-! ### What stands for a shorthand -/

/-- The set of a shorthand that is written out. -/
def shorthandSet : Char → CharSet
  | 'd' => .digit
  | 'D' => .compl .digit
  | 'w' => .word
  | _ => .compl .word

/-- The shorthand is one for digits, which have no letter case. -/
def isDigitShorthand (c : Char) : Bool := c = 'd' || c = 'D'

/-- The next character belongs to a class, an escape or a comment. -/
def Mode.isInside : Mode → Bool
  | .bracket _ | .escape _ | .comment .. | .lineComment _ => true
  | _ => false

theorem Mode.Narrows.isInside {mode mode' : Mode} (h : mode.Narrows mode') :
    mode'.isInside = mode.isInside := by
  cases h <;> rfl

/-- What closes a name is neither a backslash nor a bracket. -/
def Mode.ClosesPlainly : Mode → Prop
  | .referenceName close _ => close ≠ '\\' ∧ close ≠ '['
  | _ => True

namespace Reader

variable {reader reader' : Reader} {cls cls' : ClassReader} {c : Char}

theorem stepEscape_shorthand (shorthand : c ∈ pinnedShorthands) (reader : Reader)
    (cls : Option ClassReader) :
    reader.stepEscape cls c = reader.shorthand cls (shorthandSet c) := by
  simp only [pinnedShorthands, List.mem_cons, List.not_mem_nil, or_false] at shorthand
  rcases shorthand with rfl | rfl | rfl | rfl <;> rfl

/-- After a bracket the text is a class of this set, between two parts and inside of a class. -/
structure ReadsClass (fold : Bool) (body : List Char) (set : CharSet) : Prop where
  part : ∀ reader : Reader, (reader.enter (.bracket { fold })).read body =
    some (reader.atom .nothing (.one set))
  member : ∀ (reader : Reader) (cls : ClassReader), cls.fold = fold →
    cls.current.stage = .bracket → (reader.enter (.bracket cls)).read body =
      some (reader.enter (.bracket { cls with current := (cls.current.add set).enter .between }))

/-- Outside of classes a class stands for a shorthand, and has its characters. -/
theorem exists_readsClass (shorthand : c ∈ pinnedShorthands) {fold : Bool}
    (caseless : isDigitShorthand c = true ∨ fold = false) :
    ∃ body set, pinEscape false c = '[' :: body ∧ ReadsClass fold body set ∧
      (shorthandSet c).Narrows set := by
  have digits : CharSet.digit.Narrows (.foldIf fold (.union .none (.range '0' '9'))) := by
    intro d
    have plain : CharSet.digit.Narrows (.union .none (.range '0' '9')) := fun d => by
      simp [CharSet.narrowed, CharSet.contains]
    rw [plain.foldIf fold d, CharSet.narrowed_foldIf]
    exact CharSet.contains_foldIf_digits fold d
  have words : CharSet.word.Narrows (.foldIf false
      (.union (.union (.union (.union .none (.range '0' '9')) (.range 'A' 'Z')) (.range 'a' 'z'))
        (.single '_'))) := by
    intro d
    simp [CharSet.narrowed, CharSet.asciiWord, CharSet.ofRanges, CharSet.foldIf, CharSet.single,
      CharSet.contains, Bool.or_assoc]
  have member (body : List Char) (set : CharSet)
      (reads : ∀ (reader : Reader) (outer : List OpenClass) (negated : Bool) (members : CharSet)
        (left : Option (CharSet × OpenClass.Operator)),
        (reader.enter (.bracket ⟨fold, outer, negated, members, left, .bracket⟩)).read body =
          some (reader.enter
            (.bracket ⟨fold, outer, negated, members.union set, left, .between⟩)))
      (reader : Reader) (cls : ClassReader) (same : cls.fold = fold)
      (stage : cls.current.stage = .bracket) : (reader.enter (.bracket cls)).read body =
        some (reader.enter
          (.bracket { cls with current := (cls.current.add set).enter .between })) := by
    obtain ⟨_, outer, negated, members, left, _⟩ := cls
    cases stage
    cases same
    exact reads ..
  simp only [pinnedShorthands, List.mem_cons, List.not_mem_nil, or_false] at shorthand
  rcases shorthand with rfl | rfl | rfl | rfl
  · exact ⟨_, _, rfl, ⟨fun _ => rfl, member _ _ fun _ _ _ _ _ => rfl⟩, digits⟩
  · exact ⟨_, _, rfl, ⟨fun _ => rfl, member _ _ fun _ _ _ _ _ => rfl⟩, digits.compl⟩
  · obtain rfl := caseless.resolve_left (by decide)
    exact ⟨_, _, rfl, ⟨fun _ => rfl, member _ _ fun _ _ _ _ _ => rfl⟩, words⟩
  · obtain rfl := caseless.resolve_left (by decide)
    exact ⟨_, _, rfl, ⟨fun _ => rfl, member _ _ fun _ _ _ _ _ => rfl⟩, words.compl⟩

/-- In a class ranges stand for a shorthand. -/
theorem exists_reads_members (lower : c = 'd' ∨ c = 'w')
    (stage : cls.current.stage = .member (.character '0')) {current : OpenClass}
    (contents : current.Parallels cls.current) :
    ∃ text current', pinEscape true c = '0' :: text ∧
      (reader.enter (.bracket cls)).read text =
        some (reader.enter (.bracket { cls with current := current' })) ∧
      (current.enter (.member (.shorthand (shorthandSet c)))).Narrows current' := by
  obtain ⟨fold, outer, negated, members, left, _⟩ := cls
  cases stage
  rcases lower with rfl | rfl
  · exact ⟨_, _, rfl, rfl, .closed .digit rfl rfl
      ⟨contents.negated, contents.members.union (CharSet.narrows_narrowed .digit), contents.left⟩⟩
  · refine ⟨_, _, rfl, rfl, .spelled .word rfl rfl ⟨contents.negated, ?_, contents.left⟩⟩
    intro d
    have before : members.contains d = current.members.narrowed.contains d := contents.members d
    simp [OpenClass.add, OpenClass.enter, shorthandSet, CharSet.narrowed, CharSet.asciiWord,
      CharSet.ofRanges, CharSet.single, CharSet.contains, Bool.or_assoc, before]

/-! ### Backslashes and brackets -/

theorem read_pair (reader : Reader) (c : Char) :
    reader.read ['\\', c] = (reader.step '\\').bind fun escape => escape.step c := by
  simp only [read_cons, read_nil, Option.bind_fun_some]

/-- Backslashes and brackets begin a part at the same places. -/
inductive Begins (reader : Reader) : Prop where
  | nowhere : reader.step '\\' = none → reader.step '[' = none → Begins reader
  | part (base : Reader) : base.flags = reader.flags →
      reader.step '\\' = some (base.enter (.escape none)) →
      reader.step '[' = some (base.enter (.bracket { fold := reader.flags.fold })) → Begins reader

theorem begins_of_resolved {last : Reader} (resolved : reader.resolved = some last) :
    Begins reader := by
  obtain ⟨mode, level, referred, same⟩ := resolved_same resolved
  have flags : last.flags = reader.flags := by rw [same]
  obtain ⟨pending, ready⟩ := isReady_resolved resolved
  refine .part last.flushed flags (step_backslash resolved) ?_
  rw [step_resolved resolved (by unfold IsSign; decide), flushed_eq ready, ← flags]
  simp [Reader.step, ready, stepReady, show isSpacing '[' = false from rfl]

/-- Where a parenthesis opens a group that captures, the first character in it may begin a part. -/
theorem begins_of_capture {pending : Pending} (mode : reader.mode = .opener pending []) :
    Begins reader := by
  have opens {c : Char} (mark : c ≠ '?') (visible : isSpacing c = false) : reader.step c =
      (reader.flush pending).openCapture.bind fun opened => opened.stepReady .nothing c := by
    simp only [step, mode]
    exact stepOpener_capture reader mark (by rw [visible, Bool.and_false])
  have slash := opens (show '\\' ≠ '?' by decide) rfl
  have bracket := opens (show '[' ≠ '?' by decide) rfl
  cases capture : (reader.flush pending).openCapture with
  | none =>
    rw [capture] at slash bracket
    exact .nowhere slash bracket
  | some opened =>
    rw [capture, Option.bind_some] at slash bracket
    have ready : opened.mode = .ready .nothing := (openCapture_eq_some capture).2
    have flags : opened.flags = reader.flags := by
      simp only [openCapture, openGroup] at capture
      split at capture <;> cases capture
      rfl
    refine .part (opened.flush .nothing) flags ?_ ?_
    · simp [slash, stepReady, show isSpacing '\\' = false from rfl]
    · simp [bracket, stepReady, show isSpacing '[' = false from rfl, flags]

section Sign

variable {c : Char} (sign : c = '\\' ∨ c = '[')
include sign

theorem isGroupNameCharacter_sign : isGroupNameCharacter c = false := by
  rcases sign with rfl | rfl <;> rfl

theorem stepFlags_sign (reader : Reader) (flags : Flags) (off dash begun : Bool) :
    reader.stepFlags flags off dash begun c = none := by
  rcases sign with rfl | rfl
  · simp [stepFlags, show isSpacing '\\' = false from rfl, Flags.update?]
  · simp [stepFlags, show isSpacing '[' = false from rfl, Flags.update?]

/-- What follows a question mark is neither a backslash nor a bracket. -/
theorem stepOpener_sign (reader : Reader) (pending : Pending) (first : Char) (text : List Char) :
    reader.stepOpener pending (first :: text) c = none := by
  have flags := stepFlags_sign sign (reader.flush pending) reader.flags false false false
  have name := isGroupNameCharacter_sign sign
  unfold stepOpener
  rcases sign with rfl | rfl
  all_goals
    split
    · rename_i none
      exact absurd none (List.cons_ne_nil _ _)
    · exact flags
    · simp [name]
    · rfl
    · rfl

end Sign

theorem begins (outside : reader.mode.isInside = false) (closes : reader.mode.ClosesPlainly) :
    Begins reader := by
  have nowhere (fails : ∀ c, c = '\\' ∨ c = '[' → reader.step c = none) : Begins reader :=
    .nowhere (fails _ (.inl rfl)) (fails _ (.inr rfl))
  cases mode : reader.mode with
  | ready => exact begins_of_resolved (resolved_of_isReady ⟨_, mode⟩)
  | brace atom text =>
    have resolved : reader.resolved = some (reader.spellBrace atom text) := by
      simp only [resolved, mode]
    exact begins_of_resolved resolved
  | reference number =>
    cases found : reader.referDecimal number with
    | some last =>
      have resolved : reader.resolved = some last := by simp only [resolved, mode, found]
      exact begins_of_resolved resolved
    | none =>
      refine nowhere fun c sign => ?_
      rcases sign with rfl | rfl <;> simp only [step, mode, found] <;> rfl
  | opener pending text =>
    cases text with
    | nil => exact begins_of_capture mode
    | cons first text =>
      refine nowhere fun c sign => ?_
      simp only [step, mode, stepOpener_sign sign]
  | referenceName close text =>
    rw [mode] at closes
    refine nowhere fun c sign => ?_
    have other : c ≠ close := by
      rcases sign with rfl | rfl
      · exact closes.1.symm
      · exact closes.2.symm
    simp [step, mode, stepReferenceName, isGroupNameCharacter_sign sign, other]
  | groupName text =>
    refine nowhere fun c sign => ?_
    have other : c ≠ '>' := by rcases sign with rfl | rfl <;> decide
    simp [step, mode, stepGroupName, isGroupNameCharacter_sign sign, other]
  | flags flags off dash begun =>
    exact nowhere fun c sign => by simp only [step, mode, stepFlags_sign sign]
  | referenceOpen | hexOpen | hex | hexBrace =>
    refine nowhere fun c sign => ?_
    rcases sign with rfl | rfl <;> simp only [step, mode] <;> rfl
  | bracket | escape | comment | lineComment => rw [mode] at outside; cases outside

/-- A backslash and a further character leave no escape open. -/
theorem quiet_of_pair (closes : reader.mode.ClosesPlainly) (quiet : reader.mode.isQuoting = false)
    {next : Reader} (h : reader.read ['\\', c] = some next) : next.mode.isQuoting = false := by
  rw [read_pair] at h
  obtain ⟨middle, first, second⟩ := Option.bind_eq_some_iff.1 h
  refine Bool.eq_false_iff.2 fun quoting => ?_
  obtain ⟨-, silent⟩ := (proceeds_of_step second).quoting quoting
  cases inside : reader.mode.isInside with
  | false =>
    cases begins inside closes with
    | nowhere slash => rw [slash] at first; cases first
    | part base _ slash _ =>
      rw [slash] at first
      cases first
      cases silent
  | true =>
    cases mode : reader.mode with
    | bracket cls =>
      simp only [step, mode, if_true, Option.some.injEq] at first
      subst first
      cases silent
    | comment pending escaped =>
      rw [mode] at quiet
      cases escaped with
      | true => cases quiet
      | false =>
        simp only [step, mode, Bool.false_eq_true, if_true, if_false, Option.some.injEq] at first
        subst first
        cases silent
    | lineComment pending =>
      have stays : middle = reader := by
        simpa [step, mode] using first.symm
      subst stays
      simp only [step, mode] at second
      split at second <;> cases second
      · cases quoting
      · rw [mode] at quoting
        cases quoting
    | escape => rw [mode] at quiet; cases quiet
    | _ => rw [mode] at inside; cases inside

/-! ### Shorthands -/

theorem Narrows.closes (h : reader.Narrows reader') :
    reader.mode.ClosesPlainly ∧ reader'.mode.ClosesPlainly := by
  have modes := h.mode
  generalize reader.mode = mode at modes
  generalize reader'.mode = mode' at modes
  cases modes with
  | referenceName _ notSlash notBracket => exact ⟨⟨notSlash, notBracket⟩, notSlash, notBracket⟩
  | _ => exact ⟨trivial, trivial⟩

/-- A shorthand outside of classes. -/
theorem Narrows.pinned_part (h : reader.Narrows reader') (outside : reader.mode.isInside = false)
    (free : reader.mode.isStuck = false) (shorthand : c ∈ pinnedShorthands)
    (caseless : isDigitShorthand c = true ∨ reader.flags.fold = false) :
    Option.Rel Narrows (reader.read ['\\', c]) (reader'.read (pinEscape false c)) := by
  obtain ⟨body, set, written, reads, sets⟩ := exists_readsClass shorthand caseless
  rw [read_pair, written, read_cons]
  have other : ∀ cls, reader.mode = .escape cls → '\\' ∉ pinnedShorthands := fun _ _ => by decide
  have steps := h.step other (by simp [free])
  cases begins outside h.closes.1 with
  | nowhere slash _ =>
    rw [slash] at steps ⊢
    cases begins (h.mode.isInside.trans outside) h.closes.2 with
    | nowhere _ bracket => 
      rw [bracket]
      exact .none
    | part base _ slash' _ =>
      rw [slash'] at steps
      cases steps
  | part base _ slash _ =>
    rw [slash] at steps ⊢
    cases begins (h.mode.isInside.trans outside) h.closes.2 with
    | nowhere slash' _ =>
      rw [slash'] at steps
      cases steps
    | part base' _ slash' bracket =>
      rw [slash'] at steps
      cases steps with
      | some narrows =>
        obtain ⟨⟨level, frames, flags, opened, names, referred⟩, _⟩ := narrows
        have bases : base.Parallels base' := ⟨level, frames, flags, opened, names, referred⟩
        have first : (base.enter (.escape none)).step c =
            some (base.atom .nothing (.one (shorthandSet c))) := stepEscape_shorthand shorthand _ _
        rw [bracket, Option.bind_some, Option.bind_some, h.flags, reads.part, first]
        exact .some (bases.one sets)

end Reader

/-- In both classes shorthands, and what may stand for them, begin a member at the same place. -/
theorem ClassReader.Narrows.inert {cls cls' : ClassReader} (h : cls.Narrows cls')
    (noDash : ∀ first, cls.current.stage ≠ .dash first) :
    ∃ base base' : ClassReader, base.Parallels base' ∧ base.current.Parallels base'.current ∧
      base.fold = cls.fold ∧
      (∀ symbol : ClassSymbol, symbol.IsInert → cls.step symbol = base.readFresh symbol) ∧
      ∀ symbol : ClassSymbol, symbol.IsInert → cls'.step symbol = base'.readFresh symbol := by
  have noDash' : ∀ first, cls'.current.stage ≠ .dash first := by
    intro first stage'
    cases h.current with
    | same _ stage => exact noDash first (stage.symm.trans stage')
    | closed _ _ stage | spelled _ _ stage | dashClosed _ _ stage =>
      rw [stage] at stage'
      cases stage'
    | dashSpelled set stage => exact noDash _ stage
  have free : cls.isStuck = false := by
    unfold ClassReader.isStuck
    split
    · exact absurd ‹_› (noDash _)
    · rfl
  obtain ⟨base, reads, fold, _⟩ := ClassReader.step_inert noDash
  obtain ⟨base', reads', _⟩ := ClassReader.step_inert noDash'
  have zero : ClassSymbol.IsInert (.plain '0') := .inl rfl
  have fixed : ClassSymbol.IsFixed (.plain '0') := trivial
  have steps := h.step fixed (by simp [free])
  rw [reads _ zero, reads' _ zero] at steps
  -- A zero is a member at once, so that the classes hold the same before it.
  cases steps with
  | some results =>
    cases results with
    | more next =>
      refine ⟨base, base', ⟨next.fold, next.outer⟩, ?_, fold, reads, reads'⟩
      cases next.current with
      | same contents => exact ⟨contents.negated, contents.members, contents.left⟩
      | closed _ stage | spelled _ stage | dashClosed _ stage | dashSpelled _ stage => cases stage

namespace Reader

variable {reader reader' : Reader} {cls cls' : ClassReader} {c : Char}

/-- A shorthand in a class. -/
theorem Narrows.pinned_member (h : reader.Narrows reader') (mode : reader.mode = .bracket cls)
    (shorthand : c ∈ pinnedShorthands) (caseless : isDigitShorthand c = true ∨ cls.fold = false)
    {inClass : Bool} (lower : inClass = true → c = 'd' ∨ c = 'w')
    (goes : (cls.step (.shorthand (shorthandSet c))).isSome = true) :
    Option.Rel Narrows (reader.read ['\\', c]) (reader'.read (pinEscape inClass c)) := by
  have modes := h.mode
  rw [mode] at modes
  cases mode' : reader'.mode <;> rw [mode'] at modes <;> cases modes
  rename_i cls' classes
  obtain ⟨result, found⟩ := Option.isSome_iff_exists.1 goes
  obtain ⟨base, base', around, contents, fold, reads, reads'⟩ :=
    classes.inert (ClassReader.noDash_of_step_shorthand found)
  have inert : ClassSymbol.IsInert (.shorthand (shorthandSet c)) := .inr (.inr ⟨_, rfl⟩)
  have first : reader.read ['\\', c] = some (reader.enter (.bracket
      { base with current := base.current.enter (.member (.shorthand (shorthandSet c))) })) := by
    have slash : reader.step '\\' = some (reader.enter (.escape (some cls))) := by
      simp [Reader.step, mode]
    rw [read_pair, slash, Option.bind_some]
    refine (stepEscape_shorthand shorthand _ _).trans ?_
    simp only [Reader.shorthand, Reader.classSymbol, reads _ inert]
    rfl
  have begins {d : Char} {next : ClassReader} (notSlash : d ≠ '\\')
      (step : base'.readFresh (.plain d) = some (.more next))
      (inert : ClassSymbol.IsInert (.plain d)) (text : List Char) :
      reader'.read (d :: text) = (reader'.enter (.bracket next)).read text := by
    rw [read_cons, show reader'.step d = some (reader'.enter (.bracket next)) by
      simp only [Reader.step, mode', notSlash, if_false, Reader.classSymbol, reads' _ inert, step]]
    rfl
  cases inClass with
  | false =>
    obtain ⟨body, set, written, readsClass, sets⟩ := exists_readsClass shorthand caseless
    have whole : reader'.read (pinEscape false c) = some (reader'.enter (.bracket
        { base' with current := (base'.current.add set).enter .between })) := by
      rw [written, begins (by decide) rfl (.inr (.inl rfl))]
      exact readsClass.member _ { base' with current := base'.current.enter .bracket }
        (around.fold.trans fold) rfl
    rw [first, whole]
    exact .some (h.enter (.bracket ⟨⟨around.fold, around.outer⟩,
      .closed _ rfl rfl ((contents.add sets).enter _ _)⟩))
  | true =>
    have zero : base.current.Parallels (base'.current.enter (.member (.character '0'))) :=
      ⟨contents.negated, contents.members, contents.left⟩
    obtain ⟨text, current', written, members, narrows⟩ := @exists_reads_members reader'
      { base' with current := base'.current.enter (.member (.character '0')) } c (lower rfl) rfl
      _ zero
    rw [first, written, begins (by decide) rfl (.inl rfl), members]
    exact .some (h.enter (.bracket ⟨⟨around.fold, around.outer⟩, narrows⟩))

/-- In a comment nothing that is pinned is read. -/
theorem read_in_comment {pending : Pending} (inClass : Bool) (shorthand : c ∈ pinnedShorthands)
    (mode : reader.mode = .comment pending false ∨ reader.mode = .lineComment pending) :
    reader.read ['\\', c] = some reader ∧ reader.read (pinEscape inClass c) = some reader := by
  have pair : reader.read ['\\', c] = some reader := by
    have notBreak : c ≠ '\n' := by
      rintro rfl
      exact absurd shorthand (by decide)
    rcases mode with mode | mode
    · rw [read_pair]
      obtain ⟨_, level, frames, flags, opened, names, referred⟩ := reader
      cases mode
      rfl
    · rw [read_pair]
      simp [step, mode, notBreak]
  refine ⟨pair, ?_⟩
  rcases pinEscape_cases inClass c with kept | ⟨_, written⟩
  · rw [kept, pair]
  · refine read_silent fun d member => ?_
    obtain ⟨notClose, notSlash, notBreak⟩ := written.silent d member
    rcases mode with mode | mode
    · simp [step, mode, notClose, notSlash]
    · simp [step, mode, notBreak]

/-- What stands for the shorthand `c` means the same here as the shorthand; `inClass` says that the
last bracket opened a class. A shorthand for word characters needs letter case to matter, and in a
class it must not follow a dash. -/
def admitsPinned (inClass : Bool) (c : Char) (reader : Reader) : Bool :=
  match reader.mode with
  | .comment .. | .lineComment _ => true
  | .bracket cls =>
    (isDigitShorthand c || !cls.fold) && (!inClass || c = 'd' || c = 'w') &&
      (cls.step (.shorthand (shorthandSet c))).isSome
  | mode => !mode.inClass && !inClass && (isDigitShorthand c || !reader.flags.fold)

theorem isStuck_of_inClass {mode : Mode} (outside : mode.inClass = false) :
    mode.isStuck = false := by
  cases mode with
  | bracket => cases outside
  | escape cls | hexOpen cls | hex cls | hexBrace cls =>
    cases cls with
    | none => rfl
    | some => cases outside
  | _ => rfl

/-- Where it is admitted, what stands for a shorthand is read as the shorthand, narrowed. -/
theorem Narrows.pinEscape (h : reader.Narrows reader') (quiet : reader.mode.isQuoting = false)
    (shorthand : c ∈ pinnedShorthands) {inClass : Bool}
    (admitted : reader.admitsPinned inClass c = true) :
    Option.Rel Narrows (reader.read ['\\', c])
      (reader'.read (PathTemplate.pinEscape inClass c)) := by
  have modes := h.mode
  unfold admitsPinned at admitted
  split at admitted
  · rename_i pending escaped mode
    obtain rfl : escaped = false := by
      rw [mode] at quiet
      cases escaped <;> first | rfl | cases quiet
    rw [mode] at modes
    cases mode' : reader'.mode <;> rw [mode'] at modes <;> cases modes
    rw [(read_in_comment inClass shorthand (.inl mode)).1,
      (read_in_comment inClass shorthand (.inl mode')).2]
    exact .some h
  · rename_i pending mode
    rw [mode] at modes
    cases mode' : reader'.mode <;> rw [mode'] at modes <;> cases modes
    rw [(read_in_comment inClass shorthand (.inr mode)).1,
      (read_in_comment inClass shorthand (.inr mode')).2]
    exact .some h
  · rename_i cls mode
    simp only [Bool.and_eq_true, Bool.or_eq_true, Bool.not_eq_true', decide_eq_true_eq] at admitted
    obtain ⟨⟨caseless, lower⟩, goes⟩ := admitted
    refine h.pinned_member mode shorthand caseless (fun inside => ?_) goes
    rw [inside] at lower
    simpa using lower
  · rename_i notComment notLine notBracket
    simp only [Bool.and_eq_true, Bool.or_eq_true, Bool.not_eq_true'] at admitted
    obtain ⟨⟨outside, rfl⟩, caseless⟩ := admitted
    refine h.pinned_part ?_ (isStuck_of_inClass outside) shorthand caseless
    cases mode : reader.mode with
    | bracket cls => exact absurd mode (notBracket cls)
    | comment pending escaped => exact absurd mode (notComment pending escaped)
    | lineComment pending => exact absurd mode (notLine pending)
    | escape => rw [mode] at quiet; cases quiet
    | _ => rfl

/-! ### Whole patterns -/

/-- `rest` holds after the character, if the reader goes on. Where a shorthand and a dash stand in
the way, it has to. -/
def goesOn (c : Char) (rest : Reader → Bool) (reader : Reader) : Bool :=
  match reader.step c with
  | some next => rest next
  | none => !reader.mode.isStuck

/-- Where the pattern has shorthands for digits and word characters, what stands for them means the
same; `inClass` says that the last bracket opened a class. Shorthands and dashes are no ranges. -/
def isPinnableFrom (reader : Reader) (inClass : Bool) : List Char → Bool
  | [] => true
  | '\\' :: c :: text =>
    (c ∉ pinnedShorthands || reader.admitsPinned inClass c) &&
      reader.goesOn '\\' fun escape => escape.goesOn c fun next => next.isPinnableFrom inClass text
  | c :: text =>
    reader.goesOn c fun next =>
      next.isPinnableFrom (if c = '[' then true else if c = ']' then false else inClass) text

theorem free_of_goesOn {rest : Reader → Bool} (goes : reader.goesOn c rest = true) :
    reader.mode.isStuck = true → (reader.step c).isSome = true := by
  intro stuck
  unfold goesOn at goes
  cases step : reader.step c with
  | none =>
    simp only [step, stuck] at goes
    cases goes
  | some => rfl

theorem of_goesOn {rest : Reader → Bool} (goes : reader.goesOn c rest = true) {next : Reader}
    (step : reader.step c = some next) : rest next = true := by
  simpa only [goesOn, step] using goes

theorem not_escape_of_quiet (quiet : reader.mode.isQuoting = false) (cls : Option ClassReader)
    (mode : reader.mode = .escape cls) : c ∉ pinnedShorthands := by
  rw [mode] at quiet
  cases quiet

/-- A pattern reads, once it is pinned, as what it reads as itself, narrowed. -/
theorem Narrows.pinFrom (h : reader.Narrows reader') (quiet : reader.mode.isQuoting = false)
    {inClass : Bool} {text : List Char} (pinnable : reader.isPinnableFrom inClass text = true) :
    Option.Rel Narrows (reader.read text) (reader'.read (PathTemplate.pinFrom inClass text)) := by
  fun_induction PathTemplate.pinFrom inClass text generalizing reader reader' with
  | case1 => exact .some h
  | case2 inClass c text ih =>
    rw [isPinnableFrom, Bool.and_eq_true] at pinnable
    obtain ⟨admitted, goes⟩ := pinnable
    have pair : Option.Rel Narrows (reader.read ['\\', c])
        (reader'.read (PathTemplate.pinEscape inClass c)) := by
      by_cases shorthand : c ∈ pinnedShorthands
      · exact h.pinEscape quiet shorthand (by simpa [shorthand] using admitted)
      · have kept := (pinEscape_cases inClass c).resolve_right fun both => shorthand both.1
        rw [kept, read_pair, read_pair]
        refine rel_bind (h.step (not_escape_of_quiet quiet) (free_of_goesOn goes))
          fun escape escape' first _ escapes => ?_
        exact escapes.step (fun _ _ => shorthand) (free_of_goesOn (of_goesOn goes first))
    rw [show '\\' :: c :: text = ['\\', c] ++ text from rfl, read_append, read_append]
    refine rel_bind pair fun next next' first _ narrows => ?_
    have still := quiet_of_pair h.closes.1 quiet first
    rw [read_pair] at first
    obtain ⟨escape, slash, second⟩ := Option.bind_eq_some_iff.1 first
    exact ih narrows still (of_goesOn (of_goesOn goes slash) second)
  | case3 inClass c text single inClass' =>
    rename_i ih
    have goes : reader.goesOn c (fun next => next.isPinnableFrom inClass' text) = true := by
      rw [isPinnableFrom.eq_def] at pinnable
      split at pinnable
      · contradiction
      · rename_i same
        obtain ⟨rfl, rfl⟩ := List.cons.inj same
        exact absurd rfl (single _ _ rfl)
      · rename_i same
        obtain ⟨rfl, rfl⟩ := List.cons.inj same
        exact pinnable
    rw [read_cons, read_cons]
    refine rel_bind (h.step (not_escape_of_quiet quiet) (free_of_goesOn goes))
      fun next next' first _ narrows => ?_
    have pinnable' := of_goesOn goes first
    cases text with
    | nil => exact .some narrows
    | cons d text =>
      have still : next.mode.isQuoting = false := by
        refine Bool.eq_false_iff.2 fun quoting => ?_
        exact single d text ((proceeds_of_step first).quoting quoting).1 rfl
      exact ih narrows still pinnable'

theorem narrows_self (flags : Flags) : ({ flags } : Reader).Narrows { flags } :=
  ⟨⟨⟨.none, .empty⟩, .nil, rfl, rfl, rfl, rfl⟩, .ready .nothing⟩

end Reader

/-- What stands for the shorthands of the pattern, once they are pinned, means the same as they do.
A pattern for which this fails has a shorthand next to a dash that would make it part of a range, a
shorthand for word characters where letter case does not matter, or a bracket that the engine does
not take for one. -/
def isPinnable (pattern : String) : Bool := ({} : Reader).isPinnableFrom false pattern.toList

namespace Expression

theorem rel_expr?_pinShorthands {pattern : String} (pinnable : isPinnable pattern = true) :
    Option.Rel Expr.Narrows (expr? pattern.toList) (expr? (pinShorthands pattern).toList) := by
  rw [expr?_eq, expr?_eq, pinShorthands, String.toList_ofList]
  have reads := (Reader.narrows_self {}).pinFrom rfl pinnable
  refine rel_bind (rel_bind reads fun _ _ _ _ narrows => narrows.finish) fun _ _ _ _ narrows => ?_
  exact narrows.level.expr.settled?

/-- A pinned pattern is accepted just where the pattern is, and finds in every text just what the
pattern finds if `\d` and `\w` are the digits and word characters of ASCII. -/
theorem map_search?_pinShorthands {pattern : String} (pinnable : isPinnable pattern = true) :
    (compile? (pinShorthands pattern)).map (·.expr.search?) =
      (compile? pattern).map (·.expr.narrowed.search?) := by
  rw [compile?, compile?, Option.map_map, Option.map_map]
  exact map_eq_of_rel (rel_expr?_pinShorthands pinnable) fun _ _ narrows => narrows.search?

theorem map_search?_pinShorthands_nested :
    isPinnable "[^\\w-]+|[a[b]\\d][3-7\\d]" = true ∧
      (compile? (pinShorthands "[^\\w-]+|[a[b]\\d][3-7\\d]")).map (·.expr.search?) =
        (compile? "[^\\w-]+|[a[b]\\d][3-7\\d]").map (·.expr.narrowed.search?) := by
  have pinnable : isPinnable "[^\\w-]+|[a[b]\\d][3-7\\d]" = true := by decide +kernel
  exact ⟨pinnable, map_search?_pinShorthands pinnable⟩

/-- What stands for a shorthand makes a range with the dash after it, so that a pattern is accepted
that is none; and a bracket in a comment is taken for that of a class. -/
theorem exists_pinShorthands_changes :
    (∃ pattern : String, compile? pattern = none ∧
      (compile? (pinShorthands pattern)).any (·.isMatch "\x60") = true) ∧
    ∃ (pattern text : String) (expression pinned : Expression),
      compile? pattern = some expression ∧ compile? (pinShorthands pattern) = some pinned ∧
      (expression.expr.narrowed.search? text.toList).isSome = true ∧
      pinned.isMatch text = false := by
  refine ⟨⟨"[\\w-a]", by decide +kernel, by decide +kernel⟩, "(?#[)\\d", "5", ?_⟩
  have differ : (compile? "(?#[)\\d").any (fun expression =>
      (compile? (pinShorthands "(?#[)\\d")).any fun pinned =>
        (expression.expr.narrowed.search? "5".toList).isSome && !pinned.isMatch "5") = true := by
    decide +kernel
  obtain ⟨expression, described, differ⟩ := (Option.any_eq_true _ _).1 differ
  obtain ⟨pinned, accepted, differ⟩ := (Option.any_eq_true _ _).1 differ
  rw [Bool.and_eq_true, Bool.not_eq_true'] at differ
  exact ⟨expression, pinned, described, accepted, differ.1, differ.2⟩

end Expression

end PathTemplate
