/-
Escaped texts and bracket classes between other fragments of an expression.

A fragment may end in a construct that the next characters go on with: a decimal reference takes
further digits, an open brace takes digits and commas, and an atom takes a quantifier.
`Reader.resolved` is the reader of such a fragment once the construct is known to be complete, and
`Reader.readAll` reads a text and finishes what was read last.

* `Reader.read_escape_resolved`: each character of an escaped text is one more part, where no
  digit of it goes on with a reference.
* `Reader.readAll_flushed`: a fragment that does not begin with a quantifier reads after an atom as
  it reads after finished parts.
* `Reader.read_escape_apart`: both of them and the classes of the same text.
-/

import PathTemplate.Proofs.Reading.Embedding
import PathTemplate.Proofs.Route.Language

namespace PathTemplate

/-- The character goes on with the brace or the reference that is being read. -/
def Mode.goesOn : Mode → Char → Bool
  | .brace .., c => c.isDigit || c = ',' || c = '\x7D'
  | .reference _, c => c.isDigit
  | _, _ => false

/-- The texts that read as they stand from the beginning on, and where no brace follows before
anything was read: after an atom such a brace would count the atom. -/
structure ReadsAnew (text : List Char) : Prop where
  reads : ({} : Reader).read text ≠ none
  unbraced : ∀ lead rest, text = lead ++ '\x7B' :: rest → ({} : Reader).read lead ≠ some {}

namespace Reader

/-- The reader after a text once nothing more belongs to the last part; nothing if the text ends
inside a construct. -/
def readAll (reader : Reader) (text : List Char) : Option Reader :=
  ((reader.read text).bind resolved).map flushed

theorem readAll_cons (reader : Reader) (c : Char) (text : List Char) :
    reader.readAll (c :: text) = (reader.step c).bind fun next => next.readAll text := by
  rw [readAll, read_cons]
  cases reader.step c <;> rfl

/-! ### After a fragment -/

section Text

variable {reader last : Reader} {c : Char}

theorem flags_resolved (complete : reader.resolved = some last) : last.flags = reader.flags := by
  obtain ⟨_, _, _, rfl⟩ := resolved_same complete
  rfl

/-- A character that does not go on with what is read finds it complete. -/
theorem step_of_goesOn (complete : reader.resolved = some last)
    (spaced : last.flags.spaced = false) (apart : reader.mode.goesOn c = false) :
    reader.step c = last.step c := by
  obtain ⟨pending, ready⟩ := isReady_resolved complete
  rw [flags_resolved complete] at spaced
  unfold resolved at complete
  split at complete
  case h_1 => cases complete; rfl
  case h_2 mode =>
    cases complete
    simp only [mode, Mode.goesOn, Bool.or_eq_false_iff, decide_eq_false_iff_not] at apart
    simp [step, mode, stepBrace, apart, spaced, ready]
  case h_3 mode =>
    simp only [mode, Mode.goesOn] at apart
    simp [step, mode, apart, ready, complete]
  case h_4 => cases complete

/-- A digit or a comma after a brace is one more character that stands for itself. -/
theorem resolved_brace_cons (spaced : reader.flags.spaced = false) (atom : Expr)
    (text : List Char) : (reader.enter (.brace atom (c :: text))).resolved =
      some ((reader.spellBrace atom text).took (.character reader.flags.fold c)) := by
  have longer : braceText false (c :: text) = braceText false text ++ [c] := by simp [braceText]
  have same : (reader.enter (.brace atom (c :: text))).resolved =
      some ((reader.enter (.brace atom (c :: text))).spellBrace atom (c :: text)) := rfl
  rw [same, spellBrace_eq, spellBrace_eq, spaced,
    show (reader.enter (.brace atom (c :: text))).flags.spaced = false from spaced, longer,
    spelledOut, List.foldl_append]
  rfl

/-- One character of an escaped text, after a fragment that it does not refer with. -/
theorem read_escaped_resolved (complete : reader.resolved = some last)
    (spaced : last.flags.spaced = false)
    (apart : reader.mode.isReference = true → c.isDigit = false) :
    ∃ mid, reader.read (if syntaxCharacters.contains c then ['\\', c] else [c]) = some mid ∧
      mid.resolved = some (last.took (.spelled last.flags.fold c)) ∧
      mid.mode.isReference = false := by
  have ready := isReady_resolved complete
  by_cases special : c ∈ syntaxCharacters
  · refine ⟨last.took (.spelled last.flags.fold c), ?_, resolved_of_isReady ⟨_, rfl⟩, rfl⟩
    rw [if_pos (List.contains_iff_mem.2 special),
      read_resolved complete ⟨rfl, by decide, rfl, by decide⟩, read_escaped ready spaced special]
    simp [Expr.spelled, special]
  · have plain : Expr.spelled last.flags.fold c = .character last.flags.fold c := by
      simp [Expr.spelled, special]
    rw [if_neg (mt List.contains_iff_mem.1 special), read_cons, plain]
    cases goesOn : reader.mode.goesOn c with
    | false =>
      refine ⟨last.took (.character last.flags.fold c), ?_, resolved_of_isReady ⟨_, rfl⟩, rfl⟩
      rw [step_of_goesOn complete spaced goesOn, step_literal ready (.inl spaced) special]
      rfl
    | true =>
      -- Only an open brace is left: it takes the character, and may have to give it back.
      cases mode : reader.mode with
      | brace atom text =>
        have closing : c ≠ '\x7D' := by
          rintro rfl
          exact special (by decide)
        have inBrace : (c.isDigit || c = ',') = true := by
          simpa [mode, Mode.goesOn, closing] using goesOn
        have ended : reader.spellBrace atom text = last := by
          simpa only [resolved, mode, Option.some.injEq] using complete
        have one : reader.step c = some (reader.enter (.brace atom (c :: text))) := by
          simp only [step, mode, stepBrace, inBrace, Bool.true_or, if_true]
        refine ⟨_, by rw [one]; rfl, ?_, rfl⟩
        rw [resolved_brace_cons (flags_resolved complete ▸ spaced), ended, flags_resolved complete]
      | reference number =>
        have outside := apart (by rw [mode]; rfl)
        simp [mode, Mode.goesOn, outside] at goesOn
      | _ => simp [mode, Mode.goesOn] at goesOn

/-- An escaped text is its characters, whatever fragment stands before it, unless it begins with a
digit and the fragment ends in a decimal reference. -/
theorem read_escape_resolved (complete : reader.resolved = some last)
    (spaced : last.flags.spaced = false) (text : List Char)
    (apart : reader.mode.isReference = true → ∀ c ∈ text.head?, c.isDigit = false) :
    ∃ mid next, reader.read (escapeWhere syntaxCharacters.contains text) = some mid ∧
      mid.resolved = some next ∧
      Adds true 0 (text.map (Expr.spelled last.flags.fold)) last next ∧
      next.flags = last.flags ∧ (text ≠ [] → ∃ e, next.mode = .ready (.atom e)) := by
  induction text generalizing reader last with
  | nil => exact ⟨reader, last, rfl, complete, .nil (isReady_resolved complete), rfl, nofun⟩
  | cons c text ih =>
    obtain ⟨first, one, ended, own⟩ :=
      read_escaped_resolved complete spaced fun refers => apart refers c rfl
    obtain ⟨mid, next, others, resolved, adds, flags, atom⟩ :=
      ih ended spaced fun refers => absurd refers (by simp [own])
    refine ⟨mid, next, ?_, resolved, (takes_took true _ last).adds.append adds, flags, fun _ => ?_⟩
    · rw [escapeWhere_cons, read_append, one]
      exact others
    · cases text with
      | nil =>
        cases others
        rw [resolved] at ended
        cases ended
        exact ⟨_, rfl⟩
      | cons => exact atom (List.cons_ne_nil _ _)

end Text

/-! ### Before a fragment -/

/-- The modes in which a part may still be pending that nothing has been read after: comments and
the beginnings of groups leave it so. -/
inductive Waits : (Pending → Mode) → Prop where
  | ready : Waits .ready
  | paren : Waits (.opener · [])
  | question : Waits (.opener · ['?'])
  | comment (escaped : Bool) : Waits (.comment · escaped)

section Fragment

variable {waiting : Pending → Mode} {c : Char} {reader : Reader}

/-- The step does not look at what is pending, which stays so. -/
def KeepsWaiting (waiting : Pending → Mode) (c : Char) : Prop :=
  ∃ waiting', Waits waiting' ∧ ∀ (reader : Reader) (pending : Pending),
    reader.flags.spaced = false → (∀ e, pending ≠ .reluctant e) →
      (reader.enter (waiting pending)).step c = some (reader.enter (waiting' pending))

/-- The step finishes the pending atom before anything else. -/
def Finishes (waiting : Pending → Mode) (c : Char) : Prop :=
  ∀ (reader : Reader) (e : Expr), reader.flags.spaced = false →
    (reader.enter (waiting (.atom e))).step c =
      ((reader.flush (.atom e)).enter (waiting .nothing)).step c

theorem enter_mode (mode : Mode) : (reader.enter mode).mode = mode := rfl

theorem flags_enter (mode : Mode) : (reader.enter mode).flags = reader.flags := rfl

theorem flush_enter (mode : Mode) (pending : Pending) :
    (reader.enter mode).flush pending = reader.flush pending := rfl

theorem flags_flush (pending : Pending) : (reader.flush pending).flags = reader.flags := rfl

theorem flush_flush (pending : Pending) :
    (reader.flush pending).flush .nothing = reader.flush pending := by
  simp [flush, part, Level.push]

/-- Whatever begins a fragment keeps the pending atom or finishes it, but for the signs that
quantify it. -/
theorem waits_step (waits : Waits waiting) (c : Char) :
    KeepsWaiting waiting c ∨ Finishes waiting c ∨
      (waiting = .ready ∧ c ∈ ['?', '*', '+', '\x7B']) := by
  cases waits with
  | ready =>
    by_cases paren : c = '('
    · subst paren
      refine .inl ⟨_, .paren, fun reader pending spaced _ => ?_⟩
      simp [step, enter, stepReady, spaced]
    · by_cases sign : c ∈ ['?', '*', '+', '\x7B']
      · exact .inr (.inr ⟨rfl, sign⟩)
      · refine .inr (.inl fun reader e spaced => ?_)
        simp only [List.mem_cons, List.not_mem_nil, or_false, not_or] at sign
        obtain ⟨noQuestion, noStar, noPlus, noBrace⟩ := sign
        simp only [step, enter_mode, stepReady, flush_enter, flush_flush, flags_enter, flags_flush,
          spaced, Bool.false_and, Bool.false_eq_true, if_false]
        split <;> first | rfl | contradiction
  | paren =>
    by_cases question : c = '?'
    · subst question
      exact .inl ⟨_, .question, fun reader pending spaced _ => rfl⟩
    · refine .inr (.inl fun reader e spaced => ?_)
      simp only [step, enter_mode, stepOpener, flush_enter, flush_flush, flags_enter, flags_flush,
        spaced, question, Bool.false_and, Bool.false_eq_true, if_false]
  | question =>
    by_cases hash : c = '#'
    · subst hash
      refine .inl ⟨_, .comment false, fun reader pending spaced settled => ?_⟩
      cases pending with
      | reluctant e => exact absurd rfl (settled e)
      | _ => rfl
    · refine .inr (.inl fun reader e spaced => ?_)
      simp only [step, enter_mode, stepOpener, flush_enter, flush_flush]
      split <;> first | rfl | contradiction
  | comment escaped =>
    refine .inl ?_
    cases escaped with
    | true => exact ⟨_, .comment false, fun reader pending _ _ => rfl⟩
    | false =>
      by_cases slash : c = '\\'
      · subst slash
        exact ⟨_, .comment true, fun reader pending _ _ => rfl⟩
      · by_cases close : c = ')'
        · subst close
          exact ⟨_, .ready, fun reader pending _ _ => rfl⟩
        · refine ⟨_, .comment false, fun reader pending _ _ => ?_⟩
          simp only [step, enter_mode, slash, close, Bool.false_eq_true, if_false]

theorem flushed_enter_ready (pending : Pending) :
    (reader.enter (.ready pending)).flushed = reader.flush pending := by
  rw [flushed_eq rfl, flush_enter]

theorem readAll_waits (waits : Waits waiting) {text : List Char}
    (reads : (({} : Reader).enter (waiting .nothing)).read text ≠ none)
    (unbraced : ∀ lead rest, text = lead ++ '\x7B' :: rest →
      (({} : Reader).enter (waiting .nothing)).read lead ≠ some {})
    (spaced : reader.flags.spaced = false) (e : Expr) :
    (reader.enter (waiting (.atom e))).readAll text =
      ((reader.flush (.atom e)).enter (waiting .nothing)).readAll text := by
  induction text generalizing waiting with
  | nil =>
    cases waits with
    | ready =>
      have ended {pending : Pending} (reader : Reader) :
          (reader.enter (.ready pending)).readAll [] = some (reader.flush pending) := by
        rw [← flushed_enter_ready]
        rfl
      rw [ended, ended, flush_flush]
    | _ => rfl
  | cons c text ih =>
    rw [read_cons] at reads
    rw [readAll_cons, readAll_cons]
    rcases waits_step waits c with ⟨waiting', waits', keeps⟩ | finishes | ⟨rfl, sign⟩
    · have fresh := keeps {} .nothing rfl nofun
      rw [keeps _ (.atom e) spaced nofun, keeps (reader.flush _) .nothing spaced nofun]
      rw [fresh] at reads
      refine ih waits' reads fun lead rest split => ?_
      have longer := unbraced (c :: lead) rest (congrArg (c :: ·) split)
      rwa [read_cons, fresh] at longer
    · rw [finishes _ _ spaced]
    · exfalso
      have brace : c ≠ '\x7B' := by
        rintro rfl
        exact unbraced [] text rfl rfl
      simp only [List.mem_cons, brace, List.not_mem_nil, or_false] at sign
      rcases sign with rfl | rfl | rfl <;> exact reads rfl

/-- A fragment that does not begin with a quantifier reads after an atom as it reads after finished
parts. -/
theorem readAll_flushed {e : Expr} (ready : reader.mode = .ready (.atom e))
    (spaced : reader.flags.spaced = false) {text : List Char} (anew : ReadsAnew text) :
    reader.readAll text = reader.flushed.readAll text := by
  have self : reader.enter (.ready (.atom e)) = reader := by
    rw [enter, ← ready]
  have same := readAll_waits .ready anew.reads anew.unbraced spaced e
  rw [self] at same
  rw [same, flushed_eq ready]
  rfl

end Fragment

end Reader

/-! ### Escaped texts, their classes and the default pattern -/

/-- The members of a class are the characters of its text, and those alike to them where letter case
does not matter. -/
theorem CharSet.contains_listed_iff {fold : Bool} {text : List Char} {c : Char} :
    (listed fold false text).contains c = true ↔
      ∃ d ∈ text, (foldIf fold (.single d)).contains c = true := by
  simp only [listed, complIf, Bool.false_eq_true, if_false, contains_foldIf, contains_members,
    contains_single, decide_eq_true_eq]
  cases fold
  · simp
  · simp [and_comm]

namespace Reader

/-- After a fragment whose reader is `last` once its end is known, an escaped text is its
characters one after the other, each of them a part of its own, and a further fragment is read after
them as it is after any finished parts. Only digits go on with a decimal reference, and only a
brace at the beginning of the further fragment belongs to the last character. The class of the
text is one set of its characters, and the default pattern one lazy loop of its complement. -/
theorem read_escape_apart {reader last : Reader} (complete : reader.resolved = some last)
    (spaced : last.flags.spaced = false) (text : String)
    (apart : reader.mode.isReference = true → ∀ c ∈ text.toList.head?, c.isDigit = false) :
    (∃ mid after, reader.read (escape text).toList = some mid ∧
      reader.readAll (escape text).toList = some after ∧
      Adds true 0 (spelling last.flags.fold text) last after ∧ after.flags = last.flags ∧
      Expr.Denote (spelling last.flags.fold text) (.spelled last.flags.fold text.toList) ∧
      ∀ more, text ≠ "" → ReadsAnew more → (∀ c ∈ more.head?, mid.mode.goesOn c = false) →
        reader.readAll ((escape text).toList ++ more) = after.readAll more) ∧
    (text ≠ "" → ∃ cls, characterClass? text = some cls ∧
      reader.read cls.toList =
        some (last.took (.one (.listed last.flags.fold false text.toList))) ∧
      reader.read (defaultPattern text).toList =
        some (last.flushed.enter (.ready (.reluctant
          (.loop 1 none last.flags.swapGreed .refused
            (.one (.compl (.listed last.flags.fold false text.toList))))))) ∧
      ∀ c, (CharSet.listed last.flags.fold false text.toList).contains c = true ↔
        ∃ d ∈ text.toList, (CharSet.foldIf last.flags.fold (.single d)).contains c = true) := by
  have ready := isReady_resolved complete
  constructor
  · obtain ⟨mid, next, read, resolved, adds, flags, atom⟩ :=
      read_escape_resolved complete spaced text.toList apart
    rw [← show (escape text).toList = _ from String.toList_ofList] at read
    have settled : next.flushed.flushed = next.flushed := flush_flush next.pending
    have parts : Adds true 0 (spelling last.flags.fold text) last next.flushed :=
      ⟨⟨adds.frames, adds.opened, adds.names, adds.referred⟩, ⟨_, rfl⟩,
        (congrArg level settled).trans adds.level⟩
    refine ⟨mid, next.flushed, read, ?_, parts, flags, Expr.denote_spelling _ text,
      fun more nonempty anew outside => ?_⟩
    · rw [readAll, read, Option.bind_some, resolved, Option.map_some]
    · have onward : reader.readAll ((escape text).toList ++ more) = mid.readAll more := by
        rw [readAll, read_append, read]
        rfl
      obtain ⟨e, mode⟩ := atom (mt String.toList_eq_nil_iff.1 nonempty)
      have unspaced : next.flags.spaced = false := flags ▸ spaced
      rw [onward, ← readAll_flushed mode unspaced anew]
      cases more with
      | nil =>
        rw [readAll, readAll, read_nil, read_nil, Option.bind_some, Option.bind_some, resolved,
          resolved_of_isReady ⟨_, mode⟩]
      | cons c more =>
        rw [readAll_cons, readAll_cons, step_of_goesOn resolved unspaced (outside c rfl)]
  · intro nonempty
    have begins (text : List Char) : reader.read ('[' :: text) = last.read ('[' :: text) :=
      read_resolved complete ⟨rfl, by decide, rfl, by decide⟩ text
    cases named : characterClass? text with
    | none => simp [characterClass?, nonempty] at named
    | some cls =>
      obtain ⟨characters, listed⟩ := toList_characterClass? named
      refine ⟨cls, rfl, ?_, ?_, fun c => CharSet.contains_listed_iff⟩
      · rw [listed, begins]
        exact read_class ready false characters
      · have lazy := read_lazyDefaultPattern ready nonempty
        rw [toList_defaultPattern] at lazy ⊢
        rw [begins]
        exact lazy

/-- After a reference and before a group, signs of all kinds, and a digit that is not the first
character. -/
theorem read_escape_apart_reference : ∃ reader last,
    ({} : Reader).read "(x)\\1".toList = some reader ∧ reader.resolved = some last ∧
      reader.mode.isReference = true ∧ last.flags.spaced = false ∧
      ∃ after, reader.readAll (escape "a1-[^&&]").toList = some after ∧
        Adds true 0 (spelling false "a1-[^&&]") last after ∧
        ReadsAnew "(?#y)(z)*".toList ∧
        reader.readAll ((escape "a1-[^&&]").toList ++ "(?#y)(z)*".toList) =
          after.readAll "(?#y)(z)*".toList := by
  let reader : Reader :=
    { mode := .reference 1, level := { branch := .group 1 (.character false 'x') }, opened := 1 }
  let last : Reader := { reader with referred := some 1 }.atom .nothing (.back 1)
  have complete : reader.resolved = some last := rfl
  have anew : ReadsAnew "(?#y)(z)*".toList :=
    { reads := by decide +kernel
      unbraced := fun lead rest split => by
        have brace : '\x7B' ∈ "(?#y)(z)*".toList :=
          split ▸ List.mem_append_right _ List.mem_cons_self
        exact absurd brace (by decide) }
  have apart : ∀ c ∈ "a1-[^&&]".toList.head?, c.isDigit = false := by
    rintro _ ⟨⟩
    rfl
  obtain ⟨⟨mid, after, read, all, adds, _, _, onward⟩, _⟩ :=
    read_escape_apart complete rfl "a1-[^&&]" fun _ => apart
  have outside : (reader.read (escape "a1-[^&&]").toList).map (·.mode.goesOn '(') = some false := by
    decide +kernel
  rw [read] at outside
  refine ⟨reader, last, by decide +kernel, complete, rfl, rfl, after, all, adds, anew,
    onward _ (by decide) anew ?_⟩
  rintro _ ⟨⟩
  exact Option.some.inj outside

/-- Where complete fragments go on with one another. After a reference a digit is one more digit of
it, and there is no such group; a brace counts the last character before it; and a text may end
up inside braces. -/
theorem exists_escape_extended :
    (Expression.compile? "(x)\\1").isSome = true ∧
      Expression.compile? ("(x)\\1" ++ escape "0") = none ∧
      (Expression.compile? "\x7B2\x7D").isSome = true ∧
      (Expression.compile? (escape "a" ++ "\x7B2\x7D")).map (·.isMatch "a\x7B2\x7D") = some false ∧
      (Expression.compile? "a\x7B").isSome = true ∧
      (Expression.compile? "\x7D").isSome = true ∧
      (Expression.compile? ("a\x7B" ++ escape "2" ++ "\x7D")).map (·.isMatch "a\x7B2\x7D") =
        some false := by
  decide +kernel

end Reader

end PathTemplate
