/-
Reading the bracket classes that routes are written with.

* `Reader.read_class`: a class of escaped characters, or of all others, reads as one atom.
* `CharSet.contains_listed`: which characters belong to it.
* `Reader.fills_defaultPattern`: the default pattern reads as a lazy loop of such a class, and
  `pinFrom_escapeWhere` says that pinning shorthands leaves it as it is.
-/

import PathTemplate.Proofs.Reading.Fragments

namespace PathTemplate

/-- The characters that get a backslash inside a bracket class. -/
def isClassSyntax (c : Char) : Bool :=
  syntaxCharacters.contains c || classSyntaxCharacters.contains c

namespace CharSet

/-- The characters of a text. -/
def members (text : List Char) : CharSet :=
  text.foldl (fun set c => .union set (.single c)) .none

/-- The set of a class of these characters, or of all others. -/
def listed (fold negated : Bool) (text : List Char) : CharSet :=
  ((members text).foldIf fold).complIf negated

@[simp] theorem contains_members {text : List Char} {c : Char} :
    (members text).contains c = decide (c ∈ text) := by
  suffices ∀ set : CharSet, (text.foldl (fun set c => .union set (.single c)) set).contains c =
      (set.contains c || decide (c ∈ text)) by
    simpa [members, contains] using this .none
  induction text with
  | nil => simp
  | cons d text ih => intro set; rw [List.foldl_cons, ih]; simp [Bool.or_assoc]

theorem contains_foldIf {fold : Bool} {a : CharSet} {c : Char} :
    (foldIf fold a).contains c = true ↔
      if fold then ∃ d ∈ caseOrbit c, a.contains d = true else a.contains c = true := by
  cases fold <;> simp [foldIf, contains]

end CharSet

namespace ClassReader

/-- The reader of a class in which some characters were read, `last` being the last of them. -/
def listing (fold negated : Bool) (earlier : CharSet) (last : Char) : ClassReader :=
  { fold, current := { negated, members := earlier, stage := .member (.character last) } }

/-- A character after `escapeInClass`. -/
def symbol (c : Char) : ClassSymbol := if isClassSyntax c then .quoted c else .plain c

theorem isNot_of_isClassSyntax {c d : Char} (plain : ¬isClassSyntax c = true)
    (special : isClassSyntax d = true) : c ≠ d := by
  rintro rfl
  exact plain special

theorem operator?_eq_none {c : Char} (plain : ¬isClassSyntax c = true) :
    OpenClass.operator? c = none := by
  unfold OpenClass.operator?
  split
  · exact absurd rfl (isNot_of_isClassSyntax plain rfl)
  · exact absurd rfl (isNot_of_isClassSyntax plain rfl)
  · exact absurd rfl (isNot_of_isClassSyntax plain rfl)
  · rfl

theorem readFresh_symbol (cls : ClassReader) (c : Char) :
    cls.readFresh (symbol c) =
      some (.more { cls with current := cls.current.enter (.member (.character c)) }) := by
  unfold symbol
  split
  · rfl
  · rename_i plain
    unfold readFresh
    split
    · exact absurd (by assumption) (by simpa using isNot_of_isClassSyntax plain rfl)
    · exact absurd (by assumption) (by simpa using isNot_of_isClassSyntax plain rfl)
    · rename_i same
      cases same
      simp only [operator?_eq_none plain, Option.isSome_none, Bool.false_eq_true, if_false]
      rfl
    all_goals rename_i same; cases same

theorem symbol_ne_plain {c d : Char} (special : isClassSyntax d = true) : symbol c ≠ .plain d := by
  unfold symbol
  split
  · exact ClassSymbol.noConfusion
  · rename_i plain
    simpa using isNot_of_isClassSyntax plain special

theorem readOpened_symbol (cls : ClassReader) (caret : Bool) (c : Char) :
    cls.readOpened caret (symbol c) = cls.readFresh (symbol c) := by
  unfold readOpened
  split
  · exact absurd (by assumption) (symbol_ne_plain rfl)
  · exact absurd (by assumption) (symbol_ne_plain rfl)
  · exact absurd (by assumption) (symbol_ne_plain rfl)
  · rfl

/-- A first character begins the list. -/
theorem step_opened (fold negated : Bool) (c : Char) :
    ({ fold, current := { negated, stage := .opened negated } } : ClassReader).step (symbol c) =
      some (.more (listing fold negated .none c)) := by
  change ClassReader.readOpened _ negated (symbol c) = _
  rw [readOpened_symbol, readFresh_symbol]
  rfl

/-- A further character goes on with it. -/
theorem step_listing (fold negated : Bool) (earlier : CharSet) (last c : Char) :
    (listing fold negated earlier last).step (symbol c) =
      some (.more (listing fold negated (.union earlier (.single last)) c)) := by
  have member : (listing fold negated earlier last).step (symbol c) =
      (listing fold negated earlier last).readAfterMember (.character last) (symbol c) := rfl
  rw [member, readAfterMember, if_neg (symbol_ne_plain rfl), readFresh_symbol]
  rfl

/-- A bracket ends it. -/
theorem step_listing_end (fold negated : Bool) (earlier : CharSet) (last : Char) :
    (listing fold negated earlier last).step (.plain ']') =
      some (.done (((CharSet.union earlier (.single last)).foldIf fold).complIf negated)) := rfl

end ClassReader

namespace Reader

variable {reader : Reader}

/-- A character after `escapeInClass`, in a class. -/
theorem read_member {cls next : ClassReader} {c : Char}
    (more : cls.step (ClassReader.symbol c) = some (.more next)) :
    (reader.enter (.bracket cls)).read (if isClassSyntax c then ['\\', c] else [c]) =
      some (reader.enter (.bracket next)) := by
  have symbol : (reader.enter (.bracket cls)).classSymbol cls (ClassReader.symbol c) =
      some (reader.enter (.bracket next)) := by
    simp [classSymbol, more]; rfl
  by_cases special : isClassSyntax c = true
  · rw [ClassReader.symbol, if_pos special] at symbol
    have slash : (reader.enter (.bracket cls)).step '\\' =
        some (reader.enter (.escape (some cls))) :=
      rfl
    have quoted : (reader.enter (.escape (some cls))).step c =
        (reader.enter (.bracket cls)).classSymbol cls (.quoted c) := by
      simp only [isClassSyntax, syntaxCharacters, classSyntaxCharacters, Bool.or_eq_true,
        List.contains_iff_mem, List.mem_cons, List.not_mem_nil, or_false] at special
      rcases special with (rfl | rfl | rfl | rfl | rfl | rfl | rfl | rfl | rfl | rfl | rfl | rfl |
        rfl | rfl | rfl | rfl | rfl | rfl) | rfl | rfl | rfl <;> rfl
    rw [if_pos special, read_cons, slash, Option.bind_some, read_cons, quoted, symbol]
    rfl
  · have notSlash : c ≠ '\\' := ClassReader.isNot_of_isClassSyntax special rfl
    rw [ClassReader.symbol, if_neg special] at symbol
    have plain : (reader.enter (.bracket cls)).step c =
        (reader.enter (.bracket cls)).classSymbol cls (.plain c) := by
      simp [step, enter, notSlash]
    rw [if_neg special, read_cons, plain, symbol]
    rfl

/-- The rest of a class of characters, whose last one so far is `last`. -/
theorem read_listing {fold negated : Bool} (earlier : CharSet) (last : Char) (text : List Char) :
    (reader.enter (.bracket (.listing fold negated earlier last))).read
      (escapeWhere isClassSyntax text ++ [']']) =
      some ((reader.enter (.ready .nothing)).took
        (.one (((text.foldl (fun set c => CharSet.union set (.single c))
          (.union earlier (.single last))).foldIf fold).complIf negated))) := by
  induction text generalizing earlier last with
  | nil =>
    have bracket : (reader.enter (.bracket (.listing fold negated earlier last))).step ']' =
        (reader.enter (.bracket (.listing fold negated earlier last))).classSymbol
          (.listing fold negated earlier last) (.plain ']') := rfl
    rw [escapeWhere, List.flatMap_nil, List.nil_append, read_cons, bracket, classSymbol,
      ClassReader.step_listing_end]
    rfl
  | cons c text ih =>
    rw [escapeWhere_cons, List.append_assoc, read_append,
      read_member (ClassReader.step_listing ..), Option.bind_some]
    exact ih _ _

/-- A class of escaped characters is an atom. -/
theorem read_class (ready : reader.IsReady) (negated : Bool) {text : List Char}
    (nonempty : text ≠ []) :
    reader.read ('[' ::
      ((if negated then ['^'] else []) ++ (escapeWhere isClassSyntax text ++ [']']))) =
      some (reader.took (.one (.listed reader.flags.fold negated text))) := by
  obtain ⟨c, text, rfl⟩ := List.exists_cons_of_ne_nil nonempty
  obtain ⟨pending, ready⟩ := ready
  have bracket : reader.step '[' =
      some (reader.flushed.enter (.bracket { fold := reader.flags.fold })) := by
    rw [flushed_eq ready]
    simp [step, ready, stepReady, show isSpacing '[' = false from rfl, flush]
  have caret : (reader.flushed.enter (.bracket { fold := reader.flags.fold })).read
      (if negated then ['^'] else []) =
        some (reader.flushed.enter (.bracket
          { fold := reader.flags.fold, current := { negated, stage := .opened negated } })) := by
    cases negated <;> rfl
  have settled : (reader.flushed.enter (.ready .nothing)).flushed = reader.flushed := by
    rw [flushed_eq rfl, flushed_eq ready]
    simp [flush, enter, part, Level.push]
  rw [read_cons, bracket, Option.bind_some, read_append, caret, Option.bind_some,
    escapeWhere_cons, List.append_assoc, read_append, read_member (ClassReader.step_opened ..),
    Option.bind_some]
  refine (read_listing .none c text).trans ?_
  rw [took, settled]
  rfl

end Reader

/-! ### The classes of a text, and the default pattern -/

theorem toList_escapeInClass (text : String) :
    (escapeInClass text).toList = escapeWhere isClassSyntax text.toList := by
  rw [escapeInClass, String.toList_ofList]
  rfl

theorem toList_characterClass? {text cls : String} (h : characterClass? text = some cls) :
    text.toList ≠ [] ∧ cls.toList = '[' :: (escapeWhere isClassSyntax text.toList ++ [']']) := by
  unfold characterClass? at h
  split at h
  · cases h
  · rename_i nonempty
    cases h
    refine ⟨fun none => nonempty (String.toList_eq_nil_iff.1 none), ?_⟩
    simp only [String.toList_append, toList_escapeInClass]
    rfl

theorem toList_defaultPattern (delimiter : String) :
    (defaultPattern delimiter).toList =
      '[' :: '^' :: (escapeWhere isClassSyntax delimiter.toList ++ ([']'] ++ ['+', '?'])) := by
  simp only [defaultPattern, String.toList_append, toList_escapeInClass]
  rw [List.append_assoc]
  rfl

/-- One or more characters that are not among those of the text, nor alike to one where case does
not matter. -/
def Expr.unbroken (fold greedy : Bool) (delimiter : String) : Expr :=
  .loop 1 none greedy .refused (.one (.listed fold true delimiter.toList))

namespace Reader

variable {reader : Reader}

/-- The default pattern is read up to its last sign; it is lazy unless the flags turn that round. -/
theorem read_lazyDefaultPattern (ready : reader.IsReady) {delimiter : String}
    (nonempty : delimiter ≠ "") :
    reader.read (defaultPattern delimiter).toList =
      some (reader.flushed.enter
        (.ready (.reluctant (.unbroken reader.flags.fold reader.flags.swapGreed delimiter)))) := by
  have chars : delimiter.toList ≠ [] := fun none => nonempty (String.toList_eq_nil_iff.1 none)
  have cls := read_class ready true chars
  have regroup : (defaultPattern delimiter).toList =
      ('[' :: ((if true then ['^'] else []) ++
        (escapeWhere isClassSyntax delimiter.toList ++ [']'])))
        ++ ['+', '?'] := by
    simp [toList_defaultPattern]
  have signs : (reader.took (.one (.listed reader.flags.fold true delimiter.toList))).read
      ['+', '?'] = some ((reader.flushed).enter (.ready (.reluctant
        (.unbroken reader.flags.fold reader.flags.swapGreed delimiter)))) := by
    simp [read_cons, step, took, enter, stepReady, show isSpacing '+' = false from rfl,
      show isSpacing '?' = false from rfl, quantify, Expr.isRepeatable, loop, Expr.unbroken]
    rfl
  have whole := (congrArg reader.read regroup).trans (read_append ..)
  rwa [cls, Option.bind_some, signs] at whole

theorem read_defaultPattern (ready : reader.IsReady) {delimiter : String}
    (nonempty : delimiter ≠ "") :
    ∃ greedy, reader.read (defaultPattern delimiter).toList =
      some (reader.flushed.enter
        (.ready (.reluctant (.unbroken reader.flags.fold greedy delimiter)))) :=
  ⟨_, read_lazyDefaultPattern ready nonempty⟩

theorem fills_defaultPattern (total : Bool) (fresh : reader.IsFresh) {delimiter : String}
    (nonempty : delimiter ≠ "") :
    ∃ next greedy, reader.read (defaultPattern delimiter).toList = some next ∧
      Fills total 0 (.unbroken reader.flags.fold greedy delimiter) reader next ∧
      next.flags = reader.flags := by
  obtain ⟨greedy, whole⟩ := read_defaultPattern ⟨_, fresh.mode⟩ nonempty
  refine ⟨_, greedy, whole, ?_, rfl⟩
  refine ⟨_, .refl ⟨_, rfl⟩, ⟨rfl, rfl, rfl, fun _ => rfl⟩, ?_⟩
  rw [flushed_eq rfl]
  simp [flush, enter, part, fresh.flushed_level, Level.push, Level.expr]

end Reader

/-- An escape that is no shorthand stays. -/
theorem pinFrom_quoted (inClass : Bool) {c : Char} (text : List Char)
    (quoted : c ≠ 'd' ∧ c ≠ 'D' ∧ c ≠ 'w' ∧ c ≠ 'W') :
    pinFrom inClass ('\\' :: c :: text) = '\\' :: c :: pinFrom inClass text := by
  obtain ⟨_, _, _, _⟩ := quoted
  rw [pinFrom, pinEscape] <;> first | rfl | simp_all

/-- Nothing in an escaped text looks like a shorthand or a bracket. -/
theorem pinFrom_escapeWhere (inClass : Bool) (text rest : List Char) :
    pinFrom inClass (escapeWhere isClassSyntax text ++ rest) =
      escapeWhere isClassSyntax text ++ pinFrom inClass rest := by
  induction text with
  | nil => rfl
  | cons c text ih =>
    rw [escapeWhere_cons, List.append_assoc, List.append_assoc, ← ih]
    by_cases special : isClassSyntax c = true
    · rw [if_pos special]
      refine pinFrom_quoted inClass _ ⟨?_, ?_, ?_, ?_⟩ <;> rintro rfl <;> cases special
    · have notSlash : c ≠ '\\' := ClassReader.isNot_of_isClassSyntax special rfl
      have notOpening : c ≠ '[' := ClassReader.isNot_of_isClassSyntax special rfl
      have notClosing : c ≠ ']' := ClassReader.isNot_of_isClassSyntax special rfl
      rw [if_neg special]
      simp [pinFrom, notSlash, notOpening, notClosing]

theorem pinShorthands_defaultPattern (delimiter : String) :
    pinShorthands (defaultPattern delimiter) = defaultPattern delimiter := by
  have pinned : pinFrom false (defaultPattern delimiter).toList =
      (defaultPattern delimiter).toList := by
    rw [toList_defaultPattern]
    change '[' :: '^' :: pinFrom true _ = _
    rw [pinFrom_escapeWhere]
    rfl
  rw [pinShorthands, pinned, String.ofList_toList]

end PathTemplate
