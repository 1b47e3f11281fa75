/-
Faults, and what is read despite them.

A pattern is faulty where no lexeme can begin. `lexemes` stops at the first such character and
`lenientLexemes` goes on after it, so that up to there they are the same. A fault points to the
character that offends, which may stand well inside the construct that cannot be read.

* `Fault.Offends`: which character that is.
* `exists_fault_of_strictFrom`: both ways of reading come to the same character, and what they read
  before it is read as well where the text is cut there.
* `lexemes_lenientLexemes`: how the two ways of reading a pattern belong together.
-/

import PathTemplate.Proofs.Token.Tiling

namespace PathTemplate

namespace Lexeme

/-- The character with which the construct begins that cannot be read. -/
def Fault.opener : Fault → Char
  | .missingName _ => ':'
  | .unfinishedEscape _ => '\\'
  | .questionMarkFirst _ | .nonAscii _ _ | .capturingGroup _ | .unbalancedPattern _
  | .missingPattern _ => '('

/-- The fault points to the character of the text that offends in the construct that begins at
`opened`: where none does so more than others, to the beginning. -/
def Fault.Offends (text : List Char) (opened : Nat) : Fault → Prop
  | .missingName index | .unbalancedPattern index | .missingPattern index
  | .unfinishedEscape index => index = opened
  | .questionMarkFirst index => index = opened + 1 ∧ text[index]? = some '?'
  | .nonAscii c index => opened < index ∧ text[index]? = some c ∧ 0x80 ≤ c.toNat
  | .capturingGroup index =>
    opened < index ∧ text[index]? = some '(' ∧ text[index + 1]? ≠ some '?'

section Offends

variable {index : Nat} {fault : Fault} {before text : List Char}

theorem getElem?_at (place : before.length = index) (c : Char) (rest : List Char) :
    (before ++ c :: rest)[index]? = some c := by
  subst place
  simp

/-- What is wrong inside of a custom pattern stands there, or the pattern is not closed. -/
theorem offends_of_patternBody {start depth : Nat}
    (read : patternBody start index depth text = .error fault) (place : before.length = index)
    (inside : start < index) : fault.opener = '(' ∧ fault.Offends (before ++ text) start := by
  fun_induction patternBody start index depth text generalizing before with
  | case1 | case3 =>
    cases read
    exact ⟨rfl, rfl⟩
  | case2 index depth c rest notAscii =>
    cases read
    exact ⟨rfl, inside, getElem?_at place c rest, notAscii⟩
  | case4 index depth escaped rest ascii ih =>
    have further := @ih (before ++ ['\\', escaped]) (map_eq_error read) (by simp [place])
      (by omega)
    simpa using further
  | case5 => cases read
  | case6 index rest depth ascii notEscape ih =>
    have further := @ih (before ++ [')']) (map_eq_error read) (by simp [place]) (by omega)
    simpa using further
  | case7 index depth rest mark ascii notEscape notClose ih =>
    have further := @ih (before ++ ['(']) (map_eq_error read) (by simp [place]) (by omega)
    simpa using further
  | case8 index depth rest noMark ascii notEscape notClose =>
    cases read
    refine ⟨rfl, inside, getElem?_at place '(' rest, fun mark => noMark ?_⟩
    subst place
    simpa [List.getElem?_append_right, List.head?_eq_getElem?] using mark
  | case9 index depth c rest ascii notEscape notClose notOpen ih =>
    have further := @ih (before ++ [c]) (map_eq_error read) (by simp [place]) (by omega)
    simpa using further

/-- Where no lexeme can begin, the fault says with which character, and what offends after it. -/
theorem offends_of_first {c : Char} {rest : List Char}
    (read : first index c rest = .error fault) (place : before.length = index) :
    c = fault.opener ∧ fault.Offends (before ++ c :: rest) index := by
  unfold first at read
  split at read
  case h_6 =>
    cases rest with
    | nil =>
      cases read
      exact ⟨rfl, rfl⟩
    | cons escaped rest => cases read
  case h_7 =>
    split at read
    · cases read
      exact ⟨rfl, rfl⟩
    · cases read
  case h_8 =>
    have inside : before ++ '(' :: rest = (before ++ ['(']) ++ rest := List.append_cons ..
    have size : (before ++ ['(']).length = index + 1 := by simp [place]
    unfold customPattern at read
    by_cases mark : rest.head? = some '?'
    · obtain ⟨tail, rfl⟩ : ∃ tail, rest = '?' :: tail := List.head?_eq_some_iff.1 mark
      rw [if_pos mark] at read
      cases read
      exact ⟨rfl, rfl, inside ▸ getElem?_at size '?' tail⟩
    · rw [if_neg mark] at read
      cases body : patternBody index (index + 1) 0 rest with
      | error fault' =>
        simp only [body] at read
        cases read
        obtain ⟨opener, offends⟩ := offends_of_patternBody body size (Nat.lt_succ_self index)
        exact ⟨opener.symm, inside ▸ offends⟩
      | ok text =>
        cases text with
        | nil =>
          simp only [body] at read
          cases read
          exact ⟨rfl, rfl⟩
        | cons d text =>
          simp only [body] at read
          cases read
  all_goals cases read

/-- What a fault points to stands in the text, not before the construct that cannot be read. -/
theorem Fault.Offends.index_lt {opened : Nat} (offends : fault.Offends text opened)
    (here : opened < text.length) : opened ≤ fault.index ∧ fault.index < text.length := by
  cases fault with
  | missingName | unbalancedPattern | missingPattern | unfinishedEscape =>
    obtain rfl := offends
    exact ⟨Nat.le_refl _, here⟩
  | questionMarkFirst =>
    obtain ⟨rfl, there⟩ := offends
    exact ⟨Nat.le_succ _, (List.getElem?_eq_some_iff.1 there).1⟩
  | nonAscii | capturingGroup =>
    obtain ⟨after, there, _⟩ := offends
    exact ⟨Nat.le_of_lt after, (List.getElem?_eq_some_iff.1 there).1⟩

end Offends

/-! ### The two ways of reading -/

section Reading

variable {index covered : Nat} {text : List Char}

/-- Where there is no fault, both ways of reading are the same. -/
theorem lenientFrom_of_strictFrom {found : List Lexeme}
    (read : strictFrom index covered text = .ok found) :
    lenientFrom index covered text = found ∧ ∀ lexeme ∈ found, lexeme.kind ≠ .invalid := by
  fun_induction strictFrom index covered text generalizing found with
  | case1 index covered =>
    cases read
    exact ⟨by cases covered <;> rfl, by simp⟩
  | case2 index c rest covered ih => exact ih read
  | case3 => cases read
  | case4 index c rest lexeme further first ih =>
    obtain ⟨later, more, rfl⟩ := map_eq_ok read
    obtain ⟨_, _, _, _, spans⟩ := exists_spans_of_first first
    obtain ⟨same, valid⟩ := ih more
    exact ⟨by simp only [lenientFrom, first, same],
      List.forall_mem_cons.2 ⟨spans.proper.2, valid⟩⟩

/-- Up to the first fault both ways of reading are the same, and what they read there is read as
well where the text ends with it. -/
theorem exists_fault_of_strictFrom {fault : Fault}
    (read : strictFrom index covered text = .error fault) (room : covered ≤ text.length) :
    ∃ signs c rest later, text.drop covered = spelled signs ++ c :: rest ∧ AreRead signs [] ∧
      (∀ sign ∈ signs, sign.1 ≠ .invalid) ∧
      first (index + covered + (spelled signs).length) c rest = .error fault ∧
      lenientFrom index covered text = placed (index + covered) signs ++
        ⟨.invalid, index + covered + (spelled signs).length, String.singleton c⟩ :: later := by
  fun_induction strictFrom index covered text with
  | case1 => cases read
  | case2 index c rest covered ih =>
    have later := ih read (by simpa using room)
    rwa [Nat.add_assoc, Nat.add_comm 1] at later
  | case3 index c rest fault' begins =>
    cases read
    refine ⟨[], c, rest, lenientFrom (index + 1) 0 rest, rfl, trivial, List.forall_mem_nil _,
      begins, ?_⟩
    simp only [lenientFrom, begins]
    rfl
  | case4 index c rest lexeme further begins ih =>
    obtain ⟨covered, after, rfl, rfl, spans⟩ := exists_spans_of_first begins
    obtain ⟨signs, d, rest, later, cut, areRead, valid, stops, lenient⟩ :=
      ih (map_eq_error read) (by simp)
    rw [List.drop_left] at cut
    obtain ⟨kind, at', value⟩ := lexeme
    obtain rfl : at' = index := spans.index
    have spell : kind.spell value.toList = c :: covered := spans.written
    have text : spelled ((kind, value) :: signs) = c :: (covered ++ spelled signs) := by
      rw [spelled, List.flatMap_cons, spell]
      rfl
    have place : at' + 0 + (spelled ((kind, value) :: signs)).length =
        at' + 1 + covered.length + (spelled signs).length := by
      rw [text, List.length_cons, List.length_append]
      omega
    refine ⟨(kind, value) :: signs, d, rest, later, ?_, ⟨?_, areRead⟩,
      List.forall_mem_cons.2 ⟨spans.proper.2, valid⟩, place ▸ stops, ?_⟩
    · rw [List.drop_zero, text, cut, List.cons_append, List.append_assoc]
    · rw [List.append_nil]
      exact spans.isRead _ ⟨d :: rest, cut.symm⟩
    · have next : at' + 1 + covered.length = at' + 0 + (c :: covered).length := by
        rw [List.length_cons]
        omega
      simp only [lenientFrom, begins]
      rw [lenient, place, placed, spell, ← next]
      rfl

end Reading

theorem kinds_placed (index : Nat) (signs : List Sign) :
    (placed index signs).map kind = signs.map Prod.fst := by
  induction signs generalizing index with
  | nil => rfl
  | cons sign signs ih => rw [placed, List.map_cons, List.map_cons, ih]

/-- The fault is that of the first invalid lexeme, `bad`, where the pattern is read leniently. -/
structure Fault.IsFirst (pattern : String) (fault : Fault) (earlier : List Lexeme) (bad : Lexeme)
    (later : List Lexeme) : Prop where
  lenient : lenientLexemes pattern = earlier ++ bad :: later
  valid : ∀ lexeme ∈ earlier, lexeme.kind ≠ .invalid
  invalid : bad.kind = .invalid
  /-- The construct that cannot be read begins there. -/
  opener : pattern.toList[bad.index]? = some fault.opener
  /-- The fault points to what offends in it. -/
  offends : fault.Offends pattern.toList bad.index
  index_le : bad.index ≤ fault.index
  index_lt : fault.index < pattern.toList.length
  /-- The pattern up to there is read as the lexemes before. -/
  before : lexemes (String.ofList (pattern.toList.take bad.index)) =
    .ok (earlier ++ [⟨.finish, bad.index, ""⟩])

/-- A pattern that has a fault has one that is the first. -/
theorem exists_isFirst {pattern : String} {fault : Fault} (read : lexemes pattern = .error fault) :
    ∃ earlier bad later, fault.IsFirst pattern earlier bad later := by
  obtain ⟨signs, c, rest, later, split, areRead, valid, stops, lenient⟩ :=
    exists_fault_of_strictFrom read (Nat.zero_le _)
  rw [List.drop_zero] at split
  rw [Nat.add_zero, Nat.zero_add] at stops lenient
  obtain ⟨opener, offends⟩ := offends_of_first stops rfl
  rw [← split] at offends
  have here : (spelled signs).length < pattern.toList.length := by
    rw [split, List.length_append, List.length_cons]
    omega
  obtain ⟨index_le, index_lt⟩ := offends.index_lt here
  refine ⟨placed 0 signs, _, later, lenient, fun lexeme member => ?_, rfl, ?_, offends, index_le,
    index_lt, ?_⟩
  · have kind : lexeme.kind ∈ signs.map Prod.fst := by
      rw [← kinds_placed 0]
      exact List.mem_map_of_mem member
    obtain ⟨sign, present, same⟩ := List.mem_map.1 kind
    exact same ▸ valid sign present
  · rw [split, ← opener]
    exact getElem?_at rfl c rest
  · have alone := strictFrom_spelled areRead 0
    rw [List.append_nil, Nat.zero_add] at alone
    rw [lexemes, String.toList_ofList, split, List.take_left, alone]
    rfl

/-- Both ways of reading a pattern give the same lexemes if there is no fault, and there is none
just if no lexeme is invalid. If there is one, it is that of the first invalid lexeme. -/
theorem lexemes_lenientLexemes (pattern : String) :
    ((∃ found, lexemes pattern = .ok found) ↔
      ∀ lexeme ∈ lenientLexemes pattern, lexeme.kind ≠ .invalid) ∧
    (∀ found, lexemes pattern = .ok found → lenientLexemes pattern = found) ∧
    ∀ fault, lexemes pattern = .error fault →
      ∃ earlier bad later, fault.IsFirst pattern earlier bad later := by
  refine ⟨⟨fun ⟨found, read⟩ => ?_, fun valid => ?_⟩, fun found read => ?_,
    fun fault => exists_isFirst⟩
  · obtain ⟨same, valid⟩ := lenientFrom_of_strictFrom read
    rwa [← same] at valid
  · cases read : lexemes pattern with
    | ok found => exact ⟨found, rfl⟩
    | error fault =>
      obtain ⟨earlier, bad, later, first⟩ := exists_isFirst read
      refine absurd first.invalid (valid bad ?_)
      rw [first.lenient]
      exact List.mem_append_right _ List.mem_cons_self
  · exact (lenientFrom_of_strictFrom read).1

/-- A capture group inside of a custom pattern is reported where it stands, and the pattern is
invalid from its parenthesis on. -/
theorem lexemes_lenientLexemes_group :
    (∃ found, lexemes "/:a(b)" = .ok found ∧ lenientLexemes "/:a(b)" = found) ∧
      lexemes "/:a(b(c))" = .error (.capturingGroup 5) ∧
      ∃ earlier bad later, (Fault.capturingGroup 5).IsFirst "/:a(b(c))" earlier bad later := by
  have read := toOption_eq_some_iff.1 <| Eq.symm <| Option.some_get <|
    show (lexemes "/:a(b)").toOption.isSome by decide +kernel
  have faulty : lexemes "/:a(b(c))" = .error (.capturingGroup 5) := by decide +kernel
  exact ⟨⟨_, read, (lexemes_lenientLexemes _).2.1 _ read⟩, faulty,
    (lexemes_lenientLexemes _).2.2 _ faulty⟩

end Lexeme

end PathTemplate
