/-
Lexemes that are read from their own text.

Some lexemes end where they do whatever comes next, others only before certain characters. A
`Sign` is what a lexeme is apart from its place; signs whose texts stand one after the other are
read as lexemes of their own if each is read from its own text before the rest.

* `strictFrom_spelled`: signs that are read each from its own text are read one after the other.
* `isRead_escaped`, `isRead_name` and `isRead_pattern`: which lexemes are, and before what.
-/

import PathTemplate.Proofs.Token.Balance

namespace PathTemplate

namespace Lexeme

/-! ### Lexemes one after the other -/

/-- What a lexeme is, wherever it stands. -/
abbrev Sign := Kind × String

/-- The text of signs. -/
def spelled (signs : List Sign) : List Char := signs.flatMap fun sign => sign.1.spell sign.2.toList

/-- The lexemes of signs that stand one after the other from `index` on. -/
def placed (index : Nat) : List Sign → List Lexeme
  | [] => []
  | (kind, value) :: signs =>
    ⟨kind, index, value⟩ :: placed (index + (kind.spell value.toList).length) signs

/-- The sign is read from its own text where `rest` follows. -/
def IsRead (sign : Sign) (rest : List Char) : Prop :=
  ∃ c tail, sign.1.spell sign.2.toList = c :: tail ∧
    ∀ index, first index c (tail ++ rest) = .ok (⟨sign.1, index, sign.2⟩, tail.length)

/-- So is every one of the signs. -/
def AreRead : List Sign → List Char → Prop
  | [], _ => True
  | sign :: signs, rest => IsRead sign (spelled signs ++ rest) ∧ AreRead signs rest

section Signs

variable {signs more : List Sign} {rest : List Char}

theorem spelled_append : spelled (signs ++ more) = spelled signs ++ spelled more :=
  List.flatMap_append

theorem placed_append (index : Nat) : placed index (signs ++ more) =
    placed index signs ++ placed (index + (spelled signs).length) more := by
  induction signs generalizing index with
  | nil => rfl
  | cons sign signs ih =>
    have size : (spelled (sign :: signs)).length =
        (sign.1.spell sign.2.toList).length + (spelled signs).length := by
      simp [spelled]
    rw [List.cons_append, placed, ih, size, placed, Nat.add_assoc]
    rfl

theorem areRead_append (here : AreRead signs (spelled more ++ rest)) (there : AreRead more rest) :
    AreRead (signs ++ more) rest := by
  induction signs with
  | nil => exact there
  | cons sign signs ih =>
    refine ⟨?_, ih here.2⟩
    have follow := here.1
    rw [← List.append_assoc, ← spelled_append] at follow
    exact follow

theorem strictFrom_covered (index : Nat) (covered rest : List Char) :
    strictFrom index covered.length (covered ++ rest) =
      strictFrom (index + covered.length) 0 rest := by
  induction covered generalizing index with
  | nil => rfl
  | cons c covered ih =>
    rw [List.length_cons, List.cons_append, strictFrom, ih, Nat.add_assoc, Nat.add_comm 1]

/-- The end of the pattern is read last, and what holds of every lexeme that is read first holds of
all before it. -/
theorem exists_body_of_strictFrom {holds : Lexeme → Prop}
    (each : ∀ {index further : Nat} {c : Char} {rest : List Char} {lexeme : Lexeme},
      first index c rest = .ok (lexeme, further) → holds lexeme)
    {index covered : Nat} {text : List Char} {found : List Lexeme}
    (read : strictFrom index covered text = .ok found) :
    ∃ body last, found = body ++ [⟨.finish, last, ""⟩] ∧ ∀ lexeme ∈ body, holds lexeme := by
  induction text generalizing index covered found with
  | nil =>
    cases read
    exact ⟨[], index, rfl, nofun⟩
  | cons c text ih =>
    cases covered with
    | succ covered => exact ih read
    | zero =>
      simp only [strictFrom] at read
      cases begins : first index c text with
      | error fault =>
        rw [begins] at read
        cases read
      | ok result =>
        rw [begins] at read
        obtain ⟨others, more, rfl⟩ := map_eq_ok read
        obtain ⟨body, last, rfl, sound⟩ := ih more
        exact ⟨result.1 :: body, last, rfl, List.forall_mem_cons.2 ⟨each begins, sound⟩⟩

/-- Signs that are read each from its own text are read one after the other. -/
theorem strictFrom_spelled (read : AreRead signs rest) (index : Nat) :
    strictFrom index 0 (spelled signs ++ rest) =
      (strictFrom (index + (spelled signs).length) 0 rest).map (placed index signs ++ ·) := by
  induction signs generalizing index with
  | nil =>
    simp only [spelled, List.flatMap_nil, List.nil_append, List.length_nil, Nat.add_zero, placed]
    cases strictFrom index 0 rest <;> rfl
  | cons sign signs ih =>
    obtain ⟨c, tail, spell, result⟩ := read.1
    have text : spelled (sign :: signs) = c :: (tail ++ spelled signs) := by
      rw [spelled, List.flatMap_cons, spell]
      rfl
    have first : strictFrom index 0 (c :: (tail ++ (spelled signs ++ rest))) =
        (strictFrom (index + 1) tail.length (tail ++ (spelled signs ++ rest))).map
          (⟨sign.1, index, sign.2⟩ :: ·) := by
      rw [strictFrom, result]
    have place : index + (c :: (tail ++ spelled signs)).length =
        index + 1 + tail.length + (spelled signs).length := by
      simp only [List.length_cons, List.length_append]
      omega
    rw [text, List.cons_append, List.append_assoc, first, strictFrom_covered, ih read.2, placed,
      spell, place, List.length_cons, ← Nat.add_assoc, Nat.add_right_comm index 1]
    cases strictFrom (index + tail.length + 1 + (spelled signs).length) 0 rest <;> rfl

end Signs

/-! ### Single lexemes -/

section Single

variable {rest : List Char}

theorem isRead_escaped (c : Char) : IsRead (.escaped, String.singleton c) rest :=
  ⟨'\\', [c], by simp [Kind.spell], fun _ => rfl⟩

/-- The text does not go on as a name. -/
def StopsName (text : List Char) : Prop := ∀ c ∈ text.head?, isNameContinue c = false

theorem leadingName_append {name : List Char} (whole : leadingName name = name)
    (stops : StopsName rest) : leadingName (name ++ rest) = name := by
  cases name with
  | nil =>
    cases rest with
    | nil => rfl
    | cons c rest =>
      have start : isNameStart c = false := Bool.eq_false_iff.2 fun start => by
        rw [StopsName, List.head?_cons] at stops
        exact Bool.eq_false_iff.1 (stops c rfl) (isNameContinue_of_isNameStart start)
      rw [List.nil_append, leadingName, start]
      rfl
  | cons c name =>
    rw [leadingName] at whole
    split at whole
    · rename_i start
      have others : name.takeWhile isNameContinue = name := (List.cons.inj whole).2
      have none : rest.takeWhile isNameContinue = [] := by
        cases rest with
        | nil => rfl
        | cons d rest => rw [List.takeWhile_cons, stops d rfl]; rfl
      rw [List.cons_append, leadingName, if_pos start, List.takeWhile_append, others,
        if_pos rfl, none, List.append_nil]
    · cases whole

theorem isRead_name {name : String} (nonempty : name ≠ "")
    (whole : leadingName name.toList = name.toList) (stops : StopsName rest) :
    IsRead (.name, name) rest := by
  refine ⟨':', name.toList, rfl, fun index => ?_⟩
  obtain ⟨c, chars, text⟩ := List.exists_cons_of_ne_nil fun none =>
    nonempty (String.toList_eq_nil_iff.1 none)
  have read := leadingName_append whole stops
  rw [text] at read ⊢
  simp only [first, read]
  rw [← text, String.ofList_toList]

/-- What is read as a custom pattern is read as one wherever it stands. -/
theorem customPattern_eq_ok {index : Nat} {text body : List Char}
    (read : customPattern index text = .ok body) (index' : Nat) :
    customPattern index' (body ++ ')' :: rest) = .ok body := by
  obtain ⟨nonempty, begins, -, balanced⟩ := customPattern_eq_ok_iff.1 read
  exact customPattern_eq_ok_iff.2 ⟨nonempty, begins, ⟨rest, rfl⟩, balanced⟩

/-- What is the first lexeme of a text in parentheses is read as a custom pattern. -/
theorem customPattern_of_lexemes {pattern : String} {others : List Lexeme}
    (alone : lexemes ("(" ++ pattern ++ ")") = .ok (⟨.pattern, 0, pattern⟩ :: others)) :
    customPattern 0 (pattern.toList ++ [')']) = .ok pattern.toList := by
  have text : ("(" ++ pattern ++ ")").toList = '(' :: (pattern.toList ++ [')']) := by simp
  rw [lexemes, text, strictFrom] at alone
  cases read : customPattern 0 (pattern.toList ++ [')']) with
  | error fault =>
    simp only [first, read] at alone
    cases alone
  | ok body =>
    simp only [first, read] at alone
    obtain ⟨_, _, same⟩ := map_eq_ok alone
    have lexeme := (List.cons.inj same).1
    injection lexeme with _ _ value
    rw [← value, String.toList_ofList]

/-- A pattern that is one lexeme between parentheses is one wherever it stands. -/
theorem isRead_pattern {pattern : String} {index : Nat}
    (alone : lexemes ("(" ++ pattern ++ ")") = .ok [⟨.pattern, 0, pattern⟩, ⟨.finish, index, ""⟩]) :
    IsRead (.pattern, pattern) rest := by
  refine ⟨'(', pattern.toList ++ [')'], by simp [Kind.spell], fun index => ?_⟩
  have here : customPattern index (pattern.toList ++ ([')'] ++ rest)) = .ok pattern.toList :=
    customPattern_eq_ok (customPattern_of_lexemes alone) index
  rw [List.append_assoc]
  simp only [first, here, List.length_append, List.length_singleton, String.ofList_toList]

end Single

end Lexeme

end PathTemplate
