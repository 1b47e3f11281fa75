/-
Lexemes tile the pattern.

The lexemes of a pattern stand one after the other, each where those before it end, and one lexeme
of kind `finish` stands at the end of the pattern. So they are the pattern, divided.

* `exists_spans_of_first`: a lexeme is written as the characters that it covers, and is read from
  them also where the text after them is cut.
* `lexemes_take`: a text that is cut after some lexemes is read as they are.
* `tiling_strictFrom` and `tiling_lenientFrom`: what either way of reading gives is a tiling.
* `tiles_lexemes`: what a tiling is in terms of the whole pattern.
-/

import Mathlib.Data.List.TakeWhile
import PathTemplate.Proofs.Token.Lexing

namespace PathTemplate

namespace Lexeme

/-! ### What a lexeme covers -/

section Covered

variable {index further : Nat} {c : Char} {rest : List Char}

/-- A custom pattern covers its text and the parenthesis that closes it. -/
theorem exists_after_of_customPattern {body : List Char}
    (read : customPattern index rest = .ok body) : ∃ after, rest = body ++ ')' :: after :=
  (customPattern_eq_ok_iff.1 read).2.2.1

/-- A name covers all characters that it may go on with. -/
theorem exists_after_of_leadingName {name : List Char} (nonempty : name ≠ [])
    (read : leadingName rest = name) :
    ∃ after, rest = name ++ after ∧ leadingName name = name ∧ StopsName after := by
  cases rest with
  | nil => exact absurd read.symm nonempty
  | cons d rest =>
    rw [leadingName] at read
    split at read
    · rename_i start
      subst read
      refine ⟨rest.dropWhile isNameContinue, ?_, ?_, ?_⟩
      · rw [List.cons_append, List.takeWhile_append_dropWhile]
      · have all : ∀ e ∈ rest.takeWhile isNameContinue, isNameContinue e = true :=
          fun _ member => List.mem_takeWhile_imp member
        rw [leadingName, if_pos start, List.takeWhile_eq_self_iff.2 all]
      · intro e head
        have stops := List.head?_dropWhile_not isNameContinue rest
        rw [Option.mem_def.1 head] at stops
        exact stops
    · exact absurd read.symm nonempty

/-- A text does not go on as a name either where it is cut. -/
theorem StopsName.of_prefix {text kept : List Char} (stops : StopsName text) (cut : kept <+: text) :
    StopsName kept := by
  obtain ⟨more, rfl⟩ := cut
  intro d head
  exact stops d (by rw [List.head?_append, Option.mem_def.1 head]; rfl)

/-- The lexeme begins with `c` at `index`, covers these further characters before `after`, and is
read from all of them also where the text after them is cut. -/
structure Spans (lexeme : Lexeme) (index : Nat) (c : Char) (covered after : List Char) : Prop where
  index : lexeme.index = index
  written : lexeme.written = c :: covered
  proper : lexeme.kind ≠ .finish ∧ lexeme.kind ≠ .invalid
  isRead : ∀ kept, kept <+: after → IsRead (lexeme.kind, lexeme.value) kept

/-- A character that is a lexeme whatever follows covers itself alone. -/
theorem exists_spans_of_single {lexeme : Lexeme} (kind : Kind) (spell : kind.spell [c] = [c])
    (proper : kind ≠ .finish ∧ kind ≠ .invalid)
    (always : ∀ index kept, first index c kept = .ok (⟨kind, index, String.singleton c⟩, 0))
    (here : Except.ok (ε := Fault) (⟨kind, index, String.singleton c⟩, 0) = .ok (lexeme, further)) :
    ∃ covered after, rest = covered ++ after ∧ covered.length = further ∧
      lexeme.Spans index c covered after := by
  cases here
  exact ⟨[], rest, rfl, rfl, rfl, by simpa [Lexeme.written] using spell, proper,
    fun kept _ => ⟨c, [], by simpa using spell, fun index => always index kept⟩⟩

/-- What is read as a lexeme spans the characters that it is said to cover. -/
theorem exists_spans_of_first {lexeme : Lexeme}
    (read : first index c rest = .ok (lexeme, further)) :
    ∃ covered after, rest = covered ++ after ∧ covered.length = further ∧
      lexeme.Spans index c covered after := by
  unfold first at read
  split at read
  case h_1 => exact exists_spans_of_single .asterisk rfl (by decide) (fun _ _ => rfl) read
  case h_2 => exact exists_spans_of_single .modifier rfl (by decide) (fun _ _ => rfl) read
  case h_3 => exact exists_spans_of_single .modifier rfl (by decide) (fun _ _ => rfl) read
  case h_4 => exact exists_spans_of_single .opening rfl (by decide) (fun _ _ => rfl) read
  case h_5 => exact exists_spans_of_single .closing rfl (by decide) (fun _ _ => rfl) read
  case h_6 =>
    cases rest with
    | nil => cases read
    | cons escaped rest =>
      cases read
      exact ⟨[escaped], rest, rfl, rfl, rfl, by simp [Lexeme.written, Kind.spell],
        by simp, fun _ _ => isRead_escaped escaped⟩
  case h_7 =>
    split at read
    · cases read
    · rename_i nonempty
      cases read
      obtain ⟨after, split, whole, stops⟩ := exists_after_of_leadingName nonempty rfl
      refine ⟨leadingName rest, after, split, rfl, rfl, ?_, by simp, fun kept cut => ?_⟩
      · rw [Lexeme.written, String.toList_ofList]
        rfl
      · refine isRead_name ?_ (by rw [String.toList_ofList, whole]) (stops.of_prefix cut)
        intro empty
        exact nonempty (by simpa using congrArg String.toList empty)
  case h_8 =>
    split at read
    · cases read
    · rename_i body custom
      cases read
      obtain ⟨after, rfl⟩ := exists_after_of_customPattern custom
      refine ⟨body ++ [')'], after, by simp, by simp, rfl, ?_, by simp, fun kept _ => ?_⟩
      · rw [Lexeme.written, String.toList_ofList]
        rfl
      · refine ⟨'(', body ++ [')'], by simp [Kind.spell], fun index => ?_⟩
        have here : customPattern index (body ++ ([')'] ++ kept)) = .ok body :=
          customPattern_eq_ok custom index
        rw [List.append_assoc]
        simp only [first, here, List.length_append, List.length_singleton]
  case h_9 =>
    refine exists_spans_of_single .plain rfl (by decide) (fun index kept => ?_) read
    unfold first
    split <;> first | contradiction | rfl

end Covered

/-! ### Where a text is cut -/

/-- The lexemes before one of those that are read are read as well where the text ends anywhere
after them, and that one is read from what follows them. -/
theorem exists_signs_of_strictFrom {index covered : Nat} {text : List Char} {found : List Lexeme}
    (read : strictFrom index covered text = .ok found) (room : covered ≤ text.length)
    {earlier later : List Lexeme} {lexeme : Lexeme} (place : found = earlier ++ lexeme :: later) :
    ∃ signs rest, text.drop covered = spelled signs ++ rest ∧
      earlier = placed (index + covered) signs ∧ (∀ kept, kept <+: rest → AreRead signs kept) ∧
      lexeme.index = index + covered + (spelled signs).length := by
  fun_induction strictFrom index covered text generalizing found earlier with
  | case1 index covered =>
    cases read
    obtain rfl : covered = 0 := by simpa using room
    obtain ⟨rfl, rfl, rfl⟩ : earlier = [] ∧ lexeme = ⟨.finish, index, ""⟩ ∧ later = [] := by
      cases earlier <;> simp_all
    exact ⟨[], [], rfl, rfl, fun _ _ => trivial, rfl⟩
  | case2 index c rest covered ih =>
    have further := ih read (by simpa using room) place
    rwa [Nat.add_assoc, Nat.add_comm 1] at further
  | case3 => cases read
  | case4 index c rest first further begins ih =>
    obtain ⟨others, more, rfl⟩ := map_eq_ok read
    obtain ⟨covered, after, rfl, rfl, spans⟩ := exists_spans_of_first begins
    cases earlier with
    | nil =>
      cases place
      exact ⟨[], _, rfl, rfl, fun _ _ => trivial, spans.index⟩
    | cons _ earlier =>
      obtain ⟨rfl, others⟩ := List.cons.inj place
      obtain ⟨signs, rest, cut, rfl, areRead, there⟩ := ih more (by simp) others
      rw [List.drop_left] at cut
      obtain ⟨kind, at', value⟩ := first
      obtain rfl : at' = index := spans.index
      have spell : kind.spell value.toList = c :: covered := spans.written
      have text : spelled ((kind, value) :: signs) = c :: (covered ++ spelled signs) := by
        rw [spelled, List.flatMap_cons, spell]
        rfl
      refine ⟨(kind, value) :: signs, rest, ?_, ?_, fun kept part => ⟨?_, areRead kept part⟩, ?_⟩
      · rw [List.drop_zero, text, cut, List.cons_append, List.append_assoc]
      · rw [placed, spell, List.length_cons, Nat.add_assoc, Nat.add_comm 1]
        rfl
      · exact spans.isRead _ (cut ▸ (List.prefix_append_right_inj _).2 part)
      · rw [there, text, List.length_cons, List.length_append]
        omega

/-- The text up to a lexeme is read as the lexemes before it, and so are they where the text goes on
as it does for longer. -/
theorem lexemes_take {pattern : String} {earlier later : List Lexeme} {lexeme : Lexeme}
    (read : lexemes pattern = .ok (earlier ++ lexeme :: later)) :
    ∀ count, lexeme.index ≤ count →
      lexemes (String.ofList (pattern.toList.take count)) =
        (strictFrom lexeme.index 0 ((pattern.toList.take count).drop lexeme.index)).map
          (earlier ++ ·) := by
  obtain ⟨signs, rest, cut, rfl, areRead, there⟩ :=
    exists_signs_of_strictFrom read (Nat.zero_le _) rfl
  rw [List.drop_zero] at cut
  rw [Nat.add_zero, Nat.zero_add] at there
  intro count enough
  obtain ⟨more, rfl⟩ := Nat.exists_eq_add_of_le enough
  rw [lexemes, String.toList_ofList, cut, there, List.take_length_add_append, List.drop_left,
    strictFrom_spelled (areRead _ (List.take_prefix more rest)), Nat.zero_add]

/-! ### Tilings -/

/-- The lexemes stand one after the other from `index` on and are the text; the one at its end is
the only one of kind `finish`. -/
inductive Tiling : (index : Nat) → List Char → List Lexeme → Prop where
  | finish (index : Nat) : Tiling index [] [⟨.finish, index, ""⟩]
  | cons {lexeme : Lexeme} {c : Char} {covered rest : List Char} {later : List Lexeme} :
      lexeme.kind ≠ .finish → lexeme.written = c :: covered →
      Tiling (lexeme.index + 1 + covered.length) rest later →
      Tiling lexeme.index (c :: (covered ++ rest)) (lexeme :: later)

section Tilings

variable {index covered : Nat} {text : List Char} {lexemes : List Lexeme}

theorem tiling_strictFrom (read : strictFrom index covered text = .ok lexemes)
    (room : covered ≤ text.length) : Tiling (index + covered) (text.drop covered) lexemes := by
  fun_induction strictFrom index covered text generalizing lexemes with
  | case1 index covered =>
    cases read
    obtain rfl : covered = 0 := by simpa using room
    exact .finish index
  | case2 index c rest covered ih =>
    have later := ih read (by simpa using room)
    rwa [Nat.add_assoc, Nat.add_comm 1] at later
  | case3 => cases read
  | case4 index c rest lexeme further first ih =>
    obtain ⟨later, more, rfl⟩ := map_eq_ok read
    obtain ⟨covered, after, rfl, rfl, rfl, written, ⟨other, _⟩, _⟩ := exists_spans_of_first first
    have there := ih more (by simp)
    rw [List.drop_left] at there
    exact .cons other written there

theorem tiling_lenientFrom (room : covered ≤ text.length) :
    Tiling (index + covered) (text.drop covered) (lenientFrom index covered text) := by
  fun_induction lenientFrom index covered text with
  | case1 index covered =>
    obtain rfl : covered = 0 := by simpa using room
    exact .finish index
  | case2 index c rest covered ih =>
    have later := ih (by simpa using room)
    rwa [Nat.add_assoc, Nat.add_comm 1] at later
  | case3 index c rest fault first ih =>
    have invalid : (⟨.invalid, index, String.singleton c⟩ : Lexeme).written = c :: [] := by
      simp [written, Kind.spell]
    exact .cons Kind.noConfusion invalid (ih (Nat.zero_le _))
  | case4 index c rest lexeme further first ih =>
    obtain ⟨covered, after, rfl, rfl, rfl, written, ⟨other, _⟩, _⟩ := exists_spans_of_first first
    have there := ih (by simp)
    rw [List.drop_left] at there
    exact .cons other written there

/-- What a tiling is written as is the text. -/
theorem Tiling.written (tiling : Tiling index text lexemes) : lexemes.flatMap written = text := by
  induction tiling with
  | finish => rfl
  | cons _ here _ ih => rw [List.flatMap_cons, here, ih, List.cons_append]

/-- Each lexeme begins where those before it end. -/
theorem Tiling.index_eq (tiling : Tiling index text lexemes) {earlier later : List Lexeme}
    {lexeme : Lexeme} (place : lexemes = earlier ++ lexeme :: later) :
    lexeme.index = index + (earlier.flatMap Lexeme.written).length := by
  induction tiling generalizing earlier with
  | finish index =>
    cases earlier with
    | nil =>
      cases place
      rfl
    | cons first earlier => simp at place
  | cons _ here _ ih =>
    cases earlier with
    | nil =>
      cases place
      rfl
    | cons first earlier =>
      obtain ⟨rfl, others⟩ := List.cons.inj place
      rw [ih others, List.flatMap_cons, here, List.length_append, List.length_cons]
      omega

/-- The end of the text is a lexeme, the last one and the only one of its kind. -/
theorem Tiling.finish_eq (tiling : Tiling index text lexemes) :
    ∃ others, lexemes = others ++ [⟨.finish, index + text.length, ""⟩] ∧
      ∀ lexeme ∈ others, lexeme.kind ≠ .finish := by
  induction tiling with
  | finish index => exact ⟨[], rfl, nofun⟩
  | @cons lexeme c covered rest later other _ _ ih =>
    obtain ⟨others, rfl, kinds⟩ := ih
    refine ⟨lexeme :: others, ?_, List.forall_mem_cons.2 ⟨other, kinds⟩⟩
    have place : lexeme.index + (c :: (covered ++ rest)).length =
        lexeme.index + 1 + covered.length + rest.length := by
      simp only [List.length_cons, List.length_append]
      omega
    rw [place, List.cons_append]

theorem Tiling.index_le (tiling : Tiling index text lexemes) :
    ∀ lexeme ∈ lexemes, index ≤ lexeme.index := by
  induction tiling with
  | finish index => simp
  | cons _ _ _ ih =>
    refine List.forall_mem_cons.2 ⟨Nat.le_refl _, fun lexeme member => ?_⟩
    have := ih lexeme member
    omega

/-- No two lexemes begin at the same place. -/
theorem Tiling.pairwise_index (tiling : Tiling index text lexemes) :
    lexemes.Pairwise (·.index < ·.index) := by
  induction tiling with
  | finish index => exact List.pairwise_singleton _ _
  | cons _ _ later ih =>
    refine List.pairwise_cons.2 ⟨fun lexeme member => ?_, ih⟩
    have := later.index_le lexeme member
    omega

theorem Tiling.length_le (tiling : Tiling index text lexemes) :
    lexemes.length ≤ text.length + 1 := by
  induction tiling with
  | finish index => simp
  | cons _ _ _ ih =>
    simp only [List.length_cons, List.length_append]
    omega

end Tilings

/-- The lexemes divide the text without a gap, an overlap or a loss. -/
structure Tiles (text : List Char) (lexemes : List Lexeme) : Prop where
  /-- Written one after the other they give the text back. -/
  written : lexemes.flatMap Lexeme.written = text
  /-- Each one begins where those before it end. -/
  index : ∀ earlier lexeme later, lexemes = earlier ++ lexeme :: later →
    lexeme.index = (earlier.flatMap Lexeme.written).length
  /-- The last one, and no other, is the end of the text. -/
  finish : ∃ others, lexemes = others ++ [⟨.finish, text.length, ""⟩] ∧
    ∀ lexeme ∈ others, lexeme.kind ≠ .finish
  ascending : lexemes.Pairwise (·.index < ·.index)
  length_le : lexemes.length ≤ text.length + 1

theorem Tiling.tiles {text : List Char} {lexemes : List Lexeme} (tiling : Tiling 0 text lexemes) :
    Tiles text lexemes where
  written := tiling.written
  index := by
    intro earlier lexeme later place
    rw [tiling.index_eq place, Nat.zero_add]
  finish := by
    obtain ⟨others, whole, kinds⟩ := tiling.finish_eq
    rw [Nat.zero_add] at whole
    exact ⟨others, whole, kinds⟩
  ascending := tiling.pairwise_index
  length_le := tiling.length_le

/-- Every pattern is tiled by its lenient lexemes, and by its lexemes if it has no fault. -/
theorem tiles_lexemes (pattern : String) : Tiles pattern.toList (lenientLexemes pattern) ∧
    ∀ found, lexemes pattern = .ok found → Tiles pattern.toList found := by
  refine ⟨?_, fun found read => ?_⟩
  · exact (@tiling_lenientFrom 0 0 pattern.toList (Nat.zero_le _)).tiles
  · exact (tiling_strictFrom read (Nat.zero_le _)).tiles

/-- A key with a custom pattern, an escaped character and an asterisk. -/
theorem tiles_lexemes_key :
    lexemes ":é(a\\))\\:*" = .ok [⟨.name, 0, "é"⟩, ⟨.pattern, 2, "a\\)"⟩, ⟨.escaped, 7, ":"⟩,
        ⟨.asterisk, 9, "*"⟩, ⟨.finish, 10, ""⟩] ∧
      Tiles ":é(a\\))\\:*".toList [⟨.name, 0, "é"⟩, ⟨.pattern, 2, "a\\)"⟩, ⟨.escaped, 7, ":"⟩,
        ⟨.asterisk, 9, "*"⟩, ⟨.finish, 10, ""⟩] :=
  have read : lexemes ":é(a\\))\\:*" = .ok [⟨.name, 0, "é"⟩, ⟨.pattern, 2, "a\\)"⟩,
      ⟨.escaped, 7, ":"⟩, ⟨.asterisk, 9, "*"⟩, ⟨.finish, 10, ""⟩] := by decide +kernel
  ⟨read, (tiles_lexemes _).2 _ read⟩

end Lexeme

end PathTemplate
