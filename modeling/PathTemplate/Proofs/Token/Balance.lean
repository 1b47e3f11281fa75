/-
Custom patterns, up to the parenthesis that closes them.

The lexer takes a custom pattern character by character and counts the parentheses that are still
open. `Lexeme.Balanced` says what it counts, with one constructor for each branch of
`Lexeme.patternBody` that goes on.

* `patternBody_eq_ok_iff`: what is read is what stands before the closing parenthesis, and it is
  balanced and, outside of what is escaped, ASCII.
* `customPattern_eq_ok_iff`: so is a whole custom pattern, which is not empty either and does not
  begin with a question mark.
-/

import PathTemplate.Proofs.Results
import PathTemplate.Lexeme.Reader

namespace PathTemplate

/-- All characters of the text are ASCII. -/
def IsAscii (text : List Char) : Prop := ∀ c ∈ text, c.toNat < 0x80

instance (text : List Char) : Decidable (IsAscii text) :=
  List.decidableBAll (fun c : Char => c.toNat < 0x80) text

namespace Lexeme

/-- The text without what is escaped: each backslash goes with the character after it. One that has
nothing after it stays. -/
def bare : List Char → List Char
  | '\\' :: _ :: rest => bare rest
  | c :: rest => c :: bare rest
  | [] => []

/-- The text closes its own groups and `depth` more, as the lexer counts them: a parenthesis counts
unless a backslash takes its meaning away, and one that opens a group has a question mark after
it. -/
inductive Balanced : (depth : Nat) → List Char → Prop where
  | nil : Balanced 0 []
  | escaped {depth : Nat} (c : Char) {rest : List Char} : Balanced depth rest →
      Balanced depth ('\\' :: c :: rest)
  | closing {depth : Nat} {rest : List Char} :
      Balanced depth rest → Balanced (depth + 1) (')' :: rest)
  | opening {depth : Nat} {rest : List Char} : rest.head? = some '?' → Balanced (depth + 1) rest →
      Balanced depth ('(' :: rest)
  | plain {depth : Nat} {c : Char} {rest : List Char} : c ≠ '\\' → c ≠ ')' → c ≠ '(' →
      Balanced depth rest → Balanced depth (c :: rest)

section Patterns

variable {start index depth : Nat} {c : Char} {text body rest : List Char}

theorem bare_cons (notEscape : c ≠ '\\') (rest : List Char) :
    bare (c :: rest) = c :: bare rest := by
  rw [bare]
  rintro _ _ rfl
  exact absurd rfl notEscape

theorem patternBody_escaped (c : Char) (text : List Char) :
    patternBody start index depth ('\\' :: c :: text) =
      (patternBody start (index + 2) depth text).map fun body => '\\' :: c :: body := by
  rw [patternBody.eq_def]
  rfl

/-- What is read ends before the parenthesis that closes it. -/
theorem balanced_of_patternBody (read : patternBody start index depth text = .ok body) :
    (∃ after, text = body ++ ')' :: after) ∧ Balanced depth body ∧ IsAscii (bare body) := by
  fun_induction patternBody start index depth text generalizing body with
  | case4 index depth c text ascii ih =>
    obtain ⟨body, more, rfl⟩ := map_eq_ok read
    obtain ⟨⟨after, rfl⟩, balanced, others⟩ := ih more
    exact ⟨⟨after, rfl⟩, .escaped c balanced, others⟩
  | case5 =>
    cases read
    exact ⟨⟨_, rfl⟩, .nil, List.forall_mem_nil _⟩
  | case6 index text depth ascii notEscape ih =>
    obtain ⟨body, more, rfl⟩ := map_eq_ok read
    obtain ⟨⟨after, rfl⟩, balanced, others⟩ := ih more
    exact ⟨⟨after, rfl⟩, .closing balanced,
      List.forall_mem_cons.2 ⟨Nat.lt_of_not_le ascii, others⟩⟩
  | case7 index depth text mark ascii notEscape notClose ih =>
    obtain ⟨body, more, rfl⟩ := map_eq_ok read
    obtain ⟨⟨after, rfl⟩, balanced, others⟩ := ih more
    -- The question mark is part of what is read, as it is no closing parenthesis.
    have mark : body.head? = some '?' := by
      cases body with
      | nil => cases mark
      | cons d body => exact mark
    exact ⟨⟨after, rfl⟩, .opening mark balanced,
      List.forall_mem_cons.2 ⟨Nat.lt_of_not_le ascii, others⟩⟩
  | case9 index depth c text ascii notEscape notClose notOpen ih =>
    obtain ⟨body, more, rfl⟩ := map_eq_ok read
    obtain ⟨⟨after, rfl⟩, balanced, others⟩ := ih more
    refine ⟨⟨after, rfl⟩, .plain notEscape notClose notOpen balanced, ?_⟩
    rw [bare_cons notEscape]
    exact List.forall_mem_cons.2 ⟨Nat.lt_of_not_le ascii, others⟩
  | _ => cases read

/-- A balanced text is read up to the parenthesis that comes after it. -/
theorem patternBody_of_balanced (balanced : Balanced depth body) (ascii : IsAscii (bare body)) :
    patternBody start index depth (body ++ ')' :: rest) = .ok body := by
  induction balanced generalizing index with
  | nil =>
    rw [List.nil_append, patternBody.eq_def]
    rfl
  | escaped c _ ih => exact (patternBody_escaped c _).trans (congrArg (Except.map _) (ih ascii))
  | closing _ ih =>
    have others := (List.forall_mem_cons.1 ascii).2
    rw [List.cons_append, patternBody.eq_def]
    exact congrArg (Except.map _) (ih others)
  | @opening depth body mark _ ih =>
    have others := (List.forall_mem_cons.1 ascii).2
    have mark : (body ++ ')' :: rest).head? = some '?' := by
      rw [List.head?_append, mark]
      rfl
    rw [List.cons_append, patternBody.eq_def]
    exact (if_pos mark).trans (congrArg (Except.map _) (ih others))
  | plain notEscape notClose notOpen _ ih =>
    rw [bare_cons notEscape] at ascii
    obtain ⟨here, others⟩ := List.forall_mem_cons.1 ascii
    rw [List.cons_append, patternBody.eq_def]
    simp only [if_neg (Nat.not_le_of_lt here), if_neg notEscape, if_neg notClose, if_neg notOpen,
      ih others]
    rfl

theorem patternBody_eq_ok_iff : patternBody start index depth text = .ok body ↔
    (∃ after, text = body ++ ')' :: after) ∧ Balanced depth body ∧ IsAscii (bare body) := by
  refine ⟨balanced_of_patternBody, ?_⟩
  rintro ⟨⟨after, rfl⟩, balanced, ascii⟩
  exact patternBody_of_balanced balanced ascii

/-- Where a custom pattern stands does not matter to what is read. -/
theorem customPattern_eq_ok_iff : customPattern index text = .ok body ↔
    body ≠ [] ∧ body.head? ≠ some '?' ∧ (∃ after, text = body ++ ')' :: after) ∧
      Balanced 0 body ∧ IsAscii (bare body) := by
  have head {body : List Char} (nonempty : body ≠ []) (after : List Char) :
      (body ++ ')' :: after).head? = body.head? := by
    obtain ⟨c, others, rfl⟩ := List.exists_cons_of_ne_nil nonempty
    rfl
  constructor
  · intro read
    unfold customPattern at read
    split at read
    · cases read
    · rename_i noMark
      split at read
      · cases read
      · cases read
      · rename_i nonempty inside
        cases read
        obtain ⟨⟨after, rfl⟩, balanced⟩ := patternBody_eq_ok_iff.1 inside
        exact ⟨nonempty, head nonempty after ▸ noMark, ⟨after, rfl⟩, balanced⟩
  · rintro ⟨nonempty, begins, ⟨after, rfl⟩, balanced, ascii⟩
    rw [customPattern, if_neg (head nonempty after ▸ begins),
      patternBody_of_balanced balanced ascii]
    obtain ⟨c, others, rfl⟩ := List.exists_cons_of_ne_nil nonempty
    rfl

end Patterns

end Lexeme

end PathTemplate
