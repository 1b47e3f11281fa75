/-
Languages of expressions.

`Expr.Denotes` says that an expression covers the texts of a language and no others, wherever they
stand. There is one rule for each way in which a route puts expressions together.

* `Expr.denote_spelling`: an escaped text stands for itself, letter case being what it is.
* `Expr.Denotes.modified`: a modifier repeats a language.
* `Language.separated_iff`: repetitions with something between them, inside what stands around
  them, are repetitions of all of it.
-/

import Mathlib.Data.List.Forall2
import PathTemplate.Proofs.Expression.Sequence
import PathTemplate.Proofs.Reading.Classes

namespace PathTemplate

/-- So many occurrences are allowed. -/
def Modifier.allows : Modifier → Nat → Bool
  | .once, count => count = 1
  | .optional, count => count ≤ 1
  | .oneOrMore, count => 1 ≤ count
  | .zeroOrMore, _ => true

/-- Members of an image are the image of members. -/
theorem exists_map_eq {α β : Type} {f : α → β} {holds : α → Prop} {bs : List β}
    (all : ∀ b ∈ bs, ∃ a, holds a ∧ b = f a) :
    ∃ as : List α, bs = as.map f ∧ ∀ a ∈ as, holds a := by
  induction bs with
  | nil => exact ⟨[], rfl, nofun⟩
  | cons b bs ih =>
    obtain ⟨a, first, rfl⟩ := all b List.mem_cons_self
    obtain ⟨as, rfl, others⟩ := ih fun b' member => all b' (List.mem_cons_of_mem _ member)
    exact ⟨a :: as, rfl, List.forall_mem_cons.2 ⟨first, others⟩⟩

/-- A language: a property of texts. -/
abbrev Language := List Char → Prop

namespace Language

/-- A text of the first language and then one of the second. -/
def then_ (first second : Language) : Language := fun w => ∃ u v, w = u ++ v ∧ first u ∧ second v

/-- As many texts of the language as the modifier allows. -/
def repeated (language : Language) (modifier : Modifier) : Language := fun w =>
  ∃ texts : List (List Char), modifier.allows texts.length = true ∧ (∀ u ∈ texts, language u) ∧
    w = texts.flatten

/-- An escaped text may stand for such a text: every character is the same, or alike to it where
case does not matter. -/
def spelled (fold : Bool) (text : List Char) : Language :=
  List.Forall₂ (fun c d =>
    (CharSet.foldIf (fold && !syntaxCharacters.contains c) (.single c)).contains d = true) text

theorem spelled_self (fold : Bool) (text : List Char) : spelled fold text text := by
  induction text with
  | nil => exact .nil
  | cons c text ih =>
    refine .cons ?_ ih
    unfold CharSet.foldIf
    split
    · exact CharSet.contains_folded_of_contains (by simp)
    · simp

/-- A text stands for itself alone if no character of it has another spelling. -/
theorem eq_of_spelled {fold : Bool} {text w : List Char}
    (only : ∀ c ∈ text, ∀ d, (CharSet.foldIf (fold && !syntaxCharacters.contains c)
      (.single c)).contains d = true → d = c) (spelled : spelled fold text w) : w = text := by
  induction spelled with
  | nil => rfl
  | cons first _ ih =>
    obtain ⟨here, others⟩ := List.forall_mem_cons.1 only
    rw [ih others, here _ first]

/-- So it is where letter case matters, and for characters that are escaped. -/
theorem eq_of_spelled_escaped {fold : Bool} {text w : List Char}
    (escaped : ∀ c ∈ text, (fold && !syntaxCharacters.contains c) = false)
    (spelled : spelled fold text w) : w = text := by
  refine eq_of_spelled (fun c member d same => ?_) spelled
  rw [escaped c member] at same
  exact of_decide_eq_true (CharSet.contains_single ▸ same)

theorem spelled_false {text w : List Char} : spelled false text w ↔ w = text := by
  constructor
  · exact eq_of_spelled_escaped fun _ _ => rfl
  · rintro rfl
    exact spelled_self false w

theorem spelled_nil {fold : Bool} {w : List Char} : spelled fold [] w ↔ w = [] :=
  List.forall₂_nil_left_iff

section Algebra

variable {lead values trail : Language} {w : List Char}

theorem nil_then_ {language : Language} : then_ (· = []) language w ↔ language w := by
  constructor
  · rintro ⟨_, v, rfl, rfl, holds⟩
    exact holds
  · exact fun holds => ⟨[], w, rfl, rfl, holds⟩

theorem then_nil {language : Language} : then_ language (· = []) w ↔ language w := by
  constructor
  · rintro ⟨u, _, rfl, holds, rfl⟩
    rwa [List.append_nil]
  · exact fun holds => ⟨w, [], (List.append_nil w).symm, holds, rfl⟩

theorem then_congr {first first' second second' : Language} (left : ∀ u, first u ↔ first' u)
    (right : ∀ v, second v ↔ second' v) : then_ first second w ↔ then_ first' second' w := by
  simp only [then_, left, right]

/-- Values with texts between them, inside the same texts, are occurrences of all of that. -/
theorem separated_iff :
    lead.then_ ((values.then_ ((trail.then_ (lead.then_ values)).repeated .zeroOrMore)).then_ trail)
      w ↔ (lead.then_ (values.then_ trail)).repeated .oneOrMore w := by
  constructor
  · rintro ⟨l, _, rfl, holds, _, t, rfl, ⟨v, _, rfl, value, texts, -, all, rfl⟩, holds'⟩
    suffices ∃ occurrences, occurrences ≠ [] ∧
        (∀ u ∈ occurrences, lead.then_ (values.then_ trail) u) ∧
        l ++ ((v ++ texts.flatten) ++ t) = occurrences.flatten by
      obtain ⟨occurrences, some, all, same⟩ := this
      exact ⟨occurrences, by simpa [Modifier.allows, Nat.one_le_iff_ne_zero] using some, all, same⟩
    induction texts generalizing l v with
    | nil =>
      refine ⟨[l ++ (v ++ t)], List.cons_ne_nil _ _, fun u member => ?_, by simp⟩
      obtain rfl := List.mem_singleton.1 member
      exact ⟨l, _, rfl, holds, v, t, rfl, value, holds'⟩
    | cons text texts ih =>
      obtain ⟨⟨t', _, rfl, between, l', v', rfl, next, value'⟩, further⟩ :=
        List.forall_mem_cons.1 all
      obtain ⟨occurrences, _, others, same⟩ := ih l' next v' value' further
      refine ⟨(l ++ (v ++ t')) :: occurrences, List.cons_ne_nil _ _, ?_, ?_⟩
      · exact List.forall_mem_cons.2 ⟨⟨l, _, rfl, holds, v, t', rfl, value, between⟩, others⟩
      · simp [← same]
  · rintro ⟨occurrences, some, all, rfl⟩
    induction occurrences with
    | nil => simp [Modifier.allows] at some
    | cons first others ih =>
      obtain ⟨⟨l, _, rfl, holds, v, t, rfl, value, between⟩, more⟩ := List.forall_mem_cons.1 all
      cases others with
      | nil =>
        exact ⟨l, _, by simp, holds, v, t, rfl,
          ⟨v, [], by simp, value, [], rfl, nofun, rfl⟩, between⟩
      | cons second others =>
        obtain ⟨l', _, same, holds', _, t', rfl, ⟨v', _, rfl, value', texts, _, further, rfl⟩,
          last⟩ := ih (by simp [Modifier.allows]) more
        refine ⟨l, _, ?_, holds, v ++ ((t ++ (l' ++ v')) :: texts).flatten, t', rfl,
          ⟨v, _, rfl, value, _, rfl, List.forall_mem_cons.2 ⟨?_, further⟩, rfl⟩, last⟩
        · rw [List.flatten_cons, same]
          simp
        · exact ⟨t, _, rfl, between, l', v', rfl, holds', value'⟩

/-- Any number of occurrences are none, or one or more. -/
theorem repeated_zeroOrMore {language : Language} :
    (language.repeated .oneOrMore).repeated .optional w ↔ language.repeated .zeroOrMore w := by
  constructor
  · rintro ⟨texts, allowed, all, rfl⟩
    match texts, allowed with
    | [], _ => exact ⟨[], rfl, nofun, rfl⟩
    | [u], _ =>
      obtain ⟨more, _, holds, rfl⟩ := all u List.mem_cons_self
      exact ⟨more, rfl, holds, by simp⟩
  · rintro ⟨texts, _, all, rfl⟩
    cases texts with
    | nil => exact ⟨[], rfl, nofun, rfl⟩
    | cons u texts =>
      refine ⟨[(u :: texts).flatten], rfl, fun t member => ?_, by simp⟩
      obtain rfl := List.mem_singleton.1 member
      exact ⟨u :: texts, by simp [Modifier.allows], all, rfl⟩

end Algebra

end Language

namespace Expr

/-- The expression covers the texts of the language, wherever they stand. -/
structure Denotes (e : Expr) (language : Language) : Prop where
  declarative : e.isDeclarative = true
  covers : ∀ {before w after : List Char}, e.Covers before w after ↔ language w

/-- So do the expressions one after the other. -/
structure Denote (parts : List Expr) (language : Language) : Prop where
  declarative : ∀ e ∈ parts, e.isDeclarative = true
  covers : ∀ {before w after : List Char}, CoversAll parts before w after ↔ language w

section Denotes

variable {e : Expr} {parts more : List Expr} {language other : Language}

theorem Denotes.iff (h : e.Denotes language) (same : ∀ w, language w ↔ other w) : e.Denotes other :=
  ⟨h.declarative, h.covers.trans (same _)⟩

theorem Denote.iff (h : Denote parts language) (same : ∀ w, language w ↔ other w) :
    Denote parts other :=
  ⟨h.declarative, h.covers.trans (same _)⟩

theorem Denote.nil : Denote [] (· = []) := ⟨nofun, Iff.rfl⟩

theorem Denotes.single (h : e.Denotes language) : Denote [e] language where
  declarative := by
    intro e' member
    exact List.mem_singleton.1 member ▸ h.declarative
  covers := coversAll_singleton.trans h.covers

theorem Denote.append (h₁ : Denote parts language) (h₂ : Denote more other) :
    Denote (parts ++ more) (language.then_ other) where
  declarative := by
    intro e member
    rcases List.mem_append.1 member with member | member
    · exact h₁.declarative e member
    · exact h₂.declarative e member
  covers := by
    intro before w after
    rw [coversAll_append]
    constructor
    · rintro ⟨u, v, rfl, first, second⟩
      exact ⟨u, v, rfl, h₁.covers.1 first, h₂.covers.1 second⟩
    · rintro ⟨u, v, rfl, first, second⟩
      exact ⟨u, v, rfl, h₁.covers.2 first, h₂.covers.2 second⟩

theorem Denote.join (h : Denote parts language) : (join parts).Denotes language :=
  ⟨isDeclarative_join h.declarative, covers_join.trans h.covers⟩

theorem Denotes.group (h : e.Denotes language) (number : Nat) :
    (group number e).Denotes language :=
  ⟨h.declarative, h.covers⟩

theorem repeats_iff (h : e.Denotes language) {count : Nat} {before w after : List Char} :
    Repeats e.Covers count before w after ↔
      ∃ texts : List (List Char), texts.length = count ∧ (∀ u ∈ texts, language u) ∧
        w = texts.flatten := by
  induction count generalizing before w with
  | zero =>
    constructor
    · rintro rfl
      exact ⟨[], rfl, nofun, rfl⟩
    · rintro ⟨texts, none, _, rfl⟩
      rw [List.length_eq_zero_iff.1 none]
      rfl
  | succ count ih =>
    constructor
    · rintro ⟨u, v, rfl, first, others⟩
      obtain ⟨texts, length, all, rfl⟩ := ih.1 others
      refine ⟨u :: texts, congrArg (· + 1) length, fun t member => ?_, rfl⟩
      rcases List.mem_cons.1 member with rfl | member
      · exact h.covers.1 first
      · exact all t member
    · rintro ⟨texts, length, all, rfl⟩
      obtain ⟨u, texts, rfl⟩ := List.exists_cons_of_length_eq_add_one length
      refine ⟨u, texts.flatten, rfl, h.covers.2 (all u List.mem_cons_self),
        ih.2 ⟨texts, ?_, ?_, rfl⟩⟩
      · exact Nat.succ.inj length
      · exact fun t member => all t (List.mem_cons_of_mem _ member)

theorem Denotes.modified (h : e.Denotes language) (greedy : Bool) (modifier : Modifier) :
    (e.modified greedy modifier).Denotes (language.repeated modifier) := by
  have loop (least : Nat) (most : Option Nat)
      (allowed : ∀ count, Allowed least most count ↔ modifier.allows count = true) :
      (Expr.loop least most greedy .refused e).Denotes (language.repeated modifier) := by
    refine ⟨h.declarative, ?_⟩
    intro before w after
    constructor
    · rintro ⟨count, allows, passes⟩
      obtain ⟨texts, rfl, all, rfl⟩ := (repeats_iff h).1 passes
      exact ⟨texts, (allowed _).1 allows, all, rfl⟩
    · rintro ⟨texts, allows, all, rfl⟩
      exact ⟨texts.length, (allowed _).2 allows, (repeats_iff h).2 ⟨texts, rfl, all, rfl⟩⟩
  cases modifier with
  | once =>
    refine h.iff fun w => ⟨fun holds => ⟨[w], rfl, ?_, by simp⟩, ?_⟩
    · exact fun u member => List.mem_singleton.1 member ▸ holds
    · rintro ⟨texts, one, all, rfl⟩
      obtain ⟨u, rfl⟩ := List.length_eq_one_iff.1 (of_decide_eq_true one)
      simpa using all u List.mem_cons_self
  | optional => exact loop 0 (some 1) fun count => by simp [Allowed, Modifier.allows]
  | oneOrMore => exact loop 1 none fun count => by simp [Allowed, Modifier.allows]
  | zeroOrMore => exact loop 0 none fun count => by simp [Allowed, Modifier.allows]

theorem denotes_one (set : CharSet) :
    (one set).Denotes fun w => ∃ c, w = [c] ∧ set.contains c = true :=
  ⟨rfl, Iff.rfl⟩

/-- One character of a set and more. -/
theorem denotes_oneOrMore (set : CharSet) (greedy : Bool) :
    ((one set).modified greedy .oneOrMore).Denotes fun w =>
      w ≠ [] ∧ ∀ c ∈ w, set.contains c = true := by
  refine ((denotes_one set).modified greedy .oneOrMore).iff fun w => ?_
  constructor
  · rintro ⟨texts, some, all, rfl⟩
    have characters : ∀ u ∈ texts, ∃ c, set.contains c = true ∧ u = [c] := by
      intro u member
      obtain ⟨c, rfl, belongs⟩ := all u member
      exact ⟨c, belongs, rfl⟩
    obtain ⟨chars, rfl, belong⟩ := exists_map_eq characters
    rw [← List.flatMap_def, List.flatMap_singleton']
    refine ⟨?_, belong⟩
    rintro rfl
    cases some
  · rintro ⟨nonempty, belong⟩
    refine ⟨w.map fun c => [c], ?_, ?_, ?_⟩
    · simpa [Modifier.allows, Nat.one_le_iff_ne_zero] using nonempty
    · intro u member
      obtain ⟨c, present, rfl⟩ := List.mem_map.1 member
      exact ⟨c, rfl, belong c present⟩
    · rw [← List.flatMap_def, List.flatMap_singleton']

/-- An escaped text covers what it may stand for. -/
theorem denote_spelling (fold : Bool) (text : String) :
    Denote (spelling fold text) (.spelled fold text.toList) := by
  unfold spelling
  induction text.toList with
  | nil => exact Denote.nil.iff fun w => Language.spelled_nil.symm
  | cons c text ih =>
    have one : (spelled fold c).Denotes (Language.spelled fold [c]) := by
      refine ⟨rfl, ?_⟩
      intro before w after
      constructor
      · rintro ⟨d, rfl, alike⟩
        exact .cons alike .nil
      · intro spelled
        cases spelled with
        | cons alike rest =>
          cases rest
          exact ⟨_, rfl, alike⟩
    refine (one.single.append ih).iff fun w => ?_
    constructor
    · rintro ⟨_, v, rfl, first, others⟩
      cases first with
      | cons alike rest =>
        cases rest
        exact .cons alike others
    · intro spelled
      cases spelled with
      | cons alike others => exact ⟨[_], _, rfl, .cons alike .nil, others⟩

end Denotes

end Expr

end PathTemplate
