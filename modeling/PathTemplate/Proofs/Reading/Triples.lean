/-
What the texts that routes are made of do to a reader.

`Reads` is a triple: a text takes a reader whose flags satisfy one condition to a reader whose
flags satisfy another, and the parts that it adds are as the third component says. Whether the
reading has to succeed is a parameter, so that one rule for each construct serves both for
routes that are known to compile and for those that have to be shown to.

* `Reads.append` joins triples, `Reads.escape`, `Reads.cls`, `Reads.caret` and `Reads.dollar`
  start from single constructs.
* `Holds` is the same for all that stands in a group, with a rule for each kind of group.
-/

import PathTemplate.Proofs.Reading.Classes

namespace PathTemplate

/-- The reader is between two parts, its flags are as they should be, and `room` more groups can
be opened inside one another. -/
structure Reader.At (total : Bool) (room : Nat) (flags : Flags → Prop) (reader : Reader) :
    Prop where
  ready : reader.IsReady
  names : reader.names = []
  flags : flags reader.flags
  room : total = true → reader.frames.length + room ≤ nestingLimit

/-- The text adds parts to the branch, of which `post` holds with the number of the groups that
were opened before. -/
def Reads (total : Bool) (room groups : Nat) (before after : Flags → Prop) (text : List Char)
    (post : Nat → List Expr → Prop) : Prop :=
  ∀ reader : Reader, reader.At total room before →
    Ends total (fun next => ∃ parts, post reader.opened parts ∧ after next.flags ∧
      reader.Adds total groups parts next) (reader.read text)

/-- The text is all that a group holds. -/
def Holds (total : Bool) (room groups : Nat) (before after : Flags → Prop) (text : List Char)
    (post : Nat → Expr → Prop) : Prop :=
  ∀ reader : Reader, reader.At total room before → reader.IsFresh →
    Ends total (fun next => ∃ e, post reader.opened e ∧ after next.flags ∧
      reader.Fills total groups e next) (reader.read text)

namespace Reader

variable {total : Bool} {room more groups : Nat} {before after : Flags → Prop}
  {parts : List Expr} {reader next : Reader}

theorem At.mono (h : reader.At total room before) (less : more ≤ room) :
    reader.At total more before :=
  ⟨h.ready, h.names, h.flags, fun t => Nat.le_trans (Nat.add_le_add_left less _) (h.room t)⟩

theorem Adds.at (h : reader.At total room before) (adds : reader.Adds total groups parts next)
    (flags : after next.flags) : next.At total room after where
  ready := adds.ready
  names := adds.names.trans h.names
  flags := flags
  room := by rw [adds.frames]; exact h.room

theorem At.opening (h : reader.At total (room + 1) before) (opener : Opener) :
    (reader.opening opener).At total room before where
  ready := ⟨_, rfl⟩
  names := h.names
  flags := h.flags
  room := by
    intro t
    have := h.room t
    simp only [Reader.opening, List.length_cons]
    omega

theorem At.capturing (h : reader.At total (room + 1) before) :
    reader.capturing.At total room before :=
  have opened := h.opening (.capture (reader.opened + 1))
  ⟨opened.ready, opened.names, opened.flags, opened.room⟩

theorem At.hasRoom (h : reader.At total (room + 1) before) (t : total = true) :
    reader.frames.length < nestingLimit := by
  have := h.room t
  omega

end Reader

section Rules

variable {total : Bool} {room m n : Nat} {before between after : Flags → Prop}
  {text more : List Char} {post further : Nat → List Expr → Prop}

theorem Reads.mono {post' : Nat → List Expr → Prop} {after' : Flags → Prop}
    (h : Reads total room n before after text post)
    (flags : ∀ f, after f → after' f) (imp : ∀ i parts, post i parts → post' i parts) :
    Reads total room n before after' text post' := by
  intro reader here
  refine (h reader here).mono ?_
  rintro next ⟨parts, holds, reached, adds⟩
  exact ⟨parts, imp _ _ holds, flags _ reached, adds⟩

theorem Reads.widen {less : Nat} (h : Reads total less n before after text post)
    (enough : less ≤ room) : Reads total room n before after text post := by
  intro _ here
  exact h _ (here.mono enough)

/-- It is enough to know what happens under each flags alone. -/
theorem Reads.pointwise (h : ∀ f, before f → Reads total room n (· = f) after text post) :
    Reads total room n before after text post :=
  fun reader here => h _ here.flags reader ⟨here.ready, here.names, rfl, here.room⟩

theorem Reads.nil : Reads total room 0 before before [] fun _ parts => parts = [] :=
  fun _ here => .reaches ⟨[], rfl, here.flags, .nil here.ready⟩

/-- One text after another. -/
theorem Reads.append (h₁ : Reads total room m before between text post)
    (h₂ : Reads total room n between after more further) :
    Reads total room (m + n) before after (text ++ more) fun i parts =>
      ∃ front back, parts = front ++ back ∧ post i front ∧ further (i + m) back := by
  intro reader here
  rw [Reader.read_append]
  refine (h₁ reader here).bind fun middle ⟨front, holds, flags, adds⟩ => ?_
  refine (h₂ middle (adds.at here flags)).mono fun next ⟨back, holds', flags', adds'⟩ => ?_
  exact ⟨front ++ back, ⟨front, back, rfl, holds, adds.opened ▸ holds'⟩, flags', adds.append adds'⟩

/-- An escaped text stands for itself. -/
theorem Reads.escape {fold : Bool} (text : String)
    (known : ∀ f, before f → f.fold = fold ∧ f.spaced = false) :
    Reads total room 0 before before (PathTemplate.escape text).toList fun _ parts =>
      parts = text.toList.map (Expr.spelled fold) := by
  intro reader here
  obtain ⟨folds, spaced⟩ := known _ here.flags
  obtain ⟨next, result, adds, same⟩ := Reader.read_escapeWhere total here.ready
    spaced text.toList
  rw [PathTemplate.escape, String.toList_ofList, result]
  exact .reaches ⟨_, folds ▸ rfl, same ▸ here.flags, adds⟩

theorem Reads.cls {fold : Bool} {text cls : String} (isClass : characterClass? text = some cls)
    (known : ∀ f, before f → f.fold = fold) :
    Reads total room 0 before before cls.toList fun _ parts =>
      parts = [.one (.listed fold false text.toList)] := by
  intro reader here
  obtain ⟨nonempty, chars⟩ := toList_characterClass? isClass
  have result := Reader.read_class here.ready false nonempty
  rw [chars]
  rw [known _ here.flags] at result
  exact result ▸ .reaches ⟨_, rfl, here.flags, (Reader.takes_took total _ reader).adds⟩

/-- A class that may be absent. -/
theorem Reads.optionalClass {fold : Bool} {text cls : String}
    (isClass : characterClass? text = some cls) (known : ∀ f, before f → f.fold = fold) :
    Reads total room 0 before before (cls.toList ++ ['?']) fun _ parts =>
      ∃ greedy, parts =
        [(Expr.one (.listed fold false text.toList)).modified greedy .optional] := by
  intro reader here
  obtain ⟨nonempty, chars⟩ := toList_characterClass? isClass
  have result := Reader.read_class here.ready false nonempty
  rw [Reader.read_append, chars]
  rw [known _ here.flags] at result
  refine result ▸ ((Reader.takes_took total _ reader).ends_modifier .optional
    fun _ _ => rfl).mono ?_
  rintro last ⟨same, greedy, adds⟩
  exact ⟨_, ⟨greedy, rfl⟩, same ▸ here.flags, adds⟩

/-- Any number of characters of some set. -/
theorem Reads.dots : Reads total room 0 before before ['.', '*'] fun _ parts =>
    ∃ set greedy, parts = [(Expr.one set).modified greedy .zeroOrMore] := by
  intro reader here
  obtain ⟨set, result⟩ := Reader.step_dot here.ready
  rw [Reader.read_cons, result]
  refine ((Reader.takes_took total (.one set) reader).ends_modifier .zeroOrMore
    fun _ _ => rfl).mono ?_
  rintro last ⟨same, greedy, adds⟩
  exact ⟨_, ⟨set, greedy, rfl⟩, same ▸ here.flags, adds⟩

theorem Reads.caret (known : ∀ f, before f → f.lines = false) :
    Reads total room 0 before before ['^'] fun _ parts => parts = [.edge .textStart] := by
  intro reader here
  rw [Reader.read_cons, Reader.step_caret here.ready (known _ here.flags)]
  exact .reaches ⟨_, rfl, here.flags, (Reader.takes_took total _ reader).adds⟩

theorem Reads.dollar {lines : Bool} (known : ∀ f, before f → f.lines = lines) :
    Reads total room 0 before before ['$'] fun _ parts => parts = [.edge (endEdge lines)] := by
  intro reader here
  rw [Reader.read_cons, Reader.step_dollar here.ready, known _ here.flags]
  exact .reaches ⟨_, rfl, here.flags, (Reader.takes_took total _ reader).adds⟩

/-! ### Groups -/

variable {body : List Char} {content : Nat → Expr → Prop}

theorem Holds.mono {content' : Nat → Expr → Prop} {after' : Flags → Prop}
    (h : Holds total room n before after body content)
    (flags : ∀ f, after f → after' f) (imp : ∀ i e, content i e → content' i e) :
    Holds total room n before after' body content' := by
  intro reader here fresh
  refine (h reader here fresh).mono ?_
  rintro next ⟨e, holds, reached, fills⟩
  exact ⟨e, imp _ _ holds, flags _ reached, fills⟩

theorem Reads.holds (h : Reads total room n before after text post) :
    Holds total room n before after text fun i e => ∃ parts, post i parts ∧ e = .join parts := by
  intro reader here fresh
  refine (h reader here).mono ?_
  rintro next ⟨parts, holds, reached, adds⟩
  exact ⟨_, ⟨parts, holds, rfl⟩, reached, adds.fills fresh⟩

/-- A further branch. -/
theorem Holds.alternative (h₁ : Holds total room m before between body content)
    (h₂ : Reads total room n between after more further) :
    Holds total room (m + n) before after (body ++ '|' :: more) fun i e =>
      ∃ first parts, e = .alt first (.join parts) ∧ content i first ∧ further (i + m) parts := by
  intro reader here fresh
  rw [Reader.read_append]
  refine (h₁ reader here fresh).bind ?_
  rintro middle ⟨first, holds, flags, last, resumes, keeps, expr⟩
  rw [Reader.read_cons, resumes.step _ (.inr rfl), Reader.step_bar resumes.ready]
  have there : last.split.At total room between := by
    refine ⟨⟨_, rfl⟩, keeps.names.trans here.names, ?_, ?_⟩
    · exact (congrArg between resumes.flags).mpr flags
    · change total = true → last.frames.length + room ≤ nestingLimit
      rw [keeps.frames]
      exact here.room
  refine (h₂ _ there).mono fun next ⟨parts, holds', flags', adds⟩ => ?_
  exact ⟨_, ⟨first, parts, rfl, holds, keeps.opened ▸ holds'⟩, flags', .alternative keeps expr adds⟩

/-- A group and its modifier. After it the flags are again as they were before it. -/
theorem Holds.group (h : Holds total room n before between body content) (modifier : Modifier)
    (repeatable : total = true → ∀ i e, content i e → modifier ≠ .once → e.isRepeatable = true) :
    Reads total (room + 1) n before before
      (['(', '?', ':'] ++ (body ++ [')']) ++ modifier.symbol.toList) fun i parts =>
        ∃ greedy e, parts = [e.modified greedy modifier] ∧ content i e := by
  intro reader here
  rw [Reader.read_append]
  have inside : Ends total (fun next => ∃ e, content reader.opened e ∧
      Reader.Fills total n e (reader.opening (.plain reader.flags)) next)
      ((reader.opening (.plain reader.flags)).read body) :=
    (h _ (here.opening (.plain reader.flags)) ⟨rfl, rfl⟩).mono fun next ⟨e, holds, _, fills⟩ =>
      ⟨e, holds, fills⟩
  have closed := Reader.ends_group (fun e _ => content reader.opened e) here.ready here.names
    here.hasRoom (.plain reader.flags) inside
  refine closed.bind fun next ⟨e, flags, holds, same, takes⟩ => ?_
  refine (takes.ends_modifier modifier fun t => repeatable t _ e holds).mono ?_
  rintro last ⟨same', greedy, adds⟩
  exact ⟨_, ⟨greedy, e, rfl, holds⟩, by rw [same', same]; exact here.flags, adds⟩

/-- A group that looks ahead. -/
theorem Holds.ahead (h : Holds total room n before before body content) :
    Reads total (room + 1) n before before (['(', '?', '='] ++ (body ++ [')'])) fun i parts =>
      ∃ e, parts = [.ahead false e] ∧ content i e := by
  intro reader here
  have inside : Ends total (fun next => ∃ e, (content reader.opened e ∧ before next.flags) ∧
      Reader.Fills total n e (reader.opening (.ahead false)) next)
      ((reader.opening (.ahead false)).read body) :=
    (h _ (here.opening (.ahead false)) ⟨rfl, rfl⟩).mono fun next ⟨e, holds, flags, fills⟩ =>
      ⟨e, ⟨holds, flags⟩, fills⟩
  have closed := Reader.ends_group
    (fun e flags => content reader.opened e ∧ before flags) here.ready
    here.names here.hasRoom (.ahead reader.flags) inside
  refine closed.mono fun next ⟨e, flags, ⟨holds, known⟩, same, takes⟩ => ?_
  exact ⟨_, ⟨e, rfl, holds⟩, same ▸ known, takes.adds⟩

/-- A capture group and its modifier. The flags after it are those at its end. -/
theorem Holds.capture {c : Char} (h : Holds total room n before after (c :: body) content)
    (notMark : c ≠ '?') (known : ∀ f, before f → f.spaced = false) (modifier : Modifier) :
    Reads total (room + 1) (n + 1) before after
      ('(' :: c :: (body ++ [')']) ++ modifier.symbol.toList) fun i parts =>
        ∃ greedy e, parts = [(Expr.group (i + 1) e).modified greedy modifier] ∧
          content (i + 1) e := by
  intro reader here
  rw [Reader.read_append]
  have inside : Ends total (fun next => ∃ e, (content (reader.opened + 1) e ∧ after next.flags) ∧
      Reader.Fills total n e reader.capturing next) (reader.capturing.read (c :: body)) :=
    (h reader.capturing here.capturing ⟨rfl, rfl⟩).mono fun next ⟨e, holds, flags, fills⟩ =>
      ⟨e, ⟨holds, flags⟩, fills⟩
  have closed := Reader.ends_capture (fun e flags => content (reader.opened + 1) e ∧ after flags)
    here.ready (known _ here.flags) here.names here.hasRoom notMark inside
  refine closed.bind fun next ⟨e, ⟨holds, flags⟩, takes⟩ => ?_
  refine (takes.ends_modifier modifier fun _ _ => rfl).mono ?_
  rintro last ⟨same, greedy, adds⟩
  exact ⟨_, ⟨greedy, e, rfl, holds⟩, same ▸ flags, adds⟩

end Rules

end PathTemplate
