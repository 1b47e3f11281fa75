/-
The shape of the expression that a route reads as.

`KeyShape` has one constructor for each form in which `Route.keySource` writes a key, `TokensShape`
strings tokens together with the numbers of their groups, and `RouteShape` adds what stands before
and after them. What a custom pattern reads as is a parameter, `PatternReads`: the shape says where
the patterns stand and not what they are. The flags that a pattern sets may stay in force after it;
`folds` holds of the values of the flag for letter case under which texts may then be read.

* `reads_tokenSource` and `reads_tokens`: the sources of tokens read as such shapes.
* `reads_front` and `reads_tail`: so do the tokens of a route with the sign before them, and the tail
  after them, under the flags that the tokens leave.
* `reads_sourceOf`: the source of a route reads as the shape of a route.
-/

import PathTemplate.Route
import PathTemplate.Proofs.Reading.Progress
import PathTemplate.Proofs.Reading.Triples

namespace PathTemplate

namespace Route

/-- What a text of a token may read as. -/
def Spells (options : Options) (folds : Bool → Prop) (text : String) (parts : List Expr) : Prop :=
  ∃ fold, folds fold ∧ parts = spelling fold (options.encodeLiteral text)

/-- No text is written around the values of the key. -/
def IsBare (options : Options) (key : Key) : Prop :=
  options.encodeLiteral key.lead = "" ∧ options.encodeLiteral key.trail = ""

/-- The expressions that a key may read as, `number` being the number of its group. `inner` holds
of what its pattern may read as. -/
inductive KeyShape (options : Options) (folds : Bool → Prop) (inner : Expr → Prop) (key : Key)
    (number : Nat) : Expr → Prop where
  | decoration (greedy : Bool) {lead trail : List Expr} : key.pattern = "" →
      Spells options folds key.lead lead → Spells options folds key.trail trail →
      KeyShape options folds inner key number
        ((Expr.join (lead ++ trail)).modified greedy key.modifier)
  | bare (greedy : Bool) {x : Expr} : key.pattern ≠ "" → IsBare options key →
      key.modifier.isRepeating = false → inner x →
      KeyShape options folds inner key number ((Expr.group number x).modified greedy key.modifier)
  | bareRepeated (greedy : Bool) {x : Expr} : key.pattern ≠ "" → IsBare options key →
      key.modifier.isRepeating = true → inner x →
      KeyShape options folds inner key number (.group number (x.modified greedy key.modifier))
  | affixed (greedy : Bool) {lead trail : List Expr} {x : Expr} : key.pattern ≠ "" →
      ¬IsBare options key → key.modifier.isRepeating = false →
      Spells options folds key.lead lead → Spells options folds key.trail trail → inner x →
      KeyShape options folds inner key number
        ((Expr.join (lead ++ ([.group number x] ++ trail))).modified greedy key.modifier)
  | affixedRepeated (greedy further : Bool) {lead trail lead' trail' : List Expr} {x y : Expr} :
      key.pattern ≠ "" → ¬IsBare options key → key.modifier.isRepeating = true →
      Spells options folds key.lead lead → Spells options folds key.trail trail →
      Spells options folds key.trail trail' → Spells options folds key.lead lead' →
      inner x → inner y →
      KeyShape options folds inner key number
        ((Expr.join (lead ++
          ([.group number (.join ([x] ++
            [(Expr.join (trail' ++ (lead' ++ [y]))).modified further .zeroOrMore]))] ++
            trail))).modified greedy (if key.modifier = .zeroOrMore then .optional else .once))

/-- The parts that tokens may read as, after `opened` groups. -/
inductive TokensShape (options : Options) (folds : Bool → Prop) (inner : Key → Expr → Prop) :
    (opened : Nat) → List Token → List Expr → Prop where
  | nil {opened : Nat} : TokensShape options folds inner opened [] []
  | literal {opened : Nat} {text : String} {rest : List Token} {spelled parts : List Expr} :
      Spells options folds text spelled → TokensShape options folds inner opened rest parts →
      TokensShape options folds inner opened (.literal text :: rest) (spelled ++ parts)
  | key {opened : Nat} {key : Key} {rest : List Token} {e : Expr} {parts : List Expr} :
      KeyShape options folds (inner key) key (opened + 1) e →
      TokensShape options folds inner (opened + if key.isCapturing then 1 else 0) rest parts →
      TokensShape options folds inner opened (.key key :: rest) (e :: parts)

/-- The set of the delimiters. -/
def delimiterSet (fold : Bool) (options : Options) : CharSet :=
  .listed fold false options.delimiter.toList

/-- The end of the text, or a character that counts as one. -/
def endExpr (fold lines : Bool) (options : Options) : Expr :=
  if options.endsWith = "" then .edge (endEdge lines)
  else .alt (.one (.listed fold false options.endsWith.toList)) (.edge (endEdge lines))

/-- A delimiter, or an end. -/
def boundaryExpr (fold lines : Bool) (options : Options) : Expr :=
  if options.endsWith = "" then .alt (.one (delimiterSet fold options)) (.edge (endEdge lines))
  else .alt (.alt (.one (delimiterSet fold options))
    (.one (.listed fold false options.endsWith.toList))) (.edge (endEdge lines))

/-- The parts that stand after the tokens. -/
def TailShape (fold lines : Bool) (options : Options) (tokens : List Token) (parts : List Expr) :
    Prop :=
  ∃ greedy, parts =
    if options.toEnd then
      (if options.strict then []
       else [(Expr.one (delimiterSet fold options)).modified greedy .optional])
        ++ [if options.endsWith = "" then .edge (endEdge lines)
          else .ahead false (endExpr fold lines options)]
    else
      (if options.strict then []
       else [(Expr.join [.one (delimiterSet fold options),
          .ahead false (endExpr fold lines options)]).modified greedy .optional]) ++
        (if endsDelimited options tokens then []
          else [.ahead false (boundaryExpr fold lines options)])

/-- The parts of a whole route. `ends` holds of the values of the flag for lines under which its
tail may be read. -/
def RouteShape (options : Options) (folds ends : Bool → Prop) (inner : Key → Expr → Prop)
    (tokens : List Token) (parts : List Expr) : Prop :=
  ∃ middle tail fold lines, folds fold ∧ ends lines ∧
    TokensShape options folds inner 0 tokens middle ∧ TailShape fold lines options tokens tail ∧
    parts = (if options.fromStart then [.edge .textStart] else []) ++ (middle ++ tail)

/-! ### Reading keys -/

theorem escape_eq_empty_iff {text : String} : escape text = "" ↔ text = "" := by
  constructor
  · intro h
    have none := congrArg String.toList h
    rw [escape, String.toList_ofList] at none
    cases chars : text.toList with
    | nil => exact String.toList_eq_nil_iff.1 chars
    | cons c rest =>
      rw [chars, escapeWhere_cons] at none
      split at none <;> cases none
  · rintro rfl
    rfl

/-- What the pattern of a key reads as in a group of its own. -/
structure PatternReads (total : Bool) (before after : Flags → Prop) (inner : Expr → Prop)
    (pattern : List Char) : Prop where
  /-- A question mark after the parenthesis would mean something else. -/
  begins : ∃ c rest, pattern = c :: rest ∧ c ≠ '?'
  repeatable : total = true → ∀ e, inner e → e.isRepeatable = true
  holds : Holds total 0 0 before after pattern fun _ e => inner e

theorem PatternReads.mono {before after : Flags → Prop} {inner inner' : Expr → Prop}
    {pattern : List Char} (h : PatternReads false before after inner pattern)
    (imp : ∀ e, inner e → inner' e) : PatternReads false before after inner' pattern :=
  ⟨h.begins, nofun, h.holds.mono (fun _ h => h) fun _ e => imp e⟩

/-- What has to be known of the flags at the end of the pattern of a key. They stay as they are up
to the end of the group around the pattern and, where that one captures, beyond it. -/
def FlagsAfter (options : Options) (folds : Bool → Prop) (calm : Flags → Prop) (key : Key)
    (flags : Flags) : Prop :=
  key.modifier.isRepeating = false →
    (IsBare options key → calm flags) ∧
      (options.encodeLiteral key.trail ≠ "" → folds flags.fold ∧ flags.spaced = false)

/-- A loop may go round the characters of a text, if it has any. -/
theorem Spells.exists_repeatable {options : Options} {folds : Bool → Prop} {text : String}
    {parts : List Expr} (spells : Spells options folds text parts)
    (some : options.encodeLiteral text ≠ "") : ∃ e ∈ parts, e.isRepeatable = true := by
  obtain ⟨fold, -, rfl⟩ := spells
  obtain ⟨c, rest, chars⟩ := List.exists_cons_of_ne_nil fun none =>
    some (String.toList_eq_nil_iff.1 none)
  exact ⟨.spelled fold c, by rw [spelling, chars]; exact List.mem_cons_self, rfl⟩

/-- A text reads as one of its spellings. -/
theorem reads_text (options : Options) {folds : Bool → Prop} {calm : Flags → Prop} {total : Bool}
    {room : Nat} (text : String) (known : ∀ f, calm f → folds f.fold ∧ f.spaced = false) :
    Reads total room 0 calm calm (escape (options.encodeLiteral text)).toList fun _ parts =>
      Spells options folds text parts :=
  .pointwise fun f holds => by
    have spelled : Reads total room 0 (· = f) (· = f) _ fun _ parts =>
        parts = spelling f.fold (options.encodeLiteral text) :=
      .escape _ (by rintro _ rfl; exact ⟨rfl, (known _ holds).2⟩)
    exact spelled.mono (by rintro _ rfl; exact holds) fun _ _ same =>
      ⟨f.fold, (known f holds).1, same⟩

section Keys

variable {options : Options} {folds : Bool → Prop} {calm : Flags → Prop} {inner : Expr → Prop}
  (known : ∀ f, calm f → folds f.fold ∧ f.spaced = false) (total : Bool) (key : Key)
include known

theorem reads_decoration (pattern : key.pattern = "")
    (complete : total = true → ¬IsBare options key) :
    Reads total 4 0 calm calm (keySource options key).toList fun i parts =>
      ∃ e, parts = [e] ∧ KeyShape options folds inner key (i + 1) e := by
  have chars : (keySource options key).toList =
      ['(', '?', ':'] ++ (((escape (options.encodeLiteral key.lead)).toList ++
        (escape (options.encodeLiteral key.trail)).toList) ++ [')']) ++
        key.modifier.symbol.toList := by
    have pinned : pinShorthands key.pattern = "" := by rw [pattern]; rfl
    simp only [keySource, pinned, if_true, String.toList_append]
    rfl
  rw [chars]
  have body : Holds total 0 0 calm calm _ _ :=
    ((reads_text options key.lead known).append (reads_text options key.trail known)).holds
  refine ((body.group key.modifier ?_).widen (by omega)).mono (fun _ h => h) ?_
  · rintro t i _ ⟨_, ⟨_, _, rfl, lead, trail⟩, rfl⟩ _
    rcases Decidable.not_and_iff_not_or_not.1 (complete t) with some | some
    · obtain ⟨e, member, repeatable⟩ := lead.exists_repeatable some
      exact Expr.isRepeatable_join (List.mem_append_left _ member) repeatable
    · obtain ⟨e, member, repeatable⟩ := trail.exists_repeatable some
      exact Expr.isRepeatable_join (List.mem_append_right _ member) repeatable
  · rintro i _ ⟨greedy, _, rfl, _, ⟨_, _, rfl, lead, trail⟩, rfl⟩
    exact ⟨_, rfl, .decoration greedy pattern lead trail⟩

variable {total key}

section Capturing

variable (pattern : key.pattern ≠ "")
  (reads : PatternReads total calm (FlagsAfter options folds calm key) inner
    (pinShorthands key.pattern).toList)
include pattern reads

omit known pattern in
theorem PatternReads.pinned_ne : pinShorthands key.pattern ≠ "" := by
  intro empty
  obtain ⟨c, rest, begins, _⟩ := reads.begins
  rw [empty] at begins
  cases begins

theorem reads_bare (bare : IsBare options key) (single : key.modifier.isRepeating = false) :
    Reads total 4 1 calm calm (keySource options key).toList fun i parts =>
      ∃ e, parts = [e] ∧ KeyShape options folds inner key (i + 1) e := by
  have chars : (keySource options key).toList =
      '(' :: ((pinShorthands key.pattern).toList ++ [')']) ++ key.modifier.symbol.toList := by
    simp [keySource, reads.pinned_ne, bare.1, bare.2, escape_eq_empty_iff.2, single]
  obtain ⟨c, rest, begins, notMark⟩ := reads.begins
  have body := reads.holds
  rw [chars]
  rw [begins] at body ⊢
  refine ((body.capture notMark (fun f h => (known f h).2) key.modifier).widen (by omega)).mono
    (fun _ h => (h single).1 bare) ?_
  rintro i _ ⟨greedy, x, rfl, holds⟩
  exact ⟨_, rfl, .bare greedy pattern bare single holds⟩

omit known pattern in
/-- The pattern in a group that captures nothing. -/
theorem PatternReads.pass (room : Nat) : Reads total (room + 1) 0 calm calm
    (['(', '?', ':'] ++ ((pinShorthands key.pattern).toList ++ [')'])) fun _ parts =>
      ∃ x, parts = [x] ∧ inner x := by
  have pass := reads.holds.group .once fun _ _ _ _ h => absurd rfl h
  have noSign : Modifier.once.symbol.toList = [] := rfl
  rw [noSign, List.append_nil] at pass
  refine (pass.widen (Nat.le_add_left 1 room)).mono (fun _ h => h) ?_
  rintro i _ ⟨greedy, x, rfl, holds⟩
  exact ⟨x, rfl, holds⟩

theorem reads_bareRepeated (bare : IsBare options key) (several : key.modifier.isRepeating = true) :
    Reads total 4 1 calm calm (keySource options key).toList fun i parts =>
      ∃ e, parts = [e] ∧ KeyShape options folds inner key (i + 1) e := by
  have chars : (keySource options key).toList =
      '(' :: '(' :: ((['?', ':'] ++ ((pinShorthands key.pattern).toList ++ [')']) ++
        key.modifier.symbol.toList) ++ [')']) ++ Modifier.once.symbol.toList := by
    simp [keySource, reads.pinned_ne, bare.1, bare.2, escape_eq_empty_iff.2, several,
      Modifier.symbol]
  rw [chars]
  have passes : Holds total 1 0 calm calm
      ('(' :: (['?', ':'] ++ ((pinShorthands key.pattern).toList ++
      [')']) ++ key.modifier.symbol.toList)) _ :=
    (reads.holds.group key.modifier fun t _ e holds _ => reads.repeatable t e holds).holds
  refine ((passes.capture (by decide) (fun f h => (known f h).2) .once).widen (by omega)).mono
    (fun _ h => h) ?_
  rintro i _ ⟨_, _, rfl, _, ⟨greedy, x, rfl, holds⟩, rfl⟩
  exact ⟨_, rfl, .bareRepeated greedy pattern bare several holds⟩

theorem reads_affixed (affixed : ¬IsBare options key) (single : key.modifier.isRepeating = false) :
    Reads total 4 1 calm calm (keySource options key).toList fun i parts =>
      ∃ e, parts = [e] ∧ KeyShape options folds inner key (i + 1) e := by
  have chars : (keySource options key).toList =
      ['(', '?', ':'] ++ (((escape (options.encodeLiteral key.lead)).toList ++
        (('(' :: ((pinShorthands key.pattern).toList ++ [')']) ++ Modifier.once.symbol.toList) ++
          (escape (options.encodeLiteral key.trail)).toList)) ++ [')']) ++
        key.modifier.symbol.toList := by
    simp only [IsBare] at affixed
    simp [keySource, reads.pinned_ne, affixed, escape_eq_empty_iff, single, Modifier.symbol]
  rw [chars]
  have capture : Reads total 1 1 calm (FlagsAfter options folds calm key)
      ('(' :: ((pinShorthands key.pattern).toList ++ [')']) ++ Modifier.once.symbol.toList)
      fun i parts => ∃ x, parts = [.group (i + 1) x] ∧ inner x := by
    obtain ⟨c, rest, begins, notMark⟩ := reads.begins
    have body := reads.holds
    rw [begins] at body ⊢
    refine (body.capture notMark (fun f h => (known f h).2) .once).mono (fun _ h => h) ?_
    rintro i _ ⟨_, x, rfl, holds⟩
    exact ⟨x, rfl, holds⟩
  -- What the flags are after the pattern matters only where a text follows.
  have trail : Reads total 1 0 (FlagsAfter options folds calm key)
      (FlagsAfter options folds calm key)
      (escape (options.encodeLiteral key.trail)).toList fun _ parts =>
        parts = [] ∧ options.encodeLiteral key.trail = "" ∨
          Spells options folds key.trail parts := by
    by_cases empty : options.encodeLiteral key.trail = ""
    · rw [empty]
      exact Reads.nil.mono (fun _ h => h) fun _ _ none => .inl ⟨none, rfl⟩
    · exact (reads_text options key.trail fun f h => (h single).2 empty).mono (fun _ h => h)
        fun _ _ => .inr
  have body := ((reads_text options key.lead known).append (capture.append trail)).holds
  refine ((body.group key.modifier ?_).widen (by omega)).mono (fun _ h => h) ?_
  · rintro _ i _ ⟨_, ⟨_, _, rfl, _, _, _, rfl, ⟨x, rfl, _⟩, _⟩, rfl⟩ _
    exact Expr.isRepeatable_join (List.mem_append_right _ List.mem_cons_self) rfl
  · rintro i _ ⟨greedy, _, rfl, _, ⟨_, _, rfl, lead, _, _, rfl, ⟨x, rfl, holds⟩, trail⟩, rfl⟩
    refine ⟨_, rfl, .affixed greedy pattern affixed single lead ?_ holds⟩
    rcases trail with ⟨rfl, empty⟩ | trail
    · obtain ⟨fold, may, -⟩ := lead
      exact ⟨fold, may, by rw [empty]; rfl⟩
    · exact trail

theorem reads_affixedRepeated (affixed : ¬IsBare options key)
    (several : key.modifier.isRepeating = true) :
    Reads total 4 1 calm calm (keySource options key).toList fun i parts =>
      ∃ e, parts = [e] ∧ KeyShape options folds inner key (i + 1) e := by
  have chars : (keySource options key).toList =
      ['(', '?', ':'] ++ (((escape (options.encodeLiteral key.lead)).toList ++
        ((('(' :: '(' :: (['?', ':'] ++ ((pinShorthands key.pattern).toList ++ [')']) ++
            (['(', '?', ':'] ++ (((escape (options.encodeLiteral key.trail)).toList ++
              ((escape (options.encodeLiteral key.lead)).toList ++
                (['(', '?', ':'] ++ ((pinShorthands key.pattern).toList ++ [')'])))) ++ [')']) ++
              Modifier.zeroOrMore.symbol.toList) ++ [')'])) ++ Modifier.once.symbol.toList) ++
          (escape (options.encodeLiteral key.trail)).toList)) ++ [')']) ++
        (if key.modifier = .zeroOrMore then Modifier.optional else .once).symbol.toList := by
    simp only [IsBare] at affixed
    simp [keySource, reads.pinned_ne, affixed, escape_eq_empty_iff, several, Modifier.symbol]
    split <;> rfl
  rw [chars]
  have further := (((reads_text options key.trail known).append
    ((reads_text options key.lead known).append (reads.pass 0))).holds.group .zeroOrMore (by
      rintro t i _ ⟨_, ⟨_, _, rfl, _, _, _, rfl, _, x, rfl, holds⟩, rfl⟩ _
      exact Expr.isRepeatable_join
        (List.mem_append_right _ (List.mem_append_right _ List.mem_cons_self))
        (reads.repeatable t x holds)))
  have passes : Holds total 2 0 calm calm _ _ := ((reads.pass 1).append further).holds
  have capture := passes.capture (by decide) (fun f h => (known f h).2) .once
  have body := ((reads_text options key.lead known).append
    (capture.append (reads_text options key.trail known))).holds
  refine (body.group (if key.modifier = .zeroOrMore then .optional else .once) ?_).mono
    (fun _ h => h) ?_
  · rintro _ i _ ⟨_, ⟨_, _, rfl, _, _, _, rfl, ⟨_, _, rfl, _⟩, _⟩, rfl⟩ _
    exact Expr.isRepeatable_join (List.mem_append_right _ List.mem_cons_self) rfl
  · rintro i _ ⟨greedy, _, rfl, _, ⟨_, _, rfl, lead, _, _, rfl, ⟨_, _, rfl, _, ⟨_, _, rfl,
      ⟨x, rfl, holds⟩, further, _, rfl, _, ⟨_, _, rfl, trail', _, _, rfl, lead', y, rfl, holds'⟩,
      rfl⟩, rfl⟩, trail⟩, rfl⟩
    exact ⟨_, rfl, .affixedRepeated greedy further pattern affixed several lead trail trail' lead'
      holds holds'⟩

end Capturing

/-- Every key reads as one of its shapes. -/
theorem reads_key (complete : total = true → key.pattern = "" → ¬IsBare options key)
    (reads : key.pattern ≠ "" → PatternReads total calm (FlagsAfter options folds calm key) inner
      (pinShorthands key.pattern).toList) :
    Reads total 4 (if key.isCapturing then 1 else 0) calm calm (keySource options key).toList
      fun i parts => ∃ e, parts = [e] ∧ KeyShape options folds inner key (i + 1) e := by
  by_cases pattern : key.pattern = ""
  · rw [if_neg (show ¬key.isCapturing = true by simp [Key.isCapturing, pattern])]
    exact reads_decoration known total key pattern fun t => complete t pattern
  · have reads := reads pattern
    rw [if_pos (show key.isCapturing = true by simp [Key.isCapturing, pattern])]
    by_cases bare : IsBare options key
    · cases several : key.modifier.isRepeating with
      | true => exact reads_bareRepeated known pattern reads bare several
      | false => exact reads_bare known pattern reads bare several
    · cases several : key.modifier.isRepeating with
      | true => exact reads_affixedRepeated known pattern reads bare several
      | false => exact reads_affixed known pattern reads bare several

end Keys

/-! ### Tails -/

section Tails

variable {options : Options} {fold lines : Bool} {calm : Flags → Prop} {total : Bool}
  {tokens : List Token} (shown : ∀ f, calm f → f.fold = fold ∧ f.lines = lines)
include shown

omit shown in
theorem isClass_delimiterClass (delimited : options.delimiter ≠ "") :
    characterClass? options.delimiter = some (delimiterClass options) := by
  simp [delimiterClass, characterClass?, delimited]

theorem reads_endsWith {room : Nat} {cls : String}
    (isClass : characterClass? options.endsWith = some cls) :
    Reads total room 0 calm calm cls.toList fun _ parts =>
      parts = [.one (.listed fold false options.endsWith.toList)] :=
  .cls isClass fun f h => (shown f h).1

theorem reads_delimiter {room : Nat} (delimited : options.delimiter ≠ "") :
    Reads total room 0 calm calm (delimiterClass options).toList fun _ parts =>
      parts = [.one (delimiterSet fold options)] :=
  .cls (isClass_delimiterClass delimited) fun f h => (shown f h).1

theorem reads_end {room : Nat} : Reads total room 0 calm calm ['$'] fun _ parts =>
    parts = [.edge (endEdge lines)] :=
  .dollar fun f h => (shown f h).2

omit shown in
/-- The end of a text, or one of the characters after which it may end as well. -/
theorem endSource_cases (options : Options) :
    (options.endsWith = "" ∧ (endSource options).toList = ['$']) ∨
    ∃ cls, options.endsWith ≠ "" ∧ characterClass? options.endsWith = some cls ∧
      (endSource options).toList = cls.toList ++ '|' :: ['$'] := by
  by_cases ends : options.endsWith = ""
  · exact .inl ⟨ends, by simp [endSource, characterClass?, ends]⟩
  · obtain ⟨cls, isClass⟩ : ∃ cls, characterClass? options.endsWith = some cls := by
      simp [characterClass?, ends]
    exact .inr ⟨cls, ends, isClass, by simp [endSource, isClass]⟩

theorem holds_endSource (options : Options) {room : Nat} :
    Holds total room 0 calm calm (endSource options).toList
    fun _ e => e = endExpr fold lines options := by
  obtain ⟨ends, source⟩ | ⟨cls, ends, isClass, source⟩ := endSource_cases options
  · rw [source]
    refine (reads_end shown).holds.mono (fun _ h => h) ?_
    rintro i _ ⟨_, rfl, rfl⟩
    rw [endExpr, if_pos ends]
    rfl
  · rw [source]
    refine ((reads_endsWith shown isClass).holds.alternative (reads_end shown)).mono
      (fun _ h => h) ?_
    rintro i _ ⟨_, _, rfl, ⟨_, rfl, rfl⟩, rfl⟩
    rw [endExpr, if_neg ends]
    rfl

theorem holds_boundary {room : Nat} (delimited : options.delimiter ≠ "") :
    Holds total room 0 calm calm
      ((delimiterClass options).toList ++ '|' :: (endSource options).toList)
      fun _ e => e = boundaryExpr fold lines options := by
  have first : Holds total room 0 calm calm _ _ := (reads_delimiter shown delimited).holds
  obtain ⟨ends, source⟩ | ⟨cls, ends, isClass, source⟩ := endSource_cases options
  · rw [source]
    refine (first.alternative (reads_end shown)).mono (fun _ h => h) ?_
    rintro i _ ⟨_, _, rfl, ⟨_, rfl, rfl⟩, rfl⟩
    rw [boundaryExpr, if_pos ends]
    rfl
  · -- Both bars are of one alternation, which is read from the left.
    rw [source, ← List.cons_append, ← List.append_assoc]
    refine ((first.alternative (reads_endsWith shown isClass)).alternative (reads_end shown)).mono
      (fun _ h => h) ?_
    rintro i _ ⟨_, _, rfl, ⟨_, _, rfl, ⟨_, rfl, rfl⟩, rfl⟩, rfl⟩
    rw [boundaryExpr, if_neg ends]
    rfl

theorem reads_closedTail (closed : options.toEnd = true) (delimited : options.delimiter ≠ "") :
    Reads total 4 0 calm calm (closedTail options).toList fun _ parts =>
      TailShape fold lines options tokens parts := by
  have front : ∀ {room : Nat}, Reads total room 0 calm calm
      (if options.strict then [] else (delimiterClass options).toList ++ ['?']) fun _ parts =>
        ∃ greedy, parts = if options.strict then []
          else [(Expr.one (delimiterSet fold options)).modified greedy .optional] := by
    intro room
    cases options.strict with
    | true => exact Reads.nil.mono (fun _ h => h) fun _ _ h => ⟨true, h⟩
    | false => exact .optionalClass (isClass_delimiterClass delimited) fun f h => (shown f h).1
  have back : Reads total 4 0 calm calm
      (if options.endsWith = "" then ['$']
        else ['(', '?', '='] ++ ((endSource options).toList ++ [')'])) fun _ parts =>
        parts = [if options.endsWith = "" then .edge (endEdge lines)
          else .ahead false (endExpr fold lines options)] := by
    split
    · exact reads_end shown
    · refine (holds_endSource shown options).ahead.mono (fun _ h => h) ?_
      rintro i _ ⟨_, rfl, rfl⟩
      rfl
  have source : (closedTail options).toList =
      (if options.strict then [] else (delimiterClass options).toList ++ ['?']) ++
      (if options.endsWith = "" then ['$']
        else ['(', '?', '='] ++ ((endSource options).toList ++ [')'])) := by
    rw [closedTail, String.toList_append]
    split <;> split <;> simp
  rw [source]
  refine (front.append back).mono (fun _ h => h) ?_
  rintro i _ ⟨_, _, rfl, ⟨greedy, rfl⟩, rfl⟩
  exact ⟨greedy, by rw [if_pos closed]⟩

theorem reads_openTail (opened : options.toEnd = false) (delimited : options.delimiter ≠ "") :
    Reads total 4 0 calm calm (openTail options tokens).toList fun _ parts =>
      TailShape fold lines options tokens parts := by
  have front : Reads total 4 0 calm calm
      (if options.strict then [] else ['(', '?', ':'] ++ (((delimiterClass options).toList ++
        (['(', '?', '='] ++ ((endSource options).toList ++ [')']))) ++ [')']) ++
          Modifier.optional.symbol.toList) fun _ parts =>
        ∃ greedy, parts = if options.strict then []
          else [(Expr.join [.one (delimiterSet fold options),
            .ahead false (endExpr fold lines options)]).modified
            greedy .optional] := by
    cases options.strict with
    | true => exact Reads.nil.mono (fun _ h => h) fun _ _ h => ⟨true, h⟩
    | false =>
      have body : Holds total 1 0 calm calm _ _ :=
        ((reads_delimiter shown delimited).append (holds_endSource shown options).ahead).holds
      refine ((body.group .optional ?_).widen (by omega)).mono (fun _ h => h) ?_
      · rintro _ i _ ⟨_, ⟨_, _, rfl, rfl, _⟩, rfl⟩ _
        exact Expr.isRepeatable_join List.mem_cons_self rfl
      · rintro i _ ⟨greedy, _, rfl, _, ⟨_, _, rfl, rfl, _, rfl, rfl⟩, rfl⟩
        exact ⟨greedy, rfl⟩
  have back : Reads total 4 0 calm calm
      (if endsDelimited options tokens then [] else ['(', '?', '='] ++
        (((delimiterClass options).toList ++ '|' :: (endSource options).toList) ++ [')']))
      fun _ parts => parts = if endsDelimited options tokens then []
        else [.ahead false (boundaryExpr fold lines options)] := by
    split
    · exact Reads.nil
    · refine (holds_boundary shown delimited).ahead.mono (fun _ h => h) ?_
      rintro i _ ⟨_, rfl, rfl⟩
      rfl
  have source : (openTail options tokens).toList =
      (if options.strict then [] else ['(', '?', ':'] ++ (((delimiterClass options).toList ++
        (['(', '?', '='] ++ ((endSource options).toList ++ [')']))) ++ [')']) ++
          Modifier.optional.symbol.toList) ++
      (if endsDelimited options tokens then [] else ['(', '?', '='] ++
        (((delimiterClass options).toList ++ '|' :: (endSource options).toList) ++ [')'])) := by
    rw [openTail, String.toList_append]
    split <;> split <;> simp [Modifier.symbol]
  rw [source]
  refine (front.append back).mono (fun _ h => h) ?_
  rintro i _ ⟨_, _, rfl, ⟨greedy, rfl⟩, rfl⟩
  exact ⟨greedy, by rw [opened, if_neg Bool.false_ne_true]⟩

end Tails

/-! ### Reading routes -/

/-- The source of a route up to its tail. -/
def frontSource (options : Options) (tokens : List Token) : String :=
  (if options.fromStart then "^" else "") ++ String.join (tokens.map (tokenSource options))

/-- The source of a route after its tokens. -/
def tailSource (options : Options) (tokens : List Token) : String :=
  if options.toEnd then closedTail options else openTail options tokens

theorem sourceOf_eq (options : Options) (tokens : List Token) :
    sourceOf options tokens = frontSource options tokens ++ tailSource options tokens := rfl

/-- The tail reads under the flags that hold after the tokens. -/
theorem reads_tail {options : Options} {tokens : List Token} {total : Bool} (flags : Flags)
    (delimited : options.delimiter ≠ "") :
    Reads total 4 0 (· = flags) (· = flags) (tailSource options tokens).toList fun _ parts =>
      TailShape flags.fold flags.lines options tokens parts := by
  have shown : ∀ f, f = flags → f.fold = flags.fold ∧ f.lines = flags.lines := by
    rintro _ rfl
    exact ⟨rfl, rfl⟩
  unfold tailSource
  by_cases closed : options.toEnd = true
  · rw [if_pos closed]
    exact reads_closedTail shown closed delimited
  · rw [if_neg closed]
    exact reads_openTail shown (Bool.eq_false_iff.2 closed) delimited

section Tokens

variable {options : Options} {folds ends : Bool → Prop} {calm : Flags → Prop}
  {inner : Key → Expr → Prop} {total : Bool} {tokens : List Token}
  (known : ∀ f, calm f → folds f.fold ∧ ends f.lines ∧ f.spaced = false)
  (complete : total = true → ∀ key ∈ keysOf tokens, key.pattern = "" → ¬IsBare options key)
  (reads : ∀ key ∈ keysOf tokens, key.pattern ≠ "" →
    PatternReads total calm (FlagsAfter options folds calm key) (inner key)
      (pinShorthands key.pattern).toList)
include known

include complete reads in
theorem reads_tokens :
    Reads total 4 (capturingKeys tokens).length calm calm
      (String.join (tokens.map (tokenSource options))).toList
      fun i parts => TokensShape options folds inner i tokens parts := by
  induction tokens with
  | nil =>
    refine Reads.nil.mono (fun _ h => h) ?_
    rintro i _ rfl
    exact .nil
  | cons token rest_ ih =>
    rw [List.map_cons, String.join_cons, String.toList_append]
    cases token with
    | literal text =>
      have rest := ih complete reads
      have first : Reads total 4 0 calm calm (tokenSource options (.literal text)).toList _ :=
        reads_text options text fun f h => ⟨(known f h).1, (known f h).2.2⟩
      have both := first.append rest
      rw [Nat.zero_add] at both
      refine both.mono (fun _ h => h) ?_
      rintro i _ ⟨_, parts, rfl, spelled, shape⟩
      exact .literal spelled shape
    | key key =>
      have here : key ∈ keysOf (.key key :: rest_) := List.mem_cons_self
      have rest := ih (fun t other member => complete t other (List.mem_cons_of_mem _ member))
        (fun other member => reads other (List.mem_cons_of_mem _ member))
      have first := reads_key (fun f h => ⟨(known f h).1, (known f h).2.2⟩)
        (fun t => complete t key here) (reads key here)
      have both := first.append rest
      have count : (capturingKeys (.key key :: rest_)).length =
          (if key.isCapturing then 1 else 0) + (capturingKeys rest_).length := by
        simp only [capturingKeys, keysOf, List.filterMap_cons, Token.key?, List.filter_cons]
        split
        · rw [List.length_cons, Nat.add_comm]
        · rw [Nat.zero_add]
      rw [count]
      refine both.mono (fun _ h => h) ?_
      rintro i _ ⟨_, parts, rfl, ⟨e, rfl, shape⟩, shapes⟩
      exact .key shape shapes

include complete reads in
/-- The source of a route up to its tail. -/
theorem reads_front (begins : calm { fold := !options.sensitive }) :
    Reads total 4 (capturingKeys tokens).length (· = { fold := !options.sensitive }) calm
      (frontSource options tokens).toList fun i parts =>
        ∃ middle, TokensShape options folds inner i tokens middle ∧
          parts = (if options.fromStart then [.edge .textStart] else []) ++ middle := by
  have start : Reads total 4 0 (· = { fold := !options.sensitive }) calm
      (if options.fromStart then ['^'] else []) fun _ parts =>
        parts = if options.fromStart then [.edge .textStart] else [] := by
    split
    · exact (Reads.caret (by rintro _ rfl; rfl)).mono (by rintro _ rfl; exact begins) fun _ _ h => h
    · exact Reads.nil.mono (by rintro _ rfl; exact begins) fun _ _ h => h
  have source : (frontSource options tokens).toList =
      (if options.fromStart then ['^'] else []) ++
        (String.join (tokens.map (tokenSource options))).toList := by
    rw [frontSource, String.toList_append]
    split <;> rfl
  have whole := start.append (reads_tokens known complete reads)
  rw [Nat.zero_add] at whole
  rw [source]
  refine whole.mono (fun _ h => h) ?_
  rintro i _ ⟨_, middle, rfl, rfl, shapes⟩
  exact ⟨middle, shapes, rfl⟩

include complete reads in
/-- The source of a route reads as one of its shapes. -/
theorem reads_sourceOf (begins : calm { fold := !options.sensitive })
    (delimited : options.delimiter ≠ "") :
    Reads total 4 (capturingKeys tokens).length (· = { fold := !options.sensitive }) calm
      (sourceOf options tokens).toList
      fun i parts => i = 0 → RouteShape options folds ends inner tokens parts := by
  -- Which flags hold after the tokens is not known, but they hold for the whole tail.
  have tail : Reads total 4 0 calm calm (tailSource options tokens).toList fun _ parts =>
      ∃ fold lines, folds fold ∧ ends lines ∧ TailShape fold lines options tokens parts :=
    .pointwise fun f holds => (reads_tail f delimited).mono (by rintro _ rfl; exact holds)
      fun _ _ shape => ⟨f.fold, f.lines, (known f holds).1, (known f holds).2.1, shape⟩
  rw [sourceOf_eq, String.toList_append]
  refine ((reads_front known complete reads begins).append tail).mono (fun _ h => h) ?_
  rintro i _ ⟨_, tail, rfl, ⟨middle, shapes, rfl⟩, fold, lines, may, may', shape⟩ rfl
  exact ⟨middle, tail, fold, lines, may, may', shapes, shape, List.append_assoc ..⟩

end Tokens

end Route

/-! ### Whole expressions -/

/-- The reader of an expression, after the flag that makes letter case irrelevant. -/
def Reader.begun (sensitive : Bool) : Reader :=
  if sensitive then {} else { mode := .ready (.atom .empty), flags := { fold := true } }

theorem Reader.read_flagged (sensitive : Bool) (source : String) :
    ({} : Reader).read (Route.flagged sensitive source).toList =
      (Reader.begun sensitive).read source.toList := by
  cases sensitive with
  | true => rfl
  | false =>
    rw [Route.flagged, if_neg Bool.false_ne_true, String.toList_append, Reader.read_append]
    rfl

/-- A text whose parts are known reads as all of them together, in full. -/
theorem Reads.ends_finish {total sensitive : Bool} {room groups : Nat}
    {before after : Flags → Prop} {text : List Char} {post : Nat → List Expr → Prop}
    (h : Reads total room groups before after text post) (enough : room ≤ nestingLimit)
    (calm : before { fold := !sensitive }) :
    Ends total (fun reader => ∃ parts, post 0 parts ∧ reader.level.expr = .join parts ∧
      (total = true → reader.referred = none))
      (((Reader.begun sensitive).read text).bind Reader.finish) := by
  have here : (Reader.begun sensitive).At total room before := by
    cases sensitive <;>
      exact ⟨⟨_, rfl⟩, rfl, calm, fun _ => (Nat.zero_add room).symm ▸ enough⟩
  refine (h _ here).bind ?_
  rintro next ⟨parts, holds, _, adds⟩
  have frames : next.frames = [] := adds.frames.trans (by cases sensitive <;> rfl)
  have names : next.names = [] := adds.names.trans here.names
  rw [Reader.finish_of_resolved (Reader.resolved_of_isReady adds.ready) frames names]
  have opened : (Reader.begun sensitive).opened = 0 := by cases sensitive <;> rfl
  have fresh : (Reader.begun sensitive).flushed.level = {} := by cases sensitive <;> rfl
  refine .reaches ⟨parts, opened ▸ holds, ?_, fun t => ?_⟩
  · rw [adds.level, fresh, Reader.branch_foldl_push]
    rfl
  · exact (adds.referred t).trans (by cases sensitive <;> rfl)

/-- Such a text compiles to the settled form of its parts. -/
theorem Reads.ends_compile {total sensitive : Bool} {room groups : Nat}
    {before after : Flags → Prop} {source : String} {post : Nat → List Expr → Prop}
    (h : Reads total room groups before after source.toList post) (enough : room ≤ nestingLimit)
    (calm : before { fold := !sensitive })
    (settles : total = true → ∀ parts, post 0 parts → (Expr.join parts).settled?.isSome = true) :
    Ends total (fun expression => ∃ parts, post 0 parts ∧
      (Expr.join parts).settled? = some expression.expr)
      (Expression.compile? (Route.flagged sensitive source)) := by
  have read : Expression.expr? (Route.flagged sensitive source).toList =
      (((Reader.begun sensitive).read source.toList).bind Reader.finish).bind fun reader =>
        if reader.referred.all
          (· < ((Route.flagged sensitive source).toList.foldl (fun n c => n + c.utf8Size) 0) / 2)
        then reader.level.expr.settled? else none := by
    rw [← Reader.read_flagged, Option.bind_assoc]
    rfl
  have expr : Ends total (fun e => ∃ parts, post 0 parts ∧ (Expr.join parts).settled? = some e)
      (Expression.expr? (Route.flagged sensitive source).toList) := by
    rw [read]
    refine (h.ends_finish enough calm).bind ?_
    rintro reader ⟨parts, holds, whole, referred⟩
    rw [whole]
    by_cases t : total = true
    · obtain ⟨e, settled⟩ := Option.isSome_iff_exists.1 (settles t parts holds)
      rw [referred t, settled]
      exact .reaches ⟨parts, holds, settled⟩
    · split
      · cases settled : (Expr.join parts).settled? with
        | none => exact .fails (Bool.eq_false_iff.2 t)
        | some e => exact .reaches ⟨parts, holds, settled⟩
      · exact .fails (Bool.eq_false_iff.2 t)
  rw [Expression.compile?]
  cases found : Expression.expr? (Route.flagged sensitive source).toList with
  | none =>
    rw [found] at expr
    cases expr with
    | fails partial_ => exact .fails partial_
  | some e => exact .reaches (expr.apply found)

end PathTemplate
