/-
Which texts a route matches.

The parts after the tokens are read as conditions on what follows them. Together with the
language of the tokens they say where the route matches at all: its expression is declarative, and
`Expression.isMatch_iff` turns what it covers into a division of the text.

* `isMatch_closed_iff`: the match ends at the end of the text.
* `isMatch_open_iff`: the match may also end where a segment does.
-/

import PathTemplate.Route.Input
import PathTemplate.Proofs.Expression.Agreement
import PathTemplate.Proofs.Route.Tokens

namespace PathTemplate

/-- The text is empty or begins with a character that `stops` holds of. -/
def StopsAt (stops : Char → Prop) (text : List Char) : Prop :=
  text = [] ∨ ∃ c rest, text = c :: rest ∧ stops c

/-- The text counts as ended. -/
def Options.Ended (options : Options) : List Char → Prop :=
  StopsAt (· ∈ options.endsWith.toList)

/-- A segment may end before the text. -/
def Options.Bounded (options : Options) : List Char → Prop :=
  StopsAt fun c => c ∈ options.delimiter.toList ∨ c ∈ options.endsWith.toList

/-- The text is a delimiter that may be there or not, or nothing. -/
def Options.Tolerated (options : Options) (text : List Char) : Prop :=
  text = [] ∨ options.strict = false ∧ ∃ c ∈ options.delimiter.toList, text = [c]

namespace Route

section Tail

variable {options : Options} {before w after : List Char}

theorem covers_textStart : (Expr.edge .textStart).Covers before w after ↔ w = [] ∧ before = [] := by
  simp [Expr.Covers, Place.isAt]

theorem covers_textEnd : (Expr.edge .textEnd).Covers before w after ↔ w = [] ∧ after = [] := by
  simp [Expr.Covers, Place.isAt]

theorem covers_ahead {e : Expr} : (Expr.ahead false e).Covers before w after ↔
    w = [] ∧ ∃ v rest, after = v ++ rest ∧ e.Covers before v rest := by
  simp [Expr.Covers]

theorem contains_listed {text : List Char} {c : Char} :
    (CharSet.listed false false text).contains c = true ↔ c ∈ text := by
  simp [CharSet.listed, CharSet.foldIf, CharSet.complIf]

theorem covers_delimiter : (Expr.one (delimiterSet false options)).Covers before w after ↔
    ∃ c ∈ options.delimiter.toList, w = [c] := by
  simp only [Expr.Covers, delimiterSet, contains_listed]
  exact exists_congr fun c => and_comm

/-- Something that `endExpr` covers follows where the text counts as ended. -/
theorem exists_covers_endExpr :
    (∃ v rest, after = v ++ rest ∧ (endExpr false false options).Covers before v rest) ↔
      options.Ended after := by
  unfold endExpr
  by_cases ends : options.endsWith = ""
  · rw [if_pos ends]
    simp [endEdge, covers_textEnd, Options.Ended, StopsAt, ends]
  · rw [if_neg ends]
    constructor
    · rintro ⟨v, rest, rfl, ⟨c, rfl, member⟩ | atEnd⟩
      · exact .inr ⟨c, rest, rfl, contains_listed.1 member⟩
      · obtain ⟨rfl, rfl⟩ := covers_textEnd.1 atEnd
        exact .inl rfl
    · rintro (rfl | ⟨c, rest, rfl, member⟩)
      · exact ⟨[], [], rfl, .inr (covers_textEnd.2 ⟨rfl, rfl⟩)⟩
      · exact ⟨[c], rest, rfl, .inl ⟨c, rfl, contains_listed.2 member⟩⟩

/-- A boundary is a delimiter or an end. -/
theorem covers_boundaryExpr {fold lines : Bool} :
    (boundaryExpr fold lines options).Covers before w after ↔
    (Expr.one (delimiterSet fold options)).Covers before w after ∨
      (endExpr fold lines options).Covers before w after := by
  unfold boundaryExpr endExpr
  split
  · rfl
  · exact or_assoc

/-- Something that `boundaryExpr` covers follows where a segment may end. -/
theorem exists_covers_boundaryExpr :
    (∃ v rest, after = v ++ rest ∧ (boundaryExpr false false options).Covers before v rest) ↔
      options.Bounded after := by
  have ended := @exists_covers_endExpr options before after
  constructor
  · rintro ⟨v, rest, split, covered⟩
    rcases covers_boundaryExpr.1 covered with delimiter | ends
    · obtain ⟨c, member, rfl⟩ := covers_delimiter.1 delimiter
      exact .inr ⟨c, rest, split, .inl member⟩
    · exact (ended.1 ⟨v, rest, split, ends⟩).imp_right fun ⟨c, rest, split, member⟩ =>
        ⟨c, rest, split, .inr member⟩
  · intro bounded
    have ends (h : options.Ended after) :
        ∃ v rest, after = v ++ rest ∧ (boundaryExpr false false options).Covers before v rest := by
      obtain ⟨v, rest, split, covered⟩ := ended.2 h
      exact ⟨v, rest, split, covers_boundaryExpr.2 (.inr covered)⟩
    rcases bounded with none | ⟨c, rest, split, member | member⟩
    · exact ends (.inl none)
    · refine ⟨[c], rest, split, covers_boundaryExpr.2 (.inl ?_)⟩
      exact covers_delimiter.2 ⟨c, member, rfl⟩
    · exact ends (.inr ⟨c, rest, split, member⟩)

theorem covers_optional {e : Expr} {greedy : Bool} :
    (e.modified greedy .optional).Covers before w after ↔ w = [] ∨ e.Covers before w after := by
  constructor
  · rintro ⟨count, allowed, passes⟩
    match count, allowed.2 with
    | 0, _ => exact .inl passes
    | 1, _ =>
      obtain ⟨u, _, rfl, covered, rfl⟩ := passes
      exact .inr (by simpa using covered)
  · rintro (rfl | covered)
    · exact ⟨0, by simp [Allowed], rfl⟩
    · exact ⟨1, by simp [Allowed], w, [], by simp, covered, rfl⟩

/-- Where matches end at the end of the text, a delimiter is tolerated before it. -/
theorem TailShape.closed (sensitive : options.sensitive = true) (closed : options.toEnd = true)
    {tokens : List Token} {parts : List Expr}
    (shape : TailShape (!options.sensitive) false options tokens parts) :
    Expr.CoversAll parts before w after ↔ options.Tolerated w ∧ options.Ended after := by
  rw [sensitive, Bool.not_true] at shape
  obtain ⟨greedy, rfl⟩ := shape
  rw [if_pos closed, Expr.coversAll_append]
  have last {before w after : List Char} : (if options.endsWith = "" then Expr.edge (endEdge false)
      else .ahead false (endExpr false false options)).Covers before w after ↔
      w = [] ∧ options.Ended after := by
    rw [← @exists_covers_endExpr options before after]
    split
    · rename_i ends
      simp [endExpr, endEdge, ends, covers_textEnd]
    · exact covers_ahead
  have first {before w after : List Char} : Expr.CoversAll (if options.strict then []
      else [(Expr.one (delimiterSet false options)).modified greedy .optional]) before w after ↔
      options.Tolerated w := by
    unfold Options.Tolerated
    cases options.strict with
    | true => simp [Expr.CoversAll]
    | false => simp [Expr.coversAll_singleton, covers_optional, covers_delimiter]
  simp only [Expr.coversAll_singleton, first, last]
  constructor
  · rintro ⟨u, _, rfl, tolerated, rfl, ended⟩
    exact ⟨by simpa using tolerated, ended⟩
  · rintro ⟨tolerated, ended⟩
    exact ⟨w, [], by simp, tolerated, rfl, ended⟩

/-- Where matches end at boundaries of segments, whether a delimiter is tolerated makes no
difference: one that is covered is a boundary itself. -/
theorem TailShape.open (sensitive : options.sensitive = true) (opened : options.toEnd = false)
    {tokens : List Token} {parts : List Expr}
    (shape : TailShape (!options.sensitive) false options tokens parts) :
    (∃ w rest, after = w ++ rest ∧ Expr.CoversAll parts before w rest) ↔
      (endsDelimited options tokens = true ∨ options.Bounded after) := by
  rw [sensitive, Bool.not_true] at shape
  obtain ⟨greedy, rfl⟩ := shape
  rw [if_neg (Bool.eq_false_iff.1 opened)]
  have last {before w after : List Char} : Expr.CoversAll (if endsDelimited options tokens then []
      else [.ahead false (boundaryExpr false false options)]) before w after ↔
      w = [] ∧ (endsDelimited options tokens = true ∨ options.Bounded after) := by
    split
    · rename_i delimited
      simp [Expr.CoversAll, delimited]
    · rename_i delimited
      rw [Expr.coversAll_singleton, covers_ahead, exists_covers_boundaryExpr]
      simp [delimited]
  simp only [Expr.coversAll_append, last]
  constructor
  · rintro ⟨_, rest, rfl, u, _, rfl, first, rfl, bounded⟩
    refine bounded.imp_right fun bounded => ?_
    rw [List.append_nil]
    cases strict : options.strict with
    | true =>
      rw [strict] at first
      obtain rfl : u = [] := first
      exact bounded
    | false =>
      simp only [strict, Bool.false_eq_true, if_false, Expr.coversAll_singleton,
        covers_optional] at first
      rcases first with rfl | first
      · exact bounded
      · obtain ⟨_, _, rfl, delimiter, _⟩ := Expr.covers_join.1 first
        obtain ⟨c, member, rfl⟩ := covers_delimiter.1 delimiter
        exact .inr ⟨c, _, rfl, .inl member⟩
  · intro bounded
    refine ⟨[], after, rfl, [], [], rfl, ?_, rfl, bounded⟩
    split
    · rfl
    · exact Expr.coversAll_singleton.2 (covers_optional.2 (.inl rfl))

theorem TailShape.isDeclarative {fold lines : Bool} {tokens : List Token} {parts : List Expr}
    (shape : TailShape fold lines options tokens parts) : ∀ e ∈ parts, e.isDeclarative = true := by
  obtain ⟨greedy, rfl⟩ := shape
  have ends : (endExpr fold lines options).isDeclarative = true := by
    unfold endExpr
    split <;> rfl
  have boundary : (boundaryExpr fold lines options).isDeclarative = true := by
    unfold boundaryExpr
    split <;> rfl
  have both : (Expr.join [.one (delimiterSet fold options),
    .ahead false (endExpr fold lines options)]).isDeclarative =
      true :=
    Expr.isDeclarative_join (by simp [Expr.isDeclarative, ends])
  intro e member
  split at member
  · rcases List.mem_append.1 member with member | member
    · split at member
      · cases member
      · obtain rfl := List.mem_singleton.1 member
        rfl
    · obtain rfl := List.mem_singleton.1 member
      split
      · rfl
      · exact ends
  · rcases List.mem_append.1 member with member | member
    · split at member
      · cases member
      · obtain rfl := List.mem_singleton.1 member
        exact both
    · split at member
      · cases member
      · obtain rfl := List.mem_singleton.1 member
        exact boundary

end Tail

/-! ### Whole routes -/

section Whole

variable {options : Options} {tokens : List Token} {route : Route}

theorem delimiter_of_ofTokens (made : ofTokens options tokens = .ok route) :
    options.delimiter ≠ "" ∧
      compile options.sensitive (sourceOf options tokens) (capturingKeys tokens) = .ok route := by
  simp only [ofTokens] at made
  cases check : options.check with
  | error =>
    rw [check] at made
    cases made
  | ok =>
    rw [check] at made
    exact ⟨Options.check_eq_ok_iff.1 check, made⟩

theorem ofInput_of_parsed {pattern : String} (parsed : tokensOf options pattern = .ok tokens) :
    ofInput options (.pattern pattern) =
      (options.check.mapError .options).bind fun _ => ofTokens options tokens := by
  simp only [ofInput, ofInputChecked, ofPattern, parsed]
  rfl

theorem ofTokens_of_ofInput {pattern : String} (parsed : tokensOf options pattern = .ok tokens)
    (made : ofInput options (.pattern pattern) = .ok route) :
    ofTokens options tokens = .ok route := by
  rw [ofInput_of_parsed parsed] at made
  cases check : options.check with
  | error error =>
    rw [check] at made
    cases made
  | ok =>
    rw [check] at made
    exact made

theorem compile?_of_compile {sensitive : Bool} {source : String} {keys : List Key}
    (made : compile sensitive source keys = .ok route) :
    Expression.compile? (flagged sensitive source) = some route.expression ∧ route.source = source ∧
      route.keys = keys := by
  unfold compile at made
  split at made
  · rename_i expression compiled
    cases made
    exact ⟨compiled, rfl, rfl⟩
  · cases made

/-- The expression of a route is the settled form of one of the shapes that the route may have. -/
theorem exists_shape_under {folds ends : Bool → Prop} {calm : Flags → Prop}
    {inner : Key → Expr → Prop}
    (known : ∀ f, calm f → folds f.fold ∧ ends f.lines ∧ f.spaced = false)
    (begins : calm { fold := !options.sensitive })
    (reads : ∀ key ∈ keysOf tokens, key.pattern ≠ "" →
      PatternReads false calm (FlagsAfter options folds calm key) (inner key)
        (pinShorthands key.pattern).toList)
    (made : ofTokens options tokens = .ok route) :
    ∃ parts, RouteShape options folds ends inner tokens parts ∧
      (Expr.join parts).settled? = some route.expression.expr ∧
      route.keys = capturingKeys tokens := by
  obtain ⟨delimited, made⟩ := delimiter_of_ofTokens made
  obtain ⟨compiled, -, keys⟩ := compile?_of_compile made
  have whole := @reads_sourceOf _ folds ends _ _ false _ known nofun reads begins delimited
  obtain ⟨parts, shape, settled⟩ := (whole.ends_compile (by decide) rfl nofun).apply compiled
  exact ⟨parts, shape rfl, settled, keys⟩

/-- The same where no flag that a pattern sets is in force after it. -/
theorem exists_shape {calm : Flags → Prop} {inner : Key → Expr → Prop}
    (known : ∀ f, calm f → f.fold = (!options.sensitive) ∧ f.lines = false ∧ f.spaced = false)
    (begins : calm { fold := !options.sensitive })
    (reads : ∀ key ∈ keysOf tokens, key.pattern ≠ "" →
      PatternReads false calm (FlagsAfter options (· = !options.sensitive) calm key) (inner key)
        (pinShorthands key.pattern).toList)
    (made : ofTokens options tokens = .ok route) :
    ∃ parts, RouteShape options (· = !options.sensitive) (· = false) inner tokens parts ∧
      (Expr.join parts).settled? = some route.expression.expr ∧
      route.keys = capturingKeys tokens :=
  exists_shape_under known begins reads made

/-- A route matches what its tokens stand for, where its tail allows it. -/
theorem isMatch_of_shape {inner : Key → Expr → Prop} {values : Key → Language} {parts : List Expr}
    (decoration : ∀ key ∈ keysOf tokens, key.pattern = "" → ∀ w, values key w ↔ w = [])
    (patterns : ∀ key ∈ keysOf tokens, key.pattern ≠ "" → ∀ x, inner key x → x.Denotes (values key))
    (shape : RouteShape options (· = !options.sensitive) (· = false) inner tokens parts)
    (settled : (Expr.join parts).settled? = some route.expression.expr) :
    ∃ tail, TailShape (!options.sensitive) false options tokens tail ∧
      ∀ text : String, route.isMatch text = true ↔
        ∃ u w v rest, text.toList = u ++ (w ++ (v ++ rest)) ∧
        (options.fromStart = true → u = []) ∧ tokensLanguage options values tokens w ∧
        Expr.CoversAll tail (w.reverse ++ u.reverse) v rest := by
  obtain ⟨middle, tail, _, _, rfl, rfl, tokensShape, tailShape, rfl⟩ := shape
  have denotes := tokensShape.denotes decoration patterns
  have start : ∀ e ∈ (if options.fromStart then [Expr.edge .textStart] else []),
      e.isDeclarative = true := by
    intro e member
    split at member
    · obtain rfl := List.mem_singleton.1 member
      rfl
    · cases member
  have declarative := Expr.isDeclarative_join (List.forall_mem_append.2
    ⟨start, List.forall_mem_append.2 ⟨denotes.declarative, tailShape.isDeclarative⟩⟩)
  obtain ⟨declarative', covers⟩ := (Expr.settles_of_settled? settled).covers declarative
  refine ⟨tail, tailShape, fun text => ?_⟩
  rw [isMatch, Expression.isMatch_iff declarative', covers]
  simp only [Expr.covers_join, Expr.coversAll_append, denotes.covers]
  have anchored {before w after : List Char} : Expr.CoversAll
      (if options.fromStart then [.edge .textStart] else []) before w after ↔
      w = [] ∧ (options.fromStart = true → before = []) := by
    cases options.fromStart with
    | true => simp [Expr.coversAll_singleton, covers_textStart]
    | false => simp [Expr.CoversAll]
  constructor
  · rintro ⟨u, _, rest, split, _, _, rfl, first, w, v, rfl, holds, covered⟩
    obtain ⟨rfl, begins⟩ := anchored.1 first
    refine ⟨u, w, v, rest, by simpa using split, fun t => ?_, holds, by simpa using covered⟩
    exact List.reverse_eq_nil_iff.1 (begins t)
  · rintro ⟨u, w, v, rest, split, begins, holds, covered⟩
    refine ⟨u, w ++ v, rest, by simpa using split, [], w ++ v, rfl, ?_, w, v, rfl, holds, ?_⟩
    · exact anchored.2 ⟨rfl, fun t => List.reverse_eq_nil_iff.2 (begins t)⟩
    · simpa using covered

end Whole

end Route

end PathTemplate
