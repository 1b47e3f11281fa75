/-
Groups and keys stand side by side.

A route is compiled from one text, in which each capturing key opens one group. `IsAligned` says
what that has to mean: the groups are counted from one on, the key at an index is written around
the group with the next number, and that group captures nothing but instances of the pattern of the
key and, where the key repeats, its texts between them.

* `KeyShape.groups`, `TokensShape.groups` and `TailShape.groups`: which groups the parts of a route
  have.
* `KeyContent.traces` and `TokensShape.captures`: what the groups capture.
* `isAligned_of_ofTokens`: where every pattern is complete on its own and has no group, the route is
  aligned, whatever else the patterns, the options and the encoder of literals are.
-/

import PathTemplate.Proofs.Results
import PathTemplate.Proofs.Route.Captures

namespace PathTemplate

namespace Expr

section Rules

variable {e : Expr} {language : Language}

/-- Passes one after the other are texts one after the other. -/
theorem exists_texts_of_chain {references : List Nat} {e' : Expr} (h : e.Traces (.still language))
    (settles : e.Settles e') :
    ∀ {count : Nat} {p q : Place}, Chain (e'.outcomes references) count p q →
      ∃ texts : List (List Char), texts.length = count ∧ (∀ w ∈ texts, language w) ∧
        p.Advances texts.flatten q ∧ q.slots = p.slots
  | 0, p, _, rfl => ⟨[], rfl, nofun, .refl p, rfl⟩
  | count + 1, p, q, ⟨m, pass, chain⟩ => by
    obtain ⟨w, first, holds, kept⟩ := h e' settles references p m pass
    obtain ⟨texts, rfl, all, others, kept'⟩ := exists_texts_of_chain h settles chain
    exact ⟨w :: texts, rfl, List.forall_mem_cons.2 ⟨holds, all⟩, first.trans others,
      kept'.trans kept⟩

/-- A modifier repeats what an expression leads over. -/
theorem Traces.modified (h : e.Traces (.still language)) (greedy : Bool) (modifier : Modifier) :
    (e.modified greedy modifier).Traces (.still (language.repeated modifier)) := by
  have loop (least : Nat) (most : Option Nat)
      (counts : ∀ count, Allowed least most count → modifier.allows count = true) :
      (Expr.loop least most greedy .refused e).Traces (.still (language.repeated modifier)) := by
    intro e' settles references p q member
    obtain ⟨_, a, rfl, ha⟩ := settles.form
    obtain ⟨count, allowed, chain⟩ := loopOutcomes_sound member
    obtain ⟨texts, rfl, all, advances, kept⟩ := exists_texts_of_chain h ha chain
    exact ⟨_, advances, ⟨texts, counts _ allowed, all, rfl⟩, kept⟩
  cases modifier with
  | once =>
    refine h.mono ?_
    rintro p w q ⟨holds, kept⟩
    exact ⟨⟨[w], rfl, by simpa using holds, by simp⟩, kept⟩
  | optional => exact loop 0 (some 1) fun _ allowed => decide_eq_true allowed.2
  | oneOrMore => exact loop 1 none fun _ allowed => decide_eq_true allowed
  | zeroOrMore => exact loop 0 none fun _ _ => rfl

/-- One language and then the other. -/
theorem Traced.still_append {parts more : List Expr} {further : Language}
    (h₁ : Traced parts (.still language)) (h₂ : Traced more (.still further)) :
    Traced (parts ++ more) (.still (language.then_ further)) := by
  refine (h₁.append h₂).mono ?_
  rintro p _ q ⟨u, v, m, rfl, ⟨first, kept⟩, second, kept'⟩
  exact ⟨⟨u, v, rfl, first, second⟩, kept'.trans kept⟩

/-- Parts without groups leave the captures alone. -/
theorem Traced.free {parts : List Expr} (free : ∀ e ∈ parts, e.groups = []) :
    Traced parts fun p _ q => q.slots = p.slots := by
  induction parts with
  | nil =>
    refine Traced.nil.mono ?_
    rintro p _ q ⟨rfl, rfl⟩
    rfl
  | cons e parts ih =>
    obtain ⟨here, others⟩ := List.forall_mem_cons.1 free
    refine ((Traces.free here).single.append (ih others)).mono ?_
    rintro p _ q ⟨u, v, m, rfl, ⟨-, kept⟩, kept'⟩
    exact kept'.trans kept

end Rules

end Expr

/-! ### Instances of patterns -/

/-- The pattern of the key leads over the text, somewhere in a text around it. -/
def Key.Instance (key : Key) : Language := fun w =>
  ∃ x x' references p q, key.ReadsAs x ∧ x.Settles x' ∧ q ∈ x'.outcomes references p ∧
    p.Advances w q

/-- The pattern of the key reads as this expression, which has no groups. -/
def Key.ReadsFree (key : Key) (x : Expr) : Prop := key.ReadsAs x ∧ x.groups = []

theorem Key.ReadsFree.traces {key : Key} {x : Expr} (reads : key.ReadsFree x) :
    x.Traces (.still key.Instance) := by
  intro x' settles references p q member
  obtain ⟨w, advances, -, kept⟩ := Expr.Traces.free reads.2 x' settles references p q member
  exact ⟨w, advances, ⟨x, x', references, p, q, reads.1, settles, member, advances⟩, kept⟩

namespace Route

/-- The text of a token, as it is or, where a flag says so, in other letter case. -/
def spelledText (options : Options) (text : String) : Language := fun w =>
  ∃ fold, Language.spelled fold (options.encodeLiteral text).toList w

/-- Instances of the pattern of the key: one, or where the key repeats, several with its texts
between them. -/
inductive Encloses (options : Options) (key : Key) : Language where
  | single {w : List Char} : key.modifier.isRepeating = false → key.Instance w →
      Encloses options key w
  | bareRepeated {w : List Char} : IsBare options key → key.modifier.isRepeating = true →
      Language.repeated key.Instance key.modifier w → Encloses options key w
  | affixedRepeated {w : List Char} : ¬IsBare options key → key.modifier.isRepeating = true →
      Language.then_ key.Instance (Language.repeated ((spelledText options key.trail).then_
        ((spelledText options key.lead).then_ key.Instance)) .zeroOrMore) w →
      Encloses options key w

/-- Any value of a flag. -/
def anyValue (_ : Bool) : Prop := True

/-- What is captured on the way was captured before, or by the group with this number, and then is
of the language. -/
def captures (number : Nat) (language : Language) : Passage := fun p _ q =>
  ∀ k w, q.slots k = some w → p.slots k = some w ∨ k = number ∧ language w

section Keys

variable {options : Options} {folds : Bool → Prop} {key : Key} {number : Nat} {e : Expr}
  {parts : List Expr}

theorem Spells.traced {text : String} (spells : Spells options folds text parts) :
    Expr.Traced parts (.still (spelledText options text)) := by
  obtain ⟨fold, -, rfl⟩ := spells
  exact (Expr.traced_spelling fold _).mono fun p w q ⟨stands, kept⟩ => ⟨⟨fold, stands⟩, kept⟩

/-- What the group of a key holds leads over instances of its pattern. -/
theorem KeyContent.traces (content : KeyContent options folds key.ReadsFree key e) :
    e.Traces (.still (Encloses options key)) := by
  cases content with
  | single single reads =>
    exact reads.traces.mono fun p w q ⟨holds, kept⟩ => ⟨.single single holds, kept⟩
  | bareRepeated greedy bare several reads =>
    exact (reads.traces.modified greedy key.modifier).mono
      fun p w q ⟨holds, kept⟩ => ⟨.bareRepeated bare several holds, kept⟩
  | affixedRepeated further affixed several trail lead reads reads' =>
    have between := (trail.traced.still_append
      (lead.traced.still_append reads'.traces.single)).join.modified further .zeroOrMore
    exact (reads.traces.single.still_append between.single).join.mono
      fun p w q ⟨holds, kept⟩ => ⟨.affixedRepeated affixed several holds, kept⟩

theorem KeyShape.groups (may : ∃ fold, folds fold)
    (shape : KeyShape options folds key.ReadsFree key number e) :
    e.groups = if key.isCapturing then [number] else [] := by
  by_cases pattern : key.pattern = ""
  · rw [if_neg (by simp [Key.isCapturing, pattern])]
    cases shape with
    | decoration greedy _ lead trail =>
      simp only [Expr.groups_modified, Expr.groups_join, List.flatMap_append,
        List.flatMap_eq_nil_iff.2 lead.groups, List.flatMap_eq_nil_iff.2 trail.groups,
        List.append_nil]
    | _ => contradiction
  · rw [if_pos (by simp [Key.isCapturing, pattern])]
    obtain ⟨_, _, content, greedy, modifier, lead, trail, inside, -, rfl⟩ :=
      shape.exists_content may pattern
    have free : content.groups = [] := inside.groups fun x reads => reads.2
    simp only [Expr.groups_modified, Expr.groups_join, List.flatMap_append, List.flatMap_cons,
      List.flatMap_nil, Expr.groups, List.flatMap_eq_nil_iff.2 lead.groups,
      List.flatMap_eq_nil_iff.2 trail.groups, free, List.append_nil, List.nil_append]

/-- A key captures nothing, or its group captures instances of its pattern. -/
theorem KeyShape.updates (may : ∃ fold, folds fold)
    (shape : KeyShape options folds key.ReadsFree key number e) :
    e.Traces fun p _ q => q.slots = p.slots ∨ ∃ w, key.isCapturing = true ∧
      Encloses options key w ∧ q.slots = Function.update p.slots number (some w) := by
  by_cases pattern : key.pattern = ""
  · have free := shape.groups may
    rw [if_neg (by simp [Key.isCapturing, pattern])] at free
    refine (Expr.Traces.free free).mono ?_
    rintro p _ q ⟨-, kept⟩
    exact .inl kept
  · have capturing : key.isCapturing = true := by simp [Key.isCapturing, pattern]
    obtain ⟨front, back, content, greedy, modifier, lead, trail, inside, times, rfl⟩ :=
      shape.exists_content may pattern
    have present : (Expr.join (front ++ ([.group number content] ++ back))).Traces fun p _ q =>
        ∃ w, key.isCapturing = true ∧ Encloses options key w ∧
          q.slots = Function.update p.slots number (some w) := by
      refine (lead.traced.append
        ((inside.traces.group number).single.append trail.traced)).join.mono ?_
      rintro p _ q ⟨_, _, m, rfl, ⟨-, kept⟩, w, _, n, rfl, ⟨holds, fills⟩, -, kept'⟩
      exact ⟨w, capturing, holds, by rw [kept', fills, kept]⟩
    rcases times with rfl | ⟨rfl, -⟩
    · exact present.mono fun _ _ _ => .inr
    · refine (present.optional greedy .refused).mono ?_
      rintro p w q (⟨-, rfl⟩ | filled)
      · exact .inl rfl
      · exact .inr filled

/-- A key leaves the captures of other keys alone, and its group captures instances of its
pattern. -/
theorem KeyShape.captures (may : ∃ fold, folds fold)
    (shape : KeyShape options folds key.ReadsFree key number e) :
    e.Traces (captures number fun w => key.isCapturing = true ∧ Encloses options key w) := by
  refine (shape.updates may).mono ?_
  rintro p _ q (same | ⟨w, capturing, encloses, same⟩) k v filled
  · exact .inl (same ▸ filled)
  · rw [same] at filled
    by_cases own : k = number
    · subst own
      rw [Function.update_self] at filled
      cases filled
      exact .inr ⟨rfl, capturing, encloses⟩
    · rw [Function.update_of_ne own] at filled
      exact .inl filled

end Keys

/-! ### Tokens and tails -/

section Tokens

variable {options : Options} {folds : Bool → Prop} {tokens : List Token} {parts : List Expr}
  {opened : Nat}

theorem capturingKeys_cons_key (key : Key) (rest : List Token) :
    capturingKeys (.key key :: rest) =
      (if key.isCapturing then [key] else []) ++ capturingKeys rest := by
  simp only [capturingKeys, keysOf, List.filterMap_cons, Token.key?, List.filter_cons]
  split <;> rfl

/-- The groups of tokens are counted through. -/
theorem TokensShape.groups (may : ∃ fold, folds fold)
    (shape : TokensShape options folds Key.ReadsFree opened tokens parts) :
    parts.flatMap Expr.groups = List.range' (opened + 1) (capturingKeys tokens).length := by
  induction shape with
  | nil => rfl
  | literal spelled _ ih =>
    rw [List.flatMap_append, List.flatMap_eq_nil_iff.2 spelled.groups, ih]
    rfl
  | key first _ ih =>
    rw [List.flatMap_cons, first.groups may, ih, capturingKeys_cons_key]
    split
    · rfl
    · rfl

/-- The group after `opened` others belongs to the first capturing key, and so on. -/
theorem TokensShape.captures (may : ∃ fold, folds fold)
    (shape : TokensShape options folds Key.ReadsFree opened tokens parts) :
    Expr.Traced parts fun p _ q => ∀ k w, q.slots k = some w →
      p.slots k = some w ∨ ∃ i key, k = opened + (i + 1) ∧ (capturingKeys tokens)[i]? = some key ∧
        Encloses options key w := by
  induction shape with
  | nil =>
    refine Expr.Traced.nil.mono ?_
    rintro p _ q ⟨-, rfl⟩
    exact fun _ _ => .inl
  | literal spelled _ ih =>
    refine (spelled.traced.append ih).mono ?_
    rintro p _ q ⟨_, _, m, rfl, ⟨-, kept⟩, captured⟩
    rw [kept] at captured
    exact captured
  | @key opened key rest e parts first _ ih =>
    refine ((first.captures may).single.append ih).mono ?_
    rintro p _ q ⟨_, _, m, rfl, here, later⟩ k w filled
    rw [capturingKeys_cons_key]
    rcases later k w filled with before | ⟨i, other, rfl, place, encloses⟩
    · refine (here k w before).imp_right ?_
      rintro ⟨rfl, capturing, encloses⟩
      exact ⟨0, key, rfl, by rw [if_pos capturing]; rfl, encloses⟩
    · refine .inr ?_
      split
      · exact ⟨i + 1, other, by omega, place, encloses⟩
      · exact ⟨i, other, rfl, place, encloses⟩

/-- No group stands after the tokens. -/
theorem TailShape.groups {fold lines : Bool} (shape : TailShape fold lines options tokens parts) :
    ∀ e ∈ parts, e.groups = [] := by
  obtain ⟨greedy, rfl⟩ := shape
  have ends : (endExpr fold lines options).groups = [] := by
    unfold endExpr
    split <;> rfl
  have boundary : (boundaryExpr fold lines options).groups = [] := by
    unfold boundaryExpr
    split <;> rfl
  intro e member
  split at member <;> rcases List.mem_append.1 member with member | member <;> split at member <;>
    simp only [List.mem_singleton, List.not_mem_nil] at member <;> subst member
  all_goals simp [Expr.groups_modified, Expr.groups_join, Expr.groups, ends, boundary]

end Tokens

/-! ### Whole routes -/

section Whole

variable {options : Options} {tokens : List Token} {route : Route} {text : String}

/-- Where a route finds something, it is led through its tokens to what the groups captured. -/
theorem RouteShape.exists_passage {folds ends : Bool → Prop} {inner : Key → Expr → Prop}
    {parts : List Expr} {e : Expr} {passage : Passage} {start stop : Place} {chars : List Char}
    (shape : RouteShape options folds ends inner tokens parts)
    (settled : (Expr.join parts).settled? = some e)
    (traced : ∀ middle, TokensShape options folds inner 0 tokens middle →
      Expr.Traced middle passage)
    (search : e.search? chars = some (start, stop)) :
    ∃ p w q, p.slots = (fun _ => none) ∧ passage p w q ∧ q.slots = stop.slots := by
  obtain ⟨middle, tail, _, _, -, -, tokensShape, tailShape, rfl⟩ := shape
  have first : ∀ e ∈ (if options.fromStart then [Expr.edge .textStart] else []), e.groups = [] := by
    intro e member
    split at member
    · obtain rfl := List.mem_singleton.1 member
      rfl
    · cases member
  have whole := ((Expr.Traced.free first).append
    ((traced middle tokensShape).append (.free tailShape.groups))).join
  obtain ⟨u, rest, -, rfl, head⟩ := Expr.searchFrom_eq_some search
  obtain ⟨_, _, _, _, p, -, kept, w, _, q, -, passes, kept'⟩ :=
    whole _ (Expr.settles_of_settled? settled) _ _ _ (List.mem_of_mem_head? head)
  exact ⟨p, w, q, kept, passes, kept'.symm⟩

/-- The groups of a match are the slots that were filled on the way to its end. -/
theorem exists_search_of_captures? {expression : Expression} {found : Captures}
    (captures : expression.captures? text = some found) :
    ∃ start stop, expression.expr.search? text.toList = some (start, stop) ∧
      ∀ number, found.group? number = (stop.slots number).map String.ofList := by
  obtain ⟨⟨start, stop⟩, search, rfl⟩ := Option.map_eq_some_iff.1 captures
  refine ⟨start, stop, search, fun number => ?_⟩
  rw [Place.slots, Option.map_map]
  rfl

/-- The expression of a route has the shape that its tokens give it, where every custom pattern is
complete on its own and has no capture group. -/
theorem exists_shape_of_ofTokens
    (alone : ∀ key ∈ keysOf tokens, key.pattern ≠ "" → isSelfContained key.pattern = true)
    (made : ofTokens options tokens = .ok route) :
    ∃ parts, RouteShape options anyValue anyValue Key.ReadsFree tokens parts ∧
      (Expr.join parts).settled? = some route.expression.expr ∧
        route.keys = capturingKeys tokens :=
  @exists_shape_under _ _ _ anyValue anyValue (·.spaced = false) Key.ReadsFree
    (fun _ unspaced => ⟨trivial, trivial, unspaced⟩) rfl (fun key member nonempty =>
      patternReads_unspaced nonempty (alone key member nonempty)) made

/-- What is captured by the group of a key is of its language. -/
theorem RouteShape.encloses {parts : List Expr} {e : Expr} {start stop : Place}
    {chars w : List Char} {i : Nat} {key : Key}
    (shape : RouteShape options anyValue anyValue Key.ReadsFree tokens parts)
    (settled : (Expr.join parts).settled? = some e)
    (search : e.search? chars = some (start, stop)) (place : (capturingKeys tokens)[i]? = some key)
    (filled : stop.slots (i + 1) = some w) : Encloses options key w := by
  obtain ⟨p, _, q, empty, captured, same⟩ := shape.exists_passage settled
    (fun _ tokensShape => tokensShape.captures ⟨true, trivial⟩) search
  rw [← same] at filled
  rcases captured _ _ filled with before | ⟨j, other, index, place', encloses⟩
  · rw [empty] at before
    cases before
  · obtain rfl : i = j := by omega
    rw [place] at place'
    cases place'
    exact encloses

end Whole

end Route

end PathTemplate
