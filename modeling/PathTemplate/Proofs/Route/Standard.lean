/-
Patterns without custom groups.

The keys of such a pattern capture what default patterns and wildcards do, and a modifier never
stands after nothing. Whatever characters its literals, affixes, delimiters and ends are made of,
they are escaped where they stand.

* `isStandard_of_tokensOf`: the keys of a pattern without custom groups.
* `Route.exists_route_and_renderer`: such a pattern has a route, a validator for each key, and a
  renderer.
-/

import PathTemplate.Proofs.Route.Compilation
import PathTemplate.Proofs.Token.Accepted

namespace PathTemplate

/-! ### Keys -/

/-- The core has no custom pattern. -/
inductive Core.IsStandard : Core → Prop where
  | named (name : String) (index : Nat) : IsStandard (.named name index none)
  | wildcard (index : Nat) : IsStandard (.unnamed wildcardPattern index)

/-- The key captures what keys without a custom pattern do, or has a text and captures nothing. -/
inductive Key.IsStandard (options : Options) (key : Key) : Prop where
  | default : key.pattern = defaultPattern options.delimiter → IsStandard options key
  | wildcard : key.pattern = wildcardPattern → IsStandard options key
  | decoration (text : String) : key.pattern = "" → text ≠ "" →
      key.lead = options.encodePart text → IsStandard options key

theorem Core.Uses.isStandard {core : Core} {heart : List Use} (h : core.Uses heart)
    (none : ∀ lexeme ∈ lexemesOf heart, lexeme.kind ≠ .pattern) : core.IsStandard := by
  cases h with
  | name => exact .named _ _
  | namePattern => exact absurd rfl (none _ (List.mem_cons_of_mem _ List.mem_cons_self))
  | pattern => exact absurd rfl (none _ List.mem_cons_self)
  | wildcard => exact .wildcard _

section Tokens

variable {options : Options} {pattern : String} {tokens : List Token} {found : List Lexeme}

theorem isStandard_patternFor {core : Core} {key : Key} (standard : core.IsStandard)
    (same : key.pattern = Assembly.patternFor options core) : key.IsStandard options := by
  cases standard with
  | named => exact .default same
  | wildcard => exact .wildcard same

/-- Adding an item without a custom pattern adds no key with one. -/
theorem Assembly.isStandard_add {assembly next : Assembly} {item : Item}
    (keys : ∀ key ∈ keysOf assembly.tokens, key.IsStandard options)
    (standard : ∀ core ∈ item.core?, core.IsStandard)
    (added : assembly.add options item = .ok next) :
    ∀ key ∈ keysOf next.tokens, key.IsStandard options := by
  cases extends_add added with
  | same none => exact none ▸ keys
  | decorated key _ decoration lead one =>
    obtain ⟨text, nonempty, same⟩ := lead
    rw [one]
    exact List.forall_mem_cons.2 ⟨.decoration text decoration nonempty same, keys⟩
  | claimed core key core? _ same _ one =>
    rw [one]
    exact List.forall_mem_cons.2 ⟨isStandard_patternFor (standard core core?) same, keys⟩

/-- Where no lexeme is a custom pattern, no key has one. -/
theorem isStandard_of_tokensOf (read : lexemes pattern = .ok found)
    (none : ∀ lexeme ∈ found, lexeme.kind ≠ .pattern)
    (parsed : tokensOf options pattern = .ok tokens) :
    ∀ key ∈ keysOf tokens, key.IsStandard options := by
  obtain ⟨assembly, keys, all⟩ := @Assembly.keysOf_tokensOf _ _ _
    (fun assembly => ∀ key ∈ keysOf assembly.tokens, key.IsStandard options) nofun
    (fun found' read' item member _ _ keys added => by
      cases read.symm.trans read'
      refine Assembly.isStandard_add keys (fun core has => ?_) added
      obtain ⟨heart, inside, isCore⟩ := exists_uses_of_tokensOf read parsed item member core has
      exact isCore.isStandard fun lexeme within =>
        none lexeme ((List.dropLast_sublist _).mem (inside within))) parsed
  rw [all]
  exact fun key member => keys key (List.mem_reverse.1 member)

end Tokens

/-! ### Their expressions -/

/-- What a default pattern and what a wildcard may read as. -/
inductive Expr.IsStandard (options : Options) : Expr → Prop where
  | default (greedy : Bool) :
      IsStandard options (.unbroken (!options.sensitive) greedy options.delimiter)
  | wildcard (set : CharSet) (greedy : Bool) :
      IsStandard options ((Expr.one set).modified greedy .zeroOrMore)

namespace Key.IsStandard

variable {options : Options} {key : Key} (standard : key.IsStandard options)
  (delimited : options.delimiter ≠ "")
include standard delimited

theorem patternReads (nonempty : key.pattern ≠ "") :
    Route.PatternReads true (· = options.flags)
      (Route.FlagsAfter options (· = !options.sensitive) (· = options.flags) key)
      (Expr.IsStandard options) (pinShorthands key.pattern).toList := by
  have known : ∀ f : Flags, f = options.flags →
      f.fold = (!options.sensitive) ∧ f.spaced = false := by
    rintro _ rfl
    exact ⟨rfl, rfl⟩
  have repeatable : true = true → ∀ e, Expr.IsStandard options e → e.isRepeatable = true := by
    rintro - _ (_ | _) <;> rfl
  cases standard with
  | default same =>
    have reads := Route.patternReads_default true same delimited known
    refine ⟨reads.begins, repeatable, reads.holds.mono (fun _ h => h) ?_⟩
    rintro _ _ ⟨greedy, rfl⟩
    exact .default greedy
  | wildcard same =>
    have reads := @Route.patternReads_wildcard options key (· = !options.sensitive)
      (· = options.flags) true same known
    refine ⟨reads.begins, repeatable, reads.holds.mono (fun _ h => h) ?_⟩
    rintro _ _ ⟨set, greedy, rfl⟩
    exact .wildcard set greedy
  | decoration _ empty => exact absurd empty nonempty

theorem exists_validator :
    ∃ validator, Renderer.validator options.sensitive key = .ok validator := by
  have known : ∀ f : Flags, f = options.flags → f.lines = false := by
    rintro _ rfl
    rfl
  by_cases empty : key.pattern = ""
  · have nothing : Holds true 0 0 (· = options.flags) (· = options.flags)
        (pinShorthands key.pattern).toList fun _ e => e = .empty := by
      rw [empty]
      refine Reads.nil.holds.mono (fun _ h => h) ?_
      rintro _ _ ⟨_, rfl, rfl⟩
      rfl
    refine Renderer.exists_validator known rfl nothing (by decide) ?_
    rintro _ rfl
    rfl
  · refine Renderer.exists_validator known rfl (standard.patternReads delimited empty).holds
      (by decide) ?_
    rintro _ (_ | _) <;> rfl

end Key.IsStandard

namespace Route

/-- A pattern without custom groups always compiles: it has a route, each of its keys a validator,
and the pattern a renderer. -/
theorem exists_route_and_renderer {options : Options} {pattern : String} {tokens : List Token}
    {found : List Lexeme} (part : ∀ text, options.encodePart text = text)
    (literal : ∀ text, options.encodeLiteral text = text) (delimited : options.delimiter ≠ "")
    (read : lexemes pattern = .ok found) (none : ∀ lexeme ∈ found, lexeme.kind ≠ .pattern)
    (parsed : tokensOf options pattern = .ok tokens) :
    (∃ route, ofInput options (.pattern pattern) = .ok route) ∧
      (∀ key ∈ keysOf tokens,
        ∃ validator, Renderer.validator options.sensitive key = .ok validator) ∧
      ∃ renderer, Renderer.ofPattern options pattern = .ok renderer := by
  have standard := isStandard_of_tokensOf read none parsed
  have validators : ∀ key ∈ keysOf tokens,
      ∃ validator, Renderer.validator options.sensitive key = .ok validator :=
    fun key member => (standard key member).exists_validator delimited
  have known : ∀ f : Flags, f = options.flags →
      f.fold = (!options.sensitive) ∧ f.lines = false ∧ f.spaced = false := by
    rintro _ rfl
    exact ⟨rfl, rfl, rfl⟩
  have settles : ∀ key ∈ keysOf tokens, ∀ x, Expr.IsStandard options x →
      x.groups = [] ∧ x.isSettleable = true := by
    rintro _ _ _ (_ | _) <;> exact ⟨rfl, rfl⟩
  have complete : ∀ key ∈ keysOf tokens, key.pattern = "" → ¬IsBare options key := by
    rintro key member empty ⟨bare, -⟩
    cases standard key member with
    | default same =>
      have chars := toList_defaultPattern options.delimiter
      rw [← same, empty] at chars
      cases chars
    | wildcard same => exact absurd (empty.symm.trans same) (by decide)
    | decoration text _ nonempty lead =>
      rw [literal, lead, part] at bare
      exact nonempty bare
  obtain ⟨route, made⟩ := exists_route known rfl
    (fun key member => (standard key member).patternReads delimited) settles complete delimited
  obtain ⟨renderer, prepared⟩ := @Renderer.exists_renderer options tokens validators
  refine ⟨⟨route, ?_⟩, validators, renderer, ?_⟩
  · rw [ofInput_of_parsed parsed, Options.check_eq_ok_iff.2 delimited]
    exact made
  · rw [Renderer.ofPattern, parsed]
    exact prepared

/-- Delimiters, ends, affixes and literals whose characters have a meaning in expressions. -/
theorem exists_route_and_renderer_signs :
    let options : Options :=
      { delimiter := "]^-", prefixes := "[", endsWith := "&&~\\", toEnd := false }
    let pattern := "^$[:a*\x7b|-\x7d+*\x7b\\(:b&&\x7d?"
    (∃ route, ofInput options (.pattern pattern) = .ok route) ∧
      ∃ renderer, Renderer.ofPattern options pattern = .ok renderer := by
  intro options pattern
  have accepted : (tokensOf options pattern).toOption.isSome ∧
      (lexemes pattern).toOption.any (·.all (·.kind ≠ .pattern)) := by
    decide +kernel
  obtain ⟨tokens, parsed⟩ := Option.isSome_iff_exists.1 accepted.1
  obtain ⟨found, read, none⟩ := (Option.any_eq_true _ _).1 accepted.2
  have compiled := exists_route_and_renderer (fun _ => rfl) (fun _ => rfl) (by decide)
    (toOption_eq_some_iff.1 read) (by simpa using none) (toOption_eq_some_iff.1 parsed)
  exact ⟨compiled.1, compiled.2.2⟩

end Route

end PathTemplate
