/-
Routes and validators that are certain to compile.

Nothing that stands around the patterns of keys looks behind, so that a route can be settled where
the patterns can. Together with a reading that cannot fail this gives the expression.

* `exists_route`: where all patterns are certain to be read, the route compiles.
* `exists_validator`: so does the validator of a key.
-/

import PathTemplate.Proofs.Route.Parts
import PathTemplate.Proofs.Route.Rendering

namespace PathTemplate

namespace Route

theorem isClosed_isSettleable : IsClosed (·.isSettleable = true) where
  empty := rfl
  one _ := rfl
  edge _ := rfl
  seq left right := by rw [Expr.isSettleable, left, right]; rfl
  alt left right := by rw [Expr.isSettleable, left, right]; rfl
  group _ _ here := here
  ahead here := here
  optional _ _ here := by rw [Expr.isSettleable, here]; rfl
  loop _ _ _ _ here := by rw [Expr.isSettleable, here]; rfl

/-- Where every pattern is certain to be read and can be settled, and no modifier stands after
nothing, the route compiles. -/
theorem exists_route {options : Options} {tokens : List Token} {calm : Flags → Prop}
    {inner : Key → Expr → Prop}
    (known : ∀ f, calm f → f.fold = (!options.sensitive) ∧ f.lines = false ∧ f.spaced = false)
    (begins : calm options.flags)
    (reads : ∀ key ∈ keysOf tokens, key.pattern ≠ "" →
      PatternReads true calm (FlagsAfter options (· = !options.sensitive) calm key) (inner key)
        (pinShorthands key.pattern).toList)
    (settles : ∀ key ∈ keysOf tokens, ∀ x, inner key x → x.groups = [] ∧ x.isSettleable = true)
    (complete : ∀ key ∈ keysOf tokens, key.pattern = "" → ¬IsBare options key)
    (delimited : options.delimiter ≠ "") : ∃ route, ofTokens options tokens = .ok route := by
  have whole := @reads_sourceOf _ (· = !options.sensitive) (· = false) _ _ true _ known
    (fun _ => complete) reads begins delimited
  obtain ⟨expression, compiled, -⟩ := (whole.ends_compile (by decide) rfl fun _ parts shape =>
    Option.isSome_iff_exists.2 <|
      Expr.exists_settled? (isClosed_isSettleable.routeShape settles (shape rfl))).exists
  refine ⟨{ expression, source := sourceOf options tokens, keys := capturingKeys tokens }, ?_⟩
  have sound : options.check = .ok () := Options.check_eq_ok_iff.2 delimited
  rw [ofTokens, sound]
  simp only [compile, compiled]
  rfl

end Route

namespace Renderer

variable {options : Options}

/-- Where the pattern of a key is certain to be read and can be settled, its validator compiles. -/
theorem exists_validator {key : Key} {room : Nat} {calm after : Flags → Prop} {inner : Expr → Prop}
    (known : ∀ f, calm f → f.lines = false) (begins : calm options.flags)
    (holds : Holds true room 0 calm after (pinShorthands key.pattern).toList fun _ e => inner e)
    (enough : room < nestingLimit)
    (settles : ∀ x, inner x → x.isSettleable = true) :
    ∃ validator, Renderer.validator options.sensitive key = .ok validator := by
  obtain ⟨validator, compiled, -⟩ := ((reads_validator known holds).ends_compile enough begins (by
    rintro - _ ⟨x, reads, rfl⟩
    refine Option.isSome_iff_exists.2 (Expr.exists_settled? ?_)
    exact Route.isClosed_isSettleable.join
      (by simpa [Expr.isSettleable] using settles x reads))).exists
  exact ⟨validator, by simp only [Renderer.validator, validatorSource, compiled]⟩

/-- A renderer has all it needs if every key has a validator. -/
theorem exists_renderer {tokens : List Token}
    (validators : ∀ key ∈ keysOf tokens,
      ∃ validator, Renderer.validator options.sensitive key = .ok validator) :
    ∃ renderer, Renderer.ofTokens options tokens = .ok renderer := by
  have each : ∀ token ∈ tokens, ∃ part, Renderer.part options token = .ok part := by
    intro token member
    cases token with
    | literal text => exact ⟨_, rfl⟩
    | key key =>
      obtain ⟨validator, made⟩ := validators key (List.mem_filterMap.2 ⟨_, member, rfl⟩)
      simp only [Renderer.part, made]
      split
      · exact ⟨_, rfl⟩
      · exact ⟨_, rfl⟩
  obtain ⟨parts, made⟩ := exists_mapM each
  exact ⟨{ parts, encode := options.encodeValue }, by rw [Renderer.ofTokens, made]; rfl⟩

end Renderer

end PathTemplate
