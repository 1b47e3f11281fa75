/-
Custom patterns stay inside of their own groups.

The lexer counts parentheses, and the engine finds groups. Where they agree on a custom pattern,
`isCountedAlike`, a route with it can be compiled only if the pattern is complete on its own and has
no capture group: what it lacks, nothing around it can supply (`isSelfContained_of_ofInput`).
Where they do not agree, it may have a capture group of its own (`exists_capture_inside`).
-/

import PathTemplate.Proofs.Reading.Containment
import PathTemplate.Proofs.Route.Alignment

namespace PathTemplate

open Lexeme (IsCustom)

/-- The engine finds the groups of the pattern where the lexer counts them: no parenthesis stands
for itself in a class, every class is complete, no group has a name, nothing is a reference or a
comment, blanks mean something, and the pattern does not end within an escape. -/
def isCountedAlike (pattern : String) : Bool := ({} : Reader).countsAlike pattern.toList

section Alone

variable {pattern : String} {reader next : Reader}

/-- The default pattern is complete on its own. -/
theorem isSelfContained_defaultPattern {delimiter : String} (delimited : delimiter ≠ "") :
    isSelfContained (defaultPattern delimiter) = true := by
  obtain ⟨_, read⟩ := @Reader.read_defaultPattern {} ⟨_, rfl⟩ delimiter delimited
  exact isSelfContained_iff.2 ⟨_, _, readAlone?_eq_some_iff.2 ⟨read,
    Reader.finish_of_resolved (Reader.resolved_of_isReady ⟨_, rfl⟩) rfl rfl⟩, rfl, rfl⟩

/-- Pinning puts no question mark at the beginning of a custom pattern. -/
theorem begins_pinned_custom (custom : IsCustom pattern) (nonempty : pattern ≠ "") :
    ∃ c rest, (pinShorthands pattern).toList = c :: rest ∧ c ≠ '?' := by
  have begins := custom.begins
  obtain ⟨c, rest, chars⟩ := List.exists_cons_of_ne_nil fun none =>
    nonempty (String.toList_eq_nil_iff.1 none)
  rw [pinShorthands, String.toList_ofList, chars]
  rw [chars] at begins
  by_cases slash : c = '\\'
  · subst slash
    cases rest with
    | nil => exact ⟨_, _, rfl, by decide⟩
    | cons d rest =>
      rw [pinFrom]
      rcases pinEscape_cases false d with kept | ⟨_, ⟨_, _, same⟩ | ⟨_, _, same⟩⟩
      · exact ⟨'\\', _, by rw [kept]; rfl, by decide⟩
      · exact ⟨'[', _, by rw [same]; rfl, by decide⟩
      · exact ⟨'0', _, by rw [same]; rfl, by decide⟩
  · rw [pinFrom_cons slash]
    exact ⟨c, _, rfl, fun mark => begins (congrArg some mark)⟩

/-- Where a custom pattern is read in a group, its shorthands being pinned, it is complete on its
own. -/
theorem isSelfContained_of_read (custom : IsCustom pattern)
    (counted : isCountedAlike pattern = true)
    (fresh : reader.IsFresh) (names : reader.names = []) (spaced : reader.flags.spaced = false)
    (read : reader.read (pinShorthands pattern).toList = some next) :
    isSelfContained pattern = true := by
  have start : reader = ({ flags := reader.flags } : Reader).within reader.frames reader.opened
      reader.referred := by
    obtain ⟨mode, level⟩ := fresh
    cases reader
    simp_all [Reader.within]
  have alike {flags flags' : Flags} (agree : flags.Agree .none flags') :
      ({ flags } : Reader).Like .none { flags := flags' } :=
    ⟨⟨⟨.none, .refl rfl⟩, .nil, agree, ⟨rfl, rfl⟩, ⟨rfl, rfl⟩, rfl⟩, .ready .nothing⟩
  have outside : false = true → ({} : Reader).mode.inClass = true := by simp
  have abreast : Reader.Abreast false 0 {} { flags := reader.flags } :=
    ⟨.of_like (alike ⟨spaced, by simp, by simp⟩) (alike ⟨spaced.symm, by simp, by simp⟩),
      rfl, rfl, rfl, rfl, outside⟩
  rw [start, pinShorthands, String.toList_ofList] at read
  obtain ⟨last, alone, opened, frames, part, spaced⟩ :=
    abreast.completes custom.balanced (by simp) counted read
  obtain ⟨ready, resolved⟩ : ∃ ready, last.resolved = some ready := by
    unfold Reader.resolved
    cases mode : last.mode <;> rw [mode] at part <;> cases part <;> exact ⟨_, rfl⟩
  have names : last.names = [] := (Reader.rests_of_read alone).names opened
  obtain ⟨mode, level, referred, rfl⟩ := Reader.resolved_same resolved
  exact isSelfContained_iff.2 ⟨last, _, readAlone?_eq_some_iff.2
    ⟨alone, Reader.finish_of_resolved resolved frames names⟩, opened, spaced⟩

end Alone

namespace Route

section Keys

variable {options : Options} {tokens : List Token} {key : Key}

/-- A custom pattern that is counted alike reads in a group as something that is complete on its
own, if it reads as anything. -/
theorem patternReads_custom (nonempty : key.pattern ≠ "") (custom : IsCustom key.pattern)
    (counted : isCountedAlike key.pattern = true) :
    PatternReads false (·.spaced = false) (FlagsAfter options anyValue (·.spaced = false) key)
      (fun _ => isSelfContained key.pattern = true) (pinShorthands key.pattern).toList := by
  by_cases alone : isSelfContained key.pattern = true
  · exact PatternReads.mono (patternReads_unspaced nonempty alone) fun _ _ => alone
  · refine ⟨?_, nofun, fun reader here fresh => ?_⟩
    · exact begins_pinned_custom custom nonempty
    · cases read : reader.read (pinShorthands key.pattern).toList with
      | none => exact .fails rfl
      | some next =>
        exact absurd (isSelfContained_of_read custom counted fresh here.names here.flags read) alone

/-- What holds of the readings of the patterns of all keys holds of one at least. -/
theorem TokensShape.exists_inner {folds : Bool → Prop} {inner : Key → Expr → Prop} {opened : Nat}
    {parts : List Expr} (may : ∃ fold, folds fold)
    (shape : TokensShape options folds inner opened tokens parts) :
    ∀ key ∈ keysOf tokens, key.pattern ≠ "" → ∃ x, inner key x := by
  induction shape with
  | nil => exact nofun
  | literal _ _ ih => exact ih
  | @key _ key _ _ _ shape _ ih =>
    refine List.forall_mem_cons.2 ⟨fun pattern => ?_, ih⟩
    obtain ⟨_, _, _, _, _, _, _, content, _⟩ := shape.exists_content may pattern
    cases content with
    | single _ holds => exact ⟨_, holds⟩
    | bareRepeated _ _ _ holds => exact ⟨_, holds⟩
    | affixedRepeated _ _ _ _ _ holds => exact ⟨_, holds⟩

end Keys

/-- The pattern of every key of a route is complete on its own and has no capture group, if the
lexer and the engine agree on the groups of the custom ones. -/
theorem isSelfContained_of_ofInput {options : Options} {pattern : String} {tokens : List Token}
    {route : Route} (parsed : tokensOf options pattern = .ok tokens)
    (counted : ∀ key ∈ keysOf tokens, key.pattern ≠ defaultPattern options.delimiter →
      isCountedAlike key.pattern = true)
    (made : ofInput options (.pattern pattern) = .ok route) :
    ∀ key ∈ keysOf tokens, isSelfContained key.pattern = true := by
  have made := ofTokens_of_ofInput parsed made
  have delimited := (delimiter_of_ofTokens made).1
  have reads : ∀ key ∈ keysOf tokens, key.pattern ≠ "" → PatternReads false (·.spaced = false)
      (FlagsAfter options anyValue (·.spaced = false) key)
      (fun _ => isSelfContained key.pattern = true) (pinShorthands key.pattern).toList := by
    intro key member nonempty
    by_cases default : key.pattern = defaultPattern options.delimiter
    · have alone : isSelfContained key.pattern = true :=
        default ▸ isSelfContained_defaultPattern delimited
      exact PatternReads.mono (patternReads_unspaced nonempty alone) fun _ _ => alone
    · exact patternReads_custom nonempty
        ((isSourced_of_tokensOf parsed key member).resolve_left default)
        (counted key member default)
  have known : ∀ f : Flags, f.spaced = false →
      anyValue f.fold ∧ anyValue f.lines ∧ f.spaced = false :=
    fun f unspaced => ⟨trivial, trivial, unspaced⟩
  obtain ⟨_, ⟨_, _, _, _, _, _, shape, _⟩, _⟩ :=
    @exists_shape_under _ _ _ anyValue anyValue (·.spaced = false)
      (fun key _ => isSelfContained key.pattern = true) known rfl reads made
  intro key member
  by_cases empty : key.pattern = ""
  · rw [empty]
    rfl
  · obtain ⟨_, alone⟩ := shape.exists_inner ⟨true, trivial⟩ key member empty
    exact alone

/-- Groups of several kinds, and parentheses that are escaped, are counted alike. -/
theorem isSelfContained_of_ofInput_groups :
    let pattern := "/:id((?:\\d{2}|[a-f\\)]+)(?!-))-(.*)"
    let tokens : List Token := [
      .key { name := .explicit "id", lead := "/", pattern := "(?:\\d{2}|[a-f\\)]+)(?!-)" },
      .literal "-", .key { name := .ordinal 0, pattern := ".*" }]
    ∃ route, tokensOf {} pattern = .ok tokens ∧
      (∀ key ∈ keysOf tokens, key.pattern ≠ defaultPattern "/#?" →
        isCountedAlike key.pattern = true) ∧
      ofInput {} (.pattern pattern) = .ok route ∧
      ∀ key ∈ keysOf tokens, isSelfContained key.pattern = true := by
  intro pattern tokens
  have parsed : tokensOf {} pattern = .ok tokens := by decide +kernel
  have counted : ∀ key ∈ keysOf tokens, key.pattern ≠ defaultPattern "/#?" →
      isCountedAlike key.pattern = true := by decide +kernel
  have compiles : (ofInput {} (.pattern pattern)).toOption.isSome = true := by decide +kernel
  obtain ⟨route, compiled⟩ := Option.isSome_iff_exists.1 compiles
  have made := toOption_eq_some_iff.1 compiled
  exact ⟨route, parsed, counted, made, isSelfContained_of_ofInput parsed counted made⟩

/-- A group with a name begins with a question mark, as one that captures nothing does. The lexer
lets it through, so that the one key of this route has a capture group inside of its own. -/
theorem exists_capture_inside :
    tokensOf {} "((?<n>x))" = .ok [.key { name := .ordinal 0, pattern := "(?<n>x)" }] ∧
      (readAlone? "(?<n>x)").map (·.1.opened) = some 1 ∧
      ∃ route, ofInput {} (.pattern "((?<n>x))") = .ok route ∧ route.keys.length = 1 ∧
        route.expression.expr.groups = [1, 2] := by
  have compiles : (ofInput {} (.pattern "((?<n>x))")).toOption.map (fun route =>
      (route.keys.length, route.expression.expr.groups)) = some (1, [1, 2]) := by decide +kernel
  obtain ⟨route, compiled, same⟩ := Option.map_eq_some_iff.1 compiles
  obtain ⟨keys, groups⟩ := Prod.mk.inj same
  exact ⟨by decide +kernel, by decide +kernel, route, toOption_eq_some_iff.1 compiled, keys, groups⟩

end Route

end PathTemplate
