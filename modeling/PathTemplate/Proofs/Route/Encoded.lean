/-
Separators of encoded texts.

The expression of a route has the encoded texts of a repeated key between its occurrences. A matcher
takes what the key captured apart at these texts as they are in the key, before they are encoded.

* `IsDivided`: values that a key may have, with a character between them, are a captured text.
* `exists_isDivided_of_run`: what a repeated key captures can be divided so. The values that a
  matcher makes of it do so just where the separator of the key is the encoded one, or where neither
  of the two is there.
* `exists_values_not_divided`: a letter that an encoder makes a capital letter is not found.
-/

import PathTemplate.Proofs.Route.Separators
import PathTemplate.Text.Codec

namespace PathTemplate

namespace Route

-- `exprUnder` unfolds to a run of the reader, which no proof about what it covers carries out.
attribute [local irreducible] exprUnder

/-- The validator accepts the values, and with a character between them they are the text. -/
structure IsDivided (validator : Expression) (c : Char) (text : String) (values : List String) :
    Prop where
  accepted : ∀ value ∈ values, validator.isMatch value = true
  together : (String.singleton c).intercalate values = text

/-- A text can be divided in one way only, if the character is in none of the values. -/
theorem IsDivided.unique {validator : Expression} {c : Char} {text : String}
    {values others : List String}
    (free : ∀ value, validator.isMatch value = true → c ∉ value.toList)
    (some : values ≠ []) (some' : others ≠ []) (divided : IsDivided validator c text values)
    (divided' : IsDivided validator c text others) : values = others := by
  have apart {values : List String} (some : values ≠ [])
      (divided : IsDivided validator c text values) :
      pieces [c] 0 text.toList = values.map String.toList := by
    obtain ⟨first, rest, rfl⟩ := List.exists_cons_of_ne_nil some
    rw [← divided.together, String.toList_intercalate, String.toList_singleton, List.map_cons]
    refine pieces_intercalate fun u member => ?_
    obtain ⟨value, here, rfl⟩ := List.mem_map.1 (List.map_cons ▸ member)
    exact free value (divided.accepted value here)
  exact (List.map_inj_right fun _ _ => String.toList_inj.1).1
    ((apart some divided).symm.trans (apart some' divided'))

/-- Where letter case matters and the patterns before a key are neutral, the key is reached, and no
text has another spelling there. -/
theorem exists_isReached_of_sensitive {options : Options} {before later : List Token} {key : Key}
    {route : Route} (sensitive : options.sensitive = true)
    (neutral : ∀ other ∈ keysOf before, other.pattern ≠ "" →
      isNeutralUnder options.flags other.pattern = true)
    (made : ofTokens options (before ++ .key key :: later) = .ok route) :
    ∃ reader, IsReached options before key reader ∧
      ∀ text w, Language.spelled reader.flags.fold text w → w = text := by
  have only : ∀ text w, Language.spelled (!options.sensitive) text w → w = text := by
    intro text w spelled
    rw [sensitive] at spelled
    exact Language.spelled_false.1 spelled
  obtain ⟨reader, reached, flags⟩ := exists_isReached_under neutral (only _) made
  exact ⟨reader, reached, flags ▸ only⟩

section Values

variable {options : Options} {pattern path : String} {before later : List Token} {key : Key}
  {reader : Reader} {matcher : Matcher} {found : PathMatch} {value : Value} {c : Char}

/-- What a repeated key captures is made of values with one character between them, if the encoded
texts of the key are one character, which is in no value. The values that the matcher finds are
such values just where the texts were that character before they were encoded, or where what was
captured has neither this character nor a separator that the matcher looks for. -/
theorem exists_isDivided_of_run (decode : ∀ text key, options.decodeValue text key = text)
    (parsed : tokensOf options pattern = .ok (before ++ .key key :: later))
    (several : key.modifier.isRepeating = true) (joins : (joint options key).toList = [c])
    (plain : isPlainUnder options.flags key.pattern = true)
    (free : ∀ validator, Renderer.validator options.sensitive key = .ok validator →
      ∀ text : String, validator.isMatch text = true → c ∉ text.toList)
    (reached : IsReached options before key reader)
    (only : ∀ w, Language.spelled reader.flags.fold [c] w → w = [c])
    (made : Matcher.ofInput options (.pattern pattern) = .ok matcher)
    (run : matcher.run path = some found) (present : found.params.get? key.name = some value) :
    ∃ captures captured texts values validator,
      matcher.expression.captures? path = some captures ∧
      captures.group? ((capturingKeys before).length + 1) = some captured ∧
      value = .repeated values ∧ Renderer.validator options.sensitive key = .ok validator ∧
      IsDivided validator c captured texts ∧
      (IsDivided validator c captured values ↔ key.separator.toList = [c] ∨
        c ∉ captured.toList ∧
          (key.separator = "" ∨ ¬key.separator.toList <:+: captured.toList)) := by
  have affixed : ¬IsBare options key := by
    rw [isBare_iff]
    intro none
    rw [none] at joins
    cases joins
  obtain ⟨route, compiled, rfl⟩ := ofInput_pattern parsed made
  obtain ⟨compiled, -, keys⟩ := compile?_of_compile (delimiter_of_ofTokens compiled).2
  obtain ⟨nonempty, start, stop, w, search, filled, rfl⟩ :=
    exists_slots_of_run parsed keys run present
  obtain ⟨first, others, validator, rfl, prepared, accepted⟩ := reached.exists_texts plain compiled
    several nonempty affixed (joins ▸ only) search (reached.counted ▸ filled)
  rw [joins] at filled ⊢
  have taken (captured : String) :
      key.value options.decodeValue captured = .repeated (key.occurrences captured) := by
    rw [Key.value, if_pos several]
    simp [decode]
  have apart : ∀ u ∈ first :: others, c ∉ u := fun u member => by
    simpa using free validator prepared _ (accepted u member)
  have divided : IsDivided validator c (String.ofList ([c].intercalate (first :: others)))
      ((first :: others).map String.ofList) := by
    refine ⟨by simpa using accepted, String.toList_inj.1 ?_⟩
    simp [String.toList_intercalate, Function.comp_def]
  refine ⟨_, _, _, _, validator, congrArg (Option.map _) search, ?_, taken _, prepared, divided, ?_⟩
  · obtain ⟨capture, captured, text⟩ := Option.map_eq_some_iff.1 filled
    simp [captured, text]
  · have separates := @Key.occurrences_intercalate_iff key c first others apart
    rw [String.toList_ofList, ← separates]
    constructor
    · exact fun taken => taken.unique (free validator prepared) (Key.occurrences_ne_nil _ _)
        (List.cons_ne_nil _ _) divided
    · intro same
      rw [same]
      exact divided

/-- Literals are written in capital letters, which leaves the separator as it is. -/
theorem exists_isDivided_of_run_rest :
    let options : Options := { sensitive := true, strict := true, encodeLiteral := Codec.upper }
    let key : Key :=
      { name := .explicit "rest", lead := "/", pattern := "[x-z]", modifier := .oneOrMore }
    ∃ matcher found validator captured,
      Matcher.ofInput options (.pattern "/v/:rest([x-z])+") = .ok matcher ∧
      matcher.run "/V/x/y" = some found ∧
      found.params.get? key.name = some (.repeated ["x", "y"]) ∧
      Renderer.validator options.sensitive key = .ok validator ∧
      IsDivided validator '/' captured ["x", "y"] := by
  intro options key
  have parsed : tokensOf options "/v/:rest([x-z])+" =
      .ok ([.literal "/v"] ++ .key key :: []) := by decide +kernel
  have matches_ : (Matcher.ofInput options (.pattern "/v/:rest([x-z])+")).toOption.any
      (fun matcher => matcher.unrolls && (matcher.unroll "/V/x/y").any fun found =>
        found.params.get? key.name = some (.repeated ["x", "y"])) = true := by
    decide +kernel
  obtain ⟨matcher, found, made, run, present⟩ := Matcher.exists_run_of_unroll matches_
  obtain ⟨route, compiled, -⟩ := ofInput_pattern parsed made
  obtain ⟨reader, reached, only⟩ := exists_isReached_of_sensitive rfl (by decide +kernel) compiled
  have plain : isPlainUnder options.flags key.pattern = true := by decide +kernel
  have one : exprUnder options.flags key.pattern = .one (.union .none (.range 'x' 'z')) := by
    decide +kernel
  have free (validator : Expression)
      (prepared : Renderer.validator options.sensitive key = .ok validator)
      (text : String) : validator.isMatch text = true → '/' ∉ text.toList :=
    notMem_of_isMatch plain one (by decide +kernel) prepared
  obtain ⟨_, captured, _, _, validator, -, -, same, prepared, -, divides⟩ :=
    exists_isDivided_of_run (c := '/') (fun _ _ => rfl) parsed rfl (by decide +kernel) plain free
      reached (only _) made run present
  cases same
  exact ⟨matcher, found, validator, captured, made, run, present, prepared,
    divides.2 (.inl (by decide +kernel))⟩

/-- The separator is written as a capital letter, which the values do not have, and looked for as a
small one. What stands on both sides of it is not taken apart. -/
theorem exists_values_not_divided :
    let options : Options := { sensitive := true, strict := true, encodeLiteral := Codec.upper }
    let key : Key := { name := .ordinal 0, lead := "x", pattern := "[a-c]", modifier := .oneOrMore }
    tokensOf options "\x7bx([a-c])\x7d+" = .ok [.key key] ∧
      isPlainUnder options.flags key.pattern = true ∧ (joint options key).toList = ['X'] ∧
      ∃ matcher found validator,
        Matcher.ofInput options (.pattern "\x7bx([a-c])\x7d+") = .ok matcher ∧
        matcher.run "XaXb" = some found ∧
        found.params.get? key.name = some (.repeated ["aXb"]) ∧
        Renderer.validator options.sensitive key = .ok validator ∧
        (∀ text : String, validator.isMatch text = true → 'X' ∉ text.toList) ∧
        validator.isMatch "aXb" = false := by
  intro options key
  have parsed : tokensOf options "\x7bx([a-c])\x7d+" = .ok [.key key] := by decide +kernel
  have plain : isPlainUnder options.flags key.pattern = true := by decide +kernel
  have one : exprUnder options.flags key.pattern = .one (.union .none (.range 'a' 'c')) := by
    decide +kernel
  have matches_ : (Matcher.ofInput options (.pattern "\x7bx([a-c])\x7d+")).toOption.any
      (fun matcher => matcher.unrolls && (matcher.unroll "XaXb").any fun found =>
        found.params.get? key.name = some (.repeated ["aXb"])) = true := by
    decide +kernel
  obtain ⟨matcher, found, made, run, present⟩ := Matcher.exists_run_of_unroll matches_
  have compiles : (Renderer.validator options.sensitive key).toOption.isSome = true := by
    decide +kernel
  obtain ⟨validator, compiled⟩ := Option.isSome_iff_exists.1 compiles
  have prepared := toOption_eq_some_iff.1 compiled
  refine ⟨parsed, plain, by decide +kernel, matcher, found, validator, made, run, present, prepared,
    ?_, ?_⟩
  · exact fun text => notMem_of_isMatch plain one (by decide +kernel) prepared
  · refine Bool.eq_false_iff.2 fun accepted => ?_
    obtain ⟨d, chars, -⟩ := exists_char_of_isMatch plain one prepared accepted
    cases chars

end Values

end Route

end PathTemplate
