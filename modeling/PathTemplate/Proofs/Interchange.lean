/-
Tokens and their interchange form.

Tokens and names are told apart by the shape of the data alone: a text is a literal or an explicit
name, a number an ordinal, fields are a key. No two kinds share a shape, so nothing is lost on the
way there and back.

* `Data.Trims` relates data to the same data without the fields that mean nothing.
* `Key.ofFields?_eq_some_iff` and `Key.trims_of_ofData?`: a key is read from its five fields, and
  these are written for it again.
* `tokensOfData?_restores`: tokens and their interchange form, there and back.
-/

import Mathlib.Data.List.Perm.Basic
import PathTemplate.Data
import PathTemplate.Proofs.Results

namespace PathTemplate

/-! ### Fields -/

namespace Data

variable {entries written : List (String × Data)} {name : String} {value : Data}

theorem field?_eq_some_iff :
    field? entries name = some value ↔ entries.filter (·.1 = name) = [(name, value)] := by
  unfold field?
  split
  · rename_i entry only
    have named : entry.1 = name := by
      have member : entry ∈ entries.filter (·.1 = name) := only ▸ List.mem_singleton_self entry
      simpa using (List.mem_filter.1 member).2
    rw [only, ← named]
    simp [Prod.ext_iff]
  · rename_i several
    simp only [reduceCtorEq, false_iff]
    exact several _

/-- Fields that are each the only one of their name are, in some order, all of these names. -/
theorem perm_filter_of_only (nodup : (written.map Prod.fst).Nodup)
    (only : ∀ field ∈ written, entries.filter (·.1 = field.1) = [field]) :
    written.Perm (entries.filter (·.1 ∈ written.map Prod.fst)) := by
  induction written with
  | nil => simp
  | cons field written ih =>
    obtain ⟨fresh, nodup⟩ := List.nodup_cons.1 nodup
    obtain ⟨here, others⟩ := List.forall_mem_cons.1 only
    -- The fields of these names are the first one and those that have one of the other names.
    have first : (entries.filter (·.1 ∈ (field :: written).map Prod.fst)).filter
        (·.1 = field.1) = [field] := by
      rw [List.filter_filter, ← here]
      apply List.filter_congr
      simp +contextual
    have rest : (entries.filter (·.1 ∈ (field :: written).map Prod.fst)).filter
        (fun entry => !decide (entry.1 = field.1)) =
          entries.filter (·.1 ∈ written.map Prod.fst) := by
      rw [List.filter_filter]
      apply List.filter_congr
      intro entry _
      by_cases same : entry.1 = field.1
      · simpa [same] using fresh
      · simp [same]
    have split := List.filter_append_perm (fun entry : String × Data => entry.1 = field.1)
      (entries.filter (·.1 ∈ (field :: written).map Prod.fst))
    rw [first, rest] at split
    exact ((ih nodup others).cons field).trans split

/-- The names of the fields of a key. -/
def keyFields : List String := ["name", "prefix", "suffix", "pattern", "modifier"]

/-- The second one is the first one without the fields that no key has, perhaps in another
order. -/
inductive Trims : Data → Data → Prop where
  | text (value : String) : Trims (.text value) (.text value)
  | fields {entries written : List (String × Data)} :
      written.Perm (entries.filter (·.1 ∈ keyFields)) → Trims (.fields entries) (.fields written)

/-- A text, or fields of which that for a modifier is a text, if it is there. -/
inductive IsElement : Data → Prop where
  | text (value : String) : IsElement (.text value)
  | fields {entries : List (String × Data)} :
      (∀ value, ("modifier", value) ∈ entries → ∃ symbol, value = .text symbol) →
      IsElement (.fields entries)

end Data

/-! ### Names, modifiers and keys -/

/-- An ordinal of the name, if it has one, is one that can be written. -/
def Name.IsWritable : Name → Prop
  | .ordinal index => index < ordinalLimit
  | .explicit _ => True

theorem Name.ofData?_toData {name : Name} (writable : name.IsWritable) :
    ofData? name.toData = some name := by
  cases name with
  | ordinal index => exact if_pos writable
  | explicit text => rfl

theorem Name.toData_of_ofData? {data : Data} {name : Name} (read : ofData? data = some name) :
    name.toData = data := by
  unfold ofData? at read
  split at read
  · split at read <;> cases read
    rfl
  · cases read
    rfl
  · cases read

theorem Modifier.ofData?_toData (modifier : Modifier) : ofData? modifier.toData = some modifier :=
  ofSymbol?_symbol modifier

theorem Modifier.toData_of_ofData? {symbol : String} {modifier : Modifier}
    (read : ofData? (.text symbol) = some modifier) : modifier.toData = .text symbol :=
  congrArg Data.text (symbol_of_ofSymbol? read)

theorem Data.text?_eq_some_iff {data : Data} {text : String} :
    data.text? = some text ↔ data = .text text := by
  cases data <;> simp [text?]

namespace Key

/-- A key is read from its five fields, each on its own. -/
theorem ofFields?_eq_some_iff {name lead trail pattern modifier : Data} {key : Key} :
    ofFields? name lead trail pattern modifier = some key ↔
      Name.ofData? name = some key.name ∧ lead = .text key.lead ∧ trail = .text key.trail ∧
        pattern = .text key.pattern ∧ Modifier.ofData? modifier = some key.modifier := by
  obtain ⟨_, _, _, _, _⟩ := key
  simp only [ofFields?, Option.bind_eq_bind, Option.bind_eq_some_iff, Data.text?_eq_some_iff,
    Option.pure_def, Option.some.injEq, Key.mk.injEq]
  constructor
  · rintro ⟨_, named, _, rfl, _, rfl, _, rfl, _, modified, rfl, rfl, rfl, rfl, rfl⟩
    exact ⟨named, rfl, rfl, rfl, modified⟩
  · rintro ⟨named, rfl, rfl, rfl, modified⟩
    exact ⟨_, named, _, rfl, _, rfl, _, rfl, _, modified, rfl, rfl, rfl, rfl, rfl⟩

theorem ofData?_toData {key : Key} (writable : key.name.IsWritable) :
    ofData? key.toData = some key := by
  have fields : ofData? key.toData = ofFields? key.name.toData (.text key.lead)
      (.text key.trail) (.text key.pattern) key.modifier.toData := rfl
  rw [fields, ofFields?_eq_some_iff]
  exact ⟨Name.ofData?_toData writable, rfl, rfl, rfl, Modifier.ofData?_toData _⟩

/-- What is written for a key are the fields that it was read from. -/
theorem trims_of_ofData? {entries : List (String × Data)} {key : Key}
    (modifier : ∀ value, ("modifier", value) ∈ entries → ∃ symbol, value = .text symbol)
    (read : ofData? (.fields entries) = some key) : Data.Trims (.fields entries) key.toData := by
  simp only [ofData?, Option.bind_eq_bind, Option.bind_eq_some_iff, ofFields?_eq_some_iff,
    Data.field?_eq_some_iff] at read
  obtain ⟨_, name, _, lead, _, trail, _, pattern, value, sign, named, rfl, rfl, rfl, modified⟩ :=
    read
  obtain rfl := Name.toData_of_ofData? named
  obtain ⟨symbol, rfl⟩ := modifier value <|
    (List.mem_filter.1 (sign ▸ List.mem_singleton_self ("modifier", value))).1
  rw [← Modifier.toData_of_ofData? modified] at sign
  refine .fields (Data.perm_filter_of_only ?_ ?_)
  · change Data.keyFields.Nodup
    decide
  · simp only [List.forall_mem_cons, List.not_mem_nil, false_implies, implies_true, and_true]
    exact ⟨name, lead, trail, pattern, sign⟩

end Key

/-! ### Tokens -/

theorem Token.ofData?_toData {token : Token}
    (writable : ∀ key, token = .key key → key.name.IsWritable) :
    ofData? token.toData = some token := by
  cases token with
  | literal text => rfl
  | key key =>
    have read := Key.ofData?_toData (writable key rfl)
    exact congrArg (Option.map Token.key) read

theorem Token.trims_of_ofData? {data : Data} {token : Token} (element : data.IsElement)
    (read : ofData? data = some token) : data.Trims token.toData := by
  cases element with
  | text value =>
    cases read
    exact .text value
  | @fields entries modifier =>
    obtain ⟨key, found, rfl⟩ := Option.map_eq_some_iff.1
      (show (Key.ofData? (.fields entries)).map Token.key = some token from read)
    exact Key.trims_of_ofData? modifier found

theorem tokensOfData?_tokensToData {tokens : List Token}
    (writable : ∀ key ∈ keysOf tokens, key.name.IsWritable) :
    tokensOfData? (tokensToData tokens) = some tokens := by
  refine mapM_eq_some_iff.2 (List.forall₂_map_left_iff.2 (List.forall₂_same.2 ?_))
  rintro token member
  refine Token.ofData?_toData fun key isKey => writable key ?_
  exact List.mem_filterMap.2 ⟨token, member, isKey ▸ rfl⟩

/-- Nothing of tokens is lost in their interchange form, whatever their texts, modifiers and names
are, as long as their ordinals can be written. And where texts and fields read as tokens, what is
written for the tokens is the same but for the order of the fields and for fields that no key has. -/
theorem tokensOfData?_restores :
    (∀ tokens, (∀ key ∈ keysOf tokens, key.name.IsWritable) →
      tokensOfData? (tokensToData tokens) = some tokens) ∧
    ∀ elements tokens, (∀ element ∈ elements, element.IsElement) →
      tokensOfData? (.list elements) = some tokens →
        ∃ written, tokensToData tokens = .list written ∧
          List.Forall₂ Data.Trims elements written := by
  refine ⟨fun _ => tokensOfData?_tokensToData, fun elements tokens shaped read => ?_⟩
  refine ⟨_, rfl, List.forall₂_map_right_iff.2 ?_⟩
  have each := mapM_eq_some_iff.1 read
  clear read
  induction each with
  | nil => exact .nil
  | cons here _ ih =>
    obtain ⟨element, shaped⟩ := List.forall_mem_cons.1 shaped
    exact .cons (Token.trims_of_ofData? element here) (ih shaped)

/-- The greatest ordinal and the name of the same digits; the fields of the first key are in another
order, and there is one more. -/
theorem tokensOfData?_restores_digits :
    let tokens : List Token :=
      [.literal "7", .key { name := .ordinal (ordinalLimit - 1), lead := "/", pattern := "\\d",
                            modifier := .oneOrMore },
        .key { name := .explicit "18446744073709551615", pattern := "" }]
    let elements : List Data :=
      [.text "7",
        .fields [("modifier", .text "+"), ("note", .null), ("pattern", .text "\\d"),
          ("suffix", .text ""), ("prefix", .text "/"), ("name", .natural (ordinalLimit - 1))],
        .fields [("name", .text "18446744073709551615"), ("prefix", .text ""), ("suffix", .text ""),
          ("pattern", .text ""), ("modifier", .text "")]]
    tokensOfData? (tokensToData tokens) = some tokens ∧
      tokensOfData? (.list elements) = some tokens ∧
        ∃ written, tokensToData tokens = .list written ∧
          List.Forall₂ Data.Trims elements written := by
  intro tokens elements
  have writable : ∀ key ∈ keysOf tokens, key.name.IsWritable := by
    simp only [tokens, keysOf, List.filterMap_cons, Token.key?, List.filterMap_nil,
      List.forall_mem_cons, Name.IsWritable]
    exact ⟨by decide, trivial, List.forall_mem_nil _⟩
  have read : tokensOfData? (.list elements) = some tokens := by decide +kernel
  have shaped : ∀ element ∈ elements, element.IsElement := by
    simp only [elements, List.forall_mem_cons]
    exact ⟨.text _, .fields (by simp), .fields (by simp), List.forall_mem_nil _⟩
  exact ⟨tokensOfData?_restores.1 tokens writable, read,
    tokensOfData?_restores.2 elements tokens shaped read⟩

end PathTemplate
