/-
Patterns whose paths divide in one way only.

In an unambiguous pattern every key has the default pattern and stands between delimiters: its
text begins with one, and so does what follows it. A value is then a stretch of characters that
are no delimiters, as long as it can be, and a path says by itself which values it was rendered
from.

* `reading_unique`: a path, with or without a delimiter at its end, divides in one way.
* `reading_of_written`: a rendered path divides into what the values were encoded as.
* `run_of_render`: matching a rendered path gives the parameters back.
-/

import PathTemplate.Proofs.Route.Compilation
import PathTemplate.Proofs.Route.Restoration

namespace PathTemplate

namespace Options

/-- The text begins with a delimiter. -/
def beginsDelimited (options : Options) (text : String) : Bool :=
  text.toList.head?.any options.delimiter.toList.contains

/-- The key has the default pattern between a text that begins with a delimiter and none. -/
def isSegment (options : Options) (key : Key) : Bool :=
  key.pattern = defaultPattern options.delimiter && key.trail = "" &&
    options.beginsDelimited key.lead

/-- The tokens begin with a key, or with a text that begins with a delimiter. -/
def beginsSegment (options : Options) : List Token → Bool
  | [] => false
  | .literal text :: _ => options.beginsDelimited text
  | .key _ :: _ => true

/-- Every key is a segment, and the last token or a key that occurs once and is followed by the
beginning of another segment. -/
def isUnambiguous (options : Options) : List Token → Bool
  | [] => true
  | .literal _ :: rest => options.isUnambiguous rest
  | .key key :: rest => options.isSegment key &&
      (rest.isEmpty || key.modifier = .once && options.beginsSegment rest) &&
        options.isUnambiguous rest

theorem beginsDelimited_iff {options : Options} {text : String} :
    options.beginsDelimited text = true ↔
      ∃ c rest, text.toList = c :: rest ∧ c ∈ options.delimiter.toList := by
  unfold beginsDelimited
  cases text.toList <;> simp

theorem isSegment_iff {options : Options} {key : Key} : options.isSegment key = true ↔
    key.pattern = defaultPattern options.delimiter ∧ key.trail = "" ∧
      options.beginsDelimited key.lead = true := by
  simp only [isSegment, Bool.and_eq_true, decide_eq_true_eq, and_assoc]

theorem isUnambiguous_key {options : Options} {key : Key} {rest : List Token} :
    options.isUnambiguous (.key key :: rest) = true ↔ options.isSegment key = true ∧
      (rest = [] ∨ key.modifier = .once ∧ options.beginsSegment rest = true) ∧
        options.isUnambiguous rest = true := by
  simp only [isUnambiguous, Bool.and_eq_true, Bool.or_eq_true, List.isEmpty_iff,
    decide_eq_true_eq, and_assoc]

/-- The keys of an unambiguous pattern are segments. -/
theorem isSegment_of_isUnambiguous {options : Options} {tokens : List Token}
    (unambiguous : options.isUnambiguous tokens = true) :
    ∀ key ∈ keysOf tokens, options.isSegment key = true := by
  induction tokens with
  | nil => nofun
  | cons token rest ih =>
    cases token with
    | literal text => exact ih unambiguous
    | key key =>
      obtain ⟨segment, _, others⟩ := isUnambiguous_key.1 unambiguous
      exact List.forall_mem_cons.2 ⟨segment, ih others⟩

end Options

/-- The texts of a value. -/
def Value.texts : Value → List String
  | .single text => [text]
  | .repeated texts => texts

/-- The value is one text for a key that occurs at most once, and one or more for others. -/
def Key.Fits (key : Key) : Value → Prop
  | .single _ => key.modifier.isRepeating = false
  | .repeated texts => key.modifier.isRepeating = true ∧ texts ≠ []

/-- The parameters are values of the keys and no others, each fits its key, and decoding undoes
the encoding of its texts. -/
structure Params.Suit (params : Params) (options : Options) (keys : List Key) : Prop where
  named : ∀ name, (params.get? name).isSome = true → name ∈ keys.map Key.name
  fits : ∀ key ∈ keys, ∀ value, params.get? key.name = some value → key.Fits value
  decoded : ∀ key ∈ keys, ∀ value, params.get? key.name = some value → ∀ text ∈ value.texts,
    options.decodeValue (options.encodeValue text key) key = text

/-- What the group of a key captures where its values are written in a path. -/
def Key.captured (encode : String → Key → String) (key : Key) : Value → List Char
  | .single text => (encode text key).toList
  | .repeated texts => key.separator.toList.intercalate
      (texts.map fun text => (encode text key).toList)

namespace Route

variable {options : Options}

/-! ### Delimiters -/

/-- The characters that are delimiters, or alike to one where letter case does not matter. -/
def IsDelimiter (options : Options) (c : Char) : Prop :=
  (delimiterSet (!options.sensitive) options).contains c = true

/-- One or more characters that are no delimiters. -/
def Unbroken (options : Options) : Language := fun w =>
  w ≠ [] ∧ ∀ c ∈ w, ¬IsDelimiter options c

/-- The expression is a form in which the default pattern is read. -/
def IsDefault (options : Options) (e : Expr) : Prop :=
  ∃ greedy, e = .unbroken (!options.sensitive) greedy options.delimiter

/-- The text does not end with a delimiter. -/
def EndsInside (options : Options) : Language := fun w =>
  ∃ front last, w = front ++ [last] ∧ ¬IsDelimiter options last

/-- What the group of a segment captures: it does not end with a delimiter, and holds none unless
it may hold several values. -/
def Captured (options : Options) (key : Key) : Language := fun w =>
  EndsInside options w ∧ (key.modifier.isRepeating = false → Unbroken options w)

theorem isDelimiter_iff {c : Char} : IsDelimiter options c ↔
    if options.sensitive then c ∈ options.delimiter.toList
    else ∃ d ∈ caseOrbit c, d ∈ options.delimiter.toList := by
  rw [IsDelimiter, delimiterSet, CharSet.listed, CharSet.complIf, if_neg Bool.false_ne_true,
    CharSet.contains_foldIf]
  cases options.sensitive <;> simp

theorem isDelimiter_of_mem {c : Char} (member : c ∈ options.delimiter.toList) :
    IsDelimiter options c := by
  rw [isDelimiter_iff]
  split
  · exact member
  · exact ⟨c, mem_caseOrbit_self c, member⟩

theorem Unbroken.endsInside {w : List Char} (unbroken : Unbroken options w) :
    EndsInside options w := by
  obtain ⟨front, last, rfl⟩ := (List.eq_nil_or_concat w).resolve_left unbroken.1
  rw [List.concat_eq_append] at unbroken ⊢
  exact ⟨front, last, rfl, unbroken.2 last (by simp)⟩

theorem EndsInside.append {w : List Char} (inside : EndsInside options w) (before : List Char) :
    EndsInside options (before ++ w) := by
  obtain ⟨front, last, rfl, free⟩ := inside
  exact ⟨before ++ front, last, (List.append_assoc ..).symm, free⟩

/-- A text that begins with a delimiter stands for texts that do. -/
theorem exists_delimiter_of_textLanguage (literal : ∀ text, options.encodeLiteral text = text)
    {text : String} {w : List Char} (begins : options.beginsDelimited text = true)
    (stands : textLanguage options text w) : ∃ c rest, w = c :: rest ∧ IsDelimiter options c := by
  obtain ⟨c, rest, chars, member⟩ := Options.beginsDelimited_iff.1 begins
  rw [textLanguage, literal, chars] at stands
  cases stands with
  | @cons _ d _ w alike _ =>
    refine ⟨d, w, rfl, ?_⟩
    rw [CharSet.contains_foldIf] at alike
    split at alike
    · rename_i folds
      obtain ⟨e, orbit, same⟩ := alike
      obtain rfl : e = c := by simpa using same
      have insensitive : options.sensitive = false := by
        simp only [Bool.and_eq_true, Bool.not_eq_true'] at folds
        exact folds.1
      rw [isDelimiter_iff, insensitive, if_neg Bool.false_ne_true]
      exact ⟨e, orbit, member⟩
    · obtain rfl : d = c := by simpa using alike
      exact isDelimiter_of_mem member

/-- Two stretches without delimiters are the same where both go on up to a delimiter or the end of
the same text. -/
theorem eq_of_stopsAt {v v' rest rest' : List Char} (free : ∀ c ∈ v, ¬IsDelimiter options c)
    (free' : ∀ c ∈ v', ¬IsDelimiter options c) (stops : StopsAt (IsDelimiter options) rest)
    (stops' : StopsAt (IsDelimiter options) rest') (same : v ++ rest = v' ++ rest') :
    v = v' ∧ rest = rest' := by
  induction v generalizing v' with
  | nil =>
    cases v' with
    | nil => exact ⟨rfl, same⟩
    | cons c v' =>
      rcases stops with rfl | ⟨d, more, rfl, delimiter⟩
      · cases same
      · cases same
        exact absurd delimiter (free' _ List.mem_cons_self)
  | cons c v ih =>
    cases v' with
    | nil =>
      rcases stops' with rfl | ⟨d, more, rfl, delimiter⟩
      · cases same
      · cases same
        exact absurd delimiter (free _ List.mem_cons_self)
    | cons d v' =>
      obtain ⟨rfl, others⟩ := List.cons.inj same
      obtain ⟨rfl, rest⟩ := ih (fun c member => free c (List.mem_cons_of_mem _ member))
        (fun c member => free' c (List.mem_cons_of_mem _ member)) others
      exact ⟨rfl, rest⟩

/-! ### What the group of a segment captures -/

/-- The default pattern stands for unbroken texts. -/
theorem denotes_unbroken (greedy : Bool) :
    (Expr.unbroken (!options.sensitive) greedy options.delimiter).Denotes (Unbroken options) := by
  refine (Expr.denotes_oneOrMore _ greedy).iff fun w => ?_
  simp [Unbroken, IsDelimiter, delimiterSet, CharSet.listed, CharSet.complIf]

/-- Unbroken texts with something between them do not end with a delimiter. -/
theorem endsInside_intercalate {separator : List Char} {texts : List (List Char)}
    (some : texts ≠ []) (unbroken : ∀ w ∈ texts, Unbroken options w) :
    EndsInside options (separator.intercalate texts) := by
  induction texts with
  | nil => exact absurd rfl some
  | cons first others ih =>
    obtain ⟨here, more⟩ := List.forall_mem_cons.1 unbroken
    by_cases last : others = []
    · simpa [last, List.intercalate] using here.endsInside
    · rw [intercalate_cons last]
      exact ((ih last more).append _).append _

section Segment

variable {key : Key} (literal : ∀ text, options.encodeLiteral text = text)
  (segment : options.isSegment key = true)
include literal segment

/-- The text before the values of a segment is not empty. -/
theorem not_isBare_of_isSegment : ¬IsBare options key := by
  rintro ⟨empty, -⟩
  obtain ⟨_, _, begins⟩ := Options.isSegment_iff.1 segment
  obtain ⟨c, rest, chars, -⟩ := Options.beginsDelimited_iff.1 begins
  rw [literal] at empty
  rw [empty] at chars
  cases chars

/-- The group of a segment captures unbroken texts with the text of the key between them. -/
theorem traces_captured {e : Expr}
    (content : KeyContent options (· = !options.sensitive) (IsDefault options) key e) :
    e.Traces (.still (Captured options key)) := by
  have simple : e.isSimple = true := by
    refine content.isSimple ?_
    rintro _ ⟨greedy, rfl⟩
    rfl
  have free : e.groups = [] := by
    refine content.groups ?_
    rintro _ ⟨greedy, rfl⟩
    rfl
  refine (Expr.Traces.covers simple free).mono ?_
  rintro p w q ⟨covered, kept⟩
  refine ⟨?_, kept⟩
  cases content with
  | single _ holds =>
    obtain ⟨greedy, rfl⟩ := holds
    have unbroken := (denotes_unbroken greedy).covers.1 covered
    exact ⟨unbroken.endsInside, fun _ => unbroken⟩
  | bareRepeated _ bare _ _ => exact absurd bare (not_isBare_of_isSegment literal segment)
  | affixedRepeated further _ several trail lead holds holds' =>
    obtain ⟨_, rfl, rfl⟩ := trail
    obtain ⟨_, rfl, rfl⟩ := lead
    obtain ⟨greedy, rfl⟩ := holds
    obtain ⟨greedy', rfl⟩ := holds'
    refine ⟨?_, fun single => by rw [several] at single; cases single⟩
    have between := (Expr.denote_spelling (!options.sensitive)
      (options.encodeLiteral key.trail)).append
      ((Expr.denote_spelling (!options.sensitive) (options.encodeLiteral key.lead)).append
        (@denotes_unbroken options greedy').single)
    have whole := (@denotes_unbroken options greedy).single.append
      (between.join.modified further .zeroOrMore).single
    obtain ⟨first, _, rfl, unbroken, texts, -, all, rfl⟩ := whole.join.covers.1 covered
    rcases List.eq_nil_or_concat texts with rfl | ⟨earlier, last, rfl⟩
    · simpa using unbroken.endsInside
    · rw [List.concat_eq_append] at all ⊢
      obtain ⟨_, _, rfl, _, _, value, rfl, _, unbroken'⟩ := all last (by simp)
      rw [List.flatten_append, List.flatten_singleton]
      exact ((((unbroken'.endsInside.append _).append _).append _).append _)

/-- Where the key took part, what it captured stands after the text of the key. -/
theorem cases_of_keyReading {language : List Char → Prop} {captured : Option (List Char)}
    {w : List Char} (reading : KeyReading options language key captured w) :
    captured = none ∧ w = [] ∧ key.modifier.isOptional = true ∨
      ∃ lead c, captured = some c ∧ w = lead ++ c ∧ textLanguage options key.lead lead ∧
        language c := by
  obtain ⟨_, trail, _⟩ := Options.isSegment_iff.1 segment
  cases reading with
  | absent optional => exact .inl ⟨rfl, rfl, optional⟩
  | present before holds after =>
    rw [trail, textLanguage_empty (literal "")] at after
    subst after
    exact .inr ⟨_, _, rfl, by rw [List.append_nil], before, holds⟩

end Segment

/-! ### Paths divide in one way -/

section Unique

variable {tokens : List Token} {w w' d : List Char} {slots slots' : Slots} {number : Nat}
  (literal : ∀ text, options.encodeLiteral text = text)
include literal

/-- What may follow a value begins with a delimiter, unless it is empty. -/
theorem stopsAt_of_reading (unambiguous : options.isUnambiguous tokens = true)
    (begins : options.beginsSegment tokens = true)
    (reading : Reading options (Captured options) slots number tokens w)
    (trailing : Trailing options d) : StopsAt (IsDelimiter options) (w ++ d) := by
  have front {text : String} {u v : List Char} (begins : options.beginsDelimited text = true)
      (stands : textLanguage options text u) : StopsAt (IsDelimiter options) (u ++ v) := by
    obtain ⟨c, rest, rfl, delimiter⟩ := exists_delimiter_of_textLanguage literal begins stands
    exact .inr ⟨c, rest ++ v, rfl, delimiter⟩
  cases tokens with
  | nil => cases begins
  | cons token rest =>
    cases token with
    | literal text =>
      obtain ⟨u, v, rfl, stands, _⟩ := reading
      rw [List.append_assoc]
      exact front begins stands
    | key key =>
      obtain ⟨u, v, rfl, here, others⟩ := reading
      obtain ⟨segment, place, _⟩ := Options.isUnambiguous_key.1 unambiguous
      rcases cases_of_keyReading literal segment here
        with ⟨_, rfl, optional⟩ | ⟨lead, c, _, rfl, stands, _⟩
      · rcases place with rfl | ⟨once, _⟩
        · obtain rfl : v = [] := others
          exact trailing.imp_right fun ⟨_, c, same, delimiter⟩ => ⟨c, [], same, delimiter⟩
        · rw [once] at optional
          cases optional
      · rw [List.append_assoc, List.append_assoc]
        exact front (Options.isSegment_iff.1 segment).2.2 stands

section Keys

variable {key : Key} {captured captured' : Option (List Char)} {u u' v v' : List Char}
  (segment : options.isSegment key = true)
  (here : KeyReading options (Captured options key) key captured u)
  (here' : KeyReading options (Captured options key) key captured' u')
include segment here here'

/-- A key at the end is present in both or in neither: its text and a value are too long for a
delimiter alone. -/
theorem last_key_unique (trailing : Trailing options d) (same : u ++ d = u') :
    d = [] ∧ captured = captured' := by
  have leads := (Options.isSegment_iff.1 segment).2.2
  have read := cases_of_keyReading literal segment here
  have read' := cases_of_keyReading literal segment here'
  rcases read with ⟨none, rfl, _⟩ | ⟨lead, c, some, rfl, stands, inside, _⟩
  · rcases read' with ⟨none', rfl, _⟩ | ⟨lead', c', some', rfl, stands', inside', _⟩
    · exact ⟨same, none.trans none'.symm⟩
    · obtain ⟨x, more, rfl, _⟩ := exists_delimiter_of_textLanguage literal leads stands'
      obtain ⟨front, last, rfl, _⟩ := inside'
      rcases trailing with rfl | ⟨_, c, rfl, _⟩
      · cases same
      · simp at same
  · obtain ⟨x, more, rfl, _⟩ := exists_delimiter_of_textLanguage literal leads stands
    rcases read' with ⟨none', rfl, _⟩ | ⟨lead', c', some', rfl, stands', inside', _⟩
    · cases same
    · have size := stands.length_eq.symm.trans stands'.length_eq
      rw [List.append_assoc] at same
      obtain ⟨rfl, rfl⟩ := List.append_inj same size
      rcases trailing with rfl | ⟨_, y, rfl, delimiter⟩
      · exact ⟨rfl, by rw [some, some', List.append_nil]⟩
      · obtain ⟨front, last, ends, free⟩ := inside'
        obtain rfl : y = last := List.head_eq_of_cons_eq (List.append_inj' ends rfl).2
        exact absurd delimiter free

/-- A key before the end has one value, which goes up to the next delimiter. -/
theorem inner_key_unique (once : key.modifier = .once) (stops : StopsAt (IsDelimiter options) v)
    (stops' : StopsAt (IsDelimiter options) v') (same : u ++ v = u' ++ v') :
    captured = captured' ∧ v = v' := by
  have present : ¬key.modifier.isOptional = true := by simp [once, Modifier.isOptional]
  have single : key.modifier.isRepeating = false := by simp [once, Modifier.isRepeating]
  obtain ⟨lead, c, some, rfl, stands, _, unbroken⟩ :=
    (cases_of_keyReading literal segment here).resolve_left fun missing => present missing.2.2
  obtain ⟨lead', c', some', rfl, stands', _, unbroken'⟩ :=
    (cases_of_keyReading literal segment here').resolve_left fun missing => present missing.2.2
  have size : lead.length = lead'.length := stands.length_eq.symm.trans stands'.length_eq
  simp only [List.append_assoc] at same
  obtain ⟨rfl, rest⟩ := eq_of_stopsAt (unbroken single).2 (unbroken' single).2 stops stops'
    (List.append_inj same size).2
  exact ⟨some.trans some'.symm, rest⟩

end Keys

/-- A path of an unambiguous pattern, with or without a delimiter at its end, divides in one way. -/
theorem reading_unique (unambiguous : options.isUnambiguous tokens = true)
    (reading : Reading options (Captured options) slots number tokens w)
    (reading' : Reading options (Captured options) slots' number tokens w')
    (trailing : Trailing options d) (same : w ++ d = w') :
    d = [] ∧ ∀ i < (keysOf tokens).length, slots (number + i) = slots' (number + i) := by
  induction tokens generalizing number w w' with
  | nil =>
    obtain rfl : w = [] := reading
    obtain rfl : w' = [] := reading'
    exact ⟨same, fun i less => absurd less (Nat.not_lt_zero i)⟩
  | cons token rest ih =>
    cases token with
    | literal text =>
      obtain ⟨u, v, rfl, stands, reading⟩ := reading
      obtain ⟨u', v', rfl, stands', reading'⟩ := reading'
      have size : u.length = u'.length := stands.length_eq.symm.trans stands'.length_eq
      rw [List.append_assoc] at same
      exact ih unambiguous reading reading' (List.append_inj same size).2
    | key key =>
      obtain ⟨u, v, rfl, here, others⟩ := reading
      obtain ⟨u', v', rfl, here', others'⟩ := reading'
      obtain ⟨segment, place, further⟩ := Options.isUnambiguous_key.1 unambiguous
      rcases place with rfl | ⟨once, begins⟩
      · obtain rfl : v = [] := others
        obtain rfl : v' = [] := others'
        rw [List.append_nil, List.append_nil] at same
        obtain ⟨none, equal⟩ := last_key_unique literal segment here here' trailing same
        refine ⟨none, fun i less => ?_⟩
        obtain rfl : i = 0 := by simpa [keysOf, Token.key?] using less
        exact equal
      · have stops := stopsAt_of_reading literal further begins others trailing
        have stops' := stopsAt_of_reading literal further begins others' (.inl rfl)
        rw [List.append_nil] at stops'
        rw [List.append_assoc] at same
        obtain ⟨first, rest⟩ := inner_key_unique literal segment here here' once stops stops' same
        obtain ⟨none, equal⟩ := ih further others others' rest
        refine ⟨none, fun i less => ?_⟩
        cases i with
        | zero => exact first
        | succ i =>
          have next := equal i (by simpa [keysOf, Token.key?] using less)
          rwa [Nat.add_right_comm, Nat.add_assoc] at next

end Unique

/-! ### Rendered paths -/

section Rendered

variable {key : Key} {encode decode : String → Key → String} {validator : Option Expression}
  {value : Value} {written : String}

/-- Every text of a value that is rendered is accepted by the validator. -/
theorem passes_of_renderKey
    (rendered : Renderer.renderKey encode key validator (some value) = .ok written) :
    ∀ text ∈ value.texts, Renderer.passes validator (encode text key) = true := by
  cases value with
  | single text =>
    simp only [Renderer.renderKey] at rendered
    split at rendered
    · rename_i passed
      exact fun _ member => List.mem_singleton.1 member ▸ passed
    · cases rendered
  | repeated texts =>
    simp only [Renderer.renderKey] at rendered
    split at rendered
    · cases rendered
    · split at rendered
      · cases rendered
      · exact (renderRepeated_eq_ok rendered).1

variable (fits : key.Fits value)
  (unbroken : ∀ text ∈ value.texts, Unbroken options (encode text key).toList)
include fits unbroken

theorem captured_captured : Captured options key (key.captured encode value) := by
  cases value with
  | single text =>
    have unbroken := unbroken text List.mem_cons_self
    exact ⟨unbroken.endsInside, fun _ => unbroken⟩
  | repeated texts =>
    obtain ⟨several, some⟩ := fits
    refine ⟨endsInside_intercalate (mt List.map_eq_nil_iff.1 some) fun w member => ?_,
      fun single => ?_⟩
    · obtain ⟨text, present, rfl⟩ := List.mem_map.1 member
      exact unbroken text present
    · rw [several] at single
      cases single

/-- A value can be told from what the group of its key captures. -/
theorem value_captured (segment : options.isSegment key = true)
    (decoded : ∀ text ∈ value.texts, decode (encode text key) key = text) :
    key.value decode (String.ofList (key.captured encode value)) = value := by
  cases value with
  | single text =>
    have single : key.modifier.isRepeating = false := fits
    rw [Key.value, if_neg (Bool.eq_false_iff.1 single), Key.captured, String.ofList_toList,
      decoded text List.mem_cons_self]
  | repeated texts =>
    obtain ⟨several, some⟩ := fits
    obtain ⟨_, trail, leads⟩ := Options.isSegment_iff.1 segment
    obtain ⟨c, rest, chars, member⟩ := Options.beginsDelimited_iff.1 leads
    have separator : key.separator.toList = c :: rest := by simp [Key.separator, trail, chars]
    have nonempty : key.separator ≠ "" := fun empty => by
      rw [empty] at separator
      cases separator
    have free : ∀ w ∈ texts.map (fun text => (encode text key).toList), c ∉ w := by
      intro w present inside
      obtain ⟨text, given, rfl⟩ := List.mem_map.1 present
      exact (unbroken text given).2 c inside (isDelimiter_of_mem member)
    obtain ⟨first, others, encoded⟩ := List.exists_cons_of_ne_nil (mt List.map_eq_nil_iff.1 some)
    have same : key.occurrences (String.ofList (key.captured encode (.repeated texts))) =
        texts.map fun text => encode text key := by
      rw [encoded] at free
      rw [Key.occurrences, if_neg nonempty, String.toList_ofList, Key.captured, separator, encoded,
        pieces_intercalate free, ← encoded, List.map_map]
      simp [Function.comp_def]
    rw [Key.value, if_pos several, same, List.map_map]
    refine congrArg Value.repeated ((List.map_congr_left decoded).trans ?_)
    exact List.map_id texts

/-- What is written for a segment divides into its texts and what its group captures. -/
theorem keyReading_of_renderKey (literal : ∀ text, options.encodeLiteral text = text)
    (rendered : Renderer.renderKey encode key validator (some value) = .ok written) :
    KeyReading options (Captured options key) key (some (key.captured encode value))
      written.toList := by
  have inside := captured_captured fits unbroken
  suffices written.toList = key.lead.toList ++ (key.captured encode value ++ key.trail.toList) by
    rw [this]
    exact .present (textLanguage_self literal _) inside (textLanguage_self literal _)
  cases value with
  | single text =>
    simp only [Renderer.renderKey] at rendered
    split at rendered
    · cases rendered
      simp [Renderer.segment, Key.captured]
    · cases rendered
  | repeated texts =>
    obtain ⟨several, some⟩ := fits
    simp only [Renderer.renderKey, several, Bool.not_true, Bool.false_eq_true, if_false,
      List.isEmpty_eq_false_iff.2 some, Bool.false_and] at rendered
    obtain ⟨first, others, encoded⟩ := List.exists_cons_of_ne_nil (mt List.map_eq_nil_iff.1 some)
    have segments : texts.map (fun text => (Renderer.segment key (encode text key)).toList) =
        (texts.map fun text => (encode text key).toList).map
          fun piece => key.lead.toList ++ (piece ++ key.trail.toList) := by
      simp [Renderer.segment, Function.comp_def]
    rw [(renderRepeated_eq_ok rendered).2, segments, ← List.flatMap_def, Key.captured,
      Key.separator, String.toList_append, encoded, flatMap_segments]

end Rendered

section Whole

variable {tokens : List Token} {params : Params}

/-- The validator of a segment accepts the unbroken texts. -/
theorem isMatch_validator_iff {key : Key} {validator : Expression}
    (delimited : options.delimiter ≠ "")
    (default : key.pattern = defaultPattern options.delimiter)
    (made : Renderer.validator options.sensitive key = .ok validator) {text : String} :
    validator.isMatch text = true ↔ Unbroken options text.toList := by
  have known : ∀ f : Flags, f = options.flags →
      f.fold = (!options.sensitive) ∧ f.spaced = false := by
    rintro _ rfl
    exact ⟨rfl, rfl⟩
  have lines : ∀ f : Flags, f = options.flags → f.lines = false := by
    rintro _ rfl
    rfl
  have declarative : ∀ e, IsDefault options e → e.isDeclarative = true := by
    rintro _ ⟨greedy, rfl⟩
    rfl
  have reads := @patternReads_default options key (· = options.flags) false default delimited known
  obtain ⟨_, ⟨greedy, rfl⟩, accepts⟩ :=
    Renderer.isMatch_validator lines rfl reads.holds declarative made
  exact (accepts text).trans (denotes_unbroken greedy).covers

/-- Values that are rendered as segments are encoded as unbroken texts. -/
theorem unbroken_of_written (delimited : options.delimiter ≠ "")
    (default : ∀ key ∈ keysOf tokens, key.pattern = defaultPattern options.delimiter)
    {texts : List String} (written : List.Forall₂ (Written options params) tokens texts) :
    ∀ key ∈ keysOf tokens, ∀ value, params.get? key.name = some value → ∀ text ∈ value.texts,
      Unbroken options (options.encodeValue text key).toList := by
  induction written with
  | nil => nofun
  | @cons token _ _ _ first _ ih =>
    cases token with
    | literal text => exact ih default
    | key key =>
      obtain ⟨here, default⟩ := List.forall_mem_cons.1 default
      obtain ⟨validator, made, rendered⟩ := first
      refine List.forall_mem_cons.2 ⟨fun value given text member => ?_, ih default⟩
      rw [given] at rendered
      exact (isMatch_validator_iff delimited here made).1 (passes_of_renderKey rendered text member)

/-- A rendered path divides into what the values of the parameters were encoded as. -/
theorem reading_of_written (literal : ∀ text, options.encodeLiteral text = text)
    (fits : ∀ key ∈ keysOf tokens, ∀ value, params.get? key.name = some value → key.Fits value)
    (unbroken : ∀ key ∈ keysOf tokens, ∀ value, params.get? key.name = some value →
      ∀ text ∈ value.texts, Unbroken options (options.encodeValue text key).toList)
    {slots : Slots} {number : Nat}
    (known : ∀ i key, (keysOf tokens)[i]? = some key → slots (number + i) =
      (params.get? key.name).map (key.captured options.encodeValue))
    {texts : List String} (written : List.Forall₂ (Written options params) tokens texts) :
    Reading options (Captured options) slots number tokens (String.join texts).toList := by
  induction written generalizing number with
  | nil => rfl
  | @cons token text rest _ first _ ih =>
    rw [String.join_cons, String.toList_append]
    cases token with
    | literal literal_ =>
      obtain rfl : text = literal_ := first
      exact ⟨_, _, rfl, textLanguage_self literal _, ih fits unbroken known⟩
    | key key =>
      obtain ⟨fit, fits⟩ := List.forall_mem_cons.1 fits
      obtain ⟨whole, unbroken⟩ := List.forall_mem_cons.1 unbroken
      obtain ⟨validator, _, rendered⟩ := first
      have here := known 0 key (by simp [keysOf, Token.key?])
      have further := @ih fits unbroken (number + 1) fun i other there => by
        rw [Nat.add_assoc, Nat.add_comm 1]
        exact known (i + 1) other (by simpa [keysOf, Token.key?] using there)
      refine ⟨_, _, rfl, ?_, further⟩
      rw [← Nat.add_zero number, here]
      cases given : params.get? key.name with
      | none =>
        rw [given] at rendered
        simp only [Renderer.renderKey] at rendered
        split at rendered
        · rename_i optional
          cases rendered
          exact .absent optional
        · cases rendered
      | some value =>
        rw [given] at rendered
        exact keyReading_of_renderKey (fit value given) (whole value given) literal rendered

/-- What the groups of the keys capture, counted from 1. -/
def capturedSlots (options : Options) (tokens : List Token) (params : Params) : Slots
  | 0 => none
  | i + 1 => (keysOf tokens)[i]?.bind fun key =>
      (params.get? key.name).map (key.captured options.encodeValue)

/-- Where the groups of the keys captured what the values were encoded as, the parameters of the
match are the values again. -/
theorem ofList_bindings_eq (segments : ∀ key ∈ keysOf tokens, options.isSegment key = true)
    (nodup : ((keysOf tokens).map Key.name).Nodup) (suit : params.Suit options (keysOf tokens))
    (unbroken : ∀ key ∈ keysOf tokens, ∀ value, params.get? key.name = some value →
      ∀ text ∈ value.texts, Unbroken options (options.encodeValue text key).toList)
    {slots : Slots} (known : ∀ i < (keysOf tokens).length,
      slots (1 + i) = capturedSlots options tokens params (1 + i)) :
    .ofList (Matcher.bindings options.decodeValue (fun number => (slots number).map String.ofList) 1
      (keysOf tokens)) = params := by
  refine Params.eq_of_get? fun name => ?_
  by_cases bound : name ∈ (keysOf tokens).map Key.name
  · obtain ⟨key, member, rfl⟩ := List.mem_map.1 bound
    obtain ⟨i, less, here⟩ := List.getElem_of_mem member
    have place : (keysOf tokens)[i]? = some key := by rw [List.getElem?_eq_getElem less, here]
    rw [Matcher.get?_bindings nodup place, known i less, Nat.add_comm, capturedSlots, place,
      Option.bind_some]
    cases given : params.get? key.name with
    | none => rfl
    | some value =>
      exact congrArg some (value_captured (suit.fits key member value given)
        (unbroken key member value given) (segments key member)
        (suit.decoded key member value given))
  · have absent : params.get? name = none :=
      Option.eq_none_iff_forall_ne_some.2 fun value given =>
        bound (suit.named name (by rw [given]; rfl))
    rw [absent, Params.get?_ofList (Matcher.names_bindings.nodup nodup)]
    exact Params.lookup_eq_none_of_notMem fun member => bound (Matcher.names_bindings.subset member)

/-- Matching the path that was rendered from parameters of an unambiguous pattern gives the
parameters back, and the match is the whole path. -/
theorem run_of_render {pattern path : String} {renderer : Renderer}
    (delimited : options.delimiter ≠ "") (start : options.fromStart = true)
    (closed : options.toEnd = true) (ends : options.endsWith = "")
    (validated : options.validate = true) (literal : ∀ text, options.encodeLiteral text = text)
    (parsed : tokensOf options pattern = .ok tokens)
    (unambiguous : options.isUnambiguous tokens = true) (suit : params.Suit options (keysOf tokens))
    (prepared : Renderer.ofPattern options pattern = .ok renderer)
    (rendered : renderer.render params = .ok path) :
    ∃ matcher, Matcher.ofInput options (.pattern pattern) = .ok matcher ∧
      matcher.run path = some { path, index := 0, params } := by
  have segments := Options.isSegment_of_isUnambiguous unambiguous
  have default : ∀ key ∈ keysOf tokens, key.pattern = defaultPattern options.delimiter :=
    fun key member => (Options.isSegment_iff.1 (segments key member)).1
  have patterns : ∀ key ∈ keysOf tokens, key.pattern ≠ "" := by
    intro key member empty
    have chars := toList_defaultPattern options.delimiter
    rw [← default key member, empty] at chars
    cases chars
  have known : ∀ f : Flags, f = options.flags →
      f.fold = (!options.sensitive) ∧ f.lines = false ∧ f.spaced = false := by
    rintro _ rfl
    exact ⟨rfl, rfl, rfl⟩
  have reads (total : Bool) : ∀ key ∈ keysOf tokens, key.pattern ≠ "" →
      PatternReads total (· = options.flags)
        (FlagsAfter options (· = !options.sensitive) (· = options.flags) key)
        (IsDefault options) (pinShorthands key.pattern).toList := fun key member _ =>
    patternReads_default total (default key member) delimited fun f h =>
      ⟨(known f h).1, (known f h).2.2⟩
  have settles : ∀ key ∈ keysOf tokens, ∀ x, IsDefault options x →
      x.groups = [] ∧ x.isSettleable = true := by
    rintro _ _ _ ⟨greedy, rfl⟩
    exact ⟨rfl, rfl⟩
  obtain ⟨route, made⟩ := exists_route known rfl (reads true) settles
    (fun key member empty => absurd empty (patterns key member)) delimited
  obtain ⟨parts, shape, settled, keys⟩ := exists_shape known rfl (reads false) made
  refine ⟨_, ofInput_of_ofTokens parsed made, ?_⟩
  rw [ofPattern_of_parsed parsed] at prepared
  obtain ⟨texts, written, rfl⟩ := exists_written_of_render validated prepared rendered
  have unbroken := unbroken_of_written delimited default written
  -- The route matches the path, ...
  have holds : tokensLanguage options (fun _ => Unbroken options) tokens
      (String.join texts).toList :=
    tokensLanguage_of_written literal (fun key member _ made _ =>
      (isMatch_validator_iff delimited (default key member) made).1) written
  have matched : route.isMatch (String.join texts) = true := by
    refine isMatch_of_tokensLanguage ?_ ?_ shape settled holds
    · exact fun key member empty => absurd empty (patterns key member)
    · rintro _ _ _ _ ⟨greedy, rfl⟩
      exact denotes_unbroken greedy
  obtain ⟨found, run⟩ : ∃ found, (Matcher.ofRoute options route).run (String.join texts) =
      some found := by
    obtain ⟨place, search⟩ := Option.isSome_iff_exists.1 matched
    exact ⟨_, by rw [Matcher.run, Expression.captures?, Matcher.ofRoute, search]; rfl⟩
  -- ... and in the only way in which the path divides.
  obtain ⟨w, d, slots, split, trailing, reading, rfl⟩ :=
    exists_reading_of_run start closed ends shape settled
      (fun key member y content => traces_captured literal (segments key member) content)
      patterns run
  have reading' : Reading options (Captured options) (capturedSlots options tokens params) 1 tokens
      (String.join texts).toList := by
    refine reading_of_written literal suit.fits unbroken (fun i key place => ?_) written
    rw [Nat.add_comm, capturedSlots, place, Option.bind_some]
  obtain ⟨-, same⟩ := reading_unique literal unambiguous reading reading' trailing split.symm
  have allKeys : capturingKeys tokens = keysOf tokens :=
    List.filter_eq_self.2 fun key member => by simp [Key.isCapturing, patterns key member]
  have nodup := nodup_names_of_tokensOf parsed
  rw [allKeys] at keys nodup
  rw [run, keys, ofList_bindings_eq segments nodup suit unbroken same]

/-- A repeated key at the end, with two values. -/
theorem run_of_render_repeated :
    let params := Params.ofList [(.explicit "a", .repeated ["y", "z"])]
    ∃ renderer matcher, Renderer.ofPattern {} "/x/:a*" = .ok renderer ∧
      renderer.render params = .ok "/x/y/z" ∧
      Matcher.ofInput {} (.pattern "/x/:a*") = .ok matcher ∧
      matcher.run "/x/y/z" = some { path := "/x/y/z", index := 0, params } := by
  intro params
  let key : Key :=
    { name := .explicit "a", lead := "/", pattern := defaultPattern "/#?", modifier := .zeroOrMore }
  have evaluated : (tokensOf {} "/x/:a*").toOption = some [.literal "/x", .key key] ∧
      (Renderer.validator false key).toOption.isSome = true := by decide +kernel
  obtain ⟨validator, compiled⟩ := Option.isSome_iff_exists.1 evaluated.2
  have parsed := toOption_eq_some_iff.1 evaluated.1
  rw [toOption_eq_some_iff] at compiled
  have accepts (c : Char) (free : (delimiterSet true {}).contains c = false) :
      validator.isMatch (String.ofList [c]) = true := by
    refine (@isMatch_validator_iff {} key validator (by decide) rfl compiled _).2 ?_
    rw [String.toList_ofList]
    exact ⟨List.cons_ne_nil _ _,
      fun d member => by simp [List.mem_singleton.1 member, IsDelimiter, free]⟩
  have first : validator.isMatch "y" = true := accepts 'y' (by decide +kernel)
  have second : validator.isMatch "z" = true := accepts 'z' (by decide +kernel)
  let renderer : Renderer := { parts := [(.literal "/x", none), (.key key, some validator)]
                               encode := fun text _ => text }
  have prepared : Renderer.ofPattern {} "/x/:a*" = .ok renderer := by
    rw [ofPattern_of_parsed parsed, Renderer.ofTokens]
    simp only [List.mapM_cons, List.mapM_nil, Renderer.part, compiled]
    rfl
  have rendered : renderer.render params = .ok "/x/y/z" := by
    have values : Renderer.renderRepeated renderer.encode key (some validator) ["y", "z"] =
        .ok "/y/z" := by
      simp only [Renderer.renderRepeated, renderer, Renderer.passes, Option.all_some, first, second]
      rfl
    have part : Renderer.renderPart renderer.encode params (.key key, some validator) =
        .ok "/y/z" := values
    simp only [Renderer.render, renderer, List.mapM_cons, List.mapM_nil, part]
    rfl
  have suit : params.Suit {} [key] := by
    have given : params.get? key.name = some (.repeated ["y", "z"]) := Params.get?_insert_self _ _ _
    refine ⟨fun name bound => ?_, ?_, ?_⟩
    · by_contra other
      rw [show params.get? name = none from
        Params.get?_insert_of_ne _ _ fun same => other (by simp [key, same])] at bound
      cases bound
    · rintro _ (_ | ⟨_, ⟨⟩⟩) value same
      cases given.symm.trans same
      exact ⟨rfl, List.cons_ne_nil _ _⟩
    · exact fun _ _ _ _ _ _ => rfl
  obtain ⟨matcher, made, run⟩ := run_of_render (by decide) rfl rfl rfl rfl (fun _ => rfl) parsed
    (by decide +kernel) suit prepared rendered
  exact ⟨renderer, matcher, prepared, rendered, made, run⟩

end Whole

end Route

end PathTemplate
