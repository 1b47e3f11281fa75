/-
Keys, and the groups that they stand for.

A key without braces is short for a group. `braced` puts braces around every one: around its core
and the character before it, if that is one that keys take as their own, and before its modifier. It
looks at the lexemes alone, and not at what is made of them.

* `Item.next_braced_of_key`, `Item.next_braced_of_no_key`: what is read first with the braces.
* `ReadsItems.braced`: with the braces, groups are read in place of the keys.
* `Assembly.addKey_eq`, `Assembly.foldlM_bracedItems`: a key is a group, so that the same tokens are
  made of both.
* `tokensOfLexemes_eq_of_braced`: the tokens are the same, and so is the error but for its place.
-/

import PathTemplate.Proofs.Token.Offsets

namespace PathTemplate

/-! ### Braces -/

/-- The lexemes of the key at the beginning, up to its modifier: the character that it takes as its
own, if there is one, and its core. -/
def keyLexemes (options : Options) : List Lexeme → List Lexeme
  | [] => []
  | lexeme :: rest =>
    if lexeme.kind = .plain ∧ Assembly.isLead options lexeme.value ∧ coreLexemes rest ≠ [] then
      lexeme :: coreLexemes rest
    else coreLexemes (lexeme :: rest)

/-- The lexemes up to the brace that closes a group, that brace included. -/
def groupLexemes (lexemes : List Lexeme) : List Lexeme :=
  lexemes.takeWhile (·.kind ≠ .closing) ++ (lexemes.dropWhile (·.kind ≠ .closing)).take 1

/-- The lexemes with braces around every key that has none, after the first `covered` ones. -/
def bracedFrom (options : Options) : (covered : Nat) → List Lexeme → List Lexeme
  | _, [] => []
  | covered + 1, _ :: rest => bracedFrom options covered rest
  | 0, lexeme :: rest =>
    let key := keyLexemes options (lexeme :: rest)
    if key ≠ [] then
      let sign := signLexemes ((lexeme :: rest).drop key.length)
      ⟨.opening, lexeme.index, "\x7b"⟩ :: (key ++ ⟨.closing, lexeme.index, "\x7d"⟩ :: (sign ++
        bracedFrom options (key.length + sign.length - 1) rest))
    else if lexeme.kind = .opening then
      let group := groupLexemes rest
      let sign := signLexemes (rest.drop group.length)
      lexeme :: (group ++ (sign ++ bracedFrom options (group.length + sign.length) rest))
    else lexeme :: bracedFrom options 0 rest

/-- The lexemes with braces around every key that has none: around its core and the character before
it that it takes as its own, and before its modifier. -/
def braced (options : Options) (lexemes : List Lexeme) : List Lexeme := bracedFrom options 0 lexemes

namespace Item

variable {options : Options} {lexemes rest : List Lexeme} {lexeme : Lexeme} {core : Core}

/-! ### Where the braces are -/

theorem bracedFrom_append (covered rest : List Lexeme) :
    bracedFrom options covered.length (covered ++ rest) = braced options rest := by
  induction covered with
  | nil => rfl
  | cons lexeme covered ih => exact ih

/-- Braces are put around a key, and reading goes on after its modifier. -/
theorem exists_braced_of_key {key after : List Lexeme}
    (isKey : keyLexemes options (key ++ after) = key) (nonempty : key ≠ []) :
    ∃ index, braced options (key ++ after) = ⟨.opening, index, "\x7b"⟩ :: (key ++
      ⟨.closing, index, "\x7d"⟩ :: (signLexemes after ++
        braced options (leadingModifier after).2)) := by
  obtain ⟨lexeme, others, rfl⟩ := List.exists_cons_of_ne_nil nonempty
  refine ⟨lexeme.index, ?_⟩
  have more := @bracedFrom_append options (others ++ signLexemes after) (leadingModifier after).2
  rw [List.append_assoc, ← (leadingModifier_signLexemes after).1, List.length_append] at more
  rw [List.cons_append] at isKey ⊢
  have drop : (lexeme :: (others ++ after)).drop (lexeme :: others).length = after :=
    @List.drop_left _ (lexeme :: others) after
  have count : (lexeme :: others).length + (signLexemes after).length - 1 =
      others.length + (signLexemes after).length := by
    rw [List.length_cons]
    omega
  simp only [braced, bracedFrom, isKey, drop, count, more]
  exact if_pos nonempty

theorem braced_of_other {rest : List Lexeme} (noKey : keyLexemes options (lexeme :: rest) = [])
    (other : lexeme.kind ≠ .opening) :
    braced options (lexeme :: rest) = lexeme :: braced options rest := by
  simp only [braced, bracedFrom, noKey, ne_eq, not_true, if_false, other]

/-- A group stays as it is, and reading goes on after its modifier. -/
theorem braced_of_opening {body after : List Lexeme} {close : Lexeme}
    (opens : lexeme.kind = .opening) (inner : ∀ lexeme ∈ body, lexeme.kind ≠ .closing)
    (closes : close.kind = .closing) :
    braced options (lexeme :: (body ++ close :: after)) = lexeme :: (body ++ close ::
      (signLexemes after ++ braced options (leadingModifier after).2)) := by
  have noKey : keyLexemes options (lexeme :: (body ++ close :: after)) = [] := by
    simp [keyLexemes, coreLexemes, opens]
  have group : groupLexemes (body ++ close :: after) = body ++ [close] := by
    have all : ∀ lexeme ∈ body, decide (lexeme.kind ≠ .closing) = true := by simpa using inner
    rw [groupLexemes, List.takeWhile_append_of_pos all, List.dropWhile_append_of_pos all]
    simp [closes]
  have drop : (body ++ close :: after).drop (body ++ [close]).length = after := by
    rw [List.append_cons body close after, List.drop_left]
  have more : bracedFrom options ((body ++ [close]).length + (signLexemes after).length)
      (body ++ close :: after) = braced options (leadingModifier after).2 := by
    have whole : body ++ close :: after =
        (body ++ [close] ++ signLexemes after) ++ (leadingModifier after).2 := by
      rw [List.append_assoc (body ++ [close]), ← (leadingModifier_signLexemes after).1,
        ← List.append_cons]
    rw [whole, ← List.length_append, bracedFrom_append]
  simp only [braced, bracedFrom, noKey, ne_eq, not_true, if_false, opens, if_true, group, drop]
  rw [more, List.append_assoc]
  rfl

/-- A group that is not closed stays as it is, too, with all that follows. -/
theorem braced_of_unclosed {body : List Lexeme} (opens : lexeme.kind = .opening)
    (inner : ∀ lexeme ∈ body, lexeme.kind ≠ .closing) :
    braced options (lexeme :: body) = lexeme :: body := by
  have noKey : keyLexemes options (lexeme :: body) = [] := by simp [keyLexemes, coreLexemes, opens]
  have group : groupLexemes body = body := by
    have all : ∀ lexeme ∈ body, decide (lexeme.kind ≠ .closing) = true := by simpa using inner
    rw [groupLexemes, List.takeWhile_eq_self_iff.2 all, List.dropWhile_eq_nil_iff.2 all]
    exact List.append_nil body
  have more := @bracedFrom_append options body []
  rw [List.append_nil] at more
  simp only [braced, bracedFrom, noKey, ne_eq, not_true, if_false, opens, if_true, group,
    List.drop_length, signLexemes, List.take_nil, List.filter_nil, List.length_nil, Nat.add_zero,
    more]
  simp

/-- Braces do not bring a modifier to the beginning. -/
theorem BeginsUnmodified.braced {lexemes : List Lexeme} (unmodified : BeginsUnmodified lexemes) :
    BeginsUnmodified (braced options lexemes) := by
  cases lexemes with
  | nil => exact nofun
  | cons lexeme rest =>
    by_cases noKey : keyLexemes options (lexeme :: rest) = []
    · by_cases opens : lexeme.kind = .opening
      · simp only [PathTemplate.braced, bracedFrom, noKey, ne_eq, not_true, if_false, opens,
          if_true]
        exact unmodified
      · rw [braced_of_other noKey opens]
        exact unmodified
    · simp only [PathTemplate.braced, bracedFrom, ne_eq, noKey, not_false_iff, if_true]
      rintro _ ⟨⟩
      rfl

/-! ### What is read with the braces -/

theorem keyLexemes_of_isLead {text : String} {index : Nat} (isLead : Assembly.isLead options text)
    (begins : coreLexemes rest ≠ []) :
    keyLexemes options (⟨.plain, index, text⟩ :: rest) =
      ⟨.plain, index, text⟩ :: coreLexemes rest := by
  simp [keyLexemes, isLead, begins]

theorem keyLexemes_of_not_isLead {text : String} {index : Nat}
    (other : Assembly.isLead options text = false) :
    keyLexemes options (⟨.plain, index, text⟩ :: rest) = [] := by
  simp [keyLexemes, other, coreLexemes]

theorem keyLexemes_of_coreLexemes_ne_nil (begins : coreLexemes lexemes ≠ []) :
    keyLexemes options lexemes = coreLexemes lexemes := by
  cases lexemes with
  | nil => rfl
  | cons lexeme rest =>
    have noText : lexeme.kind ≠ .plain := by
      intro plain
      simp [coreLexemes, plain] at begins
    simp [keyLexemes, noText]

/-- What is read with braces around the key, where a key begins. -/
theorem next_braced_of_key {lead : String} {before : List Use} {modifier : Modifier}
    (isLead : TextUses lead before) (read : next lexemes = .ok (some (.key core modifier, rest)))
    (isKey : keyLexemes options (lexemesOf before ++ lexemes) =
      lexemesOf before ++ coreLexemes lexemes) :
    next (braced options (lexemesOf before ++ lexemes)) =
      .ok (some (.group lead (some core) "" modifier, braced options rest)) := by
  have begins := coreLexemes_ne_nil_of_key read
  obtain ⟨afterCore, core?, isSign⟩ := next_eq_key read
  obtain ⟨heart, isHeart, same, rfl, _⟩ := exists_heart_of_leadingCore? core?
  rw [same] at isKey begins
  rw [← List.append_assoc] at isKey ⊢
  obtain ⟨index, braces⟩ := exists_braced_of_key isKey (List.append_ne_nil_of_right_ne_nil _ begins)
  obtain ⟨_, unmodified, sign⟩ := leadingModifier_signLexemes afterCore
  rw [isSign] at braces unmodified sign
  rw [braces, List.append_assoc, next_opening isLead isHeart,
    sign _ fun none => BeginsUnmodified.braced (unmodified none)]

/-- What is no key is read as if there were no braces. -/
theorem next_braced_of_no_key (noKey : keyLexemes options lexemes = []) :
    next (braced options lexemes) =
      (next lexemes).map (Option.map fun found => (found.1, braced options found.2)) := by
  cases lexemes with
  | nil => rfl
  | cons lexeme rest =>
    by_cases opens : lexeme.kind = .opening
    · obtain ⟨kind, index, value⟩ := lexeme
      obtain rfl : kind = .opening := opens
      have read : ∀ lexemes : List Lexeme, next (⟨.opening, index, value⟩ :: lexemes) =
          (groupBody lexemes).map some := fun _ => rfl
      rcases closing_cases rest with inner | ⟨body, close, after, rfl, closes, inner⟩
      · obtain ⟨error, refused⟩ := exists_groupBody_eq_error inner
        rw [braced_of_unclosed rfl inner, read, refused]
        rfl
      · -- The braces come after the group, where they neither make it one nor take its modifier.
        obtain ⟨_, unmodified, sign⟩ := leadingModifier_signLexemes after
        have sign := sign (braced options (leadingModifier after).2)
          fun none => BeginsUnmodified.braced (unmodified none)
        rw [braced_of_opening rfl inner closes, read, read]
        rcases groupBody_closing_cases body inner closes with
          ⟨error, refused⟩ | ⟨lead, core, trail, group⟩
        · rw [refused, refused]
          rfl
        · rw [group, group, sign]
          rfl
    · rw [braced_of_other noKey opens]
      obtain ⟨kind, index, value⟩ := lexeme
      cases kind with
      | name | pattern | asterisk => simp [keyLexemes, coreLexemes] at noKey
      | opening => exact absurd rfl opens
      | _ => rfl

/-- Where braces would be put, a key is read, or a character and then a key. -/
theorem exists_key_of_keyLexemes_ne_nil (isKey : keyLexemes options lexemes ≠ []) :
    (∃ core modifier rest, next lexemes = .ok (some (.key core modifier, rest))) ∨
      ∃ text core modifier rest rest', next lexemes = .ok (some (.plain text, rest)) ∧
        next rest = .ok (some (.key core modifier, rest')) := by
  by_cases begins : coreLexemes lexemes = []
  · cases lexemes with
    | nil => exact absurd rfl isKey
    | cons lexeme rest =>
      obtain ⟨kind, index, value⟩ := lexeme
      simp only [keyLexemes, begins] at isKey
      split at isKey
      · rename_i leads
        obtain ⟨rfl, _, begins⟩ := leads
        obtain ⟨core, modifier, rest', read⟩ := next_of_coreLexemes_ne_nil begins
        exact .inr ⟨value, core, modifier, rest, rest', rfl, read⟩
      · exact absurd rfl isKey
  · exact .inl (next_of_coreLexemes_ne_nil begins)

end Item

/-- The items with groups in place of the keys. -/
def bracedItems (options : Options) : List Item → List Item
  | .plain text :: .key core modifier :: items =>
    if Assembly.isLead options text then
      .group text (some core) "" modifier :: bracedItems options items
    else .plain text :: .group "" (some core) "" modifier :: bracedItems options items
  | .key core modifier :: items => .group "" (some core) "" modifier :: bracedItems options items
  | item :: items => item :: bracedItems options items
  | [] => []

/-- With the braces, groups are read in place of the keys. -/
theorem ReadsItems.braced {options : Options} {lexemes : List Lexeme} {found : List Item}
    {stop : Option ParseError} (reads : ReadsItems lexemes found stop) :
    ReadsItems (braced options lexemes) (bracedItems options found) stop := by
  have noText : TextUses "" [] := ⟨nofun, rfl⟩
  fun_induction bracedItems options found generalizing lexemes with
  | case1 text core modifier items isLead ih =>
    cases reads with | cons plain reads
    cases reads with | cons key reads
    obtain ⟨index, rfl⟩ := Item.next_eq_plain plain
    have isText : TextUses text [⟨.text, .plain, index, text⟩] := by
      refine ⟨?_, by simp⟩
      rintro _ (_ | ⟨_, ⟨⟩⟩)
      exact ⟨rfl, rfl⟩
    refine .cons (Item.next_braced_of_key isText key ?_) (ih reads)
    exact Item.keyLexemes_of_isLead isLead (Item.coreLexemes_ne_nil_of_key key)
  | case2 text core modifier items other ih =>
    cases reads with | cons plain reads
    cases reads with | cons key reads
    obtain ⟨index, rfl⟩ := Item.next_eq_plain plain
    refine .cons ?_ (.cons (Item.next_braced_of_key noText key ?_) (ih reads))
    · rw [Item.next_braced_of_no_key (Item.keyLexemes_of_not_isLead (by simpa using other)), plain]
      rfl
    · exact Item.keyLexemes_of_coreLexemes_ne_nil (Item.coreLexemes_ne_nil_of_key key)
  | case3 core modifier items ih =>
    cases reads with | cons key reads
    refine .cons (Item.next_braced_of_key noText key ?_) (ih reads)
    exact Item.keyLexemes_of_coreLexemes_ne_nil (Item.coreLexemes_ne_nil_of_key key)
  | case4 item items noLead noKey ih =>
    cases reads with | cons first reads
    -- Braces here would mean a key, or a character and a key that takes it: both are other cases.
    have none : keyLexemes options lexemes = [] := by
      by_contra isKey
      rcases Item.exists_key_of_keyLexemes_ne_nil isKey with
        ⟨core, modifier, rest, key⟩ | ⟨text, core, modifier, rest, rest', plain, key⟩
      · cases first.symm.trans key
        exact noKey core modifier rfl
      · cases first.symm.trans plain
        cases reads with
        | stop stops => exact Item.not_stopsAt key stops
        | cons second reads =>
          cases second.symm.trans key
          exact noLead text core modifier _ rfl rfl
    refine .cons ?_ (ih reads)
    rw [Item.next_braced_of_no_key none, first]
    rfl
  | case5 =>
    cases reads with | stop stops
    have none : keyLexemes options lexemes = [] := by
      by_contra isKey
      rcases Item.exists_key_of_keyLexemes_ne_nil isKey with
        ⟨_, _, _, key⟩ | ⟨_, _, _, _, _, plain, _⟩
      · exact Item.not_stopsAt key stops
      · exact Item.not_stopsAt plain stops
    refine .stop ?_
    cases stop <;> rw [Item.StopsAt, Item.next_braced_of_no_key none, stops] <;> rfl

/-! ### Tokens -/

/-- The character that a key directly after the item may take as its own. -/
def Item.held : Item → String
  | .plain text => text
  | _ => ""

namespace Assembly

variable {options : Options} {assembly next : Assembly} {core : Core} {modifier : Modifier}

theorem addGroup_release (lead : String) (core : Option Core) (trail : String)
    (modifier : Modifier) (assembly : Assembly) :
    assembly.release.addGroup options lead core trail modifier =
      assembly.addGroup options lead core trail modifier := by
  have released : assembly.release.release = assembly.release := release_eq rfl
  simp only [addGroup, released]

theorem held_of_addGroup {lead trail : String} {core : Option Core}
    (added : assembly.addGroup options lead core trail modifier = .ok next) : next.held = "" := by
  cases core with
  | some core =>
    simp only [addGroup] at added
    obtain ⟨claimed, claim, same⟩ := exists_of_bind_eq_ok added
    cases same
    rw [(claimFor_eq_ok claim).2.2]
    exact @held_flush options assembly.release
  | none =>
    simp only [addGroup] at added
    split at added
    · cases added
      rfl
    · split at added <;> cases added
      · rfl
      · exact @held_flush options assembly.release

/-- A key is a group of the character that it takes as its own, if there is one. -/
theorem addKey_eq (empty : options.encodePart "" = "") (core : Core) (modifier : Modifier)
    (assembly : Assembly) :
    assembly.addKey options core modifier =
      if isLead options assembly.held then
        { assembly with held := "" }.addGroup options assembly.held (some core) "" modifier
      else assembly.addGroup options "" (some core) "" modifier := by
  have released : release { assembly with held := "" } = { assembly with held := "" } :=
    release_eq rfl
  unfold addKey
  by_cases leads : isLead options assembly.held
  · simp only [leads, if_true, addGroup, released, empty]
  · simp only [leads, if_false, addGroup, empty, Bool.false_eq_true]

theorem addKey_of_held (empty : options.encodePart "" = "")
    (free : isLead options assembly.held → assembly.held = "") :
    assembly.addKey options core modifier =
      assembly.addGroup options "" (some core) "" modifier := by
  rw [addKey_eq empty]
  split
  · rename_i leads
    have held := free leads
    obtain ⟨tokens, text, _, ordinal, names⟩ := assembly
    subst held
    rfl
  · rfl

theorem held_of_add (empty : options.encodePart "" = "") {item : Item}
    (added : assembly.add options item = .ok next) : next.held = item.held := by
  cases item with
  | plain text =>
    cases added
    rfl
  | escaped text =>
    cases added
    rfl
  | key core modifier =>
    rw [add, addKey_eq empty] at added
    split at added <;> exact held_of_addGroup added
  | group lead core trail modifier => exact held_of_addGroup added

/-- A character and the key that takes it as its own are a group of both. -/
theorem add_plain_bind_addKey {text : String} (empty : options.encodePart "" = "")
    (leads : isLead options text) :
    (assembly.add options (.plain text) >>= fun next => next.addKey options core modifier) =
      assembly.addGroup options text (some core) "" modifier := by
  have released : ({ assembly.release with held := "" } : Assembly) = assembly.release := rfl
  have key := addKey_eq empty core modifier { assembly.release with held := text }
  rw [if_pos leads, released, addGroup_release] at key
  exact key

/-- Groups in place of the keys make the same of an assembly, unless a character is held before
them. -/
theorem foldlM_bracedItems (empty : options.encodePart "" = "") {items : List Item}
    (free : ∀ core modifier, items.head? = some (.key core modifier) →
      isLead options assembly.held → assembly.held = "") :
    (bracedItems options items).foldlM (add options) assembly =
      items.foldlM (add options) assembly := by
  fun_induction bracedItems options items generalizing assembly with
  | case1 text core modifier items leads ih =>
    have same := @add_plain_bind_addKey options assembly core modifier text empty leads
    have whole : (Item.plain text :: .key core modifier :: items).foldlM (add options) assembly =
        assembly.addGroup options text (some core) "" modifier >>=
          fun next => items.foldlM (add options) next := by
      rw [← same, bind_assoc]
      rfl
    rw [whole, List.foldlM_cons]
    apply bind_congr_ok
    intro next added
    exact ih fun _ _ _ _ => held_of_add empty added
  | case2 text core modifier items other ih =>
    -- The character is held when the key comes, and released for it as for a group.
    have key := @addKey_of_held options { assembly.release with held := text } core modifier empty
      fun leads => absurd leads other
    have whole : (Item.plain text :: .key core modifier :: items).foldlM (add options) assembly =
        addGroup options "" (some core) "" modifier { assembly.release with held := text } >>=
          fun next => items.foldlM (add options) next := by
      rw [← key]
      rfl
    rw [whole]
    change (add options { assembly.release with held := text } (.group "" (some core) "" modifier)
      >>= fun next => (bracedItems options items).foldlM (add options) next) = _
    apply bind_congr_ok
    intro next added
    exact ih fun _ _ _ _ => held_of_add empty added
  | case3 core modifier items ih =>
    rw [List.foldlM_cons, List.foldlM_cons, add, add, addKey_of_held empty (free core modifier rfl)]
    apply bind_congr_ok
    intro next added
    exact ih fun _ _ _ _ => held_of_addGroup added
  | case4 item items noLead noKey ih =>
    rw [List.foldlM_cons, List.foldlM_cons]
    apply bind_congr_ok
    intro next added
    apply ih
    intro core modifier first leads
    rw [held_of_add empty added]
    obtain ⟨items, rfl⟩ : ∃ later, items = .key core modifier :: later := by
      cases items with
      | nil => cases first
      | cons item items =>
        cases first
        exact ⟨items, rfl⟩
    cases item with
    | plain text => exact (noLead text core modifier items rfl rfl).elim
    | _ => rfl
  | case5 => rfl

theorem held_of_foldlM (empty : options.encodePart "" = "") {items : List Item}
    (start : assembly.held = "") (run : items.foldlM (add options) assembly = .ok next) :
    next.held = (items.getLast?.map Item.held).getD "" := by
  rcases List.eq_nil_or_concat' items with rfl | ⟨items, last, rfl⟩
  · cases run
    exact start
  · rw [List.foldlM_append] at run
    obtain ⟨before, _, added⟩ := exists_of_bind_eq_ok run
    obtain ⟨_, added, same⟩ := exists_of_bind_eq_ok added
    cases same
    rw [List.getLast?_concat]
    exact held_of_add empty added

/-- Tokens stay as they are when more are added. -/
theorem tokens_suffix_of_foldlM {items : List Item}
    (run : items.foldlM (add options) assembly = .ok next) : assembly.tokens <:+ next.tokens := by
  refine @foldlM_invariant _ _ _ _ (assembly.tokens <:+ ·.tokens) _ _ _
    (fun item _ before after suffix added => suffix.trans ?_) List.suffix_rfl run
  cases adds_add added with
  | text tokens => exact tokens ▸ List.suffix_rfl
  | decoration text lead trail modifier _ _ tokens =>
    exact tokens ▸ (List.suffix_append _ _).trans (List.suffix_cons _ _)
  | key text core key _ _ _ _ tokens =>
    exact tokens ▸ (List.suffix_append _ _).trans (List.suffix_cons _ _)

/-- A group of a core alone becomes a key that has no text of its own. -/
theorem addGroup_core_eq_ok (empty : options.encodePart "" = "")
    (added : assembly.addGroup options "" (some core) "" modifier = .ok next) :
    ∃ name, core.Names name ∧ next.tokens =
      .key { name, pattern := patternFor options core, modifier } ::
        (assembly.release.flush options).tokens := by
  simp only [addGroup] at added
  obtain ⟨claimed, claim, same⟩ := exists_of_bind_eq_ok added
  cases same
  obtain ⟨named, _, same⟩ := claimFor_eq_ok claim
  exact ⟨claimed.1, named ▸ Core.names_nameAt, by simp [push, same, empty]⟩

end Assembly

/-- Tokens are the same with braces around every key. -/
theorem tokensOfLexemes_braced {options : Options} (empty : options.encodePart "" = "")
    (found : List Lexeme) :
    tokensOfLexemes options (braced options found) = tokensOfLexemes options found := by
  have same := @Assembly.foldlM_bracedItems options {} empty (items found).1 fun _ _ _ _ => rfl
  simp only [tokensOfLexemes, (reads_items found).braced.items_eq, tokensOfItems, same]

/-- A key takes no text as its own but a character directly before it. -/
theorem exists_key_of_tokensOfItems {options : Options} (empty : options.encodePart "" = "")
    {earlier later : List Item} {core : Core} {modifier : Modifier} {stop : Option ParseError}
    {tokens : List Token}
    (free : ∀ text, earlier.getLast? = some (.plain text) → Assembly.isLead options text = false)
    (assembled : tokensOfItems options (earlier ++ .key core modifier :: later) stop = .ok tokens) :
    ∃ name before after, core.Names name ∧ tokensOfItems options earlier none = .ok before ∧
      tokens = before ++
        .key { name, pattern := Assembly.patternFor options core, modifier } :: after := by
  obtain ⟨last, run, finish⟩ := exists_of_bind_eq_ok assembled
  rw [List.foldlM_append] at run
  obtain ⟨before, first, run⟩ := exists_of_bind_eq_ok run
  obtain ⟨next, added, run⟩ := exists_of_bind_eq_ok run
  have held := Assembly.held_of_foldlM empty rfl first
  have noLead : Assembly.isLead options before.held → before.held = "" := by
    rw [held]
    cases before? : earlier.getLast? with
    | none => exact fun _ => rfl
    | some item =>
      cases item with
      | plain text => exact fun leads => absurd leads (by simp [Item.held, free text before?])
      | _ => exact fun _ => rfl
  rw [Assembly.add, Assembly.addKey_of_held empty noLead] at added
  obtain ⟨name, names, tokens'⟩ := Assembly.addGroup_core_eq_ok empty added
  obtain ⟨more, same⟩ := Assembly.tokens_suffix_of_foldlM run
  have whole : tokens =
      (literalOf options last.release.text ++ (more ++ next.tokens)).reverse := by
    cases stop with
    | some error => cases finish
    | none =>
      cases finish
      rw [Assembly.finish, Assembly.tokens_flush, same]
      rfl
  refine ⟨name, before.finish options, (literalOf options last.release.text ++ more).reverse, names,
    ?_, ?_⟩
  · rw [tokensOfItems, first]
    rfl
  · rw [whole, tokens', ← List.append_assoc, List.reverse_append, List.reverse_cons,
      List.append_assoc]
    rfl

/-- A key is short for a group. With braces around every key that has none, around its core and the
character before it that it takes as its own, and before its modifier, the same tokens are made of
the lexemes, or the same error; if the lexemes stand at other places, but for the place to which it
points. A key takes nothing as its own where there is no such character directly before it: neither
an escaped one, nor another one, nor the text of a group. -/
theorem tokensOfLexemes_eq_of_braced {options : Options} (empty : options.encodePart "" = "")
    (found : List Lexeme) :
    tokensOfLexemes options (braced options found) = tokensOfLexemes options found ∧
    (∀ other : List Lexeme,
      other.map Lexeme.unplaced = (braced options found).map Lexeme.unplaced →
      (tokensOfLexemes options other).mapError ParseError.unplaced =
        (tokensOfLexemes options found).mapError ParseError.unplaced) ∧
    ∀ earlier core modifier later tokens,
      (items found).1 = earlier ++ .key core modifier :: later →
      (∀ text, earlier.getLast? = some (.plain text) → Assembly.isLead options text = false) →
      tokensOfLexemes options found = .ok tokens →
      ∃ name before after, core.Names name ∧ tokensOfItems options earlier none = .ok before ∧
        tokens = before ++
          .key { name, lead := "", trail := "", pattern := Assembly.patternFor options core,
                 modifier } :: after := by
  have same := tokensOfLexemes_braced empty found
  refine ⟨same, fun other alike => ?_, fun earlier core modifier later tokens split free made => ?_⟩
  · rw [← tokensOfLexemes_unplaced, alike, tokensOfLexemes_unplaced, same]
  · simp only [tokensOfLexemes, split] at made
    exact exists_key_of_tokensOfItems empty free made

/-- A key with a character of its own, and one after an escaped character. -/
theorem tokensOfLexemes_eq_of_braced_escape :
    ({} : Options).encodePart "" = "" ∧
    ∃ found other, lexemes "/:a?\\.:b" = .ok found ∧
      lexemes "\x7b/:a\x7d?\\.\x7b:b\x7d" = .ok other ∧
      (tokensOfLexemes {} other).mapError ParseError.unplaced =
        (tokensOfLexemes {} found).mapError ParseError.unplaced ∧
      ∃ tokens, tokensOfLexemes {} found = .ok tokens ∧
        ∃ name before after, (Core.named "b" 6 none).Names name ∧
          tokensOfItems {} [.plain "/", .key (.named "a" 1 none) .optional, .escaped "."] none =
            .ok before ∧
          tokens = before ++ .key { name, lead := "", trail := "",
                                    pattern := defaultPattern "/#?", modifier := .once } ::
            after := by
  refine ⟨rfl, [⟨.plain, 0, "/"⟩, ⟨.name, 1, "a"⟩, ⟨.modifier, 3, "?"⟩, ⟨.escaped, 4, "."⟩,
    ⟨.name, 6, "b"⟩, ⟨.finish, 8, ""⟩], [⟨.opening, 0, "\x7b"⟩, ⟨.plain, 1, "/"⟩, ⟨.name, 2, "a"⟩,
    ⟨.closing, 4, "\x7d"⟩, ⟨.modifier, 5, "?"⟩, ⟨.escaped, 6, "."⟩, ⟨.opening, 8, "\x7b"⟩,
    ⟨.name, 9, "b"⟩, ⟨.closing, 11, "\x7d"⟩, ⟨.finish, 12, ""⟩], by decide +kernel,
    by decide +kernel, (tokensOfLexemes_eq_of_braced rfl _).2.1 _ (by decide +kernel), ?_⟩
  have ok {found : List Lexeme} (some : (tokensOfLexemes {} found).toOption.isSome) :
      ∃ tokens, tokensOfLexemes {} found = .ok tokens :=
    ⟨_, toOption_eq_some_iff.1 (Option.some_get some).symm⟩
  refine (ok ?_).imp fun tokens made => ⟨made, (tokensOfLexemes_eq_of_braced rfl _).2.2 _
    (.named "b" 6 none) .once [] _ ?_ nofun made⟩ <;> decide +kernel

end PathTemplate
