/-
Names of keys.

`Assembly.Adds` says what an item does to the tokens that are put together: it adds none, a
decoration, or a key that claims a name of its own, and before either the text that was waiting.
`Assembly.Extends` is what is left of it for the keys alone. No name can be claimed twice, so that
the names of all keys that capture a value are different (`nodup_names_of_tokensOf`).
-/

import PathTemplate.Proofs.Results
import PathTemplate.Token.Assembly

namespace PathTemplate

/-- The core of an item that has one. -/
def Item.core? : Item → Option Core
  | .key core _ => some core
  | .group _ core _ _ => core
  | _ => none

/-- The key of the core may have the name. -/
def Core.Names : Core → Name → Prop
  | .named text _ _, name => name = .explicit text
  | .unnamed _ _, name => ∃ index, name = .ordinal index

/-- The name that the core takes; an unnamed one takes the ordinal. -/
def Core.nameAt (ordinal : Nat) : Core → Name
  | .named text _ _ => .explicit text
  | .unnamed _ _ => .ordinal ordinal

/-- How many ordinals the core takes. -/
def Core.ordinals : Core → Nat
  | .named _ _ _ => 0
  | .unnamed _ _ => 1

theorem Core.names_nameAt {core : Core} {ordinal : Nat} : core.Names (core.nameAt ordinal) := by
  cases core with
  | named text index pattern => rfl
  | unnamed pattern index => exact ⟨ordinal, rfl⟩

/-- The token of a text, if there is any text. -/
def literalOf (options : Options) (text : String) : List Token :=
  if text = "" then [] else [.literal (options.encodePart text)]

@[simp] theorem keysOf_literalOf {options : Options} {text : String} {tokens : List Token} :
    keysOf (literalOf options text ++ tokens) = keysOf tokens := by
  unfold literalOf
  split <;> rfl

namespace Assembly

/-- What an item does to the tokens, the newest of which comes first, and to their names. Text that
was waiting becomes a token before a decoration or a key. -/
inductive Adds (options : Options) (assembly : Assembly) : Item → Assembly → Prop where
  | text {item : Item} {next : Assembly} : next.tokens = assembly.tokens →
      next.names = assembly.names → next.ordinal = assembly.ordinal →
      Adds options assembly item next
  | decoration (text lead trail : String) (modifier : Modifier) {next : Assembly} :
      lead ≠ "" → modifier ≠ .once →
      next.tokens =
        .key
          { name := .explicit "", lead := options.encodePart lead,
            trail := options.encodePart trail, pattern := "", modifier } ::
        (literalOf options text ++ assembly.tokens) →
      next.names = assembly.names → next.ordinal = assembly.ordinal →
      Adds options assembly (.group lead none trail modifier) next
  | key (text : String) (core : Core) (key : Key) {item : Item} {next : Assembly} :
      item.core? = some core → key.name = core.nameAt assembly.ordinal →
      key.pattern = patternFor options core → key.name ∉ assembly.names →
      next.tokens = .key key :: (literalOf options text ++ assembly.tokens) →
      next.names = key.name :: assembly.names →
      next.ordinal = assembly.ordinal + core.ordinals → Adds options assembly item next

/-- What an item does to the keys, the newest of which comes first, and to their names. -/
inductive Extends (options : Options) (assembly : Assembly) (item : Item) (next : Assembly) :
    Prop where
  | same : keysOf next.tokens = keysOf assembly.tokens → next.names = assembly.names →
      Extends options assembly item next
  | decorated (key : Key) : key.name = .explicit "" → key.pattern = "" →
      (∃ text, text ≠ "" ∧ key.lead = options.encodePart text) →
      keysOf next.tokens = key :: keysOf assembly.tokens → next.names = assembly.names →
      Extends options assembly item next
  | claimed (core : Core) (key : Key) : item.core? = some core → core.Names key.name →
      key.pattern = patternFor options core → key.name ∉ assembly.names →
      keysOf next.tokens = key :: keysOf assembly.tokens →
      next.names = key.name :: assembly.names → Extends options assembly item next

section Steps

variable {options : Options} {assembly next : Assembly} {core : Core} {name : Name}

theorem release_eq (held : assembly.held = "") : assembly.release = assembly := by
  obtain ⟨_, text, _, _, _⟩ := assembly
  subst held
  simp [release]

theorem tokens_flush :
    (assembly.flush options).tokens = literalOf options assembly.text ++ assembly.tokens := by
  unfold flush literalOf
  split <;> rfl

theorem names_flush : (assembly.flush options).names = assembly.names := by
  unfold flush
  split <;> rfl

theorem ordinal_flush : (assembly.flush options).ordinal = assembly.ordinal := by
  unfold flush
  split <;> rfl

theorem held_flush : (assembly.flush options).held = assembly.held := by
  unfold flush
  split <;> rfl

/-- A claim is refused if the name was claimed before. -/
theorem claim_eq_ok {index : Nat} (h : assembly.claim name index = .ok next) :
    name ∉ assembly.names ∧ next = { assembly with names := name :: assembly.names } := by
  unfold claim at h
  split at h
  · cases h
  · rename_i fresh
    cases h
    exact ⟨by simpa using fresh, rfl⟩

theorem claimFor_eq_ok (h : assembly.claimFor core = .ok (name, next)) :
    name = core.nameAt assembly.ordinal ∧ name ∉ assembly.names ∧
      next = { assembly with
        names := name :: assembly.names, ordinal := assembly.ordinal + core.ordinals } := by
  cases core with
  | named text index pattern =>
    obtain ⟨claimed, claim, same⟩ := exists_of_bind_eq_ok h
    cases same
    obtain ⟨fresh, rfl⟩ := claim_eq_ok claim
    exact ⟨rfl, fresh, rfl⟩
  | unnamed pattern index =>
    obtain ⟨claimed, claim, same⟩ := exists_of_bind_eq_ok h
    cases same
    obtain ⟨fresh, rfl⟩ := claim_eq_ok claim
    exact ⟨rfl, fresh, rfl⟩

/-- A key may be added under a name that was just claimed for it. -/
theorem adds_push {item : Item} {before claimed : Assembly} {key : Key}
    (tokens : before.tokens = assembly.tokens) (names : before.names = assembly.names)
    (ordinal : before.ordinal = assembly.ordinal)
    (claim : (before.flush options).claimFor core = .ok (key.name, claimed))
    (core? : item.core? = some core) (pattern : key.pattern = patternFor options core) :
    assembly.Adds options item (claimed.push key) := by
  obtain ⟨named, fresh, rfl⟩ := claimFor_eq_ok claim
  rw [ordinal_flush, ordinal] at named
  rw [names_flush, names] at fresh
  refine .key before.text core key core? named pattern fresh (congrArg (_ :: ·) ?_)
    (congrArg (_ :: ·) (names_flush.trans names)) (congrArg (· + _) (ordinal_flush.trans ordinal))
  exact tokens ▸ tokens_flush

theorem adds_addKey {modifier : Modifier}
    (added : assembly.addKey options core modifier = .ok next) :
    assembly.Adds options (.key core modifier) next := by
  unfold addKey at added
  split at added
  rename_i lead before taken
  have same : before.tokens = assembly.tokens ∧ before.names = assembly.names ∧
      before.ordinal = assembly.ordinal := by
    split at taken <;> cases taken <;> exact ⟨rfl, rfl, rfl⟩
  obtain ⟨claimed, claim, pushed⟩ := exists_of_bind_eq_ok added
  cases pushed
  exact adds_push same.1 same.2.1 same.2.2 claim rfl rfl

theorem adds_addGroup {lead trail : String} {core : Option Core} {modifier : Modifier}
    (added : assembly.addGroup options lead core trail modifier = .ok next) :
    assembly.Adds options (.group lead core trail modifier) next := by
  cases core with
  | some core =>
    simp only [addGroup] at added
    obtain ⟨claimed, claim, pushed⟩ := exists_of_bind_eq_ok added
    cases pushed
    exact @adds_push _ _ _ _ assembly.release _ _ rfl rfl rfl claim rfl rfl
  | none =>
    simp only [addGroup] at added
    split at added
    · cases added
      exact .text rfl rfl rfl
    · rename_i repeats
      split at added
      · cases added
        exact .text rfl rfl rfl
      · rename_i nonempty
        cases added
        exact .decoration assembly.release.text lead trail modifier nonempty repeats
          (congrArg (_ :: ·) (@tokens_flush options assembly.release))
          (@names_flush options assembly.release) (@ordinal_flush options assembly.release)

theorem adds_add {item : Item} (added : assembly.add options item = .ok next) :
    assembly.Adds options item next := by
  cases item with
  | plain text =>
    cases added
    exact .text rfl rfl rfl
  | escaped text =>
    cases added
    exact .text rfl rfl rfl
  | key core modifier => exact adds_addKey added
  | group lead core trail modifier => exact adds_addGroup added

theorem extends_add {item : Item} (added : assembly.add options item = .ok next) :
    assembly.Extends options item next := by
  have keys {key : Key} {text : String}
      (tokens : next.tokens = .key key :: (literalOf options text ++ assembly.tokens)) :
      keysOf next.tokens = key :: keysOf assembly.tokens := by
    rw [tokens]
    exact congrArg (key :: ·) keysOf_literalOf
  cases adds_add added with
  | text tokens names _ => exact .same (congrArg keysOf tokens) names
  | decoration text lead trail modifier nonempty _ tokens names _ =>
    exact .decorated _ rfl rfl ⟨lead, nonempty, rfl⟩ (keys tokens) names
  | key text core key core? named pattern fresh tokens names _ =>
    exact .claimed core key core? (named ▸ Core.names_nameAt) pattern fresh (keys tokens) names

/-- The names of the keys that capture a value are claimed, and all of them are different. -/
structure Claimed (assembly : Assembly) : Prop where
  names : ∀ key ∈ capturingKeys assembly.tokens, key.name ∈ assembly.names
  nodup : ((capturingKeys assembly.tokens).map Key.name).Nodup

theorem Claimed.add {item : Item} (h : assembly.Claimed)
    (added : assembly.add options item = .ok next) : next.Claimed := by
  cases extends_add added with
  | same keys names =>
    have keys : capturingKeys next.tokens = capturingKeys assembly.tokens :=
      congrArg (List.filter _) keys
    exact ⟨keys ▸ names ▸ h.names, keys ▸ h.nodup⟩
  | decorated key _ decoration _ keys names =>
    have keys : capturingKeys next.tokens = capturingKeys assembly.tokens := by
      simp [capturingKeys, keys, Key.isCapturing, decoration]
    exact ⟨keys ▸ names ▸ h.names, keys ▸ h.nodup⟩
  | claimed core key _ _ _ fresh keys names =>
    have keys : capturingKeys next.tokens = capturingKeys assembly.tokens ∨
        capturingKeys next.tokens = key :: capturingKeys assembly.tokens := by
      rw [capturingKeys, keys, List.filter_cons]
      split
      · exact .inr rfl
      · exact .inl rfl
    have others : ∀ key ∈ capturingKeys assembly.tokens, key.name ∈ next.names := by
      rw [names]
      exact fun key member => List.mem_cons_of_mem _ (h.names key member)
    rcases keys with keys | keys
    · exact ⟨keys ▸ others, keys ▸ h.nodup⟩
    · refine ⟨keys ▸ List.forall_mem_cons.2 ⟨names ▸ List.mem_cons_self, others⟩, ?_⟩
      rw [keys, List.map_cons]
      refine List.nodup_cons.2 ⟨fun member => fresh ?_, h.nodup⟩
      obtain ⟨other, present, same⟩ := List.mem_map.1 member
      exact same ▸ h.names other present

end Steps

/-- What every item keeps holds of what the tokens of a whole pattern are made of. -/
theorem exists_finish_of_tokensOf {options : Options} {pattern : String} {tokens : List Token}
    {invariant : Assembly → Prop} (start : invariant {})
    (add : ∀ found, lexemes pattern = .ok found → ∀ item ∈ (items found).1, ∀ assembly next,
      invariant assembly → assembly.add options item = .ok next → invariant next)
    (h : tokensOf options pattern = .ok tokens) :
    ∃ assembly : Assembly, invariant assembly ∧
      ∃ text, tokens = (literalOf options text ++ assembly.tokens).reverse := by
  unfold tokensOf at h
  split at h
  · cases h
  · rename_i found read
    simp only [tokensOfLexemes, tokensOfItems] at h
    have add := add found read
    generalize items found = result at h add
    obtain ⟨items, stop⟩ := result
    obtain ⟨assembly, assembled, finish⟩ := exists_of_bind_eq_ok h
    cases stop with
    | some error => cases finish
    | none =>
      cases finish
      exact ⟨assembly, foldlM_invariant add start assembled, assembly.release.text,
        congrArg List.reverse (@tokens_flush options assembly.release)⟩

theorem keysOf_tokensOf {options : Options} {pattern : String} {tokens : List Token}
    {invariant : Assembly → Prop} (start : invariant {})
    (add : ∀ found, lexemes pattern = .ok found → ∀ item ∈ (items found).1, ∀ assembly next,
      invariant assembly → assembly.add options item = .ok next → invariant next)
    (h : tokensOf options pattern = .ok tokens) :
    ∃ assembly : Assembly, invariant assembly ∧
      keysOf tokens = (keysOf assembly.tokens).reverse := by
  obtain ⟨assembly, holds, text, rfl⟩ := exists_finish_of_tokensOf start add h
  exact ⟨assembly, holds, List.filterMap_reverse.trans (congrArg List.reverse keysOf_literalOf)⟩

end Assembly

/-- No two keys of a pattern that capture a value have one name. -/
theorem nodup_names_of_tokensOf {options : Options} {pattern : String} {tokens : List Token}
    (h : tokensOf options pattern = .ok tokens) : ((capturingKeys tokens).map Key.name).Nodup := by
  obtain ⟨assembly, claimed, keys⟩ := @Assembly.keysOf_tokensOf _ _ _ Assembly.Claimed
    ⟨nofun, .nil⟩ (fun _ _ _ _ _ _ claimed added => claimed.add added) h
  rw [capturingKeys, keys, List.filter_reverse, List.map_reverse]
  exact List.pairwise_reverse.2 (claimed.nodup.imp Ne.symm)

end PathTemplate
