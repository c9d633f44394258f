import LayeredConfig.Yaml.Token

/-!
# The nesting of tokens

`Nest` counts the block and flow collections that tokens have opened and not closed, and `KeysInner` says that every key
mark stands inside a further collection of the outermost one. A block collection more around some tokens does not change
what they close (`afterAll_wrap`, `keysInner_wrap`).
-/

namespace LayeredConfig.Yaml

/-- How many block collections and flow collections are open. -/
structure Nest where
  blocks : Nat
  flows : Nat
  deriving DecidableEq, Repr

namespace Nest

/-- How many collections are open. -/
def depth (n : Nest) : Nat :=
  n.blocks + n.flows

/-- What is open when only the outermost block collection is. -/
def outermost : Nest := ⟨1, 0⟩

/-- The same with a block collection more around it. -/
def wrap (n : Nest) : Nest :=
  ⟨n.blocks + 1, n.flows⟩

/-- What is open behind a token; nothing is said if it closes what is not open. -/
def after (n : Nest) : Token → Option Nest
  | .blockSequenceStart | .blockMappingStart => some n.wrap
  | .blockEnd => if n.blocks = 0 then none else some ⟨n.blocks - 1, n.flows⟩
  | .flowSequenceStart | .flowMappingStart => some ⟨n.blocks, n.flows + 1⟩
  | .flowSequenceEnd | .flowMappingEnd => if n.flows = 0 then none else some ⟨n.blocks, n.flows - 1⟩
  | _ => some n

/-- What is open behind tokens. -/
def afterAll (n : Nest) (tokens : List Token) : Option Nest :=
  tokens.foldlM after n

end Nest

/-- Behind what is open, every key mark in these tokens has two collections around it. -/
def KeysInner (n : Nest) : List Token → Prop
  | [] => True
  | token :: rest => (token = .key → 1 < n.depth) ∧ ∀ n' ∈ n.after token, KeysInner n' rest

/-- A token that opens and closes nothing and is no key mark. -/
def Token.IsNeutral (token : Token) : Prop :=
  token ≠ .key ∧ ∀ n : Nest, n.after token = some n

variable {n n' : Nest} {token : Token} {tokens before behind : List Token}

@[simp] theorem depth_wrap (n : Nest) : n.wrap.depth = n.depth + 1 := by
  rw [Nest.depth, Nest.depth, Nest.wrap, Nat.add_right_comm]

theorem afterAll_append (n : Nest) (before behind : List Token) :
    n.afterAll (before ++ behind) = (n.afterAll before).bind fun n' => n'.afterAll behind := by
  rw [Nest.afterAll, List.foldlM_append]
  rfl

theorem afterAll_append_of_some (first : n.afterAll before = some n') :
    n.afterAll (before ++ behind) = n'.afterAll behind := by
  rw [afterAll_append, first, Option.bind_some]

theorem afterAll_cons (n : Nest) (token : Token) (tokens : List Token) :
    n.afterAll (token :: tokens) = (n.after token).bind fun n' => n'.afterAll tokens := by
  rw [Nest.afterAll, List.foldlM_cons]
  rfl

theorem afterAll_singleton (n : Nest) (token : Token) : n.afterAll [token] = n.after token := by
  rw [afterAll_cons]
  cases n.after token <;> rfl

theorem keysInner_append :
    KeysInner n (before ++ behind) ↔ KeysInner n before ∧ ∀ n' ∈ n.afterAll before, KeysInner n' behind := by
  induction before generalizing n with
  | nil => simp [KeysInner, Nest.afterAll]
  | cons token before ih =>
    rw [List.cons_append, KeysInner, KeysInner, afterAll_cons]
    cases n.after token with
    | none => simp
    | some next => simp [ih, and_assoc]

theorem keysInner_append_of_some (first : n.afterAll before = some n') :
    KeysInner n (before ++ behind) ↔ KeysInner n before ∧ KeysInner n' behind := by
  rw [keysInner_append, first]
  simp

/-- Nothing is asked of what stands behind the end of a collection that is not open. -/
theorem keysInner_append_of_none (first : n.afterAll before = none) :
    KeysInner n (before ++ behind) ↔ KeysInner n before := by
  rw [keysInner_append, first]
  simp

theorem keysInner_of_noKey (noKey : ∀ token ∈ tokens, token ≠ .key) : KeysInner n tokens := by
  induction tokens generalizing n with
  | nil => trivial
  | cons token tokens ih =>
    rw [List.forall_mem_cons] at noKey
    exact ⟨fun same => absurd same noKey.1, fun n' _ => ih noKey.2⟩

theorem keysInner_singleton (inner : token = .key → 1 < n.depth) : KeysInner n [token] :=
  ⟨inner, fun _ _ => trivial⟩

theorem Token.IsNeutral.keysInner (neutral : token.IsNeutral) : KeysInner n [token] :=
  keysInner_singleton fun same => absurd same neutral.1

/-! ## A collection more -/

theorem after_wrap (closes : n.after token = some n') : n.wrap.after token = some n'.wrap := by
  unfold Nest.after at closes ⊢
  split at closes
  · cases closes
    rfl
  · cases closes
    rfl
  · split at closes
    · cases closes
    · next opened =>
      cases closes
      have same : n.blocks - 1 + 1 = n.blocks := Nat.succ_pred_eq_of_ne_zero opened
      simp [Nest.wrap, same]
  · cases closes
    rfl
  · cases closes
    rfl
  · split at closes
    · cases closes
    · next opened =>
      cases closes
      simp [Nest.wrap, opened]
  · split at closes
    · cases closes
    · next opened =>
      cases closes
      simp [Nest.wrap, opened]
  · cases closes
    rfl

theorem afterAll_wrap (closes : n.afterAll tokens = some n') : n.wrap.afterAll tokens = some n'.wrap := by
  induction tokens generalizing n with
  | nil =>
    cases closes
    rfl
  | cons token tokens ih =>
    rw [afterAll_cons, Option.bind_eq_some_iff] at closes
    obtain ⟨next, first, rest⟩ := closes
    rw [afterAll_cons, after_wrap first]
    exact ih rest

/-- Where nothing is closed that is not open, key marks are further inside with a collection more. -/
theorem keysInner_wrap (inner : KeysInner n tokens) (closes : n.afterAll tokens = some n') :
    KeysInner n.wrap tokens := by
  induction tokens generalizing n with
  | nil => trivial
  | cons token tokens ih =>
    rw [afterAll_cons, Option.bind_eq_some_iff] at closes
    obtain ⟨next, first, rest⟩ := closes
    refine ⟨fun same => ?_, fun wrapped found => ?_⟩
    · rw [depth_wrap]
      exact Nat.lt_succ_of_lt (inner.1 same)
    · cases (after_wrap first).symm.trans found
      exact ih (inner.2 next first) rest

end LayeredConfig.Yaml
