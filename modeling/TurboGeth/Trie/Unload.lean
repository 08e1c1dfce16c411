import TurboGeth.Trie.RootHash

/-!
# Unloading old nodes

`Trie.UnloadOlderThan` of `trie/trie.go` replaces every duo and full node
last touched before block `gen` by a hash node holding its cached hash.  It
descends only into nodes whose oldest descendant (`tod`) is older than `gen`,
and panics on a node to unload that is still dirty, since its cached hash
would be stale.

The walk relies on `Hash` leaving no such node.  But `hashInternal` caches a
hash and clears the dirty bit only when it hashed the node: a node whose
encoding is shorter than a hash is embedded in its parent and stays dirty.  A
trie whose root is a short node over an embedded duo node, such as
`{do ↦ verb, dog ↦ puppy}`, makes `UnloadOlderThan` panic right after `Hash`.
-/

set_option autoImplicit false
set_option linter.dupNamespace false

namespace TurboGeth.Trie

/-- The panics of `unloadOlderThan`: a node to unload that is still dirty.
Go formats the node into the message; the model keeps its kind. -/
inductive UnloadPanic where
  | duoNodeDirty
  | fullNodeDirty
  deriving DecidableEq, Repr

/-- The loop of `unloadOlderThan` over a full node's slots, in order: each
child is replaced by what its walk left, and the first panic ends the loop. -/
def unloadSlots (unload : Nibble → Except UnloadPanic Node) :
    List Nibble → (Nibble → Node) → Except UnloadPanic (Nibble → Node)
  | [], children => .ok children
  | i :: rest, children => do
    let child ← unload i
    unloadSlots unload rest (Function.update children i child)

namespace Node

/-- `unloadOlderThan`: what stands in the node's place once the walk is
done, and whether the node itself was unloaded into a hash node.  Go mutates
the children in place; the model returns the node with its new children. -/
def unloadOlderThan (gen : Nat) : Node → Except UnloadPanic (Node × Bool)
  | shortNode key val flags =>
    if flags.tod < gen then
      (unloadOlderThan gen val).map fun (val, _) => (shortNode key val flags, false)
    else .ok (shortNode key val flags, false)
  | duoNode mask child1 child2 flags =>
    if flags.t < gen then
      if flags.dirty then .error .duoNodeDirty else .ok (hashNode flags.hash, true)
    else if flags.tod < gen then do
      let (child1, _) ← unloadOlderThan gen child1
      let (child2, _) ← unloadOlderThan gen child2
      pure (duoNode mask child1 child2 flags, false)
    else .ok (duoNode mask child1 child2 flags, false)
  | fullNode children flags =>
    if flags.t < gen then
      if flags.dirty then .error .fullNodeDirty else .ok (hashNode flags.hash, true)
    else if flags.tod < gen then do
      -- a nil child is skipped in Go, and left as it is here
      let children ← unloadSlots (fun i => (unloadOlderThan gen (children i)).map Prod.fst) (List.finRange 17)
        children
      pure (fullNode children flags, false)
    else .ok (fullNode children flags, false)
  | n => .ok (n, false)

end Node

/-- `UnloadOlderThan`: whether the root itself was unloaded, and the trie. -/
def Trie.UnloadOlderThan (t : Trie) (gen : Nat) : Except UnloadPanic (Bool × Trie) := do
  let (root, unloaded) ← t.root.unloadOlderThan gen
  pure (unloaded, { t with root := root })

theorem unloadOlderThan_dirty_duo (gen : Nat) (key : Bytes) (mask : UInt32) (child1 child2 : Node)
    (flags duoFlags : NodeFlag) (stale : flags.tod < gen) (old : duoFlags.t < gen) (dirty : duoFlags.dirty = true) :
    (Node.shortNode key (.duoNode mask child1 child2 duoFlags) flags).unloadOlderThan gen = .error .duoNodeDirty := by
  rw [Node.unloadOlderThan, if_pos stale, Node.unloadOlderThan, if_pos old, if_pos dirty]
  rfl

section Hash

variable (keccak : Bytes → Bytes)

theorem afterHash_root_embedded_duo (t : Trie) (key : Bytes) (mask : UInt32) (child1 child2 : Node)
    (flags duoFlags : NodeFlag) (root : t.root = .shortNode key (.duoNode mask child1 child2 duoFlags) flags)
    (dirty : duoFlags.dirty = true)
    (embedded : (hashChildren keccak t.encodeToBytes (.duoNode mask child1 child2 duoFlags)).length < 32) :
    ∃ child1' child2' flags', (t.afterHash keccak).root = .shortNode key (.duoNode mask child1' child2' duoFlags) flags' ∧
      flags'.tod = flags.tod := by
  simp only [Trie.afterHash, root, Node.isNil]
  rw [afterHashInternal]
  by_cases rootDirty : flags.dirty = true
  · -- the root is hashed; below it the duo node is only embedded
    obtain ⟨child1', child2', kept⟩ :=
      afterHashInternal_duoNode_embedded keccak t.encodeToBytes mask child1 child2 duoFlags dirty embedded
    rw [if_pos rootDirty, kept]
    exact ⟨child1', child2', _, rfl, NodeFlag.cache_tod _ _⟩
  · -- a clean root is not walked at all
    rw [if_neg rootDirty]
    exact ⟨child1, child2, flags, rfl, rfl⟩

/-- After `Hash`, unloading a trie whose root is a short node over an
embedded duo node, older than `gen` below a short node older than `gen`,
panics: the duo node was never hashed, so it is still dirty. -/
theorem UnloadOlderThan_panics_after_Hash (t : Trie) (key : Bytes) (mask : UInt32) (child1 child2 : Node)
    (flags duoFlags : NodeFlag) (gen : Nat) (root : t.root = .shortNode key (.duoNode mask child1 child2 duoFlags) flags)
    (dirty : duoFlags.dirty = true) (old : duoFlags.t < gen) (stale : flags.tod < gen)
    (embedded : (hashChildren keccak t.encodeToBytes (.duoNode mask child1 child2 duoFlags)).length < 32) :
    (t.afterHash keccak).UnloadOlderThan gen = .error .duoNodeDirty := by
  obtain ⟨child1', child2', flags', hashed, sameTod⟩ :=
    afterHash_root_embedded_duo keccak t key mask child1 child2 flags duoFlags root dirty embedded
  have panics := unloadOlderThan_dirty_duo gen key mask child1' child2' flags' duoFlags (sameTod ▸ stale) old dirty
  rw [Trie.UnloadOlderThan, hashed, panics]
  rfl

end Hash

/-- `{do ↦ verb, dog ↦ puppy}`, written at block 0 into a new trie with no
database behind it and hashed (here with a hash that is always zero: the
branch embeds whatever the hash), panics when unloaded older than block 1. -/
theorem UnloadOlderThan_panics_on_doDog :
    runOps (fun tc => .ok tc) 1 (Trie.new zeroHash false)
        [.update [0x64, 0x6f] [0x76, 0x65, 0x72, 0x62] 0,
          .update [0x64, 0x6f, 0x67] [0x70, 0x75, 0x70, 0x70, 0x79] 0] = .ok ⟨doDogTrie, false⟩ ∧
      (Trie.afterHash (fun _ => zeroHash) ⟨doDogTrie, false⟩).UnloadOlderThan 1 = .error .duoNodeDirty :=
  ⟨runOps_doDog _ 0,
    UnloadOlderThan_panics_after_Hash (fun _ => zeroHash) ⟨doDogTrie, false⟩ _ _ _ _ _ _ 1 rfl rfl (by decide)
      (by decide) (by rw [hashChildren_doDogBranch]; decide)⟩

end TurboGeth.Trie
