import TurboGeth.Trie.HashBuffer
import TurboGeth.Trie.MapSemantics
import Mathlib.Data.Set.Insert

/-!
# The root hash is a function of the contents

What `Trie.Hash` is for: two tries that hold the same keys and values have
the same root hash, whatever the order of the updates and deletions that
built them and whatever the blocks they were made in.  Two things make it so.

The shape is determined by the map.  A canonical trie has a value exactly
where a key ends, a short node only in front of a value or a real branch, a
duo node for two live slots and a full node for three or more.  So the map a
canonical node denotes determines the node up to its flags and up to how its
short keys are written: its `skeleton`.  The proof is by induction on one
derivation of `Canonical` and cases on the other, with the facts about path
maps from `PathMap`.

The hash reads the skeleton only, on every node whose cache is coherent
(`Node.Cached`, from `HashCache`), and in particular on the nodes `insert` and
`delete` build (`Node.Fresh`): such a node is dirty, so `hashInternal` encodes
it rather than reading a cached hash, and its short keys are the compact forms
of their hex keys.

Over whole runs, a trie that `New` creates on the empty root and that
`TryUpdate` and `TryDelete` change is canonical and fresh and denotes the map
of the abstract store at the stores' hex paths and nothing elsewhere.  Two
runs that leave the same last value at every key therefore end in tries with
the same root hash.
-/

set_option autoImplicit false

namespace TurboGeth.Trie

open PathMap

/-! ## The map determines the shape -/

theorem ordered_pair_eq {α : Type} [LinearOrder α] {a b a' b' : α} (ordered : a < b) (ordered' : a' < b')
    (same : ∀ i, (i = a ∨ i = b) ↔ (i = a' ∨ i = b')) : a = a' ∧ b = b' := by
  have pairs : ({a, b} : Set α) = {a', b'} := Set.ext fun i => by simpa using same i
  rcases Set.pair_eq_pair_iff.mp pairs with inOrder | ⟨swapped, swapped'⟩
  · exact inOrder
  · subst swapped swapped'
    exact absurd ordered (lt_asymm ordered')

theorem live_duoSlot {first second : PMap Nibble Bytes} (live1 : Live first) (live2 : Live second)
    (a b i : Nibble) : Live (if i = a then first else if i = b then second else empty) ↔ i = a ∨ i = b := by
  by_cases atA : i = a
  · simp [atA, live1]
  · by_cases atB : i = b
    · subst atB
      simp [atA, live2]
    · rw [if_neg atA, if_neg atB]
      simp only [atA, atB, or_self, iff_false]
      exact not_live_empty

namespace Node.Canonical

theorem live_denote {n : Node} {term : Bool} (canonical : n.Canonical term) (live : n.isNil = false) :
    Live n.denote := by
  induction canonical with
  | nil => simp at live
  | valueNode value => exact live_single value
  | shortNode key val flags _ _ valLive _ _ below => exact live_prefixed _ (below valLive)
  | duoNode lower higher ordered child1 child2 flags live1 _ _ _ below1 _ =>
      rw [Node.denote_duoNode_bits lower higher ordered]
      exact @live_branch Nibble Bytes _ lower (by simpa using below1 live1)
  | fullNode children flags threeLive _ below =>
      obtain ⟨i, member⟩ := List.exists_mem_of_length_pos (by omega : 0 < (liveList children).length)
      rw [Node.denote_fullNode]
      exact live_branch (below i ((mem_liveList children i).mp member))

theorem forks_denote {n : Node} {term : Bool} (canonical : n.Canonical term) (live : n.isNil = false)
    (notShort : n.isShort = false) : Forks n.denote := by
  cases canonical with
  | nil => simp at live
  | valueNode value => exact forks_single value
  | shortNode => simp at notShort
  | duoNode lower higher ordered child1 child2 flags live1 live2 canonical1 canonical2 =>
      rw [Node.denote_duoNode_bits lower higher ordered]
      refine forks_branch ordered.ne ?_ ?_
      · simpa using canonical1.live_denote live1
      · simpa [ordered.ne'] using canonical2.live_denote live2
  | fullNode children flags threeLive childrenCanonical =>
      -- the first two live slots
      rcases slots : liveList children with _ | ⟨a, _ | ⟨b, rest⟩⟩
      all_goals rw [slots] at threeLive
      · simp at threeLive
      · simp at threeLive
      have sorted := liveList_sorted children
      rw [slots] at sorted
      have apart : a < b := (List.pairwise_cons.mp sorted).1 b (by simp)
      have liveA := (mem_liveList children a).mp (by simp [slots])
      have liveB := (mem_liveList children b).mp (by simp [slots])
      exact forks_branch apart.ne ((childrenCanonical a).live_denote liveA) ((childrenCanonical b).live_denote liveB)

theorem isNil_eq {n m : Node} {term term' : Bool} (canonical : n.Canonical term) (canonical' : m.Canonical term')
    (same : n.denote = m.denote) : n.isNil = m.isNil := by
  cases nLive : n.isNil <;> cases mLive : m.isNil
  · rfl
  · have nEntry := canonical.live_denote nLive
    rw [same, Node.eq_nil_of_isNil mLive] at nEntry
    exact absurd nEntry not_live_empty
  · have mEntry := canonical'.live_denote mLive
    rw [← same, Node.eq_nil_of_isNil nLive] at mEntry
    exact absurd mEntry not_live_empty
  · rfl

theorem isShort_of_isShort {n m : Node} {term term' : Bool} (canonical : n.Canonical term)
    (canonical' : m.Canonical term') (same : n.denote = m.denote) (short : n.isShort = true) :
    m.isShort = true := by
  cases canonical with
  | shortNode key val flags keyLive keyShape valLive valNotShort valCanonical =>
      have mLive : m.isNil = false := by
        rw [← (Node.Canonical.shortNode key val flags keyLive keyShape valLive valNotShort valCanonical).isNil_eq
          canonical' same]
        rfl
      by_contra notShort
      obtain ⟨k, ks, keyIs⟩ := List.exists_cons_of_ne_nil keyLive
      have forks := canonical'.forks_denote mLive (by simpa using notShort)
      rw [← same, Node.denote_shortNode, keyIs] at forks
      exact not_forks_prefixed_cons k ks _ forks
  | _ => simp [Node.isShort] at short

theorem fullNode_denote_ne_duoNode {children : Nibble → Node} (threeLive : 3 ≤ (liveList children).length)
    (childrenCanonical : ∀ i, (children i).Canonical (decide (i = 16))) (flags : NodeFlag) (mask : UInt32)
    (child1 child2 : Node) (flags' : NodeFlag) :
    (Node.fullNode children flags).denote ≠ (Node.duoNode mask child1 child2 flags').denote := by
  intro same
  rw [Node.denote_fullNode, Node.denote_duoNode] at same
  have slots := congrFun (branch_injective same)
  have within : liveList children ⊆ [(childrenIdx mask).1, (childrenIdx mask).2] := by
    intro i member
    have live := (childrenCanonical i).live_denote ((mem_liveList children i).mp member)
    rw [slots i] at live
    by_cases first : i = (childrenIdx mask).1
    · simp [first]
    · by_cases second : i = (childrenIdx mask).2
      · simp [second]
      · rw [if_neg first, if_neg second] at live
        exact absurd live not_live_empty
  have bound := ((liveList_sorted children).nodup.subperm within).length_le
  simp only [List.length_cons, List.length_nil] at bound
  omega

theorem skeleton_eq {n : Node} {term : Bool} (canonical : n.Canonical term) :
    ∀ {m : Node}, m.Canonical term → n.denote = m.denote → n.skeleton = m.skeleton := by
  induction canonical with
  | nil term =>
      intro m canonical' same
      have mNil := (Node.Canonical.isNil_eq (.nil term) canonical' same).symm
      rw [Node.eq_nil_of_isNil (mNil.trans rfl)]
  | valueNode value =>
      intro m canonical' same
      cases canonical' with
      | nil => exact absurd (isNil_eq (.valueNode value) (.nil true) same) (by simp)
      | valueNode value' =>
          rw [Node.denote_valueNode, Node.denote_valueNode] at same
          rw [single_injective same]
  | shortNode key val flags keyLive keyShape valLive valNotShort valCanonical below =>
      intro m canonical' same
      have original := Node.Canonical.shortNode key val flags keyLive keyShape valLive valNotShort valCanonical
      have mShort := original.isShort_of_isShort canonical' same rfl
      cases canonical' with
      | shortNode key' val' flags' _ _ valLive' valNotShort' valCanonical' =>
          rw [Node.denote_shortNode, Node.denote_shortNode] at same
          -- the values fork, so the hex keys in front of them agree
          obtain ⟨keySame, valSame⟩ := prefixed_eq_prefixed (valCanonical.forks_denote valLive valNotShort)
            (valCanonical'.forks_denote valLive' valNotShort') same
          rw [← keySame] at valCanonical'
          simp only [Node.skeleton, keySame, below valCanonical' valSame]
      | _ => simp [Node.isShort] at mShort
  | duoNode lower higher ordered child1 child2 flags live1 live2 canonical1 canonical2 below1 below2 =>
      intro m canonical' same
      have original := Node.Canonical.duoNode lower higher ordered child1 child2 flags live1 live2 canonical1
        canonical2
      cases canonical' with
      | nil => exact absurd (original.isNil_eq (.nil false) same) (by simp)
      | shortNode key' val' flags' keyLive' keyShape' valLive' valNotShort' valCanonical' =>
          have short := Node.Canonical.isShort_of_isShort
            (.shortNode key' val' flags' keyLive' keyShape' valLive' valNotShort' valCanonical') original same.symm rfl
          simp at short
      | duoNode lower' higher' ordered' child1' child2' flags' live1' live2' canonical1' canonical2' =>
          rw [Node.denote_duoNode_bits _ _ ordered, Node.denote_duoNode_bits _ _ ordered'] at same
          have slots := congrFun (branch_injective same)
          -- the live slots name the two children on both sides
          have liveSlots : ∀ i, (i = lower ∨ i = higher) ↔ (i = lower' ∨ i = higher') := by
            intro i
            rw [← live_duoSlot (canonical1.live_denote live1) (canonical2.live_denote live2), slots i,
              live_duoSlot (canonical1'.live_denote live1') (canonical2'.live_denote live2')]
          obtain ⟨rfl, rfl⟩ := ordered_pair_eq ordered ordered' liveSlots
          have same1 := slots lower
          have same2 := slots higher
          simp only at same1
          simp only [if_neg ordered.ne'] at same2
          simp only [Node.skeleton, below1 canonical1' same1, below2 canonical2' same2]
      | fullNode children' flags' threeLive' childrenCanonical' =>
          exact absurd same.symm (fullNode_denote_ne_duoNode threeLive' childrenCanonical' _ _ _ _ _)
  | fullNode children flags threeLive childrenCanonical below =>
      intro m canonical' same
      have original := Node.Canonical.fullNode children flags threeLive childrenCanonical
      cases canonical' with
      | nil => exact absurd (original.isNil_eq (.nil false) same) (by simp)
      | shortNode key' val' flags' keyLive' keyShape' valLive' valNotShort' valCanonical' =>
          have short := Node.Canonical.isShort_of_isShort
            (.shortNode key' val' flags' keyLive' keyShape' valLive' valNotShort' valCanonical') original same.symm rfl
          simp at short
      | duoNode lower' higher' ordered' child1' child2' flags' =>
          exact absurd same (fullNode_denote_ne_duoNode threeLive childrenCanonical _ _ _ _ _)
      | fullNode children' flags' threeLive' childrenCanonical' =>
          rw [Node.denote_fullNode, Node.denote_fullNode] at same
          have slots := congrFun (branch_injective same)
          simp only [Node.skeleton]
          congr 1
          funext i
          exact below i (childrenCanonical' i) (slots i)

end Node.Canonical

/-! ## Hashing reads the shape -/

theorem hashInternal_eq_of_denote (keccak : Bytes → Bytes) (encodeToBytes : Bool) {n m : Node} {term : Bool}
    (canonical : n.Canonical term) (canonical' : m.Canonical term) {force : Bool}
    (cached : n.Cached keccak encodeToBytes force) (cached' : m.Cached keccak encodeToBytes force)
    (same : n.denote = m.denote) :
    hashInternal keccak encodeToBytes n force = hashInternal keccak encodeToBytes m force := by
  rw [cached.hashInternal_skeleton, cached'.hashInternal_skeleton, canonical.skeleton_eq canonical' same]

/-! ## Runs -/

/-- The map from hex paths that a store stands for: each key's value at the
key's hex path, and nothing on a path that is no key's. -/
def Store.paths (s : Store) : PMap Nibble Bytes := fun path =>
  match hexToKeybytes path with
  | .ok key => if keybytesToHex key = path then s.get key else none
  | .error _ => none

theorem Store.paths_keybytesToHex (s : Store) (key : Bytes) : s.paths (keybytesToHex key) = s.get key := by
  simp [Store.paths, hexToKeybytes_keybytesToHex]

theorem Store.paths_off (s : Store) {path : List Nibble} (off : ∀ key, keybytesToHex key ≠ path) :
    s.paths path = none := by
  unfold Store.paths
  split
  · rw [if_neg (off _)]
  · rfl

theorem Store.paths_empty : Store.empty.paths = PathMap.empty := by
  funext path
  unfold Store.paths
  split
  · simp [Store.empty]
  · rfl

theorem Store.paths_apply (s : Store) (op : TrieOp) :
    (s.apply op).paths = Function.update s.paths (keybytesToHex op.key) op.written := by
  funext path
  by_cases onPath : ∃ key, keybytesToHex key = path
  · obtain ⟨key, rfl⟩ := onPath
    rw [Store.paths_keybytesToHex]
    by_cases atKey : key = op.key
    · subst atKey
      simp [Store.apply]
    · have apart : keybytesToHex key ≠ keybytesToHex op.key := fun same => atKey (keybytesToHex_injective same)
      simp [Store.apply, atKey, Function.update_of_ne apart, Store.paths_keybytesToHex]
  · simp only [not_exists] at onPath
    rw [Store.paths_off _ onPath, Function.update_of_ne (Ne.symm (onPath op.key)), Store.paths_off _ onPath]

theorem Store.paths_congr {s s' : Store} (sameGet : ∀ key, s.get key = s'.get key) : s.paths = s'.paths := by
  funext path
  unfold Store.paths
  split
  · rw [sameGet]
  · rfl

/-- The trie holds exactly the store: canonical, built in memory, and
denoting the store's map. -/
structure Stores (t : Trie) (s : Store) : Prop where
  canonical : t.root.Canonical false
  fresh : t.root.Fresh
  denote : t.root.denote = s.paths

theorem Stores.represents {t : Trie} {s : Store} (stores : Stores t s) : Represents t s :=
  ⟨stores.canonical, fun key => by rw [stores.denote, Store.paths_keybytesToHex]⟩

theorem stores_new (encodeToBytes : Bool) : Stores (Trie.new zeroHash encodeToBytes) Store.empty := by
  have emptyRoot : Trie.new zeroHash encodeToBytes = { root := .nil, encodeToBytes := encodeToBytes } := by
    simp [Trie.new]
  rw [emptyRoot]
  exact ⟨.nil _, .nil, Store.paths_empty.symm⟩

section Run

variable (resolveWithDb : TrieContinuation → Except String TrieContinuation) (fuel : Nat)

theorem resolveLoop_round {tc tc' : TrieContinuation} {t t' : Trie} {blockNr : Nat} {events more : List GenEvent}
    (done : runWithDb tc t.root blockNr = .ok (true, tc', events))
    (looped : resolveLoop resolveWithDb (fuel + 1) tc t blockNr = .ok (t', more)) : t' = { t with root := tc'.n } := by
  rw [resolveLoop_done resolveWithDb fuel done, Except.ok.injEq, Prod.mk.injEq] at looped
  exact looped.1.symm

/-- On a canonical trie an operation is one round of `RunWithDb` that
finishes at once, for a continuation that carries the operation's hex key and
a value built in memory; the trie takes the node that round leaves. -/
theorem applyOp_round {t t' : Trie} (canonical : t.root.Canonical false) (op : TrieOp)
    (applied : applyOp resolveWithDb (fuel + 1) t op = .ok t') :
    ∃ tc tc' events blockNr, HexKey tc.key ∧ tc.value.Fresh ∧
      runWithDb tc t.root blockNr = .ok (true, tc', events) ∧ t' = { t with root := tc'.n } := by
  cases op with
  | update key value blockNr =>
      obtain ⟨⟨t'', more⟩, looped, rfl⟩ := ExceptRun.map_eq_ok.mp applied
      have shape : HexKey (updateAction key value).key := by
        unfold updateAction
        split <;> exact hexKey_keybytesToHex key
      have valueFresh : (updateAction key value).value.Fresh := by
        unfold updateAction
        split
        · exact .valueNode value
        · exact .nil
      -- the round finishes at once, whether the value is stored or the key deleted
      have finished : ∃ tc' events, runWithDb (updateAction key value) t.root blockNr = .ok (true, tc', events) := by
        by_cases nonEmpty : value.length ≠ 0
        · obtain ⟨tc', events, done, _⟩ := runWithDb_insert canonical (updateAction key value) key value
            (by simp [updateAction, nonEmpty]) (by simp [updateAction, nonEmpty]) (by simp [updateAction, nonEmpty])
            blockNr
          exact ⟨tc', events, done⟩
        · obtain ⟨tc', events, done, _⟩ := runWithDb_delete canonical (updateAction key value) key
            (by simp [updateAction, nonEmpty]) (by simp [updateAction, nonEmpty]) blockNr
          exact ⟨tc', events, done⟩
      obtain ⟨tc', events, done⟩ := finished
      exact ⟨_, tc', events, blockNr, shape, valueFresh, done, resolveLoop_round resolveWithDb fuel done looped⟩
  | delete key blockNr =>
      obtain ⟨⟨t'', more⟩, looped, rfl⟩ := ExceptRun.map_eq_ok.mp applied
      obtain ⟨tc', events, done, _⟩ := runWithDb_delete canonical (deleteAction key) key rfl rfl blockNr
      exact ⟨_, tc', events, blockNr, hexKey_keybytesToHex key, .nil, done,
        resolveLoop_round resolveWithDb fuel done looped⟩

theorem applyOp_fresh {t t' : Trie} (canonical : t.root.Canonical false) (fresh : t.root.Fresh) (op : TrieOp)
    (applied : applyOp resolveWithDb (fuel + 1) t op = .ok t') : t'.root.Fresh := by
  obtain ⟨tc, tc', events, blockNr, shape, valueFresh, done, rfl⟩ :=
    applyOp_round resolveWithDb fuel canonical op applied
  exact runWithDb_fresh fresh shape valueFresh blockNr done

theorem applyOp_stores : Simulation.Refines Stores (applyOp resolveWithDb (fuel + 1)) Store.apply := by
  intro t s op stores
  obtain ⟨t', applied, canonical, denote⟩ := applyOp_spec resolveWithDb fuel stores.canonical op
  refine ⟨t', applied, canonical, applyOp_fresh resolveWithDb fuel stores.canonical stores.fresh op applied, ?_⟩
  rw [denote, stores.denote, Store.paths_apply]

theorem runOps_stores (encodeToBytes : Bool) (ops : List TrieOp) :
    ∃ t, runOps resolveWithDb (fuel + 1) (Trie.new zeroHash encodeToBytes) ops = .ok t ∧
      Stores t (Store.ofOps ops) :=
  Simulation.foldlM_refines (applyOp_stores resolveWithDb fuel) ops _ _ (stores_new encodeToBytes)

theorem resolveLoop_encodeToBytes :
    ∀ (rounds : Nat) (tc : TrieContinuation) (t t' : Trie) (blockNr : Nat) (events : List GenEvent),
      resolveLoop resolveWithDb rounds tc t blockNr = .ok (t', events) → t'.encodeToBytes = t.encodeToBytes
  | 0, _, _, _, _, _, looped => by simp [resolveLoop] at looped
  | rounds + 1, tc, t, t', blockNr, events, looped => by
      rw [resolveLoop] at looped
      obtain ⟨⟨done, tc', first⟩, _, looped⟩ := ExceptRun.bind_eq_ok.mp looped
      dsimp only at looped
      split at looped
      · rw [ExceptRun.pure_eq_ok, Except.ok.injEq, Prod.mk.injEq] at looped
        rw [← looped.1]
      · -- another round, on the trie with the new root
        obtain ⟨resolved, _, looped⟩ := ExceptRun.bind_eq_ok.mp looped
        obtain ⟨⟨t'', more⟩, inner, looped⟩ := ExceptRun.bind_eq_ok.mp looped
        rw [ExceptRun.pure_eq_ok, Except.ok.injEq, Prod.mk.injEq] at looped
        rw [← looped.1]
        exact resolveLoop_encodeToBytes rounds resolved { t with root := tc'.n } t'' blockNr more inner

theorem runOps_encodeToBytes (encodeToBytes : Bool) (ops : List TrieOp) (t : Trie)
    (run : runOps resolveWithDb fuel (Trie.new zeroHash encodeToBytes) ops = .ok t) :
    t.encodeToBytes = encodeToBytes := by
  refine Simulation.foldlM_preserves (fun t : Trie => t.encodeToBytes = encodeToBytes) ?_ ops _ t rfl run
  intro t op t' kept applied
  rw [← kept]
  cases op with
  | update key value blockNr =>
      obtain ⟨⟨t'', more⟩, looped, rfl⟩ := ExceptRun.map_eq_ok.mp applied
      exact resolveLoop_encodeToBytes resolveWithDb fuel _ t t'' blockNr more looped
  | delete key blockNr =>
      obtain ⟨⟨t'', more⟩, looped, rfl⟩ := ExceptRun.map_eq_ok.mp applied
      exact resolveLoop_encodeToBytes resolveWithDb fuel _ t t'' blockNr more looped

end Run

theorem hashRoot_eq_of_stores (keccak : Bytes → Bytes) {t t' : Trie} {s : Store} (stores : Stores t s)
    (stores' : Stores t' s) (sameEncoding : t.encodeToBytes = t'.encodeToBytes) :
    t.hashRoot keccak = t'.hashRoot keccak := by
  have same : t.root.denote = t'.root.denote := stores.denote.trans stores'.denote.symm
  unfold Trie.hashRoot
  rw [stores.canonical.isNil_eq stores'.canonical same, sameEncoding,
    hashInternal_eq_of_denote keccak t'.encodeToBytes stores.canonical stores'.canonical (stores.fresh.cached _ _ _)
      (stores'.fresh.cached _ _ _) same]

/-- Tries that hold the same store with the same encoding mode overflow the
hasher's buffer alike, so \`Hash\` returns the same on both: the same root
hash, or the same panic. -/
theorem Hash_eq_of_stores (keccak : Bytes → Bytes) {t t' : Trie} {s : Store} (stores : Stores t s)
    (stores' : Stores t' s) (sameEncoding : t.encodeToBytes = t'.encodeToBytes) :
    t.Hash keccak = t'.Hash keccak := by
  have same : t.root.denote = t'.root.denote := stores.denote.trans stores'.denote.symm
  have fits : bufferFits keccak t.encodeToBytes 0 t.root = bufferFits keccak t'.encodeToBytes 0 t'.root := by
    rw [bufferFits_skeleton stores.fresh, bufferFits_skeleton stores'.fresh,
      stores.canonical.skeleton_eq stores'.canonical same, sameEncoding]
  unfold Trie.Hash
  rw [stores.canonical.isNil_eq stores'.canonical same, fits, hashRoot_eq_of_stores keccak stores stores' sameEncoding]

/-- \`Hash\` depends on the contents only: two lists of updates and deletions
that leave the same last value at every key, in whatever order and at
whatever blocks, build tries on which \`Hash\` returns the same root hash, or
panics on both. -/
theorem Hash_of_lastWrite (resolveWithDb : TrieContinuation → Except String TrieContinuation) (fuel : Nat)
    (encodeToBytes : Bool) (keccak : Bytes → Bytes) (ops ops' : List TrieOp)
    (sameContents : ∀ key, lastWrite ops key = lastWrite ops' key) :
    ∃ t t', runOps resolveWithDb (fuel + 1) (Trie.new zeroHash encodeToBytes) ops = .ok t ∧
      runOps resolveWithDb (fuel + 1) (Trie.new zeroHash encodeToBytes) ops' = .ok t' ∧
      t.Hash keccak = t'.Hash keccak := by
  obtain ⟨t, run, stores⟩ := runOps_stores resolveWithDb fuel encodeToBytes ops
  obtain ⟨t', run', stores'⟩ := runOps_stores resolveWithDb fuel encodeToBytes ops'
  have samePaths : (Store.ofOps ops).paths = (Store.ofOps ops').paths :=
    Store.paths_congr fun key => by rw [Store.ofOps_get, Store.ofOps_get, sameContents]
  have stores'' : Stores t' (Store.ofOps ops) := ⟨stores'.canonical, stores'.fresh, stores'.denote.trans samePaths.symm⟩
  refine ⟨t, t', run, run', Hash_eq_of_stores keccak stores stores'' ?_⟩
  rw [runOps_encodeToBytes resolveWithDb (fuel + 1) encodeToBytes ops t run,
    runOps_encodeToBytes resolveWithDb (fuel + 1) encodeToBytes ops' t' run']

/-- Storing two keys and deleting one gives what \`Hash\` gives on storing
the other alone, in another block. -/
theorem Hash_of_lastWrite_delete_one :
    (∀ key, lastWrite [.update [1] [10] 0, .update [2] [20] 1, .delete [1] 2] key =
      lastWrite [.update [2] [20] 7] key) ∧
    ∃ t t', runOps (fun _ => .error "no database") 1 (Trie.new zeroHash false)
        [.update [1] [10] 0, .update [2] [20] 1, .delete [1] 2] = .ok t ∧
      runOps (fun _ => .error "no database") 1 (Trie.new zeroHash false) [.update [2] [20] 7] = .ok t' ∧
      t.Hash List.reverse = t'.Hash List.reverse := by
  have sameContents : ∀ key, lastWrite [.update [1] [10] 0, .update [2] [20] 1, .delete [1] 2] key =
      lastWrite [.update [2] [20] 7] key := by
    intro key
    by_cases first : key = [1]
    · subst first
      simp [lastWrite, TrieOp.key, TrieOp.written]
    by_cases second : key = [2]
    · subst second
      simp [lastWrite, TrieOp.key, TrieOp.written]
    simp [lastWrite, TrieOp.key, TrieOp.written, Ne.symm first, Ne.symm second]
  exact ⟨sameContents, Hash_of_lastWrite (fun _ => .error "no database") 0 false List.reverse _ _ sameContents⟩

end TurboGeth.Trie
