import TurboGeth.Trie.Fresh
import TurboGeth.Trie.Hasher

/-!
# The hash cache

`hashInternal` writes every hash it computes into the flags of the node it
hashed and marks the node clean; the next `Hash` reads a clean node's cached
hash instead of walking it.  The cache is coherent: once `Hash` has run, every
node contributes what it contributed before, so a second `Hash` returns the
root of the first.  The induction follows `afterHashInternal`: a node that was
hashed returns its cached hash, which is the one just computed, and a node left
dirty, its encoding being embedded in its parent's, is encoded again from
children that contribute what they did.
-/

set_option autoImplicit false

namespace TurboGeth.Trie

/-! ## The shape of a node -/

/-- A node with its flags forgotten and its short keys written as the compact
forms of their hex keys. -/
def Node.skeleton : Node → Node
  | .fullNode children _ => .fullNode (fun i => (children i).skeleton) { dirty := true }
  | .duoNode mask child1 child2 _ => .duoNode mask child1.skeleton child2.skeleton { dirty := true }
  | .shortNode key val _ => .shortNode (hexToCompact (compactToHex key)) val.skeleton { dirty := true }
  | other => other

@[simp] theorem Node.isNil_skeleton (n : Node) : n.skeleton.isNil = n.isNil := by
  cases n <;> rfl

@[simp] theorem Node.asValue_skeleton (n : Node) : n.skeleton.asValue = n.asValue := by
  cases n <;> rfl

section Cache

variable (keccak : Bytes → Bytes) (encodeToBytes : Bool)

@[simp] theorem isNil_afterHashInternal (n : Node) (force : Bool) :
    (afterHashInternal keccak encodeToBytes n force).isNil = n.isNil := by
  cases n <;> simp only [afterHashInternal] <;> split <;> rfl

@[simp] theorem asValue_afterHashInternal (n : Node) (force : Bool) :
    (afterHashInternal keccak encodeToBytes n force).asValue = n.asValue := by
  cases n <;> simp only [afterHashInternal] <;> split <;> rfl

theorem hashChild_congr {child child' : Node} (sameNil : child'.isNil = child.isNil)
    (same : hashInternal keccak encodeToBytes child' false = hashInternal keccak encodeToBytes child false) :
    hashChild keccak encodeToBytes child' = hashChild keccak encodeToBytes child := by
  rw [hashChild, hashChild, sameNil, same]

/-- A dirty node, and the node with the same encoding that carries the flags
the cache leaves, contribute the same bytes: the stored hash when it was
cached, the same encoding when it was not. -/
theorem hashInternal_cached {n n' : Node} {force : Bool} {flags : NodeFlag}
    (notHash : ∀ hash, n ≠ .hashNode hash) (notHash' : ∀ hash, n' ≠ .hashNode hash) (dirty : n.dirty = true)
    (flagsDirty : flags.dirty = true)
    (cachedDirty : n'.dirty = (flags.cache (store keccak (hashChildren keccak encodeToBytes n) force)).dirty)
    (cachedHash : n'.hash = (flags.cache (store keccak (hashChildren keccak encodeToBytes n) force)).hash)
    (sameEncoding : hashChildren keccak encodeToBytes n' = hashChildren keccak encodeToBytes n) :
    hashInternal keccak encodeToBytes n' force = hashInternal keccak encodeToBytes n force := by
  rw [hashInternal_loaded keccak encodeToBytes notHash', hashInternal_loaded keccak encodeToBytes notHash,
    if_pos dirty, cachedDirty, cachedHash, sameEncoding]
  unfold NodeFlag.cache
  split <;> simp

/-- The slots of a duo node as `Hash` leaves it, read through any `f` that
`Hash` does not change on either child: the loop over the slots meets the
second child only in a slot other than the first's. -/
theorem duoSlots_afterHash {α : Type} (f : Node → α) (other : α) (mask : UInt32) {child1 child2 child1' child2' : Node}
    (same1 : f child1' = f child1) (same2 : f child2' = f child2) :
    (fun i => if i = (childrenIdx mask).1 then f child1'
      else if i = (childrenIdx mask).2 then f (if (childrenIdx mask).2 = (childrenIdx mask).1 then child2 else child2')
      else other) =
    fun i => if i = (childrenIdx mask).1 then f child1 else if i = (childrenIdx mask).2 then f child2 else other := by
  funext i
  by_cases first : i = (childrenIdx mask).1
  · simp only [if_pos first, same1]
  · by_cases second : i = (childrenIdx mask).2
    · have apart : (childrenIdx mask).2 ≠ (childrenIdx mask).1 := fun same => first (second.trans same)
      simp only [if_neg first, if_pos second, if_neg apart, same2]
    · simp only [if_neg first, if_neg second]

theorem afterHashInternal_coherent (n : Node) :
    ∀ force, hashChildren keccak encodeToBytes (afterHashInternal keccak encodeToBytes n force) =
        hashChildren keccak encodeToBytes n ∧
      hashInternal keccak encodeToBytes (afterHashInternal keccak encodeToBytes n force) force =
        hashInternal keccak encodeToBytes n force := by
  induction n with
  | nil | hashNode | valueNode => intro force; exact ⟨rfl, rfl⟩
  | shortNode key val flags valCoherent =>
      intro force
      by_cases dirty : flags.dirty = true
      · have valSame := hashChild_congr keccak encodeToBytes (isNil_afterHashInternal keccak encodeToBytes val false)
          (valCoherent false).2
        have encoded : hashChildren keccak encodeToBytes
            (.shortNode key (afterHashInternal keccak encodeToBytes val false)
              (flags.cache (store keccak (hashChildren keccak encodeToBytes (.shortNode key val flags)) force))) =
            hashChildren keccak encodeToBytes (.shortNode key val flags) := by
          rw [hashChildren, hashChildren, asValue_afterHashInternal, valSame]
        rw [afterHashInternal, if_pos dirty]
        exact ⟨encoded, hashInternal_cached keccak encodeToBytes (fun _ => by simp) (fun _ => by simp) dirty dirty
          rfl rfl encoded⟩
      · rw [afterHashInternal, if_neg dirty]
        exact ⟨rfl, rfl⟩
  | duoNode mask child1 child2 flags coherent1 coherent2 =>
      intro force
      by_cases dirty : flags.dirty = true
      · have same1 := hashChild_congr keccak encodeToBytes (isNil_afterHashInternal keccak encodeToBytes child1 false)
          (coherent1 false).2
        have same2 := hashChild_congr keccak encodeToBytes (isNil_afterHashInternal keccak encodeToBytes child2 false)
          (coherent2 false).2
        have encoded : hashChildren keccak encodeToBytes
            (.duoNode mask (afterHashInternal keccak encodeToBytes child1 false)
              (if (childrenIdx mask).2 = (childrenIdx mask).1 then child2
                else afterHashInternal keccak encodeToBytes child2 false)
              (flags.cache (store keccak (hashChildren keccak encodeToBytes (.duoNode mask child1 child2 flags))
                force))) =
            hashChildren keccak encodeToBytes (.duoNode mask child1 child2 flags) := by
          rw [hashChildren, hashChildren, duoSlots_afterHash (hashChild keccak encodeToBytes) [128] mask same1 same2]
        rw [afterHashInternal, if_pos dirty]
        exact ⟨encoded, hashInternal_cached keccak encodeToBytes (fun _ => by simp) (fun _ => by simp) dirty dirty
          rfl rfl encoded⟩
      · rw [afterHashInternal, if_neg dirty]
        exact ⟨rfl, rfl⟩
  | fullNode children flags childrenCoherent =>
      intro force
      by_cases dirty : flags.dirty = true
      · have childSame : ∀ i, hashChild keccak encodeToBytes
            (afterHashInternal keccak encodeToBytes (children i) false) =
            hashChild keccak encodeToBytes (children i) := fun i =>
          hashChild_congr keccak encodeToBytes (isNil_afterHashInternal keccak encodeToBytes (children i) false)
            (childrenCoherent i false).2
        -- the value slot is left as it was
        have valueSlot : ¬ (16 : Nibble).val < 16 := by decide
        have encoded : hashChildren keccak encodeToBytes
            (.fullNode (fun i => if i.val < 16 then afterHashInternal keccak encodeToBytes (children i) false
                else children i)
              (flags.cache (store keccak (hashChildren keccak encodeToBytes (.fullNode children flags)) force))) =
            hashChildren keccak encodeToBytes (.fullNode children flags) := by
          rw [hashChildren, hashChildren]
          simp only [Fin.val_castSucc, Fin.is_lt, if_true, childSame, if_neg valueSlot]
        rw [afterHashInternal, if_pos dirty]
        exact ⟨encoded, hashInternal_cached keccak encodeToBytes (fun _ => by simp) (fun _ => by simp) dirty dirty
          rfl rfl encoded⟩
      · rw [afterHashInternal, if_neg dirty]
        exact ⟨rfl, rfl⟩

end Cache

/-! ## Coherent caches -/

/-- A node as `insert`, `delete` and `Hash` leave it: no hash node, every
short key the compact form of a hex key, and every clean node's cached hash
what the node contributes when it is encoded, with `force` at this node and
without it below. -/
inductive Node.Cached (keccak : Bytes → Bytes) (encodeToBytes : Bool) : Node → Bool → Prop
  | nil (force : Bool) : Node.Cached keccak encodeToBytes .nil force
  | valueNode (value : Bytes) (force : Bool) : Node.Cached keccak encodeToBytes (.valueNode value) force
  | shortNode (key : Bytes) (hex : List Nibble) (shape : TermLast hex) (compact : key = hexToCompact hex)
      (val : Node) (flags : NodeFlag) (force : Bool) (valCached : Node.Cached keccak encodeToBytes val false)
      (coherent : flags.dirty = false →
        flags.hash = store keccak (hashChildren keccak encodeToBytes (.shortNode key val flags)) force) :
      Node.Cached keccak encodeToBytes (.shortNode key val flags) force
  | duoNode (mask : UInt32) (child1 child2 : Node) (flags : NodeFlag) (force : Bool)
      (cached1 : Node.Cached keccak encodeToBytes child1 false) (cached2 : Node.Cached keccak encodeToBytes child2 false)
      (coherent : flags.dirty = false →
        flags.hash = store keccak (hashChildren keccak encodeToBytes (.duoNode mask child1 child2 flags)) force) :
      Node.Cached keccak encodeToBytes (.duoNode mask child1 child2 flags) force
  | fullNode (children : Nibble → Node) (flags : NodeFlag) (force : Bool)
      (childrenCached : ∀ i, Node.Cached keccak encodeToBytes (children i) false)
      (coherent : flags.dirty = false →
        flags.hash = store keccak (hashChildren keccak encodeToBytes (.fullNode children flags)) force) :
      Node.Cached keccak encodeToBytes (.fullNode children flags) force

section Coherent

variable {keccak : Bytes → Bytes} {encodeToBytes : Bool}

theorem Node.Fresh.cached {n : Node} (fresh : n.Fresh) (keccak : Bytes → Bytes) (encodeToBytes : Bool) :
    ∀ force, n.Cached keccak encodeToBytes force := by
  induction fresh with
  | nil => exact .nil
  | valueNode value => exact .valueNode value
  | shortNode key hex shape compact val flags dirty _ valCached =>
      exact fun force => .shortNode key hex shape compact val flags force (valCached false)
        fun clean => absurd (dirty.symm.trans clean) Bool.noConfusion
  | duoNode mask child1 child2 flags dirty _ _ cached1 cached2 =>
      exact fun force => .duoNode mask child1 child2 flags force (cached1 false) (cached2 false)
        fun clean => absurd (dirty.symm.trans clean) Bool.noConfusion
  | fullNode children flags dirty _ childrenCached =>
      exact fun force => .fullNode children flags force (fun i => childrenCached i false)
        fun clean => absurd (dirty.symm.trans clean) Bool.noConfusion

namespace Node.Cached

theorem not_hash {n : Node} {force : Bool} (cached : n.Cached keccak encodeToBytes force) (hash : Bytes) :
    n ≠ .hashNode hash := by
  rintro rfl
  cases cached

theorem hashInternal_of_coherent {n m : Node} {force : Bool} (notHash : ∀ hash, n ≠ .hashNode hash)
    (notHash' : ∀ hash, m ≠ .hashNode hash) (dirty : m.dirty = true)
    (coherent : n.dirty = false → n.hash = store keccak (hashChildren keccak encodeToBytes n) force)
    (encoded : hashChildren keccak encodeToBytes n = hashChildren keccak encodeToBytes m) :
    hashInternal keccak encodeToBytes n force = hashInternal keccak encodeToBytes m force := by
  rw [hashInternal_loaded keccak encodeToBytes notHash, hashInternal_loaded keccak encodeToBytes notHash',
    if_pos dirty]
  split
  · rw [encoded]
  · next clean => rw [coherent (by simpa using clean), encoded]

theorem hashInternal_skeleton_of {n : Node} {force : Bool} (cached : n.Cached keccak encodeToBytes force)
    (encoded : hashChildren keccak encodeToBytes n = hashChildren keccak encodeToBytes n.skeleton) :
    hashInternal keccak encodeToBytes n force = hashInternal keccak encodeToBytes n.skeleton force := by
  cases cached with
  | nil | valueNode => rfl
  | shortNode _ _ _ _ _ _ _ _ coherent =>
      exact hashInternal_of_coherent (fun _ => by simp) (fun _ => by simp [Node.skeleton]) rfl coherent encoded
  | duoNode _ _ _ _ _ _ _ coherent =>
      exact hashInternal_of_coherent (fun _ => by simp) (fun _ => by simp [Node.skeleton]) rfl coherent encoded
  | fullNode _ _ _ _ coherent =>
      exact hashInternal_of_coherent (fun _ => by simp) (fun _ => by simp [Node.skeleton]) rfl coherent encoded

theorem hashChild_skeleton_of {n : Node} (cached : n.Cached keccak encodeToBytes false)
    (encoded : hashChildren keccak encodeToBytes n = hashChildren keccak encodeToBytes n.skeleton) :
    hashChild keccak encodeToBytes n = hashChild keccak encodeToBytes n.skeleton :=
  (hashChild_congr keccak encodeToBytes (Node.isNil_skeleton n) (cached.hashInternal_skeleton_of encoded).symm).symm

theorem hashChildren_skeleton {n : Node} {force : Bool} (cached : n.Cached keccak encodeToBytes force) :
    hashChildren keccak encodeToBytes n = hashChildren keccak encodeToBytes n.skeleton := by
  induction cached with
  | nil | valueNode => rfl
  | shortNode key hex shape compact val flags force valCached _ valEncoded =>
      have keyIs : hexToCompact (compactToHex key) = key := by
        rw [compact, compactToHex_hexToCompact hex shape]
      simp only [Node.skeleton, keyIs]
      rw [hashChildren, hashChildren, Node.asValue_skeleton, valCached.hashChild_skeleton_of valEncoded]
  | duoNode mask child1 child2 flags force cached1 cached2 _ encoded1 encoded2 =>
      simp only [Node.skeleton]
      rw [hashChildren, hashChildren]
      simp only [cached1.hashChild_skeleton_of encoded1, cached2.hashChild_skeleton_of encoded2]
  | fullNode children flags force childrenCached _ childrenEncoded =>
      have childEncoded : ∀ i, hashChild keccak encodeToBytes (children i) =
          hashChild keccak encodeToBytes (children i).skeleton :=
        fun i => (childrenCached i).hashChild_skeleton_of (childrenEncoded i)
      simp only [Node.skeleton]
      rw [hashChildren, hashChildren]
      simp only [childEncoded, Node.asValue_skeleton]

theorem hashInternal_skeleton {n : Node} {force : Bool} (cached : n.Cached keccak encodeToBytes force) :
    hashInternal keccak encodeToBytes n force = hashInternal keccak encodeToBytes n.skeleton force :=
  cached.hashInternal_skeleton_of cached.hashChildren_skeleton

theorem hashChild_eq {n m : Node} (cached : n.Cached keccak encodeToBytes false)
    (cached' : m.Cached keccak encodeToBytes false) (same : n.skeleton = m.skeleton) :
    hashChild keccak encodeToBytes n = hashChild keccak encodeToBytes m := by
  rw [cached.hashChild_skeleton_of cached.hashChildren_skeleton,
    cached'.hashChild_skeleton_of cached'.hashChildren_skeleton, same]

theorem cache_coherent {flags : NodeFlag} (dirty : flags.dirty = true) (stored : Bytes) :
    (flags.cache stored).dirty = false → (flags.cache stored).hash = stored := by
  unfold NodeFlag.cache
  split
  · intro _
    rfl
  · intro clean
    rw [dirty] at clean
    contradiction

theorem afterHashed {n : Node} {force : Bool} (cached : n.Cached keccak encodeToBytes force) :
    (afterHashInternal keccak encodeToBytes n force).Cached keccak encodeToBytes force := by
  induction cached with
  | nil force => exact .nil force
  | valueNode value force => exact .valueNode value force
  | shortNode key hex shape compact val flags force valCached coherent valAfter =>
      have original := Node.Cached.shortNode key hex shape compact val flags force valCached coherent
      have encoded := (afterHashInternal_coherent keccak encodeToBytes (.shortNode key val flags) force).1
      rw [afterHashInternal] at encoded ⊢
      by_cases dirty : flags.dirty = true
      · rw [if_pos dirty] at encoded ⊢
        refine .shortNode key hex shape compact _ _ force valAfter fun clean => ?_
        rw [encoded]
        exact cache_coherent dirty _ clean
      · rw [if_neg dirty]
        exact original
  | duoNode mask child1 child2 flags force cached1 cached2 coherent after1 after2 =>
      have original := Node.Cached.duoNode mask child1 child2 flags force cached1 cached2 coherent
      have encoded := (afterHashInternal_coherent keccak encodeToBytes (.duoNode mask child1 child2 flags) force).1
      rw [afterHashInternal] at encoded ⊢
      by_cases dirty : flags.dirty = true
      · rw [if_pos dirty] at encoded ⊢
        have second : (if (childrenIdx mask).2 = (childrenIdx mask).1 then child2
            else afterHashInternal keccak encodeToBytes child2 false).Cached keccak encodeToBytes false := by
          split
          · exact cached2
          · exact after2
        refine .duoNode mask _ _ _ force after1 second fun clean => ?_
        rw [encoded]
        exact cache_coherent dirty _ clean
      · rw [if_neg dirty]
        exact original
  | fullNode children flags force childrenCached coherent childrenAfter =>
      have original := Node.Cached.fullNode children flags force childrenCached coherent
      have encoded := (afterHashInternal_coherent keccak encodeToBytes (.fullNode children flags) force).1
      rw [afterHashInternal] at encoded ⊢
      by_cases dirty : flags.dirty = true
      · rw [if_pos dirty] at encoded ⊢
        have slots : ∀ i, (if i.val < 16 then afterHashInternal keccak encodeToBytes (children i) false
            else children i).Cached keccak encodeToBytes false := by
          intro i
          split
          · exact childrenAfter i
          · exact childrenCached i
        refine .fullNode _ _ force slots fun clean => ?_
        rw [encoded]
        exact cache_coherent dirty _ clean
      · rw [if_neg dirty]
        exact original

end Node.Cached

end Coherent

/-- `Hash` is idempotent: the trie as the first `Hash` leaves it, with the
hashes it cached, has the same root hash. -/
theorem hashRoot_afterHash (keccak : Bytes → Bytes) (t : Trie) :
    (t.afterHash keccak).hashRoot keccak = t.hashRoot keccak := by
  unfold Trie.afterHash
  split
  · rfl
  · next live =>
      unfold Trie.hashRoot
      dsimp only
      rw [isNil_afterHashInternal, (afterHashInternal_coherent keccak t.encodeToBytes t.root true).2]

end TurboGeth.Trie
