import TurboGeth.Trie.Trie

/-!
# Hashing the trie

`hasher.go` and `Trie.Hash`.  A node's RLP is written into a buffer by hand
(`hashChildren`) and handed to `store`, which keeps the bytes when they are
shorter than a hash and no hash is forced, and hashes them otherwise.  In its
parent a child takes the byte `0xa0` and its hash, or, when shorter, its own
encoding spliced in.  A hash node contributes its bytes and a node that is
not dirty its cached hash.

The hash function is a parameter.  `hashInternal` is modelled by the bytes it
copies to `storeTo`, whose count is the `hashLen` it returns.  Go also writes a
fresh hash back into the node's flags and clears its dirty bit, but only when
the node was hashed: `afterHashInternal` is the node as that cache leaves it,
and `Trie.afterHash` the trie once `Hash` has run.
-/

set_option autoImplicit false
set_option linter.dupNamespace false

namespace TurboGeth.Trie

/-- `finishRLP`: the list header in front of a payload of `serLength` bytes,
the length in up to three bytes. -/
def finishRLP (payload : Bytes) : Bytes :=
  let serLength := payload.length
  (if serLength < 56 then [UInt8.ofNat (192 + serLength)]
  else if serLength < 256 then [UInt8.ofNat (247 + 1), UInt8.ofNat serLength]
  else if serLength < 65536 then
    [UInt8.ofNat (247 + 2), UInt8.ofNat (serLength >>> 8), UInt8.ofNat (serLength &&& 255)]
  else
    [UInt8.ofNat (247 + 3), UInt8.ofNat (serLength >>> 16), UInt8.ofNat ((serLength >>> 8) &&& 255),
      UInt8.ofNat (serLength &&& 255)]) ++ payload

/-- `generateByteArrayLen`: the string header of `l` bytes. -/
def generateByteArrayLen (l : Nat) : Bytes :=
  if l < 56 then [UInt8.ofNat (128 + l)]
  else if l < 256 then [UInt8.ofNat (183 + 1), UInt8.ofNat l]
  else if l < 65536 then [UInt8.ofNat (183 + 2), UInt8.ofNat (l >>> 8), UInt8.ofNat (l &&& 255)]
  else [UInt8.ofNat (183 + 3), UInt8.ofNat (l >>> 16), UInt8.ofNat ((l >>> 8) &&& 255), UInt8.ofNat (l &&& 255)]

/-- `generateByteArrayLenDouble`: the headers of a string of `l` bytes
wrapped into a second string, the outer one first. -/
def generateByteArrayLenDouble (l : Nat) : Bytes :=
  if l < 55 then [UInt8.ofNat (128 + l + 1), UInt8.ofNat (128 + l)]
  else if l < 254 then [UInt8.ofNat (183 + 1), UInt8.ofNat (l + 2), UInt8.ofNat (183 + 1), UInt8.ofNat l]
  else if l < 256 then
    [UInt8.ofNat (183 + 2), UInt8.ofNat ((l + 2) >>> 8), UInt8.ofNat ((l + 2) &&& 255),
      UInt8.ofNat (183 + 1), UInt8.ofNat l]
  else if l < 65534 then
    [UInt8.ofNat (183 + 2), UInt8.ofNat ((l + 3) >>> 8), UInt8.ofNat ((l + 3) &&& 255),
      UInt8.ofNat (183 + 2), UInt8.ofNat (l >>> 8), UInt8.ofNat (l &&& 255)]
  else if l < 65536 then
    [UInt8.ofNat (183 + 3), UInt8.ofNat ((l + 3) >>> 16), UInt8.ofNat (((l + 3) >>> 8) &&& 255),
      UInt8.ofNat ((l + 3) &&& 255), UInt8.ofNat (183 + 2), UInt8.ofNat ((l >>> 8) &&& 255), UInt8.ofNat (l &&& 255)]
  else
    [UInt8.ofNat (183 + 3), UInt8.ofNat ((l + 4) >>> 16), UInt8.ofNat (((l + 4) >>> 8) &&& 255),
      UInt8.ofNat ((l + 4) &&& 255), UInt8.ofNat (183 + 3), UInt8.ofNat (l >>> 16),
      UInt8.ofNat ((l >>> 8) &&& 255), UInt8.ofNat (l &&& 255)]

namespace Node

/-- `dirty()`: a value node always needs encoding, a hash node never. -/
def dirty : Node → Bool
  | fullNode _ flags => flags.dirty
  | duoNode _ _ _ flags => flags.dirty
  | shortNode _ _ flags => flags.dirty
  | valueNode _ => true
  | _ => false

/-- `hash()`: the cached hash of a loaded node, the bytes of a hash node. -/
def hash : Node → Bytes
  | fullNode _ flags => flags.hash
  | duoNode _ _ _ flags => flags.hash
  | shortNode _ _ flags => flags.hash
  | hashNode hash => hash
  | _ => []

end Node

/-- A string of one byte below `0x80`, which RLP writes as the byte itself. -/
def isSelf (b : Bytes) : Bool :=
  match b with
  | [x] => x < 128
  | _ => false

section Hasher

variable (keccak : Bytes → Bytes) (encodeToBytes : Bool)

/-- `store`: the encoding itself when it is shorter than a hash and no hash
is forced, its hash otherwise.  Go's branch for a nil encoding is reached
only through the panic of `hashChildren` on a hash node. -/
def store (children : Bytes) (force : Bool) : Bytes :=
  if children.length < 32 && !force then children else keccak children

mutual

/-- `hashChildren`: the RLP of a node, each child in its slot.  A value
below a short node gets a string header, doubled when `encodeToBytes`; the
value slot of a full node gets a string header; a value node on its own is
written raw unless `encodeToBytes`. -/
def hashChildren : Node → Bytes
  | .shortNode key val _ =>
      finishRLP ((if isSelf key then key else UInt8.ofNat (128 + key.length) :: key) ++
        match val.asValue with
        | some vn =>
            if isSelf vn then vn
            else (if encodeToBytes then generateByteArrayLenDouble vn.length else generateByteArrayLen vn.length) ++ vn
        | none => hashChild val)
  | .duoNode mask child1 child2 _ =>
      -- a duo node's children go through `hashInternal`, a value in slot 16 too
      finishRLP ((List.finRange 17).flatMap fun i =>
        if i = (childrenIdx mask).1 then hashChild child1
        else if i = (childrenIdx mask).2 then hashChild child2
        else [128])
  | .fullNode children _ =>
      finishRLP (((List.finRange 16).flatMap fun i => hashChild (children i.castSucc)) ++
        match (children 16).asValue with
        | some vn => if isSelf vn then vn else generateByteArrayLen vn.length ++ vn
        | none => [128])
  | .valueNode value =>
      if isSelf value then value else (if encodeToBytes then generateByteArrayLen value.length else []) ++ value
  | _ => []
termination_by n => (n.size, 0)
decreasing_by
  · exact Prod.Lex.left _ _ (Node.size_val_lt _ _ _)
  · exact Prod.Lex.left _ _ (Node.size_child1_lt _ _ _ _)
  · exact Prod.Lex.left _ _ (Node.size_child2_lt _ _ _ _)
  · exact Prod.Lex.left _ _ (Node.size_children_lt _ _ _)

/-- A child written into its parent's slot: `0x80` for nil, otherwise
`hashInternal` behind a reserved byte, which becomes `0xa0` before a hash and
is dropped before an embedded encoding. -/
def hashChild (child : Node) : Bytes :=
  if child.isNil then [128]
  else
    let stored := hashInternal child false
    if stored.length = 32 then 160 :: stored else stored
termination_by (child.size, 2)

/-- `hashInternal`: what the node contributes in place of itself, a hash or
an encoding shorter than a hash. -/
def hashInternal (n : Node) (force : Bool) : Bytes :=
  match n with
  | .hashNode hash => hash
  | n => if n.dirty then store keccak (hashChildren n) force else n.hash
termination_by (n.size, 1)

end

/-- `hashRoot`, which `Hash` returns: `emptyRoot` for an empty trie, the
forced hash of the root otherwise. -/
def Trie.hashRoot (t : Trie) : Bytes :=
  if t.root.isNil then emptyRoot else hashInternal keccak t.encodeToBytes t.root true

theorem hashInternal_loaded {n : Node} (notHash : ∀ hash, n ≠ .hashNode hash) (force : Bool) :
    hashInternal keccak encodeToBytes n force =
      if n.dirty then store keccak (hashChildren keccak encodeToBytes n) force else n.hash := by
  rw [hashInternal]
  exact notHash

@[simp] theorem hashChild_nil : hashChild keccak encodeToBytes .nil = [128] := by
  rw [hashChild]
  rfl

theorem hashChild_embedded {child : Node} (live : child.isNil = false) (notHash : ∀ hash, child ≠ .hashNode hash)
    (dirty : child.dirty = true) (short : (hashChildren keccak encodeToBytes child).length < 32) :
    hashChild keccak encodeToBytes child = hashChildren keccak encodeToBytes child := by
  have stored : hashInternal keccak encodeToBytes child false = hashChildren keccak encodeToBytes child := by
    rw [hashInternal_loaded keccak encodeToBytes notHash, if_pos dirty, store, if_pos (by simpa using short)]
  rw [hashChild, if_neg (by simp [live])]
  simp only [stored, if_neg (Nat.ne_of_lt short)]

theorem hashRoot_dirty {t : Trie} (live : t.root.isNil = false) (notHash : ∀ hash, t.root ≠ .hashNode hash)
    (dirty : t.root.dirty = true) : t.hashRoot keccak = keccak (hashChildren keccak t.encodeToBytes t.root) := by
  rw [Trie.hashRoot, if_neg (by simp [live]), hashInternal_loaded keccak t.encodeToBytes notHash, if_pos dirty,
    store]
  simp

/-! ## The hash cache -/

/-- The flags `hashInternal` leaves on a node it stored as `stored`: a hash
is copied into them and the node becomes clean; an embedded encoding leaves
them as they were. -/
def NodeFlag.cache (flags : NodeFlag) (stored : Bytes) : NodeFlag :=
  if stored.length = 32 then { flags with hash := stored, dirty := false } else flags

@[simp] theorem NodeFlag.cache_t (flags : NodeFlag) (stored : Bytes) : (flags.cache stored).t = flags.t := by
  unfold NodeFlag.cache
  split <;> rfl

@[simp] theorem NodeFlag.cache_tod (flags : NodeFlag) (stored : Bytes) : (flags.cache stored).tod = flags.tod := by
  unfold NodeFlag.cache
  split <;> rfl

theorem NodeFlag.cache_short (flags : NodeFlag) {stored : Bytes} (short : stored.length < 32) :
    flags.cache stored = flags := by
  rw [NodeFlag.cache, if_neg (Nat.ne_of_lt short)]

/-- The node as `hashInternal` leaves it: a clean node and a hash node are
not walked; a dirty one has the children `hashChildren` hashed cached first,
then its own flags cached. -/
def afterHashInternal (n : Node) (force : Bool) : Node :=
  match n with
  | .shortNode key val flags =>
    if flags.dirty then
      .shortNode key (afterHashInternal val false) (flags.cache (store keccak (hashChildren keccak encodeToBytes n) force))
    else n
  | .duoNode mask child1 child2 flags =>
    if flags.dirty then
      -- the loop over the 17 slots meets `child2` only in a slot other than `child1`'s
      .duoNode mask (afterHashInternal child1 false)
        (if (childrenIdx mask).2 = (childrenIdx mask).1 then child2 else afterHashInternal child2 false)
        (flags.cache (store keccak (hashChildren keccak encodeToBytes n) force))
    else n
  | .fullNode children flags =>
    if flags.dirty then
      -- the value slot is written raw
      .fullNode (fun i => if i.val < 16 then afterHashInternal (children i) false else children i)
        (flags.cache (store keccak (hashChildren keccak encodeToBytes n) force))
    else n
  | n => n

/-- The trie once `Hash` has run: the root is hashed with `force`. -/
def Trie.afterHash (t : Trie) : Trie :=
  if t.root.isNil then t else { t with root := afterHashInternal keccak t.encodeToBytes t.root true }

theorem afterHashInternal_duoNode_embedded (mask : UInt32) (child1 child2 : Node) (flags : NodeFlag)
    (dirty : flags.dirty = true) (short : (hashChildren keccak encodeToBytes (.duoNode mask child1 child2 flags)).length < 32) :
    ∃ child1' child2', afterHashInternal keccak encodeToBytes (.duoNode mask child1 child2 flags) false =
      .duoNode mask child1' child2' flags := by
  have stored : store keccak (hashChildren keccak encodeToBytes (.duoNode mask child1 child2 flags)) false =
      hashChildren keccak encodeToBytes (.duoNode mask child1 child2 flags) := by
    rw [store, if_pos (by simpa using short)]
  rw [afterHashInternal, if_pos dirty, stored, NodeFlag.cache_short flags short]
  exact ⟨_, _, rfl⟩

end Hasher

end TurboGeth.Trie
