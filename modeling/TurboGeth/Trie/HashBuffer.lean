import TurboGeth.Trie.HashCache

/-!
# The hasher's buffer

`hasher.go` writes every encoding into the hasher's one buffer,
`buffers [1024 * 1024]byte`.  A node hashed from `bufOffset` has its payload
written into `h.buffers[bufOffset:]` from position 4 (the four bytes before
it are left for the header), each child hashed from `bufOffset + pos + 1`,
behind the byte reserved for it, and `finishRLP` slices `buffer[..:pos]`,
which panics once `bufOffset + pos` passes the end of the buffer.  A write
past the end panics too, but every index written is below the final `pos`,
so the slice is the bound that decides.

`Trie.Hash` is `hashRoot` when every node the hasher encodes fits, and the
panic otherwise.
-/

set_option autoImplicit false
set_option linter.dupNamespace false

namespace TurboGeth.Trie

/-- `len(h.buffers)`. -/
def bufferSize : Nat := 1024 * 1024

section Buffer

variable (keccak : Bytes → Bytes) (encodeToBytes : Bool)

/-- The key of a short node as `hashChildren` writes it. -/
def shortKeyBytes (key : Bytes) : Bytes := if isSelf key then key else UInt8.ofNat (128 + key.length) :: key

/-- Slot `i` of a duo node: a child's reference, or `0x80`. -/
def duoSlot (mask : UInt32) (child1 child2 : Node) (i : Fin 17) : Bytes :=
  if i = (childrenIdx mask).1 then hashChild keccak encodeToBytes child1
  else if i = (childrenIdx mask).2 then hashChild keccak encodeToBytes child2
  else [128]

/-- The value slot of a full node. -/
def fullValueSlot (children : Nibble → Node) : Bytes :=
  match (children 16).asValue with
  | some vn => if isSelf vn then vn else generateByteArrayLen vn.length ++ vn
  | none => [128]

/-- What `hashChildren` writes between position 4 and `pos`; `finishRLP`
puts the header in front of it. -/
def hashPayload : Node → Bytes
  | .shortNode key val _ =>
      shortKeyBytes key ++
        match val.asValue with
        | some vn =>
            if isSelf vn then vn
            else (if encodeToBytes then generateByteArrayLenDouble vn.length else generateByteArrayLen vn.length) ++ vn
        | none => hashChild keccak encodeToBytes val
  | .duoNode mask child1 child2 _ => (List.finRange 17).flatMap (duoSlot keccak encodeToBytes mask child1 child2)
  | .fullNode children _ =>
      ((List.finRange 16).flatMap fun i => hashChild keccak encodeToBytes (children i.castSucc)) ++
        fullValueSlot children
  | .valueNode value => hashChildren keccak encodeToBytes (.valueNode value)
  | _ => []

/-- Where slot \`i\` of a loop over slots starts: after the four reserved
bytes and the slots before it. -/
def slotPos {k : Nat} (slot : Fin k → Bytes) (i : Fin k) : Nat :=
  4 + (((List.finRange k).take i).map fun j => (slot j).length).sum

/-- Whether `hashInternal` from `h.buffers[bufOffset:]` stays inside the
buffer: a hash node and a node that is not dirty are copied and not encoded;
an encoded node's payload must end within the buffer, and so must every
child it hashes, each from one past the byte reserved for it. -/
def bufferFits (bufOffset : Nat) : Node → Bool
  | .shortNode key val flags =>
      !flags.dirty ||
        (bufOffset + 4 + (hashPayload keccak encodeToBytes (.shortNode key val flags)).length ≤ bufferSize &&
          match val.asValue with
          | some _ => true
          | none => val.isNil || bufferFits (bufOffset + 4 + (shortKeyBytes key).length + 1) val)
  | .duoNode mask child1 child2 flags =>
      !flags.dirty ||
        (bufOffset + 4 + (hashPayload keccak encodeToBytes (.duoNode mask child1 child2 flags)).length ≤ bufferSize &&
          (List.finRange 17).all fun i =>
            let pos := slotPos (duoSlot keccak encodeToBytes mask child1 child2) i
            -- the loop tests the first index before the second
            if i = (childrenIdx mask).1 then child1.isNil || bufferFits (bufOffset + pos + 1) child1
            else if i = (childrenIdx mask).2 then child2.isNil || bufferFits (bufOffset + pos + 1) child2
            else true)
  | .fullNode children flags =>
      !flags.dirty ||
        (bufOffset + 4 + (hashPayload keccak encodeToBytes (.fullNode children flags)).length ≤ bufferSize &&
          (List.finRange 16).all fun i =>
            let pos := slotPos (fun j : Fin 16 => hashChild keccak encodeToBytes (children j.castSucc)) i
            (children i.castSucc).isNil || bufferFits (bufOffset + pos + 1) (children i.castSucc))
  -- `buffer[4:pos]`, with no header
  | .valueNode value => bufOffset + 4 + (hashPayload keccak encodeToBytes (.valueNode value)).length ≤ bufferSize
  | _ => true

/-- `Trie.Hash`: the root hash, or the panic of `finishRLP` when an encoding
passes the end of the buffer.  An empty trie is not encoded. -/
def Trie.Hash (t : Trie) : Except String Bytes :=
  if t.root.isNil || bufferFits keccak t.encodeToBytes 0 t.root then .ok (t.hashRoot keccak)
  else .error "slice bounds out of range"

end Buffer

theorem hashChildren_eq_finishRLP (keccak : Bytes → Bytes) (encodeToBytes : Bool) :
    ∀ n : Node, (∀ value, n ≠ .valueNode value) → n.isNil = false → (∀ hash, n ≠ .hashNode hash) →
      hashChildren keccak encodeToBytes n = finishRLP (hashPayload keccak encodeToBytes n)
  | .shortNode key val flags, _, _, _ => by rw [hashChildren]; rfl
  | .duoNode mask child1 child2 flags, _, _, _ => by rw [hashChildren]; rfl
  | .fullNode children flags, _, _, _ => by rw [hashChildren]; rfl
  | .valueNode value, notValue, _, _ => absurd rfl (notValue value)
  | .hashNode hash, _, _, notHash => absurd rfl (notHash hash)
  | .nil, _, live, _ => by simp [Node.isNil] at live

theorem Hash_eq_ok_iff (keccak : Bytes → Bytes) (t : Trie) (root : Bytes) :
    t.Hash keccak = .ok root ↔
      (t.root.isNil = true ∨ bufferFits keccak t.encodeToBytes 0 t.root = true) ∧ root = t.hashRoot keccak := by
  unfold Trie.Hash
  split <;> rename_i fits
  · simp only [Bool.or_eq_true] at fits
    simp only [Except.ok.injEq, fits, true_and]
    exact eq_comm
  · simp only [Bool.or_eq_true, not_or, Bool.not_eq_true] at fits
    simp [fits]

/-! ## The buffer reads the shape -/

section Skeleton

variable {keccak : Bytes → Bytes} {encodeToBytes : Bool}

theorem hashChild_skeleton {n : Node} (fresh : n.Fresh) :
    hashChild keccak encodeToBytes n = hashChild keccak encodeToBytes n.skeleton :=
  (fresh.cached keccak encodeToBytes false).hashChild_skeleton_of
    (fresh.cached keccak encodeToBytes false).hashChildren_skeleton

/-- A node built in memory fits the buffer exactly where its skeleton does:
what the hasher writes, and where, reads only the shape.  The induction
follows \`Fresh\`. -/
theorem bufferFits_skeleton {n : Node} (fresh : n.Fresh) :
    ∀ bufOffset, bufferFits keccak encodeToBytes bufOffset n = bufferFits keccak encodeToBytes bufOffset n.skeleton := by
  induction fresh with
  | nil | valueNode => exact fun _ => rfl
  | shortNode key hex shape compact val flags dirty valFresh valFits =>
      intro bufOffset
      have keyIs : hexToCompact (compactToHex key) = key := by
        rw [compact, compactToHex_hexToCompact hex shape]
      simp only [Node.skeleton, keyIs, bufferFits, hashPayload, dirty, Node.asValue_skeleton, Node.isNil_skeleton,
        hashChild_skeleton valFresh, valFits]
  | duoNode mask child1 child2 flags dirty fresh1 fresh2 fits1 fits2 =>
      intro bufOffset
      have slotsEq : duoSlot keccak encodeToBytes mask child1 child2 =
          duoSlot keccak encodeToBytes mask child1.skeleton child2.skeleton := by
        funext i
        simp only [duoSlot, hashChild_skeleton fresh1, hashChild_skeleton fresh2]
      simp only [Node.skeleton, bufferFits, hashPayload, slotsEq, dirty, Node.isNil_skeleton, fits1, fits2]
      rfl
  | fullNode children flags dirty childrenFresh childrenFit =>
      intro bufOffset
      have childEq : ∀ i, hashChild keccak encodeToBytes (children i) =
          hashChild keccak encodeToBytes (children i).skeleton := fun i => hashChild_skeleton (childrenFresh i)
      simp only [Node.skeleton, bufferFits, hashPayload, fullValueSlot, dirty, Node.isNil_skeleton,
        Node.asValue_skeleton, childEq, childrenFit]

end Skeleton

end TurboGeth.Trie
