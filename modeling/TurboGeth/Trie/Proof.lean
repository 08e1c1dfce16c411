import TurboGeth.Trie.RootHash
import TurboGeth.Rlp.Raw

/-!
# Checking a Merkle proof

`VerifyProof` of `trie/proof.go` looks the wanted hash up in the proof
database, decodes what it finds with `decodeRef` of `trie/node.go`, and walks
the decoded node along the key with `get`: a value ends the walk, a missing
child proves the key absent, and a hash reference is looked up next with what
is left of the key.

The node decoder splits its input with the raw functions of `rlp/raw.go`.  Go
wraps each decoding error in the path to the node, which is left out.  Two Go
run-time failures are results of the model: `compactToHex` of an empty key
slices a one-element slice from index 2, and `get` indexes an exhausted key
at a full node.  `decodeRef` recurses into embedded nodes, each strictly
inside the one around it, and runs on fuel; the walk of `VerifyProof` has no
bound in Go and runs on fuel here, `none` being a walk that has not ended.

Nothing checks that a node looked up under a hash has that hash: a proof
entry can be a bare reference to its own hash, and the walk never ends.

`Prove` collects the nodes on the key's path and writes, for each node whose
encoding is a hash and for the root, the RLP of that hash under the hash
itself: exactly such a bare self-reference.  So a proof of a trie whose root
encodes to 32 bytes or more sends `VerifyProof` round the root forever.
-/

set_option autoImplicit false

namespace TurboGeth.Trie

open TurboGeth.Rlp

/-- The node decoder's errors; `panic` is a Go run-time panic. -/
inductive DecodeError where
  | unexpectedEOF
  | rlp (err : RlpError)
  | invalidCount (count : Nat)
  | invalidValueNode (err : RlpError)
  | oversized (size : Nat)
  | invalidStringSize (size : Nat)
  | panic
  | outOfFuel
  deriving DecidableEq, Repr

/-- `hashLen`: the length of a hash reference. -/
def hashLen : Nat := 32

/-- `decodeShort`, with `decodeRef` for the child. -/
def decodeShort (decodeRef : Bytes → Except DecodeError (Node × Bytes)) (elems : Bytes) :
    Except DecodeError Node :=
  match Raw.SplitString elems with
  | .error err => .error (.rlp err)
  | .ok (kbuf, rest) =>
    -- `compactToHex` slices `base[2:]` of the one-element `keybytesToHex(kbuf)`
    if kbuf = [] then .error .panic
    else
      let key := compactToHex kbuf
      if hasTerm key then
        match Raw.SplitString rest with
        | .error err => .error (.invalidValueNode err)
        | .ok (val, _) => .ok (.shortNode (key.map nibbleByte) (.valueNode val) {})
      else
        match decodeRef rest with
        | .error err => .error err
        | .ok (r, _) => .ok (.shortNode (key.map nibbleByte) r {})

/-- The loop of `decodeFull` over the sixteen child references. -/
def decodeChildren (decodeRef : Bytes → Except DecodeError (Node × Bytes)) :
    Nat → Bytes → Except DecodeError (List Node × Bytes)
  | 0, elems => .ok ([], elems)
  | count + 1, elems =>
    match decodeRef elems with
    | .error err => .error err
    | .ok (cld, rest) =>
      match decodeChildren decodeRef count rest with
      | .error err => .error err
      | .ok (children, rest) => .ok (cld :: children, rest)

/-- `decodeFull`: sixteen references, then the value, kept when not empty. -/
def decodeFull (decodeRef : Bytes → Except DecodeError (Node × Bytes)) (elems : Bytes) :
    Except DecodeError Node :=
  match decodeChildren decodeRef 16 elems with
  | .error err => .error err
  | .ok (children, elems) =>
    match Raw.SplitString elems with
    | .error err => .error (.rlp err)
    | .ok (val, _) =>
      .ok (.fullNode (fun i => if i.val < 16 then children.getD i.val .nil
        else if val ≠ [] then .valueNode val else .nil) {})

/-- `decodeNode`: a list of two items is a short node, of seventeen a full
node.  The error of `CountValues` is dropped and its count read as zero. -/
def decodeNode (decodeRef : Bytes → Except DecodeError (Node × Bytes)) (buf : Bytes) : Except DecodeError Node :=
  if buf = [] then .error .unexpectedEOF
  else
    match Raw.SplitList buf with
    | .error err => .error (.rlp err)
    | .ok (elems, _) =>
      let c := match Raw.CountValues elems with
        | .ok c => c
        | .error _ => 0
      if c = 2 then decodeShort decodeRef elems
      else if c = 17 then decodeFull decodeRef elems
      else .error (.invalidCount c)

/-- `decodeRef`: an embedded node, the empty node, or a hash reference. -/
def decodeRef : Nat → Bytes → Except DecodeError (Node × Bytes)
  | 0, _ => .error .outOfFuel
  | fuel + 1, buf =>
    match Raw.Split buf with
    | .error err => .error (.rlp err)
    | .ok (kind, val, rest) =>
      if kind = .List then
        -- 'embedded' node reference: smaller than a hash
        let size := buf.length - rest.length
        if size > hashLen then .error (.oversized size)
        else
          match decodeNode (decodeRef fuel) buf with
          | .error err => .error err
          | .ok n => .ok (n, rest)
      else if kind = .String ∧ val.length = 0 then .ok (.nil, rest)
      else if kind = .String ∧ val.length = 32 then .ok (.hashNode val, rest)
      else .error (.invalidStringSize val.length)

/-- `get`: the node's walk along the key, to a hash reference, a value or
nothing.  `none` is a panic: an exhausted key at a full node, or a node of a
kind the decoder never builds. -/
def get : Node → Bytes → Option (Bytes × Node)
  | .shortNode nkey val _, key =>
    if key.length < nkey.length ∨ nkey ≠ key.take nkey.length then some ([], .nil)
    else get val (key.drop nkey.length)
  | .fullNode children _, key =>
    match key with
    | [] => none
    | k :: rest => if k.toNat < 17 then get (children (byteNibble k)) rest else none
  | .hashNode hash, key => some (key, .hashNode hash)
  | .nil, key => some (key, .nil)
  | .valueNode value, _ => some ([], .valueNode value)
  | .duoNode .., _ => none

/-- How `VerifyProof` ends: the value and the number of nodes, the key shown
absent, a missing or undecodable proof node, or a panic. -/
inductive Verdict where
  | value (value : Bytes) (nodes : Nat)
  | absent (nodes : Nat)
  | missing (nodes : Nat)
  | badNode (nodes : Nat) (err : DecodeError)
  | panic
  deriving DecidableEq, Repr

/-- The loop of `VerifyProof` from its `i`-th lookup, allowed `fuel` more. -/
def verifyProofLoop (proofDb : Bytes → Option Bytes) : Nat → Nat → Bytes → Bytes → Option Verdict
  | 0, _, _, _ => none
  | fuel + 1, i, wantHash, key =>
    match proofDb wantHash with
    | none => some (.missing i)
    | some buf =>
      -- every nested reference is strictly shorter than the buffer around it
      match decodeRef (buf.length + 1) buf with
      | .error .panic => some .panic
      | .error err => some (.badNode i err)
      | .ok (n, _) =>
        match get n key with
        | none => some .panic
        | some (_, .nil) => some (.absent i)
        | some (keyrest, .hashNode cld) => verifyProofLoop proofDb fuel (i + 1) cld keyrest
        | some (_, .valueNode cld) => some (.value cld (i + 1))
        | some _ => verifyProofLoop proofDb fuel (i + 1) wantHash key

/-- `VerifyProof`, allowed `fuel` lookups in the proof database. -/
def VerifyProof (fuel : Nat) (rootHash key : Bytes) (proofDb : Bytes → Option Bytes) : Option Verdict :=
  verifyProofLoop proofDb fuel 0 rootHash ((keybytesToHex key).map nibbleByte)

/-! ## References the decoder reads -/

theorem decodeRef_hash (fuel : Nat) (hash : Bytes) (length : hash.length = 32) :
    decodeRef (fuel + 1) (0xA0 :: hash) = .ok (.hashNode hash, []) := by
  have notSmall : ∀ c, hash = [c] → ¬ c < 128 := by
    rintro c rfl
    simp at length
  have split := Raw.Split_string hash [] (by omega) notSmall
  rw [← Rlp.encode_string hash notSmall, List.append_nil, Rlp.encode_hash hash length] at split
  simp [decodeRef, split, length]

theorem decodeRef_emptyKey (fuel : Nat) : decodeRef (fuel + 2) [0xC2, 0x80, 0x80] = .error .panic := by
  have split : Raw.Split [0xC2, 0x80, 0x80] = .ok (.List, [0x80, 0x80], []) := rfl
  have elems : Raw.SplitList [0xC2, 0x80, 0x80] = .ok ([0x80, 0x80], []) := rfl
  have count : Raw.CountValues [0x80, 0x80] = .ok 2 := rfl
  have key : Raw.SplitString [0x80, 0x80] = .ok ([], [0x80]) := rfl
  simp [decodeRef, split, hashLen, decodeNode, elems, count, decodeShort, key]

/-! ## The walk does not end -/

theorem verifyProofLoop_self (proofDb : Bytes → Option Bytes) (hash : Bytes) (length : hash.length = 32)
    (self : proofDb hash = some (0xA0 :: hash)) :
    ∀ fuel i key, verifyProofLoop proofDb fuel i hash key = none := by
  intro fuel
  induction fuel with
  | zero => intro i key; rfl
  | succ fuel ih =>
    intro i key
    simp only [verifyProofLoop, self, List.length_cons, decodeRef_hash _ hash length, get]
    exact ih (i + 1) key

theorem verifyProofLoop_emptyKey (proofDb : Bytes → Option Bytes) (hash : Bytes)
    (entry : proofDb hash = some [0xC2, 0x80, 0x80]) (fuel i : Nat) (key : Bytes) :
    verifyProofLoop proofDb (fuel + 1) i hash key = some .panic := by
  simp only [verifyProofLoop, entry]
  rw [show ([0xC2, 0x80, 0x80] : Bytes).length + 1 = 2 + 2 from rfl, decodeRef_emptyKey]

/-- `VerifyProof` is not total on what a proof database may hold: a root entry
that refers to itself keeps it looking the root up forever, and a short node
with an empty key makes it panic. -/
theorem VerifyProof_not_total (rootHash key : Bytes) (hashLength : rootHash.length = 32) :
    (∀ proofDb : Bytes → Option Bytes, proofDb rootHash = some (0xA0 :: rootHash) →
      ∀ fuel, VerifyProof fuel rootHash key proofDb = none) ∧
    (∀ proofDb : Bytes → Option Bytes, proofDb rootHash = some [0xC2, 0x80, 0x80] →
      ∀ fuel, VerifyProof (fuel + 1) rootHash key proofDb = some .panic) := by
  constructor
  · intro proofDb self fuel
    exact verifyProofLoop_self proofDb rootHash hashLength self fuel 0 _
  · intro proofDb entry fuel
    exact verifyProofLoop_emptyKey proofDb rootHash entry fuel 0 _

theorem VerifyProof_not_total_at_zero_hash :
    (List.replicate 32 (0 : UInt8)).length = 32 ∧
      (∀ proofDb : Bytes → Option Bytes, proofDb (List.replicate 32 0) = some (0xA0 :: List.replicate 32 0) →
        ∀ fuel, VerifyProof fuel (List.replicate 32 0) [] proofDb = none) :=
  ⟨rfl, (VerifyProof_not_total (List.replicate 32 0) [] rfl).1⟩

/-! ## Proofs that `Prove` writes -/

/-- What stops the walk of `Prove` early: the resolver's error, a Go panic at
a node the walk does not step into, or the fuel. -/
inductive ProveError where
  | resolve (err : String)
  | panic
  | outOfFuel
  deriving DecidableEq, Repr

/-- The first loop of `Prove`: the nodes on the path of the hex key from
position `pos`, the first one first.  A hash node is loaded with
`resolveHash` (`t.resolveHash` with its database and block) and walked in
place.  Short node keys are compared as they are stored, in compact form. -/
def proveNodes (resolveHash : Bytes → Bytes → Nat → Except String Node) (key : Bytes) :
    Nat → Nat → Node → Except ProveError (List Node)
  | 0, _, _ => .error .outOfFuel
  | fuel + 1, pos, tn =>
    match key[pos]?, tn with
    | none, _ => .ok []
    | some _, .nil => .ok []
    | some _, .shortNode nkey val flags =>
      -- a key that leaves the node sets `tn = nil`, which ends the loop
      if key.length - pos < nkey.length ∨ nkey ≠ (key.drop pos).take nkey.length then
        .ok [.shortNode nkey val flags]
      else (.shortNode nkey val flags :: ·) <$> proveNodes resolveHash key fuel (pos + nkey.length) val
    | some k, .duoNode mask child1 child2 flags =>
      let next := if k = nibbleByte (childrenIdx mask).1 then child1
        else if k = nibbleByte (childrenIdx mask).2 then child2 else .nil
      (.duoNode mask child1 child2 flags :: ·) <$> proveNodes resolveHash key fuel (pos + 1) next
    | some k, .fullNode children flags =>
      if k.toNat < 17 then
        (.fullNode children flags :: ·) <$> proveNodes resolveHash key fuel (pos + 1) (children (byteNibble k))
      else .error .panic
    | some _, .hashNode hash =>
      match resolveHash hash key pos with
      | .error err => .error (.resolve err)
      | .ok rn => proveNodes resolveHash key fuel pos rn
    | some _, .valueNode _ => .error .panic

/-- The second loop of `Prove`, from the `i`-th node: a node whose encoding
is a hash, and the root whatever its length, gives the RLP of what `store`
returned, written under that hash or, when shorter than a hash, under the
Keccak of the RLP; the first `fromLevel` of them are skipped. -/
def proveStore (keccak : Bytes → Bytes) :
    List Node → Nat → Nat → (Bytes → Option Bytes) → Bytes → Option Bytes
  | [], _, _, proofDb => proofDb
  | n :: nodes, i, fromLevel, proofDb =>
    let ch := hashChildren keccak false n
    let hash := store keccak ch false
    let hashLen := if ch.length < 32 then ch.length else 32
    if hashLen = 32 ∨ i = 0 then
      if fromLevel > 0 then proveStore keccak nodes (i + 1) (fromLevel - 1) proofDb
      else
        let enc := Rlp.encode (.bytes hash)
        let hash := if hashLen < 32 then keccak enc else hash
        proveStore keccak nodes (i + 1) fromLevel (Function.update proofDb hash (some enc))
    else proveStore keccak nodes (i + 1) fromLevel proofDb

/-- `Prove` with a hasher that does not encode values, allowed `fuel` steps of its walk. -/
def Prove (keccak : Bytes → Bytes) (resolveHash : Bytes → Bytes → Nat → Except String Node) (fuel : Nat)
    (t : Trie) (key : Bytes) (fromLevel : Nat) (proofDb : Bytes → Option Bytes) :
    Except ProveError (Bytes → Option Bytes) :=
  match proveNodes resolveHash ((keybytesToHex key).map nibbleByte) fuel 0 t.root with
  | .error err => .error err
  | .ok nodes => .ok (proveStore keccak nodes 0 fromLevel proofDb)

theorem proveNodes_head (resolveHash : Bytes → Bytes → Nat → Except String Node) (key : Bytes) (fuel pos : Nat)
    (tn : Node) (inKey : pos < key.length) (live : tn.isNil = false) (notHash : ∀ hash, tn ≠ .hashNode hash)
    (nodes : List Node) (walk : proveNodes resolveHash key fuel pos tn = .ok nodes) : ∃ rest, nodes = tn :: rest := by
  cases fuel with
  | zero => cases walk
  | succ fuel =>
    have atPos : key[pos]? = some key[pos] := List.getElem?_eq_getElem inKey
    cases tn with
    | nil => cases live
    | hashNode hash => exact absurd rfl (notHash hash)
    | valueNode value =>
      simp only [proveNodes, atPos] at walk
      cases walk
    | shortNode nkey val flags =>
      simp only [proveNodes, atPos] at walk
      split_ifs at walk
      · exact ⟨[], (Except.ok.inj walk).symm⟩
      · obtain ⟨rest, -, rfl⟩ := ExceptRun.map_eq_ok.mp walk
        exact ⟨rest, rfl⟩
    | duoNode mask child1 child2 flags =>
      simp only [proveNodes, atPos] at walk
      obtain ⟨rest, -, rfl⟩ := ExceptRun.map_eq_ok.mp walk
      exact ⟨rest, rfl⟩
    | fullNode children flags =>
      simp only [proveNodes, atPos] at walk
      -- an index past slot 16 panics, which `split_ifs` discards
      split_ifs at walk
      obtain ⟨rest, -, rfl⟩ := ExceptRun.map_eq_ok.mp walk
      exact ⟨rest, rfl⟩

theorem update_keeps_self (proofDb : Bytes → Option Bytes) (hash h : Bytes) (length : h.length = 32)
    (self : proofDb hash = some (0xA0 :: hash)) :
    Function.update proofDb h (some (Rlp.encode (.bytes h))) hash = some (0xA0 :: hash) := by
  by_cases same : hash = h
  · subst same
    rw [Function.update_self, Rlp.encode_hash hash length]
  · rw [Function.update_of_ne same, self]

section Store

variable (keccak : Bytes → Bytes) (hashLength : ∀ b, (keccak b).length = 32)
include hashLength

theorem proveStore_keeps_self (hash : Bytes) (nodes : List Node) :
    ∀ (i fromLevel : Nat) (proofDb : Bytes → Option Bytes), 0 < i → proofDb hash = some (0xA0 :: hash) →
      proveStore keccak nodes i fromLevel proofDb hash = some (0xA0 :: hash) := by
  induction nodes with
  | nil => intro i fromLevel proofDb _ self; exact self
  | cons n nodes ih =>
    intro i fromLevel proofDb later self
    rw [proveStore]
    dsimp only
    by_cases embedded : (hashChildren keccak false n).length < 32
    · -- below the root an embedded node writes nothing
      rw [if_pos embedded, if_neg (by omega)]
      exact ih (i + 1) fromLevel proofDb (by omega) self
    · have stored : store keccak (hashChildren keccak false n) false = keccak (hashChildren keccak false n) := by
        simp [store, embedded]
      rw [if_neg embedded, if_pos (Or.inl rfl), stored]
      by_cases skipped : fromLevel > 0
      · rw [if_pos skipped]
        exact ih (i + 1) (fromLevel - 1) proofDb (by omega) self
      · rw [if_neg skipped, if_neg (Nat.lt_irrefl 32)]
        exact ih (i + 1) fromLevel _ (by omega) (update_keeps_self proofDb hash _ (hashLength _) self)

theorem proveStore_root (root : Node) (rest : List Node) (proofDb : Bytes → Option Bytes)
    (long : 32 ≤ (hashChildren keccak false root).length) :
    proveStore keccak (root :: rest) 0 0 proofDb (keccak (hashChildren keccak false root)) =
      some (0xA0 :: keccak (hashChildren keccak false root)) := by
  have notEmbedded : ¬ (hashChildren keccak false root).length < 32 := by omega
  have stored : store keccak (hashChildren keccak false root) false = keccak (hashChildren keccak false root) := by
    simp [store, notEmbedded]
  rw [proveStore]
  dsimp only
  rw [if_neg notEmbedded, if_pos (Or.inl rfl), stored, if_neg (Nat.lt_irrefl 0)]
  apply proveStore_keeps_self keccak hashLength _ rest 1 0 _ Nat.one_pos
  rw [if_neg (by omega), Function.update_self, Rlp.encode_hash _ (hashLength _)]

end Store

/-- A proof that `Prove` writes for a trie whose root encodes to a hash holds
the RLP of the root hash under the root hash: checked against the trie's
hash, it sends `VerifyProof` round the root forever, whatever the key. -/
theorem VerifyProof_after_Prove_never_ends (keccak : Bytes → Bytes) (hashLength : ∀ b, (keccak b).length = 32)
    (resolveHash : Bytes → Bytes → Nat → Except String Node) (fuel : Nat) (t : Trie) (plain : t.encodeToBytes = false)
    (live : t.root.isNil = false) (notHash : ∀ hash, t.root ≠ .hashNode hash) (dirty : t.root.dirty = true)
    (long : 32 ≤ (hashChildren keccak false t.root).length) (key : Bytes) (proofDb proofDb' : Bytes → Option Bytes)
    (proved : Prove keccak resolveHash fuel t key 0 proofDb = .ok proofDb') :
    ∀ n, VerifyProof n (t.hashRoot keccak) key proofDb' = none := by
  have rootHash : t.hashRoot keccak = keccak (hashChildren keccak false t.root) := by
    rw [hashRoot_dirty keccak live notHash dirty, plain]
  -- the walk starts at the root: a hex key is never empty
  have inKey : 0 < ((keybytesToHex key).map nibbleByte).length := by
    simp [keybytesToHex_length]
  unfold Prove at proved
  cases walk : proveNodes resolveHash ((keybytesToHex key).map nibbleByte) fuel 0 t.root with
  | error err =>
    rw [walk] at proved
    cases proved
  | ok nodes =>
    rw [walk] at proved
    cases proved
    obtain ⟨rest, rfl⟩ := proveNodes_head resolveHash _ fuel 0 t.root inKey live notHash nodes walk
    intro n
    rw [rootHash]
    exact verifyProofLoop_self _ _ (hashLength _) (proveStore_root keccak hashLength t.root rest proofDb long) n 0 _

theorem VerifyProof_after_Prove_never_ends_on_doDog :
    runOps (fun tc => .ok tc) 1 (Trie.new zeroHash false)
        [.update [0x64, 0x6f] [0x76, 0x65, 0x72, 0x62] 0, .update [0x64, 0x6f, 0x67] [0x70, 0x75, 0x70, 0x70, 0x79] 0] =
      .ok ⟨doDogTrie, false⟩ ∧
    Prove (fun _ => zeroHash) (fun _ _ _ => .error "") 1 ⟨doDogTrie, false⟩ [0x64, 0x6f] 0 (fun _ => none) =
      .ok (proveStore (fun _ => zeroHash) [doDogTrie] 0 0 fun _ => none) ∧
    ∀ n, VerifyProof n (Trie.hashRoot (fun _ => zeroHash) ⟨doDogTrie, false⟩) [0x64, 0x6f]
      (proveStore (fun _ => zeroHash) [doDogTrie] 0 0 fun _ => none) = none :=
  ⟨runOps_doDog _ 0, rfl,
    VerifyProof_after_Prove_never_ends (fun _ => zeroHash) (fun _ => rfl) (fun _ _ _ => .error "") 1
      ⟨doDogTrie, false⟩ rfl rfl (by simp [doDogTrie]) rfl (by rw [hashChildren_doDog]; decide) [0x64, 0x6f]
      (fun _ => none) _ rfl⟩

end TurboGeth.Trie
