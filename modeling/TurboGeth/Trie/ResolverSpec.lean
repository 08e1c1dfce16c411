import TurboGeth.Trie.Resolver

/-!
# Resolution in the loops of `TryUpdate` and `TryDelete`

`Trie.TryUpdate` runs its continuation and, while it is not done, resolves
the hash node the continuation stopped at with a fresh `TrieResolver`.
`insert` and `delete` stop at an unresolved hash node and ask for the subtrie
at that position; they go on only once `resolved` holds a node for exactly
that position.

The resolver sets `resolved` only from `finishPreviousKey`, which runs only
once the walk has met a key with a value.  When the bucket holds no key at or
after the start key, or there is no bucket, the walk just closes the range:
nothing is resolved and nothing fails, so the loop asks again, forever.  A trie
made by `New` from a root hash and a database without the leaves behind it
never finishes an update.

A full node is hashed as soon as its level is done, and a hash shorter than 32
bytes is a panic (`hashNode expected`).  Two storage slots whose keys differ
only in the low nibble of their last byte, with one-byte values, make a full
node of two leaves with spent paths: 22 bytes, embedded.  Resolving the
storage trie of their address panics, whatever the continuation.
-/

set_option autoImplicit false

namespace TurboGeth.Trie

open TurboGeth.Ethdb

/-! ## The steps of the resolver -/

namespace TrieResolver

section Frame

variable (tr : TrieResolver) (ext level : Nat) (n : Nibble) (child : Node) (key : Bytes) (val : Node)

@[simp] theorem place_continuations : (tr.place ext level n child key val).continuations = tr.continuations := by
  simp only [place]
  split_ifs <;> rfl

@[simp] theorem place_contIndices : (tr.place ext level n child key val).contIndices = tr.contIndices := by
  simp only [place]
  split_ifs <;> rfl

@[simp] theorem place_keyIdx : (tr.place ext level n child key val).keyIdx = tr.keyIdx := by
  simp only [place]
  split_ifs <;> rfl

@[simp] theorem place_accounts : (tr.place ext level n child key val).accounts = tr.accounts := by
  simp only [place]
  split_ifs <;> rfl

theorem place_nodeStack_next (reset : ext ≤ level) :
    (tr.place ext level n child key val).nodeStack (level + 1) = (tr.nodeStack (level + 1)).reset := by
  simp only [place]
  split_ifs <;> simp [resetLevel]

variable (hex : List Nibble)

@[simp] theorem holdLeaf_continuations : (tr.holdLeaf hex level).continuations = tr.continuations := rfl

@[simp] theorem holdLeaf_contIndices : (tr.holdLeaf hex level).contIndices = tr.contIndices := rfl

@[simp] theorem holdLeaf_keyIdx : (tr.holdLeaf hex level).keyIdx = tr.keyIdx := rfl

@[simp] theorem holdLeaf_accounts : (tr.holdLeaf hex level).accounts = tr.accounts := rfl

@[simp] theorem holdLeaf_vertical : (tr.holdLeaf hex level).vertical = tr.vertical := rfl

theorem holdLeaf_fillCount_other (l : Nat) (other : l ≠ level) : (tr.holdLeaf hex level).fillCount l = tr.fillCount l := by
  simp [holdLeaf, other]

theorem holdLeaf_nodeStack_self :
    (tr.holdLeaf hex level).nodeStack level =
      { key := hexToCompact (hex.drop level), val := .valueNode tr.value,
        flags := { (tr.nodeStack level).flags with dirty := true } } := by
  simp [holdLeaf]

end Frame

section Steps

variable (keccak : Bytes → Bytes)

theorem place_fillCount_self (tr : TrieResolver) (ext level : Nat) (n : Nibble) (child : Node) (key : Bytes)
    (val : Node) : (tr.place ext level n child key val).fillCount level = tr.fillCount level + 1 := by
  simp only [place]
  split_ifs <;> simp [resetLevel]

theorem place_vertical_self (tr : TrieResolver) (ext level : Nat) (n : Nibble) (child : Node) (key : Bytes)
    (val : Node) :
    (tr.place ext level n child key val).vertical level =
      { children := Function.update (tr.vertical level).children n child,
        flags := { (tr.vertical level).flags with dirty := true } } := by
  simp only [place]
  split_ifs <;> simp [resetLevel]

theorem holdLeaf_fillCount_self (tr : TrieResolver) (hex : List Nibble) (level : Nat) :
    (tr.holdLeaf hex level).fillCount level = 1 := by
  simp [holdLeaf]

theorem finishLevel_promote (tr : TrieResolver) (hex : List Nibble) (rhLen ext level : Nat) (n : Nibble)
    (slot : hex[level]? = some n) (single : tr.fillCount (level + 1) = 1) :
    tr.finishLevel keccak hex rhLen ext level =
      .ok (tr.place ext level n (tr.nodeStack (level + 1)).copy
        (hexToCompact (n :: compactToHex (tr.nodeStack (level + 1)).key)) (tr.nodeStack (level + 1)).val) := by
  simp [finishLevel, slot, single]

theorem finishLevel_embedded (tr : TrieResolver) (hex : List Nibble) (rhLen ext level : Nat)
    (inKey : level < hex.length) (branch : tr.fillCount (level + 1) ≠ 1)
    (embedded : (hashInternal keccak (!tr.accounts) (tr.vertical (level + 1)).copy false).length < 32) :
    tr.finishLevel keccak hex rhLen ext level = .error (.panic "hashNode expected") := by
  simp [finishLevel, List.getElem?_eq_getElem inKey, branch, embedded]

theorem finishPreviousKey_loop (tr : TrieResolver) (k : Option Bytes) (stop idx : Nat) (entry : ResolverEntry)
    (stopped : stopLevel tr.key k = .ok stop) (current : tr.contIndices[tr.keyIdx]? = some idx)
    (entryAt : tr.continuations[idx]? = some entry)
    (fits : max (max tr.startLevel entry.extResolvePos) stop + 1 ≤ Levels ∧
      max (max tr.startLevel entry.extResolvePos) stop + 1 ≤ (keybytesToHex tr.key).length) :
    tr.finishPreviousKey keccak k =
      let start := max (max tr.startLevel entry.extResolvePos) stop
      let hex := keybytesToHex tr.key
      let held := tr.holdLeaf hex (start + 1)
      match held.levelLoop keccak hex (rhPrefixLen held.resolveHexes hex held.rhIndexLte held.rhIndexGt)
          entry.extResolvePos (start + 1 - stop) start with
      | .error err => .error err
      | .ok tr =>
        match k with
        | some _ => .ok { tr with startLevel := stop }
        | none => { tr with startLevel := stop }.finishRange keccak idx entry := by
  unfold finishPreviousKey
  simp only [stopped, current, entryAt, Option.bind_some, Option.map_some]
  rw [if_neg (by omega)]
  cases k <;> rfl

theorem Walker_first (tr : TrieResolver) (keyIdx : Nat) (k v value : Bytes) (same : tr.keyIdx = keyIdx)
    (notHeld : tr.key_set = false) (valued : 0 < v.length) (long : keyLength tr.accounts ≤ k.length)
    (rebuilt : State.walkerValue tr.accounts v = .ok value) :
    tr.Walker keccak keyIdx (some (k, v)) =
      .ok (true, { tr with key := k.take (keyLength tr.accounts), value := value, key_set := true }) := by
  simp [Walker, same, notHeld, Nat.ne_of_gt valued, Nat.not_lt.mpr long, rebuilt]

theorem Walker_next (tr tr' : TrieResolver) (keyIdx : Nat) (k v value : Bytes) (same : tr.keyIdx = keyIdx)
    (held : tr.key_set = true) (valued : 0 < v.length) (finished : tr.finishPreviousKey keccak (some k) = .ok tr')
    (long : keyLength tr'.accounts ≤ k.length) (rebuilt : State.walkerValue tr'.accounts v = .ok value) :
    tr.Walker keccak keyIdx (some (k, v)) =
      .ok (true, { tr' with key := k.take (keyLength tr'.accounts), value := value, key_set := true }) := by
  simp [Walker, same, held, Nat.ne_of_gt valued, finished, Nat.not_lt.mpr long, rebuilt]

theorem Walker_close (tr : TrieResolver) (keyIdx : Nat) (other : keyIdx ≠ tr.keyIdx) (held : tr.key_set = true) :
    tr.Walker keccak keyIdx none =
      (tr.finishPreviousKey keccak none).map fun tr => (true, { tr with key_set := false, keyIdx := keyIdx }) := by
  simp only [Walker, if_pos other, held, if_true]
  cases tr.finishPreviousKey keccak none <;> rfl

end Steps

/-- A new resolver with one continuation at the root of the trie with prefix
`prefixBytes`: one walk, from the prefix followed by zero bytes, with the bits
of the prefix fixed, building from the level below the prefix. -/
theorem PrepareResolveParams_root (hashes accounts : Bool) (prefixBytes : Bytes) (tc : TrieContinuation)
    (atRoot : tc.resolvePos = 0) :
    ((NewResolver hashes accounts).AddContinuation prefixBytes tc).PrepareResolveParams =
      ({ (NewResolver hashes accounts).AddContinuation prefixBytes tc with
          continuations := [{ prefixBytes := prefixBytes, tc := tc, extResolvePos := 2 * prefixBytes.length }]
          contIndices := [0]
          startLevel := 2 * prefixBytes.length },
        [prefixBytes ++ List.replicate 32 0], [4 * (2 * prefixBytes.length)]) := by
  simp only [PrepareResolveParams, AddContinuation, NewResolver, insertionSort, sinkLeft, dropCovered, chooseStarts,
    atRoot, List.take_zero, decodeNibbles_nil, List.nil_append, List.foldl_cons, List.foldl_nil,
    List.reverse_singleton, Nat.zero_add]
  rfl

end TrieResolver

/-! ## The run at an unresolved hash node -/

theorem insert_hashNode_unresolved (hash : Bytes) (key : List Nibble) (pos : Nat) (value : Node)
    (c : TrieContinuation) (blockNr : Nat) (unresolved : c.resolved.isNil = true) (inside : key.length ≠ pos) :
    insert (.hashNode hash) key pos value c blockNr =
      .ok (false,
        { c with
          resolved := .nil, resolveKey := key, resolvePos := pos, resolveHash := hash, updated := false,
          n := .hashNode hash },
        []) := by
  rw [insert, if_neg inside]
  simp [unresolved]

theorem delete_hashNode_unresolved (hash : Bytes) (key : List Nibble) (keyStart : Nat)
    (c : TrieContinuation) (blockNr : Nat) (unresolved : c.resolved.isNil = true) :
    delete (.hashNode hash) key keyStart c blockNr =
      .ok (false,
        { c with
          resolved := .nil, resolveKey := key, resolvePos := keyStart, resolveHash := hash, updated := false,
          n := .hashNode hash },
        []) := by
  rw [delete]
  simp [unresolved]

theorem runWithDb_hashNode (tc : TrieContinuation) (hash : Bytes) (blockNr : Nat)
    (unresolved : tc.resolved.isNil = true) (keyed : tc.key ≠ []) :
    runWithDb tc (.hashNode hash) blockNr =
      .ok (false,
        { tc with
          resolved := .nil, resolveKey := tc.key, resolvePos := 0, resolveHash := hash, updated := false,
          n := .hashNode hash },
        []) := by
  have inside : tc.key.length ≠ 0 := by simpa using keyed
  unfold runWithDb
  cases tc.action with
  | insert =>
    simp only [Node.isNil, Bool.false_eq_true, if_false]
    refine insert_hashNode_unresolved hash tc.key 0 tc.value _ blockNr ?_ inside
    exact unresolved
  | delete =>
    simp only
    refine delete_hashNode_unresolved hash tc.key 0 _ blockNr ?_
    exact unresolved

/-- The resolution loop over a trie whose root is a hash node, with a
resolver that answers a request for the whole trie with the continuation as
it was: every round asks again, so no number of rounds is enough. -/
theorem resolveLoop_never_ends (resolveWithDb : TrieContinuation → Except String TrieContinuation)
    (unanswered : ∀ tc : TrieContinuation, tc.resolvePos = 0 → resolveWithDb tc = .ok tc)
    (hash : Bytes) (encodeToBytes : Bool) (blockNr : Nat) :
    ∀ (fuel : Nat) (tc : TrieContinuation), tc.resolved.isNil = true → tc.key ≠ [] →
      resolveLoop resolveWithDb fuel tc ⟨.hashNode hash, encodeToBytes⟩ blockNr =
        .error "resolution rounds exhausted"
  | 0, _, _, _ => rfl
  | fuel + 1, tc, unresolved, keyed => by
    have asked := runWithDb_hashNode tc hash blockNr unresolved keyed
    have again := resolveLoop_never_ends resolveWithDb unanswered hash encodeToBytes blockNr fuel
      { tc with
        resolved := .nil, resolveKey := tc.key, resolvePos := 0, resolveHash := hash, updated := false,
        n := .hashNode hash }
      rfl keyed
    -- the round is not done, the resolver hands the request back, and the trie is as it was
    rw [resolveLoop]
    simp only [asked, ExceptRun.ok_bind, Bool.false_eq_true, if_false]
    rw [unanswered _ rfl, ExceptRun.ok_bind, again]
    rfl

/-! ## A resolver that finds no leaves -/

/-- A request for the whole trie of prefix `prefixBytes`, when the bucket has
no key at or after the prefix followed by zero bytes: the walk only closes the
range, and the continuation comes back as it went. -/
theorem resolveContinuation_no_leaves (keccak : Bytes → Bytes) (tx : Tx) (accounts : Bool) (prefixBytes : Bytes)
    (fuel : Nat) (noLeaves : ∀ b, tx (if accounts then AccountsBucket else StorageBucket) = some b →
      b.Seek (prefixBytes ++ List.replicate 32 0) = none)
    (tc : TrieContinuation) (atRoot : tc.resolvePos = 0) :
    resolveContinuation keccak (some tx) accounts prefixBytes fuel tc = .ok tc := by
  rw [resolveContinuation, TrieResolver.ResolveWithDb,
    TrieResolver.PrepareResolveParams_root false accounts prefixBytes tc atRoot]
  have kind : ((NewResolver false accounts).AddContinuation prefixBytes tc).accounts = accounts := rfl
  simp only [kind]
  rw [MultiWalk_no_leaves _ _ _ _ _ _ _ noLeaves]
  -- closing the range finds no key held
  simp [TrieResolver.Walker]
  rfl

/-- `TryUpdate` on a trie made by `New` from a root hash, over a database
whose bucket holds no key at or after the trie's prefix followed by zero
bytes, or has no such bucket: the loop never ends, whatever the rounds and
the steps of each walk allowed. -/
theorem tryUpdate_never_ends_without_leaves (keccak : Bytes → Bytes) (tx : Tx) (accounts : Bool)
    (prefixBytes : Bytes) (walkFuel fuel : Nat) (root : Bytes) (encodeToBytes : Bool) (key value : Bytes)
    (blockNr : Nat) (hashed : root ≠ zeroHash ∧ root ≠ emptyRoot)
    (noLeaves : ∀ b, tx (if accounts then AccountsBucket else StorageBucket) = some b →
      b.Seek (prefixBytes ++ List.replicate 32 0) = none) :
    tryUpdate (resolveContinuation keccak (some tx) accounts prefixBytes walkFuel) fuel
      (Trie.new root encodeToBytes) key value blockNr = .error "resolution rounds exhausted" := by
  have loaded : Trie.new root encodeToBytes = ⟨.hashNode root, encodeToBytes⟩ := by
    simp [Trie.new, hashed.1, hashed.2]
  have unresolved : (updateAction key value).resolved.isNil = true := by
    unfold updateAction
    split <;> rfl
  have keyed : (updateAction key value).key ≠ [] := by
    unfold updateAction
    split <;> simp [keybytesToHex]
  rw [tryUpdate, loaded]
  exact resolveLoop_never_ends _
    (resolveContinuation_no_leaves keccak tx accounts prefixBytes walkFuel noLeaves) root encodeToBytes blockNr fuel
    _ unresolved keyed

/-- A trie made from the root hash \`common.HexToHash("01")\`, 32 bytes, with no
account bucket. -/
theorem tryUpdate_never_ends_on_empty_database :
    (List.replicate 31 0 ++ [1] ≠ zeroHash ∧ List.replicate 31 0 ++ [1] ≠ emptyRoot) ∧
      tryUpdate (resolveContinuation (fun _ => zeroHash) (some fun _ => none) true [] 0) 5
        (Trie.new (List.replicate 31 0 ++ [1]) false)
        [0x64, 0x6f] [0x76, 0x65, 0x72, 0x62] 0 = .error "resolution rounds exhausted" :=
  ⟨⟨by decide, by decide⟩,
    tryUpdate_never_ends_without_leaves (fun _ => zeroHash) (fun _ => none) true [] 0 5 (List.replicate 31 0 ++ [1])
      false [0x64, 0x6f] [0x76, 0x65, 0x72, 0x62] 0 ⟨by decide, by decide⟩ (fun _ none_some => by simp at none_some)⟩

/-! ## Two storage slots that differ in their last nibble -/

theorem prefixLenBytes_siblings (p : Bytes) (a b : UInt8) (differ : b ≠ a) :
    prefixLenBytes (p ++ [b]) (p ++ [a]) = p.length := by
  induction p with
  | nil => simp [prefixLenBytes, differ]
  | cons x p ih => simp [prefixLenBytes, ih]

theorem keybytesToHex_last (p : Bytes) (a : UInt8) :
    (keybytesToHex (p ++ [a]))[2 * p.length + 1]? = some (byteNibble (a % 16)) ∧
      (keybytesToHex (p ++ [a])).drop (2 * p.length + 2) = [16] := by
  induction p with
  | nil => simp [keybytesToHex]
  | cons x p ih =>
    rw [List.cons_append, keybytesToHex_cons]
    have skip : (byteNibbles x).length = 2 := rfl
    have index : 2 * (x :: p).length + 1 - 2 = 2 * p.length + 1 := by simp; omega
    have dropped : 2 * (x :: p).length + 2 - 2 = 2 * p.length + 2 := by simp; omega
    constructor
    · rw [List.getElem?_append_right (by simp [skip]; omega), skip, index]
      exact ih.1
    · rw [List.drop_append, List.drop_eq_nil_of_le (by simp [skip]), List.nil_append, skip,
        dropped]
      exact ih.2

namespace TrieResolver

theorem stopLevel_siblings (p : Bytes) (a b : UInt8) (differ : b ≠ a) (sameHigh : (b ^^^ a) &&& 0xf0 = 0) :
    stopLevel (p ++ [a]) (some (p ++ [b])) = .ok (2 * p.length + 1) := by
  simp [stopLevel, prefixLenBytes_siblings p a b differ, sameHigh]

end TrieResolver

section TwoSlots

variable (keccak : Bytes → Bytes)

/-- A leaf whose path is spent, holding one byte below `0x80`, as the
resolver builds it at the last level of a key. -/
def spentLeaf (x : UInt8) : Node := .shortNode [0x20] (.valueNode [x]) { dirty := true }

theorem hashChildren_spentLeaf (encodeToBytes : Bool) (x : UInt8) (small : x < 128) :
    hashChildren keccak encodeToBytes (spentLeaf x) = [0xc2, 0x20, x] := by
  rw [spentLeaf, hashChildren]
  simp [Node.asValue, isSelf, small, finishRLP]

theorem hashChild_spentLeaf (encodeToBytes : Bool) (x : UInt8) (small : x < 128) :
    hashChild keccak encodeToBytes (spentLeaf x) = [0xc2, 0x20, x] := by
  rw [hashChild_embedded keccak encodeToBytes rfl (by simp [spentLeaf]) rfl
    (by rw [hashChildren_spentLeaf keccak encodeToBytes x small]; simp),
    hashChildren_spentLeaf keccak encodeToBytes x small]

theorem hashInternal_twoSpentLeaves (encodeToBytes : Bool) (flags : NodeFlag) (dirty : flags.dirty = true) :
    (hashInternal keccak encodeToBytes
      (.fullNode (Function.update (Function.update (fun _ => .nil) 1 (spentLeaf 1)) 2 (spentLeaf 2)) flags)
      false).length = 22 := by
  have slots : ∀ i : Fin 16,
      hashChild keccak encodeToBytes
        (Function.update (Function.update (fun _ => Node.nil) 1 (spentLeaf 1)) 2 (spentLeaf 2) i.castSucc) =
      if i = 1 then [0xc2, 0x20, 1] else if i = 2 then [0xc2, 0x20, 2] else [128] := by
    intro i
    by_cases first : i = 1
    · subst first
      simp [Function.update, hashChild_spentLeaf keccak encodeToBytes 1 (by decide)]
    · by_cases second : i = 2
      · subst second
        simp [Function.update, hashChild_spentLeaf keccak encodeToBytes 2 (by decide)]
      · have one : i.castSucc ≠ 1 := fun h => first (by simpa [Fin.ext_iff] using h)
        have two : i.castSucc ≠ 2 := fun h => second (by simpa [Fin.ext_iff] using h)
        simp [Function.update, one, two, first, second]
  have encoding : hashChildren keccak encodeToBytes
      (.fullNode (Function.update (Function.update (fun _ => .nil) 1 (spentLeaf 1)) 2 (spentLeaf 2)) flags) =
      [0xd5, 0x80, 0xc2, 0x20, 1, 0xc2, 0x20, 2, 0x80, 0x80, 0x80, 0x80, 0x80, 0x80, 0x80, 0x80, 0x80, 0x80, 0x80,
        0x80, 0x80, 0x80] := by
    rw [hashChildren]
    simp only [slots, Node.asValue]
    decide
  rw [hashInternal_loaded keccak encodeToBytes (fun _ => Node.noConfusion), Node.dirty, if_pos dirty, encoding,
    store, if_pos (by decide)]
  rfl

end TwoSlots

namespace TrieResolver

section Siblings

variable (keccak : Bytes → Bytes)

/-- The key held followed by a sibling that differs from it only in the low
nibble of its last byte: the leaf of the key held, its path spent, goes into
slot `a % 16` of the full node at the level of that nibble. -/
theorem finishPreviousKey_sibling (tr : TrieResolver) (p : Bytes) (a b : UInt8) (idx : Nat) (entry : ResolverEntry)
    (held : tr.key = p ++ [a]) (differ : b ≠ a) (sameHigh : (b ^^^ a) &&& 0xf0 = 0)
    (current : tr.contIndices[tr.keyIdx]? = some idx) (entryAt : tr.continuations[idx]? = some entry)
    (below : tr.startLevel ≤ 2 * p.length + 1) (extBelow : entry.extResolvePos ≤ 2 * p.length + 1)
    (fits : 2 * p.length + 2 ≤ Levels) :
    tr.finishPreviousKey keccak (some (p ++ [b])) =
      .ok { (tr.holdLeaf (keybytesToHex tr.key) (2 * p.length + 2)).place entry.extResolvePos (2 * p.length + 1)
              (byteNibble (a % 16))
              (.shortNode [0x20] (.valueNode tr.value) { (tr.nodeStack (2 * p.length + 2)).flags with dirty := true })
              (hexToCompact [byteNibble (a % 16), 16]) (.valueNode tr.value)
            with startLevel := 2 * p.length + 1 } := by
  have stopped : stopLevel tr.key (some (p ++ [b])) = .ok (2 * p.length + 1) := by
    rw [held]
    exact stopLevel_siblings p a b differ sameHigh
  have last := keybytesToHex_last p a
  rw [← held] at last
  have hexLength : (keybytesToHex tr.key).length = 2 * p.length + 3 := by
    simp [held, keybytesToHex]
    omega
  have start : max (max tr.startLevel entry.extResolvePos) (2 * p.length + 1) = 2 * p.length + 1 := by omega
  have once : 2 * p.length + 1 + 1 - (2 * p.length + 1) = 1 := by omega
  rw [finishPreviousKey_loop keccak tr _ _ idx entry stopped current entryAt (by rw [start]; omega)]
  simp only [start, once]
  rw [levelLoop, finishLevel_promote keccak _ _ _ _ _ _ last.1 (holdLeaf_fillCount_self _ _ _)]
  simp only [levelLoop, holdLeaf_nodeStack_self, StackNode.copy, last.2]
  rfl

/-- Closing the range after the second sibling: its leaf joins the first in
the full node at the level of their last nibble, and the loop, one level up,
hashes that node.  An encoding shorter than a hash is a panic. -/
theorem finishPreviousKey_close_embedded (tr : TrieResolver) (p : Bytes) (b : UInt8) (idx : Nat)
    (entry : ResolverEntry) (held : tr.key = p ++ [b]) (current : tr.contIndices[tr.keyIdx]? = some idx)
    (entryAt : tr.continuations[idx]? = some entry) (level : tr.startLevel = 2 * p.length + 1)
    (extBelow : entry.extResolvePos ≤ 2 * p.length) (fits : 2 * p.length + 2 ≤ Levels)
    (single : tr.fillCount (2 * p.length + 1) = 1)
    (embedded : (hashInternal keccak (!tr.accounts)
      (.fullNode (Function.update (tr.vertical (2 * p.length + 1)).children (byteNibble (b % 16))
          (.shortNode [0x20] (.valueNode tr.value) { (tr.nodeStack (2 * p.length + 2)).flags with dirty := true }))
        { (tr.vertical (2 * p.length + 1)).flags with dirty := true }) false).length < 32) :
    tr.finishPreviousKey keccak none = .error (.panic "hashNode expected") := by
  have last := keybytesToHex_last p b
  rw [← held] at last
  have hexLength : (keybytesToHex tr.key).length = 2 * p.length + 3 := by
    simp [held, keybytesToHex]
    omega
  have start : max (max tr.startLevel entry.extResolvePos) 0 = 2 * p.length + 1 := by omega
  have turns : 2 * p.length + 1 + 1 - 0 = 2 * p.length + 1 + 1 := rfl
  have spent : hexToCompact [16] = [0x20] := by decide
  rw [finishPreviousKey_loop keccak tr none 0 idx entry rfl current entryAt (by rw [start]; omega)]
  simp only [start, turns]
  -- the second leaf is promoted next to the first
  rw [levelLoop, finishLevel_promote keccak _ _ _ _ _ _ last.1 (holdLeaf_fillCount_self _ _ _)]
  simp only [Nat.add_sub_cancel]
  -- one level up, the two of them are hashed
  have pair : ∀ (child : Node) (key : Bytes) (val : Node),
      ((tr.holdLeaf (keybytesToHex tr.key) (2 * p.length + 2)).place entry.extResolvePos (2 * p.length + 1)
        (byteNibble (b % 16)) child key val).fillCount (2 * p.length + 1) ≠ 1 := by
    intro child key val
    rw [place_fillCount_self, holdLeaf_fillCount_other _ _ _ _ (by omega), single]
    omega
  rw [levelLoop, finishLevel_embedded keccak _ _ _ _ _ (by omega) (pair _ _ _)]
  simpa [place_vertical_self, VerticalNode.copy, holdLeaf_nodeStack_self, StackNode.copy, last.2, spent]
    using embedded

end Siblings

end TrieResolver

/-- Two storage slots of the zero address, `0x…01 ↦ 0x01` and
`0x…02 ↦ 0x02`: keys that differ only in the low nibble of their last byte. -/
def twoSlotBucket : Bucket where
  pairs := [(List.replicate 51 0 ++ [1], [1]), (List.replicate 51 0 ++ [2], [2])]
  sorted := by decide

section TwoSlotRun

variable (keccak : Bytes → Bytes)

namespace TrieResolver

/-- The walk over two storage keys `p ++ [1] ↦ 01` and `p ++ [2] ↦ 02`, from
a fresh range: the first key is held, then placed when the second arrives, and
the second is held.  Closing the range then panics: the full node of the two
leaves is embedded. -/
theorem walkPairs_twoSiblings (tr : TrieResolver) (p : Bytes) (entry : ResolverEntry)
    (storage : tr.accounts = false) (first : tr.keyIdx = 0) (fresh : tr.key_set = false)
    (current : tr.contIndices[0]? = some 0) (entryAt : tr.continuations[0]? = some entry) (long : p.length = 51)
    (below : tr.startLevel ≤ 2 * p.length + 1) (extBelow : entry.extResolvePos ≤ 2 * p.length)
    (empty : tr.fillCount (2 * p.length + 1) = 0) (cleared : tr.vertical (2 * p.length + 1) = {})
    (unset : tr.nodeStack (2 * p.length + 2) = {}) :
    ∃ tr', walkPairs (fun keyIdx kv (tr : TrieResolver) => tr.Walker keccak keyIdx kv) 0
        [(p ++ [1], [1]), (p ++ [2], [2])] tr = .ok tr' ∧
      tr'.keyIdx = 0 ∧ tr'.key_set = true ∧ tr'.finishPreviousKey keccak none = .error (.panic "hashNode expected") := by
  have value : ∀ v, State.walkerValue false v = .ok v := fun v => rfl
  have cut : ∀ x : UInt8, (p ++ [x]).take (keyLength tr.accounts) = p ++ [x] := by
    intro x
    simp [keyLength, storage, long]
  have fits : 2 * p.length + 2 ≤ Levels := by simp [Levels, long]
  -- the first key is held
  have held1 := Walker_first keccak tr 0 (p ++ [1]) [1] [1] first fresh (by decide)
    (by simp [keyLength, storage, long]) (by rw [storage]; exact value [1])
  rw [cut] at held1
  -- the second key finishes the first, which goes into slot 1
  have finished := finishPreviousKey_sibling keccak { tr with key := p ++ [1], value := [1], key_set := true } p 1 2 0
    entry rfl (by decide) (by decide) (by simpa [first] using current) entryAt below (by omega) fits
  have held2 := Walker_next keccak { tr with key := p ++ [1], value := [1], key_set := true } _ 0 (p ++ [2]) [2] [2] first rfl (by decide) finished
    (by simp [keyLength, storage, long]) (by simp [storage]; exact value [2])
  simp only [place_accounts, holdLeaf_accounts, cut] at held2
  rw [walkPairs, held1]
  simp only
  rw [walkPairs, held2]
  simp only [walkPairs]
  refine ⟨_, rfl, by simp [first], rfl, ?_⟩
  -- closing the range: the second key is placed next to the first
  refine finishPreviousKey_close_embedded keccak _ p 2 0 entry rfl (by simpa [first] using current)
    (by simpa using entryAt) rfl (by omega) fits (by simp [place_fillCount_self, holdLeaf_fillCount_other, empty]) ?_
  have small := hashInternal_twoSpentLeaves keccak true { dirty := true } rfl
  have slot1 : byteNibble (1 % 16) = 1 := by decide
  have slot2 : byteNibble (2 % 16) = 2 := by decide
  have next : 2 * p.length + 1 + 1 = 2 * p.length + 2 := rfl
  simp only [place_vertical_self, holdLeaf_vertical, cleared,
    place_nodeStack_next _ _ _ _ _ _ _ (by omega : entry.extResolvePos ≤ 2 * p.length + 1), next,
    holdLeaf_nodeStack_self, unset, StackNode.reset, slot1, slot2, storage, Bool.not_false]
  exact lt_of_eq_of_lt small (by decide)

end TrieResolver

/-- Resolving the storage trie of the zero address from its root, over the
two slots of `twoSlotBucket`: the resolver panics, whatever the continuation
and however many cursor steps past the two keys it is allowed. -/
theorem ResolveWithDb_panics_on_two_slots (tc : TrieContinuation) (atRoot : tc.resolvePos = 0) (fuel : Nat) :
    ((NewResolver false false).AddContinuation (List.replicate 20 0) tc).ResolveWithDb keccak
      (some fun bucket => if bucket = StorageBucket then some twoSlotBucket else none) (fuel + 3) =
      .error (.panic "hashNode expected") := by
  let entry : ResolverEntry := { prefixBytes := List.replicate 20 0, tc := tc, extResolvePos := 40 }
  rw [TrieResolver.ResolveWithDb, TrieResolver.PrepareResolveParams_root false false _ tc atRoot]
  simp only
  rw [MultiWalk_one_range twoSlotBucket _ _ _ _ _ twoSlotBucket.pairs [] (fuel + 3) _
    (by simp [TrieResolver.AddContinuation, NewResolver]) rfl (by decide) (by decide) (by simp [twoSlotBucket])]
  -- the walk holds both keys; closing the range panics
  obtain ⟨tr, walked, idx, held, panics⟩ := TrieResolver.walkPairs_twoSiblings keccak
    { (NewResolver false false).AddContinuation (List.replicate 20 0) tc with
      continuations := [entry], contIndices := [0], startLevel := 40 }
    (List.replicate 51 0) entry rfl rfl rfl rfl rfl (by simp) (by simp) (by simp [entry]) rfl rfl rfl
  simp only [twoSlotBucket, List.length_replicate]
  rw [walked]
  simp only
  rw [TrieResolver.Walker_close keccak tr 1 (by rw [idx]; decide) held, panics]
  rfl

/-- The continuation of a blank trie, at its root. -/
theorem ResolveWithDb_panics_on_blank_continuation :
    blankContinuation.resolvePos = 0 ∧
      ((NewResolver false false).AddContinuation (List.replicate 20 0) blankContinuation).ResolveWithDb
        (fun _ => zeroHash) (some fun bucket => if bucket = StorageBucket then some twoSlotBucket else none) 3 =
        .error (.panic "hashNode expected") :=
  ⟨rfl, ResolveWithDb_panics_on_two_slots (fun _ => zeroHash) blankContinuation rfl 0⟩

end TwoSlotRun

end TurboGeth.Trie
