import TurboGeth.State.Flush

/-!
# Generation accounting of the trie cache

The callbacks of `MakeListed` move the counters of `TrieDbState` by one per
call, so the counters after a trie operation are fixed by the list of calls
it made (`listen_eq`).  Whether they still count the loaded nodes then
depends on each branch of `insert` and `delete` announcing every node it adds
or drops under that node's own generation.

The split of a short node at its first nibble does not: the short node is
replaced by the new branch, and neither the short node's leaving nor the
branch's joining is announced (the Go comment at that line says the two
cancel).  They cancel in `nodeCount`, but in `generationCounts` only when the
short node was touched in the current block.  A short node is never stamped
by `updateT`, so from the second block on the short node at the root of a
trie keeps the generation of the block that created it, and the split leaves
that generation counted once too often and the current one once too rarely.
-/

set_option autoImplicit false

namespace TurboGeth.Trie

theorem prefixLen_of_parted : ∀ {a b : List Nibble} (aLive : 0 < a.length) (bLive : 0 < b.length),
    a[0] ≠ b[0] → prefixLen a b = 0
  | _ :: _, _ :: _, _, _, parted => by
      simp only [List.getElem_cons_zero] at parted
      simp [prefixLen, parted]

/-- A short node whose key parts from the inserted key at the first nibble is
replaced by a duo node over the two leaves `leafFor` builds, and the only
callbacks are those of the new leaves. -/
theorem insert_shortNode_part_first {key : List Nibble} {pos : Nat} (inKey : pos < key.length)
    {nk : Bytes} {nKey : List Nibble} (decoded : compactToHex nk = nKey) (nKeyLive : 0 < nKey.length)
    (parted : nKey[0] ≠ key[pos]) (nval : Node) (nflags : NodeFlag) (value : Node) (c : TrieContinuation)
    (blockNr : Nat) :
    insert (.shortNode nk nval nflags) key pos value c blockNr =
      .ok (true, { c with
          updated := true
          n := (Node.duoNode (bit nKey[0] ||| bit key[pos])
            (if nKey[0] < key[pos] then (leafFor nKey 0 nval blockNr).1 else (leafFor key pos value blockNr).1)
            (if nKey[0] < key[pos] then (leafFor key pos value blockNr).1 else (leafFor nKey 0 nval blockNr).1)
            { dirty := true, t := blockNr }).adjustTod blockNr },
        (leafFor nKey 0 nval blockNr).2 ++ (leafFor key pos value blockNr).2) := by
  subst decoded
  have zero : prefixLen (key.drop pos) (compactToHex nk) = 0 := by
    apply prefixLen_of_parted (by simp; omega) nKeyLive
    simpa using parted.symm
  rw [insert, if_neg (by omega)]
  simp only [zero, Nat.add_zero, if_neg (Nat.ne_of_lt nKeyLive), List.getElem?_eq_getElem inKey,
    List.getElem?_eq_getElem nKeyLive, if_true]
  by_cases order : (compactToHex nk)[0] < key[pos]
  · simp only [if_pos order]
    rfl
  · simp only [if_neg order]
    rfl

end TurboGeth.Trie

namespace TurboGeth.State

open TurboGeth.Trie

/-! ## Counting the loaded nodes -/

theorem countNodes_adjustTod (n : Node) (fallback : Nat) (m : Nat → Int) :
    countNodes (n.adjustTod fallback) m = countNodes n m := by
  cases n <;> simp [Node.adjustTod, countNodes]

theorem countNodes_newShortNode_value (key : List Nibble) (value : Bytes) (blockNr : Nat) (m : Nat → Int) :
    countNodes (newShortNode key (.valueNode value) blockNr) m = (1, Function.update m blockNr (m blockNr + 1)) := by
  simp [newShortNode, countNodes_adjustTod, countNodes]

theorem leafFor_long {key : List Nibble} {pos : Nat} (long : key.length ≠ pos + 1) (value : Node) (blockNr : Nat) :
    leafFor key pos value blockNr = (newShortNode (key.drop (pos + 1)) value blockNr, [.join blockNr]) := by
  simp [leafFor, long]

namespace TrieDbState

variable (env : Env)

/-! ## Two blocks -/

/-- Account A written in block `b1` and account B in a later block `b2`, into
a trie cache started empty at `b0`, their hashed keys parting at the first
nibble: the cache counts one node of generation `b1`, but no loaded node is
of that generation any more, while the total stays right. -/
theorem generationCounts_stale_after_split (addressA addressB : Bytes) (accountA accountB : Account)
    (b0 b1 b2 : Nat) (started : b0 ≤ b1) (later : b1 < b2)
    (hashedA : env.keccak addressA ≠ []) (hashedB : env.keccak addressB ≠ [])
    (parted : (keybytesToHex (env.keccak addressA))[0]? ≠ (keybytesToHex (env.keccak addressB))[0]?) :
    ∃ tds, (newTrieDbState emptyRoot b0).run env
        [.setBlockNr b1, .updateAccountData addressA accountA, .trieRoot,
         .setBlockNr b2, .updateAccountData addressB accountB, .trieRoot] = .ok tds ∧
      tds.oldestGeneration ≤ b1 ∧
      tds.nodeCount = (countNodes tds.t.root fun _ => 0).1 ∧
      tds.generationCounts b1 = 1 ∧ (countNodes tds.t.root fun _ => 0).2 b1 = 0 := by
  -- block `b1` puts account A into the empty trie: one new short node
  set hexA := keybytesToHex (env.keccak addressA)
  set hexB := keybytesToHex (env.keccak addressB)
  set leafA := newShortNode hexA (.valueNode accountA.encodeRLP) b1
  set tds1 := ((newTrieDbState emptyRoot b0).setBlockNr b1).updateAccountData env addressA accountA with tds1Def
  have empty : tds1.t.root = .nil := by
    simp [tds1Def, newTrieDbState, Trie.new, updateAccountData, setBlockNr, emptyRoot, zeroHash]
  have block1 := trieRootAndClear_one_account env tds1 (env.keccak addressA) accountA rfl rfl rfl rfl
    (by rw [empty]; exact runWithDb_updateAction_nil _ _ (Account.encodeRLP_ne_nil accountA) b1)
  set tds2 := ((tds1.setTrie none { tds1.t with root := leafA }).listen [.join b1]).clearUpdates with tds2Def
  -- block `b2` puts account B beside it: the short node gives way to a branch
  set tds3 := (tds2.setBlockNr b2).updateAccountData env addressB accountB with tds3Def
  have longA : hexA.length ≠ 0 + 1 := by simp [hexA, keybytesToHex_length, hashedA]
  have longB : hexB.length ≠ 0 + 1 := by simp [hexB, keybytesToHex_length, hashedB]
  have liveA : 0 < hexA.length := by simp [hexA, keybytesToHex_length]
  have liveB : 0 < hexB.length := by simp [hexB, keybytesToHex_length]
  have parted' : hexA[0] ≠ hexB[0] := by
    intro same
    apply parted
    rw [List.getElem?_eq_getElem liveA, List.getElem?_eq_getElem liveB, same]
  have leafShape : leafA = .shortNode (hexToCompact hexA) (.valueNode accountA.encodeRLP)
      { dirty := true, t := b1, tod := min b1 b1 } := rfl
  have decoded := compactToHex_hexToCompact hexA (keybytesToHex_termLast _)
  have split := insert_shortNode_part_first liveB decoded liveA parted' (.valueNode accountA.encodeRLP)
    { dirty := true, t := b1, tod := min b1 b1 } (.valueNode accountB.encodeRLP)
    { updateAction (env.keccak addressB) accountB.encodeRLP with updated := false } b2
  rw [leafFor_long longA, leafFor_long longB] at split
  have block2 := trieRootAndClear_one_account env tds3 (env.keccak addressB) accountB rfl rfl rfl rfl
    (by
      rw [show tds3.t.root = leafA from rfl, leafShape,
        runWithDb_updateAction_shortNode _ _ (Account.encodeRLP_ne_nil accountB)]
      exact split)
  refine ⟨?final, ?run, ?oldest, ?count, ?gen, ?census⟩
  case run =>
    simp only [run, List.foldlM_cons, List.foldlM_nil, exec, ExceptRun.pure_eq_ok, ExceptRun.ok_bind]
    rw [← tds1Def, block1]
    simp only [ExceptRun.map_ok, ExceptRun.ok_bind]
    rw [← tds3Def, block2]
    rfl
  case oldest =>
    simpa [tds3Def, tds2Def, tds1Def, listen_eq, clearUpdates, setTrie, updateAccountData, setBlockNr,
      newTrieDbState] using started
  case gen =>
    simp [tds3Def, tds2Def, tds1Def, listen_eq, clearUpdates, setTrie, updateAccountData, setBlockNr,
      newTrieDbState, GenEvent.weightAt, Nat.ne_of_gt later]
  case count =>
    simp [tds3Def, tds2Def, tds1Def, listen_eq, clearUpdates, setTrie, updateAccountData, setBlockNr,
      newTrieDbState, GenEvent.weight, countNodes_adjustTod]
    split_ifs <;> simp [countNodes, countNodes_newShortNode_value]
  case census =>
    simp [tds3Def, tds2Def, tds1Def, listen_eq, clearUpdates, setTrie, updateAccountData, setBlockNr,
      newTrieDbState, countNodes_adjustTod]
    split_ifs <;> simp [countNodes, countNodes_newShortNode_value, Function.update_of_ne (Nat.ne_of_lt later)]

theorem generationCounts_stale_at_two_accounts :
    (0 ≤ 1 ∧ 1 < 2 ∧ [0x10] ≠ ([] : Bytes) ∧ [0x20] ≠ ([] : Bytes) ∧
      (keybytesToHex [0x10])[0]? ≠ (keybytesToHex [0x20])[0]?) ∧
    ∃ tds, (newTrieDbState emptyRoot 0).run
        { keccak := id, decodeAccount := fun _ => none, decodeExtAccount := fun _ => none,
          accountGet := fun _ => none, storageGet := fun _ _ => none, resolveWithDb := .ok, hashTrie := fun _ => [],
          fuel := 0 }
        [.setBlockNr 1, .updateAccountData [0x10] ⟨0, 1, emptyRoot, []⟩, .trieRoot,
         .setBlockNr 2, .updateAccountData [0x20] ⟨0, 1, emptyRoot, []⟩, .trieRoot] = .ok tds ∧
      tds.oldestGeneration ≤ 1 ∧
      tds.nodeCount = (countNodes tds.t.root fun _ => 0).1 ∧
      tds.generationCounts 1 = 1 ∧ (countNodes tds.t.root fun _ => 0).2 1 = 0 :=
  ⟨by decide, generationCounts_stale_after_split _ [0x10] [0x20] ⟨0, 1, emptyRoot, []⟩ ⟨0, 1, emptyRoot, []⟩ 0 1 2
    (by decide) (by decide) (by decide) (by decide) (by decide)⟩

end TrieDbState

end TurboGeth.State

