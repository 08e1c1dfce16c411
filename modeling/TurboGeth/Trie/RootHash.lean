import TurboGeth.Trie.Hasher
import TurboGeth.Trie.MapSemantics
import TurboGeth.Lib.MerklePatricia

/-!
# The root hash against the Yellow Paper

`Hash` hashes the encoding `hashChildren` writes for the root; the Yellow
Paper hashes the RLP of the structure `c(I, 0)` of the map.  The two agree on
how a child is referenced, but not on a duo node whose second live slot is
slot 16: `hashChildren` hands the value there to `hashInternal`, which writes
a value node's bytes raw, with no string header, where the Yellow Paper
(and the full node's branch of `hashChildren`) puts the RLP string of the
value.  A map that holds a key and an extension of it, with a value of two to
31 bytes at the shorter key, gets such a node.
-/

set_option autoImplicit false

namespace TurboGeth.Trie

/-- `{do ↦ verb}`: one short node, as `RunWithDb` makes it in block 0. -/
def doVerbTrie : Node := .shortNode [0x20, 0x64, 0x6f] (.valueNode [0x76, 0x65, 0x72, 0x62]) { dirty := true }

/-- `{do ↦ verb, dog ↦ puppy}` as the second insertion leaves it: the short
node split after the shared nibbles `6 4 6 f` into a duo node over slot 6,
a short node for `dog`, and slot 16, the value of `do`. -/
def doDogTrie : Node :=
  .shortNode [0x00, 0x64, 0x6f]
    (.duoNode (bit 6 ||| bit 16) (.shortNode [0x37] (.valueNode [0x70, 0x75, 0x70, 0x70, 0x79]) { dirty := true })
      (.valueNode [0x76, 0x65, 0x72, 0x62]) { dirty := true })
    { dirty := true }

section DoDog

variable (resolveWithDb : TrieContinuation → Except String TrieContinuation) (fuel : Nat)

theorem runOps_doDog :
    runOps resolveWithDb (fuel + 1) (Trie.new zeroHash false)
      [.update [0x64, 0x6f] [0x76, 0x65, 0x72, 0x62] 0,
        .update [0x64, 0x6f, 0x67] [0x70, 0x75, 0x70, 0x70, 0x79] 0] = .ok ⟨doDogTrie, false⟩ := by
  have empty : Trie.new zeroHash false = { root := .nil, encodeToBytes := false } := by
    simp [Trie.new]
  have first := runWithDb_updateAction_nil [0x64, 0x6f] [0x76, 0x65, 0x72, 0x62] (by decide) 0
  have leaf : newShortNode (keybytesToHex [0x64, 0x6f]) (.valueNode [0x76, 0x65, 0x72, 0x62]) 0 = doVerbTrie := rfl
  rw [leaf] at first
  have second := runWithDb_updateAction_shortNode [0x64, 0x6f, 0x67] [0x70, 0x75, 0x70, 0x70, 0x79] (by decide)
    [0x20, 0x64, 0x6f] (.valueNode [0x76, 0x65, 0x72, 0x62]) { dirty := true } 0
  rw [insert] at second
  have round1 : resolveLoop resolveWithDb (fuel + 1) (updateAction [0x64, 0x6f] [0x76, 0x65, 0x72, 0x62])
      ⟨.nil, false⟩ 0 = .ok (⟨doVerbTrie, false⟩, [.join 0]) :=
    @resolveLoop_done resolveWithDb fuel _ _ ⟨.nil, false⟩ _ _ first
  have round2 : resolveLoop resolveWithDb (fuel + 1) (updateAction [0x64, 0x6f, 0x67] [0x70, 0x75, 0x70, 0x70, 0x79])
      ⟨doVerbTrie, false⟩ 0 = .ok (⟨doDogTrie, false⟩, [.join 0, .join 0]) :=
    @resolveLoop_done resolveWithDb fuel _ _ ⟨doVerbTrie, false⟩ _ _ second
  simp only [runOps, List.foldlM_cons, List.foldlM_nil, applyOp, tryUpdate, empty, round1, ExceptRun.map_ok,
    ExceptRun.ok_bind, round2]
  rfl

end DoDog

section Hash

variable (keccak : Bytes → Bytes)

/-- The encoding of the duo node of `{do ↦ verb, dog ↦ puppy}`: 28 bytes,
embedded in its parent, with `dog`'s leaf embedded in slot 6 and `verb` raw in
slot 16. -/
theorem hashChildren_doDogBranch :
    hashChildren keccak false
      (.duoNode (bit 6 ||| bit 16) (.shortNode [0x37] (.valueNode [0x70, 0x75, 0x70, 0x70, 0x79]) { dirty := true })
        (.valueNode [0x76, 0x65, 0x72, 0x62]) { dirty := true }) =
      [0xdb, 0x80, 0x80, 0x80, 0x80, 0x80, 0x80, 0xc7, 0x37, 0x85, 0x70, 0x75, 0x70, 0x70, 0x79,
        0x80, 0x80, 0x80, 0x80, 0x80, 0x80, 0x80, 0x80, 0x80, 0x76, 0x65, 0x72, 0x62] := by
  have dogLeaf : hashChildren keccak false
      (.shortNode [0x37] (.valueNode [0x70, 0x75, 0x70, 0x70, 0x79]) { dirty := true }) =
      [0xc7, 0x37, 0x85, 0x70, 0x75, 0x70, 0x70, 0x79] := by
    rw [hashChildren]
    simp only [Node.asValue]
    decide
  have dogSlot := @hashChild_embedded keccak false
    (.shortNode [0x37] (.valueNode [0x70, 0x75, 0x70, 0x70, 0x79]) { dirty := true }) rfl (by simp) rfl
    (by rw [dogLeaf]; decide)
  have verbValue : hashChildren keccak false (.valueNode [0x76, 0x65, 0x72, 0x62]) = [0x76, 0x65, 0x72, 0x62] := by
    rw [hashChildren]
    decide
  have verbSlot := @hashChild_embedded keccak false (.valueNode [0x76, 0x65, 0x72, 0x62]) rfl (by simp) rfl
    (by rw [verbValue]; decide)
  rw [hashChildren, dogSlot, dogLeaf, verbSlot, verbValue]
  decide

theorem hashChildren_doDog :
    hashChildren keccak false doDogTrie =
      [0xe0, 0x83, 0x00, 0x64, 0x6f, 0xdb, 0x80, 0x80, 0x80, 0x80, 0x80, 0x80,
        0xc7, 0x37, 0x85, 0x70, 0x75, 0x70, 0x70, 0x79, 0x80, 0x80, 0x80, 0x80, 0x80, 0x80, 0x80, 0x80, 0x80,
        0x76, 0x65, 0x72, 0x62] := by
  have duoSlot := @hashChild_embedded keccak false
    (.duoNode (bit 6 ||| bit 16) (.shortNode [0x37] (.valueNode [0x70, 0x75, 0x70, 0x70, 0x79]) { dirty := true })
      (.valueNode [0x76, 0x65, 0x72, 0x62]) { dirty := true }) rfl (by simp) rfl
      (by rw [hashChildren_doDogBranch]; decide)
  simp only [doDogTrie]
  rw [hashChildren]
  simp only [Node.asValue]
  rw [duoSlot, hashChildren_doDogBranch]
  decide

theorem hashRoot_doDog :
    Trie.hashRoot keccak ⟨doDogTrie, false⟩ = keccak
      [0xe0, 0x83, 0x00, 0x64, 0x6f, 0xdb, 0x80, 0x80, 0x80, 0x80, 0x80, 0x80,
        0xc7, 0x37, 0x85, 0x70, 0x75, 0x70, 0x70, 0x79, 0x80, 0x80, 0x80, 0x80, 0x80, 0x80, 0x80, 0x80, 0x80,
        0x76, 0x65, 0x72, 0x62] := by
  rw [hashRoot_dirty keccak rfl (by simp [doDogTrie]) rfl, hashChildren_doDog]

theorem paperRoot_doDog :
    MerklePatricia.root keccak
        [([0x64, 0x6f], [0x76, 0x65, 0x72, 0x62]), ([0x64, 0x6f, 0x67], [0x70, 0x75, 0x70, 0x70, 0x79])] =
      keccak [0xe1, 0x83, 0x00, 0x64, 0x6f, 0xdc, 0x80, 0x80, 0x80, 0x80, 0x80, 0x80,
        0xc7, 0x37, 0x85, 0x70, 0x75, 0x70, 0x70, 0x79, 0x80, 0x80, 0x80, 0x80, 0x80, 0x80, 0x80, 0x80, 0x80,
        0x84, 0x76, 0x65, 0x72, 0x62] := by
  let doEntry : MerklePatricia.Path × Bytes := ([6, 4, 6, 15], [0x76, 0x65, 0x72, 0x62])
  let dogEntry : MerklePatricia.Path × Bytes := ([6, 4, 6, 15, 6, 7], [0x70, 0x75, 0x70, 0x70, 0x79])
  have items : [([0x64, 0x6f], [0x76, 0x65, 0x72, 0x62]), ([0x64, 0x6f, 0x67], [0x70, 0x75, 0x70, 0x70, 0x79])].map
      (fun (e : Bytes × Bytes) => (MerklePatricia.nibbles e.1, e.2)) = [doEntry, dogEntry] := by
    decide
  have common : MerklePatricia.commonLen ([doEntry, dogEntry].map Prod.fst) = 4 := by decide
  -- the group of nibble 6 is the entry of `dog`, a leaf short enough to embed
  have dogLeaf : MerklePatricia.child keccak 5 [dogEntry] 5 = .list [.bytes [0x37], .bytes [0x70, 0x75, 0x70, 0x70, 0x79]] := by
    rw [MerklePatricia.child_cons, MerklePatricia.collapse_succ, MerklePatricia.level_single,
      MerklePatricia.reference_short keccak]
    · rw [show MerklePatricia.hexPrefix (dogEntry.1.drop 5) true = [0x37] by decide]
    · decide
  have groups : (List.finRange 16).map (MerklePatricia.group [doEntry, dogEntry] 4) =
      [[], [], [], [], [], [], [dogEntry], [], [], [], [], [], [], [], [], []] := by
    decide
  have children : (List.finRange 16).map (fun d => MerklePatricia.child keccak 5 (MerklePatricia.group [doEntry, dogEntry] 4 d) (4 + 1)) =
      [.bytes [], .bytes [], .bytes [], .bytes [], .bytes [], .bytes [], .list [.bytes [0x37], .bytes [0x70, 0x75, 0x70, 0x70, 0x79]],
        .bytes [], .bytes [], .bytes [], .bytes [], .bytes [], .bytes [], .bytes [], .bytes [], .bytes []] := by
    rw [show (fun d => MerklePatricia.child keccak 5 (MerklePatricia.group [doEntry, dogEntry] 4 d) (4 + 1)) =
      (fun g => MerklePatricia.child keccak 5 g 5) ∘ MerklePatricia.group [doEntry, dogEntry] 4 from rfl,
      ← List.map_map, groups]
    simp only [List.map_cons, List.map_nil, MerklePatricia.child_nil, dogLeaf]
  rw [MerklePatricia.root_of_ne_nil keccak _ (by simp), items,
    show MerklePatricia.depthOf [doEntry, dogEntry] = 6 + 1 from rfl, MerklePatricia.collapse_succ,
    MerklePatricia.level_shared _ _ _ _ _ (by rw [common]; decide), common, MerklePatricia.child_cons,
    MerklePatricia.collapse_succ, MerklePatricia.level_branch _ _ _ _ _ (by rw [common]), children,
    MerklePatricia.reference_short keccak]
  · exact congrArg keccak (by decide)
  · decide

end Hash

theorem hashRoot_ne_paperRoot (resolveWithDb : TrieContinuation → Except String TrieContinuation) (fuel : Nat)
    (keccak : Bytes → Bytes) :
    ∃ t codeRlp paperRlp,
      runOps resolveWithDb (fuel + 1) (Trie.new zeroHash false)
          [.update [0x64, 0x6f] [0x76, 0x65, 0x72, 0x62] 0,
            .update [0x64, 0x6f, 0x67] [0x70, 0x75, 0x70, 0x70, 0x79] 0] = .ok t ∧
        (∀ key, lastWrite [.update [0x64, 0x6f] [0x76, 0x65, 0x72, 0x62] 0,
            .update [0x64, 0x6f, 0x67] [0x70, 0x75, 0x70, 0x70, 0x79] 0] key =
          [([0x64, 0x6f], [0x76, 0x65, 0x72, 0x62]), ([0x64, 0x6f, 0x67], [0x70, 0x75, 0x70, 0x70, 0x79])].lookup key) ∧
        t.hashRoot keccak = keccak codeRlp ∧
        MerklePatricia.root keccak
            [([0x64, 0x6f], [0x76, 0x65, 0x72, 0x62]), ([0x64, 0x6f, 0x67], [0x70, 0x75, 0x70, 0x70, 0x79])] =
          keccak paperRlp ∧
        codeRlp ≠ paperRlp := by
  refine ⟨⟨doDogTrie, false⟩, _, _, runOps_doDog resolveWithDb fuel, ?map, hashRoot_doDog keccak,
    paperRoot_doDog keccak, by decide⟩
  case map =>
    intro key
    by_cases isDog : key = [0x64, 0x6f, 0x67]
    · subst isDog
      decide
    · by_cases isDo : key = [0x64, 0x6f]
      · subst isDo
        decide
      · have notDo : (key == [0x64, 0x6f]) = false := beq_false_of_ne isDo
        have notDog : (key == [0x64, 0x6f, 0x67]) = false := beq_false_of_ne isDog
        simp [lastWrite, TrieOp.key, TrieOp.written, List.lookup, Ne.symm isDog, Ne.symm isDo, notDo, notDog]

end TurboGeth.Trie
