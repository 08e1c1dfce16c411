import TurboGeth.Trie.ContentHash
import TurboGeth.Trie.HashBuffer

/-!
# Hashing between operations

`Hash` may be called between any two updates or deletions, and it leaves
behind the hashes it computed, cached in the nodes it marked clean; the
operations after it start from a trie whose clean nodes carry those hashes.
`insert` and `delete` keep such a cache coherent.  Every node on the path
they rewrite is marked dirty when what is below it changed, and a node they
leave clean is one whose encoding they did not touch: Go reports that through
`c.updated`, and a node not reported updated is mutated in place into one of
the same shape.  `Replaces` is what a call leaves in place of a node: a node
with a coherent cache, of the old node's shape when no update is reported.

So the root hash does not depend on where the `Hash` calls fall: a run of
updates, deletions and `Hash` calls ends with the root hash of the same
updates and deletions run alone.
-/

set_option autoImplicit false

namespace TurboGeth.Trie

/-! ## What `Hash` leaves: the same contents in the same shape -/

section AfterHash

variable (keccak : Bytes → Bytes) (encodeToBytes : Bool)

@[simp] theorem isShort_afterHashInternal (n : Node) (force : Bool) :
    (afterHashInternal keccak encodeToBytes n force).isShort = n.isShort := by
  cases n <;> simp only [afterHashInternal] <;> split <;> rfl

@[simp] theorem denote_afterHashInternal (n : Node) :
    ∀ force, (afterHashInternal keccak encodeToBytes n force).denote = n.denote := by
  induction n with
  | nil | hashNode | valueNode => intro force; rfl
  | shortNode key val flags valSame =>
      intro force
      rw [afterHashInternal]
      split
      · rw [Node.denote_shortNode, Node.denote_shortNode, valSame]
      · rfl
  | duoNode mask child1 child2 flags same1 same2 =>
      intro force
      rw [afterHashInternal]
      split
      · rw [Node.denote_duoNode, Node.denote_duoNode,
          duoSlots_afterHash Node.denote PathMap.empty mask (same1 false) (same2 false)]
      · rfl
  | fullNode children flags childrenSame =>
      intro force
      rw [afterHashInternal]
      split
      · rw [Node.denote_fullNode, Node.denote_fullNode]
        congr 1
        funext i
        split
        · exact childrenSame i false
        · rfl
      · rfl

theorem liveList_congr {children children' : Nibble → Node} (sameNil : ∀ i, (children' i).isNil = (children i).isNil) :
    liveList children' = liveList children := by
  simp only [liveList, sameNil]

/-- `Hash` keeps a trie canonical: it changes flags only.  The induction
follows `Canonical`; a canonical duo node has its two children in different
slots, so `Hash` visits both. -/
theorem Node.Canonical.afterHashed {n : Node} {term : Bool} (canonical : n.Canonical term) :
    ∀ force, (afterHashInternal keccak encodeToBytes n force).Canonical term := by
  induction canonical with
  | nil term => intro force; exact .nil term
  | valueNode value => intro force; exact .valueNode value
  | shortNode key val flags keyLive keyShape valLive valNotShort valCanonical valAfter =>
      intro force
      rw [afterHashInternal]
      split
      · exact .shortNode key _ _ keyLive keyShape (by rw [isNil_afterHashInternal, valLive])
          (by rw [isShort_afterHashInternal, valNotShort]) (valAfter false)
      · exact .shortNode key val flags keyLive keyShape valLive valNotShort valCanonical
  | duoNode lower higher ordered child1 child2 flags live1 live2 canonical1 canonical2 after1 after2 =>
      intro force
      have apart : (childrenIdx (bit lower ||| bit higher)).2 ≠ (childrenIdx (bit lower ||| bit higher)).1 := by
        rw [childrenIdx_bits lower higher ordered]
        exact ordered.ne'
      rw [afterHashInternal]
      by_cases dirty : flags.dirty = true
      · rw [if_pos dirty, if_neg apart]
        exact .duoNode lower higher ordered _ _ _ (by rw [isNil_afterHashInternal, live1])
          (by rw [isNil_afterHashInternal, live2]) (after1 false) (after2 false)
      · rw [if_neg dirty]
        exact .duoNode lower higher ordered child1 child2 flags live1 live2 canonical1 canonical2
  | fullNode children flags threeLive childrenCanonical childrenAfter =>
      intro force
      rw [afterHashInternal]
      split
      · have slots : ∀ i, (if i.val < 16 then afterHashInternal keccak encodeToBytes (children i) false
            else children i).Canonical (decide (i = 16)) := by
          intro i
          split
          · exact childrenAfter i false
          · exact childrenCanonical i
        have sameNil : ∀ i, (if i.val < 16 then afterHashInternal keccak encodeToBytes (children i) false
            else children i).isNil = (children i).isNil := by
          intro i
          split <;> simp
        refine .fullNode _ _ ?_ slots
        rw [liveList_congr sameNil]
        exact threeLive
      · exact .fullNode children flags threeLive childrenCanonical

end AfterHash

/-! ## Coherent caches under insertion and deletion -/

@[simp] theorem Node.skeleton_adjustTod (n : Node) (fallback : Nat) : (n.adjustTod fallback).skeleton = n.skeleton := by
  cases n <;> rfl

theorem Node.asValue_eq_of_skeleton {n m : Node} (same : n.skeleton = m.skeleton) : n.asValue = m.asValue := by
  rw [← Node.asValue_skeleton n, same, Node.asValue_skeleton]

theorem hash_of_stampT {flags stamped : NodeFlag} {t : Nat} {events : List GenEvent}
    (stamp : stampT flags t = (stamped, events)) : stamped.hash = flags.hash := by
  have stampedIs : (stampT flags t).1 = stamped := congrArg Prod.fst stamp
  rw [← stampedIs]
  unfold stampT
  split <;> rfl

section Coherence

variable {keccak : Bytes → Bytes} {encodeToBytes : Bool}

theorem coherent_of_dirty {flags : NodeFlag} (dirty : flags.dirty = true) (stored : Bytes) :
    flags.dirty = false → flags.hash = stored :=
  fun clean => absurd (dirty.symm.trans clean) Bool.noConfusion

theorem coherent_reflag {flags flags' : NodeFlag} {encoded encoded' : Bytes} {force : Bool}
    (coherent : flags.dirty = false → flags.hash = store keccak encoded force)
    (sameDirty : flags'.dirty = flags.dirty) (sameHash : flags'.hash = flags.hash) (sameEncoding : encoded' = encoded) :
    flags'.dirty = false → flags'.hash = store keccak encoded' force := by
  intro clean
  rw [sameHash, sameEncoding]
  exact coherent (sameDirty ▸ clean)

theorem coherent_of_updated {flags : NodeFlag} {encoded encoded' : Bytes} {force : Bool}
    (coherent : flags.dirty = false → flags.hash = store keccak encoded force) (updated : Bool)
    (same : updated = false → encoded' = encoded) :
    (if updated then { flags with dirty := true } else flags).dirty = false →
      (if updated then { flags with dirty := true } else flags).hash = store keccak encoded' force := by
  cases updated with
  | true => exact coherent_of_dirty rfl _
  | false =>
      rw [if_neg Bool.false_ne_true]
      exact coherent_reflag coherent rfl rfl (same rfl)

namespace Node.Cached

theorem of_shortNode {key : Bytes} {val : Node} {flags : NodeFlag} {force : Bool}
    (cached : (Node.shortNode key val flags).Cached keccak encodeToBytes force) :
    val.Cached keccak encodeToBytes false := by
  cases cached
  assumption

theorem of_duoNode {mask : UInt32} {child1 child2 : Node} {flags : NodeFlag} {force : Bool}
    (cached : (Node.duoNode mask child1 child2 flags).Cached keccak encodeToBytes force) :
    child1.Cached keccak encodeToBytes false ∧ child2.Cached keccak encodeToBytes false := by
  cases cached with
  | duoNode _ _ _ _ _ cached1 cached2 => exact ⟨cached1, cached2⟩

theorem of_fullNode {children : Nibble → Node} {flags : NodeFlag} {force : Bool}
    (cached : (Node.fullNode children flags).Cached keccak encodeToBytes force) :
    ∀ i, (children i).Cached keccak encodeToBytes false := by
  cases cached
  assumption

theorem shortKey {key : Bytes} {val : Node} {flags : NodeFlag} {force : Bool}
    (cached : (Node.shortNode key val flags).Cached keccak encodeToBytes force) :
    TermLast (compactToHex key) ∧ key = hexToCompact (compactToHex key) := by
  cases cached with
  | shortNode _ hex shape compact =>
      subst compact
      rw [compactToHex_hexToCompact hex shape]
      exact ⟨shape, rfl⟩

/-! A node's encoding reads its key and its children, never its flags; a
child with a coherent cache is read through its shape. -/

theorem hashChildren_shortNode {key : Bytes} {val val' : Node} (cached : val.Cached keccak encodeToBytes false)
    (cached' : val'.Cached keccak encodeToBytes false) (same : val'.skeleton = val.skeleton) (flags flags' : NodeFlag) :
    hashChildren keccak encodeToBytes (.shortNode key val' flags') =
      hashChildren keccak encodeToBytes (.shortNode key val flags) := by
  rw [hashChildren, hashChildren, Node.asValue_eq_of_skeleton same, cached'.hashChild_eq cached same]

theorem hashChildren_duoNode {mask : UInt32} {child1 child2 child1' child2' : Node}
    (cached1 : child1.Cached keccak encodeToBytes false) (cached2 : child2.Cached keccak encodeToBytes false)
    (cached1' : child1'.Cached keccak encodeToBytes false) (cached2' : child2'.Cached keccak encodeToBytes false)
    (same1 : child1'.skeleton = child1.skeleton) (same2 : child2'.skeleton = child2.skeleton) (flags flags' : NodeFlag) :
    hashChildren keccak encodeToBytes (.duoNode mask child1' child2' flags') =
      hashChildren keccak encodeToBytes (.duoNode mask child1 child2 flags) := by
  rw [hashChildren, hashChildren, cached1'.hashChild_eq cached1 same1, cached2'.hashChild_eq cached2 same2]

theorem hashChildren_fullNode {children children' : Nibble → Node}
    (cached : ∀ i, (children i).Cached keccak encodeToBytes false)
    (cached' : ∀ i, (children' i).Cached keccak encodeToBytes false)
    (same : ∀ i, (children' i).skeleton = (children i).skeleton) (flags flags' : NodeFlag) :
    hashChildren keccak encodeToBytes (.fullNode children' flags') =
      hashChildren keccak encodeToBytes (.fullNode children flags) := by
  have childSame : ∀ i, hashChild keccak encodeToBytes (children' i) = hashChild keccak encodeToBytes (children i) :=
    fun i => (cached' i).hashChild_eq (cached i) (same i)
  rw [hashChildren, hashChildren]
  simp only [childSame, Node.asValue_eq_of_skeleton (same 16)]

/-! The flags' times are no part of the cache: the same node with the same
dirty bit and hash is as coherent. -/

theorem shortNode_reflag {key : Bytes} {val : Node} {flags flags' : NodeFlag} {force : Bool}
    (cached : (Node.shortNode key val flags).Cached keccak encodeToBytes force)
    (sameDirty : flags'.dirty = flags.dirty) (sameHash : flags'.hash = flags.hash) :
    (Node.shortNode key val flags').Cached keccak encodeToBytes force := by
  cases cached with
  | shortNode _ hex shape compact _ _ _ valCached coherent =>
      exact .shortNode key hex shape compact val flags' force valCached
        (coherent_reflag coherent sameDirty sameHash (hashChildren_shortNode valCached valCached rfl flags flags'))

theorem duoNode_reflag {mask : UInt32} {child1 child2 : Node} {flags flags' : NodeFlag} {force : Bool}
    (cached : (Node.duoNode mask child1 child2 flags).Cached keccak encodeToBytes force)
    (sameDirty : flags'.dirty = flags.dirty) (sameHash : flags'.hash = flags.hash) :
    (Node.duoNode mask child1 child2 flags').Cached keccak encodeToBytes force := by
  cases cached with
  | duoNode _ _ _ _ _ cached1 cached2 coherent =>
      exact .duoNode mask child1 child2 flags' force cached1 cached2 (coherent_reflag coherent sameDirty sameHash
        (hashChildren_duoNode cached1 cached2 cached1 cached2 rfl rfl flags flags'))

theorem fullNode_reflag {children : Nibble → Node} {flags flags' : NodeFlag} {force : Bool}
    (cached : (Node.fullNode children flags).Cached keccak encodeToBytes force)
    (sameDirty : flags'.dirty = flags.dirty) (sameHash : flags'.hash = flags.hash) :
    (Node.fullNode children flags').Cached keccak encodeToBytes force := by
  cases cached with
  | fullNode _ _ _ childrenCached coherent =>
      exact .fullNode children flags' force childrenCached (coherent_reflag coherent sameDirty sameHash
        (hashChildren_fullNode childrenCached childrenCached (fun _ => rfl) flags flags'))

theorem adjustTod {n : Node} {force : Bool} (cached : n.Cached keccak encodeToBytes force) (fallback : Nat) :
    (n.adjustTod fallback).Cached keccak encodeToBytes force := by
  cases n with
  | nil | hashNode | valueNode => exact cached
  | shortNode => exact cached.shortNode_reflag rfl rfl
  | duoNode => exact cached.duoNode_reflag rfl rfl
  | fullNode => exact cached.fullNode_reflag rfl rfl

theorem whenAdjust {n : Node} {force : Bool} (cached : n.Cached keccak encodeToBytes force) (adjust : Bool)
    (blockNr : Nat) : (TurboGeth.Trie.whenAdjust adjust n blockNr).Cached keccak encodeToBytes force := by
  cases adjust
  · exact cached
  · exact cached.adjustTod blockNr

theorem update {children : Nibble → Node} (childrenCached : ∀ i, (children i).Cached keccak encodeToBytes false)
    {child : Node} (cached : child.Cached keccak encodeToBytes false) (slot : Nibble) :
    ∀ i, (Function.update children slot child i).Cached keccak encodeToBytes false := by
  intro i
  by_cases atSlot : i = slot
  · subst atSlot
    simpa using cached
  · simpa [atSlot] using childrenCached i

end Node.Cached

theorem cached_newShortNode {key : List Nibble} (shape : TermLast key) {val : Node}
    (valCached : val.Cached keccak encodeToBytes false) (blockNr : Nat) (force : Bool) :
    (newShortNode key val blockNr).Cached keccak encodeToBytes force :=
  (Node.Cached.shortNode _ key shape rfl val _ force valCached (coherent_of_dirty rfl _)).adjustTod blockNr

theorem cached_leafFor {key : List Nibble} (shape : TermLast key) (pos : Nat) {val : Node}
    (valCached : val.Cached keccak encodeToBytes false) (blockNr : Nat) :
    (leafFor key pos val blockNr).1.Cached keccak encodeToBytes false := by
  unfold leafFor
  split
  · exact valCached
  · exact cached_newShortNode (termLast_drop shape _) valCached blockNr false

/-! ## What a call leaves in place of a node -/

/-- `n'` stands where `n` stood, as `insert` and `delete` leave it: its cache
is coherent, and when it is not reported updated it has `n`'s shape. -/
structure Replaces (keccak : Bytes → Bytes) (encodeToBytes force : Bool) (n n' : Node) (updated : Bool) : Prop where
  cached : n'.Cached keccak encodeToBytes force
  kept : updated = false → n'.skeleton = n.skeleton

namespace Replaces

variable {force : Bool}

theorem refl {n : Node} (cached : n.Cached keccak encodeToBytes force) (updated : Bool) :
    Replaces keccak encodeToBytes force n n updated :=
  ⟨cached, fun _ => rfl⟩

theorem rebuilt {n n' : Node} (cached : n'.Cached keccak encodeToBytes force) {updated : Bool}
    (changed : updated = true) : Replaces keccak encodeToBytes force n n' updated :=
  ⟨cached, fun unchanged => absurd (changed.symm.trans unchanged) Bool.noConfusion⟩

theorem adjustTod {n n' : Node} {updated : Bool} (replaced : Replaces keccak encodeToBytes force n n' updated)
    (fallback : Nat) : Replaces keccak encodeToBytes force n (n'.adjustTod fallback) updated :=
  ⟨replaced.cached.adjustTod fallback, fun unchanged => by rw [Node.skeleton_adjustTod, replaced.kept unchanged]⟩

theorem whenAdjust {n n' : Node} {updated : Bool} (replaced : Replaces keccak encodeToBytes force n n' updated)
    (adjust : Bool) (blockNr : Nat) :
    Replaces keccak encodeToBytes force n (TurboGeth.Trie.whenAdjust adjust n' blockNr) updated := by
  cases adjust
  · exact replaced
  · exact replaced.adjustTod blockNr

theorem shortNode {key : Bytes} {val val' : Node} {flags : NodeFlag} {updated : Bool}
    (cached : (Node.shortNode key val flags).Cached keccak encodeToBytes force)
    (replaced : Replaces keccak encodeToBytes false val val' updated) :
    Replaces keccak encodeToBytes force (.shortNode key val flags)
      (.shortNode key val' (if updated then { flags with dirty := true } else flags)) updated := by
  cases cached with
  | shortNode _ hex shape compact _ _ _ valCached coherent =>
      refine ⟨.shortNode key hex shape compact val' _ force replaced.cached
        (coherent_of_updated coherent updated fun unchanged => ?_), fun unchanged => ?_⟩
      · exact Node.Cached.hashChildren_shortNode valCached replaced.cached (replaced.kept unchanged) _ _
      · simp only [Node.skeleton, replaced.kept unchanged]

theorem duoNode {mask : UInt32} {child1 child2 child1' child2' : Node} {flags flags' : NodeFlag} {updated : Bool}
    (cached : (Node.duoNode mask child1 child2 flags).Cached keccak encodeToBytes force)
    (replaced1 : Replaces keccak encodeToBytes false child1 child1' updated)
    (replaced2 : Replaces keccak encodeToBytes false child2 child2' updated) :
    Replaces keccak encodeToBytes force (.duoNode mask child1 child2 flags')
      (.duoNode mask child1' child2' (if updated then { flags with dirty := true } else flags)) updated := by
  cases cached with
  | duoNode _ _ _ _ _ cached1 cached2 coherent =>
      refine ⟨.duoNode mask child1' child2' _ force replaced1.cached replaced2.cached
        (coherent_of_updated coherent updated fun unchanged => ?_), fun unchanged => ?_⟩
      · exact Node.Cached.hashChildren_duoNode cached1 cached2 replaced1.cached replaced2.cached
          (replaced1.kept unchanged) (replaced2.kept unchanged) _ _
      · simp only [Node.skeleton, replaced1.kept unchanged, replaced2.kept unchanged]

theorem fullNode {children : Nibble → Node} {flags flags' : NodeFlag} {nibble : Nibble} {child : Node}
    {updated : Bool} (cached : (Node.fullNode children flags).Cached keccak encodeToBytes force)
    (replaced : Replaces keccak encodeToBytes false (children nibble) child updated) :
    Replaces keccak encodeToBytes force (.fullNode children flags')
      (.fullNode (Function.update children nibble child) (if updated then { flags with dirty := true } else flags))
      updated := by
  cases cached with
  | fullNode _ _ _ childrenCached coherent =>
      have slotsCached := Node.Cached.update childrenCached replaced.cached nibble
      have slotsKept : updated = false → ∀ i, (Function.update children nibble child i).skeleton = (children i).skeleton := by
        intro unchanged i
        by_cases atSlot : i = nibble
        · subst atSlot
          simpa using replaced.kept unchanged
        · simp [atSlot]
      refine ⟨.fullNode _ _ force slotsCached (coherent_of_updated coherent updated fun unchanged =>
        Node.Cached.hashChildren_fullNode childrenCached slotsCached (slotsKept unchanged) _ _), fun unchanged => ?_⟩
      simp only [Node.skeleton, slotsKept unchanged]

end Replaces

/-! ## Insertion keeps the cache coherent -/

section Insert

variable {key : List Nibble} (shape : HexKey key) {value : Node} (valueFresh : value.Fresh) (blockNr : Nat)
include shape valueFresh

/-- Every successful `insert` of a fresh value under a hex key into a node
with a coherent cache leaves a node with a coherent cache, of the same shape
when it reports no update.  The induction follows the branches of `insert`. -/
theorem insert_replaces {n : Node} {pos : Nat} {c : TrieContinuation} :
    ∀ {result : Bool × TrieContinuation × List GenEvent} {force : Bool}, n.Cached keccak encodeToBytes force →
      insert n key pos value c blockNr = .ok result →
        Replaces keccak encodeToBytes force n result.2.1.n result.2.1.updated := by
  fun_induction insert n key pos value c blockNr with
  | case1 c old new valueIs =>
      -- the same value again is no update, and the value node stays
      intro result force _ run
      rw [returned run]
      dsimp only
      split
      · next changed => exact .rebuilt (.valueNode new force) changed
      · exact .refl (.valueNode old force) _
  | case3 =>
      intro result force _ run
      rw [returned run]
      exact .rebuilt (valueFresh.cached keccak encodeToBytes force) rfl
  | case4 pos c notEnd nk nval nflags nKey matchlen =>
      rename_i below
      intro result force cached run
      obtain ⟨done, c', events, inner, run⟩ := returned_bind run
      rw [returned run]
      exact (Replaces.shortNode cached (below cached.of_shortNode inner)).adjustTod blockNr
  | case5 pos c notEnd nk nval nflags nKey matchlen parts keyNibble keyAt nNibble nAt leaf1 events1 leaf1Is
      leaf2 events2 leaf2Is child1 child2 ordered =>
      intro result force cached run
      rw [returned run]
      have cached1 := cached_leafFor cached.shortKey.1 matchlen cached.of_shortNode blockNr
      have cached2 := cached_leafFor shape.2 (pos + matchlen) (valueFresh.cached keccak encodeToBytes false) blockNr
      rw [leaf1Is] at cached1
      rw [leaf2Is] at cached2
      obtain ⟨first, second⟩ := @leaf_pair (fun leaf => leaf.Cached keccak encodeToBytes false) _ _ _ _ cached1 cached2
        _ _ ordered
      exact .rebuilt ((Node.Cached.duoNode _ _ _ _ force first second (coherent_of_dirty rfl _)).adjustTod blockNr) rfl
  | case6 pos c notEnd nk nval nflags nKey matchlen parts keyNibble keyAt nNibble nAt leaf1 events1 leaf1Is
      leaf2 events2 leaf2Is child1 child2 ordered branch =>
      intro result force cached run
      rw [returned run]
      have cached1 := cached_leafFor cached.shortKey.1 matchlen cached.of_shortNode blockNr
      have cached2 := cached_leafFor shape.2 (pos + matchlen) (valueFresh.cached keccak encodeToBytes false) blockNr
      rw [leaf1Is] at cached1
      rw [leaf2Is] at cached2
      obtain ⟨first, second⟩ := @leaf_pair (fun leaf => leaf.Cached keccak encodeToBytes false) _ _ _ _ cached1 cached2
        _ _ ordered
      have branchCached : branch.Cached keccak encodeToBytes false :=
        (Node.Cached.duoNode _ _ _ _ false first second (coherent_of_dirty rfl _)).adjustTod blockNr
      exact .rebuilt ((Node.Cached.shortNode _ _ (shape.termLast_segment pos matchlen) rfl _ _ force branchCached
        (coherent_of_dirty rfl _)).adjustTod blockNr) rfl
  | case9 pos c notEnd mask child1 child2 oldFlags nflags stamped stampIs i1 i2 idx dead leaf events leafIs =>
      intro result force cached run
      rw [returned run]
      have leafCached := cached_leafFor shape.2 pos (valueFresh.cached keccak encodeToBytes false) blockNr
      rw [leafIs] at leafCached
      exact .rebuilt (.duoNode _ _ _ _ force leafCached cached.of_duoNode.2 (coherent_of_dirty rfl _)) rfl
  | case10 pos c notEnd mask child1 child2 oldFlags nflags stamped stampIs i1 i2 idx adjust live atLower =>
      rename_i below
      intro result force cached run
      obtain ⟨done, c', events, inner, run⟩ := returned_bind run
      rw [returned run]
      have stampedCached := cached.duoNode_reflag (dirty_of_stampT stampIs) (hash_of_stampT stampIs)
      exact (Replaces.duoNode stampedCached (below cached.of_duoNode.1 inner) (.refl cached.of_duoNode.2 _)).whenAdjust
        _ blockNr
  | case11 pos c notEnd mask child1 child2 oldFlags nflags stamped stampIs i1 i2 idx dead leaf events leafIs n
      atHigher =>
      intro result force cached run
      rw [returned run]
      have leafCached := cached_leafFor shape.2 pos (valueFresh.cached keccak encodeToBytes false) blockNr
      rw [leafIs] at leafCached
      exact .rebuilt (.duoNode _ _ _ _ force cached.of_duoNode.1 leafCached (coherent_of_dirty rfl _)) rfl
  | case12 pos c notEnd mask child1 child2 oldFlags nflags stamped stampIs i1 i2 idx adjust live atHigher
      notLower =>
      rename_i below
      intro result force cached run
      obtain ⟨done, c', events, inner, run⟩ := returned_bind run
      rw [returned run]
      have stampedCached := cached.duoNode_reflag (dirty_of_stampT stampIs) (hash_of_stampT stampIs)
      exact (Replaces.duoNode stampedCached (.refl cached.of_duoNode.1 _) (below cached.of_duoNode.2 inner)).whenAdjust
        _ blockNr
  | case13 pos c notEnd mask child1 child2 oldFlags nibble atNibble nflags stamped stampIs i1 i2 idx notLower
      notHigher leaf events leafIs =>
      -- the duo node grows into a full node, built dirty, which takes the new leaf
      intro result force cached run
      rw [returned run]
      have leafCached := cached_leafFor shape.2 pos (valueFresh.cached keccak encodeToBytes false) blockNr
      rw [leafIs] at leafCached
      have pair : ∀ i, (Function.update (Function.update (fun _ => Node.nil) i1 child1) i2 child2 i).Cached
          keccak encodeToBytes false :=
        Node.Cached.update (Node.Cached.update (fun _ => .nil false) cached.of_duoNode.1 i1) cached.of_duoNode.2 i2
      exact .rebuilt (.fullNode _ _ force (Node.Cached.update pair leafCached nibble) (coherent_of_dirty rfl _)) rfl
  | case15 pos c notEnd children oldFlags nibble atNibble nflags stamped stampIs child adjust dead leaf events =>
      rename_i leafIs _
      intro result force cached run
      rw [returned run]
      have leafCached := cached_leafFor shape.2 pos (valueFresh.cached keccak encodeToBytes false) blockNr
      rw [leafIs] at leafCached
      exact .rebuilt ((Node.Cached.fullNode _ _ force (Node.Cached.update cached.of_fullNode leafCached nibble)
        (coherent_of_dirty rfl _)).whenAdjust _ blockNr) rfl
  | case16 pos c notEnd children oldFlags nibble atNibble nflags stamped stampIs child adjust =>
      rename_i below
      intro result force cached run
      obtain ⟨done, c', events, inner, run⟩ := returned_bind run
      rw [returned run]
      have stampedCached := cached.fullNode_reflag (dirty_of_stampT stampIs) (hash_of_stampT stampIs)
      exact (Replaces.fullNode stampedCached (below (cached.of_fullNode nibble) inner)).whenAdjust _ blockNr
  | case18 | case19 =>
      intro result force cached
      cases cached
  | case2 | case7 | case8 | case14 | case17 | case20 =>
      intro result force _ run
      simp at run

end Insert

/-! ## Deletion keeps the cache coherent -/

theorem convertToShortNode_updated (child : Node) (pos : Nibble) (c : TrieContinuation) (blockNr : Nat)
    (done : Bool) : (convertToShortNode child pos c blockNr done).2.1.updated = true := by
  unfold convertToShortNode
  split
  · split <;> rfl
  · rfl

theorem cached_convertToShortNode {child : Node} (cached : child.Cached keccak encodeToBytes false) (pos : Nibble)
    (c : TrieContinuation) (blockNr : Nat) (done : Bool) (force : Bool) :
    (convertToShortNode child pos c blockNr done).2.1.n.Cached keccak encodeToBytes force := by
  have oneNibble : (convertToShortNode.oneNibble child pos blockNr).Cached keccak encodeToBytes force :=
    cached_newShortNode (termLast_singleton pos) cached blockNr force
  cases cached with
  | shortNode shortKey hex shape compact val flags _ valCached =>
      simp only [convertToShortNode]
      split
      · -- the nibble goes in front of the child's own key
        next notTerm =>
          subst compact
          rw [compactToHex_hexToCompact hex shape]
          exact cached_newShortNode (termLast_cons notTerm shape) valCached blockNr force
      · exact oneNibble
  | nil | valueNode | duoNode | fullNode => exact oneNibble

theorem replaces_convertToShortNode {n child : Node} {force : Bool} (cached : child.Cached keccak encodeToBytes false)
    (pos : Nibble) (c : TrieContinuation) (blockNr : Nat) (done : Bool) :
    Replaces keccak encodeToBytes force n (convertToShortNode child pos c blockNr done).2.1.n
      (convertToShortNode child pos c blockNr done).2.1.updated :=
  .rebuilt (cached_convertToShortNode cached pos c blockNr done force) (convertToShortNode_updated child pos c blockNr done)

theorem replaces_shortAfterDelete {nk : Bytes} {nval : Node} {nflags : NodeFlag} {force : Bool}
    (cached : (Node.shortNode nk nval nflags).Cached keccak encodeToBytes force)
    (proper : ∀ x ∈ compactToHex nk, x ≠ 16) {c : TrieContinuation}
    (replaced : Replaces keccak encodeToBytes false nval c.n c.updated) (blockNr : Nat) (done : Bool)
    (events : List GenEvent) :
    Replaces keccak encodeToBytes force (.shortNode nk nval nflags)
      (shortAfterDelete nk nflags blockNr done c events).2.1.n (shortAfterDelete nk nflags blockNr done c events).2.1.updated := by
  obtain ⟨keyShape, compact⟩ := cached.shortKey
  unfold shortAfterDelete
  by_cases changed : c.updated = true
  · rw [if_neg (by simp [changed])]
    split
    · exact .rebuilt (.nil force) rfl
    · -- the merged key is the two hex keys one after the other
      next childKey childVal childFlags isShort =>
        have childCached := replaced.cached
        rw [isShort] at childCached
        exact .rebuilt (cached_newShortNode (termLast_append proper childCached.shortKey.1) childCached.of_shortNode
          blockNr force) rfl
    · exact .rebuilt ((Node.Cached.shortNode nk _ keyShape compact _ _ force replaced.cached
        (coherent_of_dirty rfl _)).adjustTod blockNr) rfl
  · have unchanged : c.updated = false := by simpa using changed
    rw [if_pos (by simp [unchanged])]
    have kept := Replaces.shortNode cached replaced
    rw [unchanged, if_neg Bool.false_ne_true] at kept
    rw [← unchanged] at kept
    exact kept

section Continuations

variable {force : Bool} {blockNr : Nat} {done : Bool} {c : TrieContinuation} (events : List GenEvent)

theorem replaces_duoAfterDelete {orig child : Node} {rebuild : Node → NodeFlag → Node} {nflags : NodeFlag}
    (rebuilt : ∀ nn updated, Replaces keccak encodeToBytes false child nn updated →
      Replaces keccak encodeToBytes force orig (rebuild nn (if updated then { nflags with dirty := true } else nflags))
        updated)
    (replaced : Replaces keccak encodeToBytes false child c.n c.updated)
    {sibling : Node} (siblingCached : sibling.Cached keccak encodeToBytes false) (siblingIdx : Nibble) (adjust : Bool) :
    Replaces keccak encodeToBytes force orig
      (duoAfterDelete rebuild sibling siblingIdx nflags adjust blockNr done c events).2.1.n
      (duoAfterDelete rebuild sibling siblingIdx nflags adjust blockNr done c events).2.1.updated := by
  have kept : ∀ updated, Replaces keccak encodeToBytes false child c.n updated →
      Replaces keccak encodeToBytes force orig
        (whenAdjust adjust (rebuild c.n (if updated then { nflags with dirty := true } else nflags)) blockNr) updated :=
    fun updated replacedAs => (rebuilt c.n updated replacedAs).whenAdjust adjust blockNr
  unfold duoAfterDelete
  by_cases unchanged : (!c.updated && !done) = true
  · rw [if_pos unchanged]
    have notUpdated : c.updated = false := by simp_all
    have flagsKept := kept c.updated replaced
    rw [notUpdated, if_neg Bool.false_ne_true, ← notUpdated] at flagsKept
    exact flagsKept
  rw [if_neg unchanged]
  dsimp only
  by_cases dead : c.n.isNil = true
  · rw [if_pos dead]
    by_cases siblingDead : sibling.isNil = true
    · rw [if_pos siblingDead]
      exact .rebuilt (.nil force) rfl
    -- the sibling is left alone in the duo node
    rw [if_neg siblingDead]
    have converted : Replaces keccak encodeToBytes force orig _ _ :=
      replaces_convertToShortNode siblingCached siblingIdx c blockNr done
    have convertedUpdated := convertToShortNode_updated sibling siblingIdx c blockNr done
    generalize convertToShortNode sibling siblingIdx c blockNr done = outcome at converted convertedUpdated ⊢
    obtain ⟨done', c', calls⟩ := outcome
    dsimp only at converted convertedUpdated ⊢
    split
    · exact converted
    · -- the converted node is reported updated, so the node is marked dirty
      have keptAs := kept c'.updated (.rebuilt replaced.cached convertedUpdated)
      rw [if_pos convertedUpdated] at keptAs
      exact keptAs
  · rw [if_neg dead]
    exact kept c.updated replaced

theorem replaces_fullAfterDelete {children : Nibble → Node} {nflags flags : NodeFlag}
    (cached : (Node.fullNode children nflags).Cached keccak encodeToBytes force) (nibble : Nibble)
    (replaced : Replaces keccak encodeToBytes false (children nibble) c.n c.updated) (adjust : Bool) :
    Replaces keccak encodeToBytes force (.fullNode children flags)
      (fullAfterDelete children nibble nflags adjust blockNr done c events).2.1.n
      (fullAfterDelete children nibble nflags adjust blockNr done c events).2.1.updated := by
  have updatedCached := Node.Cached.update cached.of_fullNode replaced.cached nibble
  have kept : ∀ updated, Replaces keccak encodeToBytes false (children nibble) c.n updated →
      Replaces keccak encodeToBytes force (.fullNode children flags)
        (whenAdjust adjust (.fullNode (Function.update children nibble c.n)
          (if updated then { nflags with dirty := true } else nflags)) blockNr) updated :=
    fun updated replacedAs => (Replaces.fullNode cached replacedAs).whenAdjust adjust blockNr
  unfold fullAfterDelete
  by_cases unchanged : (!c.updated && !done) = true
  · rw [if_pos unchanged]
    have notUpdated : c.updated = false := by simp_all
    have flagsKept := kept c.updated replaced
    rw [notUpdated, if_neg Bool.false_ne_true, ← notUpdated] at flagsKept
    exact flagsKept
  rw [if_neg unchanged]
  dsimp only
  generalize liveSlots (Function.update children nibble c.n) = slots
  obtain ⟨count, pos1, pos2⟩ := slots
  dsimp only
  by_cases none : count = 0
  · rw [if_pos none]
    exact .rebuilt (.nil force) rfl
  rw [if_neg none]
  by_cases one : count = 1
  · -- one slot left: a short node in front of it
    rw [if_pos one]
    have converted : Replaces keccak encodeToBytes force (.fullNode children flags) _ _ :=
      replaces_convertToShortNode (updatedCached pos1) pos1 c blockNr done
    have convertedUpdated := convertToShortNode_updated (Function.update children nibble c.n pos1) pos1 c blockNr done
    generalize convertToShortNode (Function.update children nibble c.n pos1) pos1 c blockNr done = outcome
      at converted convertedUpdated ⊢
    obtain ⟨done', c', calls⟩ := outcome
    dsimp only at converted convertedUpdated ⊢
    split
    · exact converted
    · -- the converted node is reported updated, so the node is marked dirty
      have keptAs := kept c'.updated (.rebuilt replaced.cached convertedUpdated)
      rw [if_pos convertedUpdated] at keptAs
      exact keptAs
  rw [if_neg one]
  by_cases two : count = 2
  · -- two slots left: a duo node, built dirty
    rw [if_pos two]
    have picked : ∀ i, (if i = nibble then c.n else Function.update children nibble c.n i).Cached
        keccak encodeToBytes false := by
      intro i
      split
      · exact replaced.cached
      · exact updatedCached i
    exact .rebuilt ((Node.Cached.duoNode _ _ _ { dirty := true, t := blockNr } force (picked pos1) (picked pos2)
      (coherent_of_dirty rfl _)).adjustTod blockNr) rfl
  · rw [if_neg two]
    exact kept c.updated replaced

end Continuations

section Delete

variable {key : List Nibble} (shape : HexKey key) (blockNr : Nat)
include shape

/-- Every successful `delete` under a hex key from a node with a coherent
cache leaves a node with a coherent cache, of the same shape when it reports
no update; the reductions on the way up are the three lemmas above. -/
theorem delete_replaces {n : Node} {pos : Nat} {c : TrieContinuation} :
    ∀ {result : Bool × TrieContinuation × List GenEvent} {force : Bool}, n.Cached keccak encodeToBytes force →
      delete n key pos c blockNr = .ok result →
        Replaces keccak encodeToBytes force n result.2.1.n result.2.1.updated := by
  fun_induction delete n key pos c blockNr with
  | case1 =>
      intro result force cached run
      rw [returned run]
      exact .refl cached _
  | case2 | case10 =>
      intro result force _ run
      rw [returned run]
      exact .rebuilt (.nil force) rfl
  | case11 =>
      intro result force cached run
      rw [returned run]
      exact .refl cached _
  | case3 pos c nk nval nflags nKey matchlen parts =>
      rename_i past below
      intro result force cached run
      obtain ⟨done, c', events, inner, run⟩ := returned_bind run
      rw [returned run]
      have proper := shape.proper_of_passed (le_antisymm (prefixLen_le_right _ _) (not_lt.mp parts)) past
      exact replaces_shortAfterDelete cached proper (below cached.of_shortNode inner) blockNr _ _
  | case4 pos c mask child1 child2 oldFlags nflags stamped stampIs i1 i2 idx adjust atLower =>
      rename_i below
      intro result force cached run
      obtain ⟨done, c', events, inner, run⟩ := returned_bind run
      rw [returned run]
      have stampedCached := cached.duoNode_reflag (dirty_of_stampT stampIs) (hash_of_stampT stampIs)
      exact replaces_duoAfterDelete _
        (fun _ _ replacedAs => Replaces.duoNode stampedCached replacedAs (.refl cached.of_duoNode.2 _))
        (below cached.of_duoNode.1 inner) cached.of_duoNode.2 i2 adjust
  | case5 pos c mask child1 child2 oldFlags nflags stamped stampIs i1 i2 idx adjust atHigher =>
      rename_i below
      intro result force cached run
      obtain ⟨done, c', events, inner, run⟩ := returned_bind run
      rw [returned run]
      have stampedCached := cached.duoNode_reflag (dirty_of_stampT stampIs) (hash_of_stampT stampIs)
      exact replaces_duoAfterDelete _
        (fun _ _ replacedAs => Replaces.duoNode stampedCached (.refl cached.of_duoNode.1 _) replacedAs)
        (below cached.of_duoNode.2 inner) cached.of_duoNode.1 i1 adjust
  | case6 pos c mask child1 child2 oldFlags nibble atNibble nflags stamped stampIs =>
      intro result force cached run
      rw [returned run]
      exact ⟨cached.duoNode_reflag (dirty_of_stampT stampIs) (hash_of_stampT stampIs), fun _ => rfl⟩
  | case8 pos c children oldFlags nibble atNibble nflags stamped stampIs =>
      rename_i below
      intro result force cached run
      obtain ⟨done, c', events, inner, run⟩ := returned_bind run
      rw [returned run]
      have stampedCached := cached.fullNode_reflag (dirty_of_stampT stampIs) (hash_of_stampT stampIs)
      exact replaces_fullAfterDelete _ stampedCached nibble (below (cached.of_fullNode nibble) inner) _
  | case12 | case13 =>
      intro result force cached
      cases cached
  | case7 | case9 =>
      intro result force _ run
      simp at run

end Delete

/-- A round of `RunWithDb` on a root with a coherent cache, for a
continuation that carries a hex key and a value built in memory, leaves a
root with a coherent cache. -/
theorem runWithDb_cached {root : Node} (cached : root.Cached keccak encodeToBytes true) {tc : TrieContinuation}
    (shape : HexKey tc.key) (valueFresh : tc.value.Fresh) (blockNr : Nat)
    {result : Bool × TrieContinuation × List GenEvent} (run : runWithDb tc root blockNr = .ok result) :
    result.2.1.n.Cached keccak encodeToBytes true := by
  unfold runWithDb at run
  dsimp only at run
  cases action : tc.action <;> simp only [action] at run
  · by_cases empty : root.isNil = true
    · rw [if_pos empty] at run
      rw [returned run]
      exact cached_newShortNode shape.2 (valueFresh.cached keccak encodeToBytes false) blockNr true
    · rw [if_neg empty] at run
      exact (insert_replaces shape valueFresh blockNr cached run).cached
  · exact (delete_replaces shape blockNr cached run).cached

end Coherence

/-! ## Runs that hash between operations -/

/-- A call of the trie's public API: an update or a deletion, or `Hash`. -/
inductive TrieCall where
  | op (op : TrieOp)
  | hash

/-- The updates and deletions among a list of calls, in order. -/
def TrieCall.ops : List TrieCall → List TrieOp
  | [] => []
  | .op operation :: calls => operation :: TrieCall.ops calls
  | .hash :: calls => TrieCall.ops calls

/-- One call.  `Hash` panics when an encoding passes the hasher's buffer;
otherwise it returns `hashRoot` and leaves the trie with the hashes it
cached. -/
def applyCall (keccak : Bytes → Bytes) (resolveWithDb : TrieContinuation → Except String TrieContinuation)
    (fuel : Nat) (t : Trie) : TrieCall → Except String Trie
  | .op op => applyOp resolveWithDb fuel t op
  | .hash => do
      let _ ← t.Hash keccak
      pure (t.afterHash keccak)

def runCalls (keccak : Bytes → Bytes) (resolveWithDb : TrieContinuation → Except String TrieContinuation)
    (fuel : Nat) (t : Trie) (calls : List TrieCall) : Except String Trie :=
  calls.foldlM (applyCall keccak resolveWithDb fuel) t

/-- What a call does to the contents: `Hash` leaves them as they are. -/
def Store.applyCall (s : Store) : TrieCall → Store
  | .op op => s.apply op
  | .hash => s

theorem Store.foldl_applyCall :
    ∀ (calls : List TrieCall) (s : Store), calls.foldl Store.applyCall s = (TrieCall.ops calls).foldl Store.apply s
  | [], _ => rfl
  | .op op :: calls, s => Store.foldl_applyCall calls (s.apply op)
  | .hash :: calls, s => Store.foldl_applyCall calls s

/-- The trie `t`, created with `encodeToBytes`, holds exactly `s` in canonical
form, and every hash cached in it is the one its node contributes. -/
structure CachedStores (keccak : Bytes → Bytes) (encodeToBytes : Bool) (t : Trie) (s : Store) : Prop where
  canonical : t.root.Canonical false
  encoding : t.encodeToBytes = encodeToBytes
  cached : t.root.Cached keccak encodeToBytes true
  denote : t.root.denote = s.paths

theorem Stores.cachedStores {t : Trie} {s : Store} (stores : Stores t s) (keccak : Bytes → Bytes) :
    CachedStores keccak t.encodeToBytes t s :=
  ⟨stores.canonical, rfl, stores.fresh.cached keccak t.encodeToBytes true, stores.denote⟩

namespace CachedStores

variable {keccak : Bytes → Bytes} {encodeToBytes : Bool} {t : Trie} {s : Store}

theorem afterHash (stores : CachedStores keccak encodeToBytes t s) :
    CachedStores keccak encodeToBytes (t.afterHash keccak) s := by
  unfold Trie.afterHash
  split
  · exact stores
  · refine ⟨stores.canonical.afterHashed keccak t.encodeToBytes true, stores.encoding, ?_, ?_⟩
    · dsimp only
      rw [stores.encoding]
      exact stores.cached.afterHashed
    · dsimp only
      rw [denote_afterHashInternal]
      exact stores.denote

theorem hashRoot_eq {t' : Trie} (stores : CachedStores keccak encodeToBytes t s)
    (stores' : CachedStores keccak encodeToBytes t' s) : t.hashRoot keccak = t'.hashRoot keccak := by
  have same : t.root.denote = t'.root.denote := stores.denote.trans stores'.denote.symm
  unfold Trie.hashRoot
  rw [stores.canonical.isNil_eq stores'.canonical same, stores.encoding, stores'.encoding,
    hashInternal_eq_of_denote keccak encodeToBytes stores.canonical stores'.canonical stores.cached stores'.cached same]

end CachedStores

section Run

variable (resolveWithDb : TrieContinuation → Except String TrieContinuation) (fuel : Nat)

theorem runCalls_cons (keccak : Bytes → Bytes) (t : Trie) (call : TrieCall) (calls : List TrieCall) :
    runCalls keccak resolveWithDb fuel t (call :: calls) =
      applyCall keccak resolveWithDb fuel t call >>= fun t' => runCalls keccak resolveWithDb fuel t' calls :=
  List.foldlM_cons ..

theorem runCalls_append (keccak : Bytes → Bytes) (t : Trie) (done rest : List TrieCall) :
    runCalls keccak resolveWithDb fuel t (done ++ rest) =
      runCalls keccak resolveWithDb fuel t done >>= fun t' => runCalls keccak resolveWithDb fuel t' rest :=
  List.foldlM_append

theorem applyOp_cachedStores {keccak : Bytes → Bytes} {encodeToBytes : Bool} {t : Trie} {s : Store}
    (stores : CachedStores keccak encodeToBytes t s) (op : TrieOp) :
    ∃ t', applyOp resolveWithDb (fuel + 1) t op = .ok t' ∧ CachedStores keccak encodeToBytes t' (s.apply op) := by
  obtain ⟨t', applied, canonical, denote⟩ := applyOp_spec resolveWithDb fuel stores.canonical op
  obtain ⟨tc, tc', events, blockNr, shape, valueFresh, done, rfl⟩ :=
    applyOp_round resolveWithDb fuel stores.canonical op applied
  refine ⟨_, applied, canonical, stores.encoding, runWithDb_cached stores.cached shape valueFresh blockNr done, ?_⟩
  rw [denote, stores.denote, Store.paths_apply]

/-- A call that leaves \`t₁\` hands the outcome of the rest of the run on:
success stays success, and a panicking \`Hash\` is found one call later. -/
theorem runCalls_of_step {keccak : Bytes → Bytes} {encodeToBytes : Bool} {t t₁ : Trie} {call : TrieCall}
    {calls : List TrieCall} {s : Store}
    (step : ∀ rest, runCalls keccak resolveWithDb (fuel + 1) t (call :: rest) =
      runCalls keccak resolveWithDb (fuel + 1) t₁ rest)
    (outcome : (∃ t', runCalls keccak resolveWithDb (fuel + 1) t₁ calls = .ok t' ∧
        CachedStores keccak encodeToBytes t' (calls.foldl Store.applyCall s)) ∨
      ∃ done rest t', calls = done ++ .hash :: rest ∧ runCalls keccak resolveWithDb (fuel + 1) t₁ done = .ok t' ∧
        t'.Hash keccak = .error "slice bounds out of range") :
    (∃ t', runCalls keccak resolveWithDb (fuel + 1) t (call :: calls) = .ok t' ∧
        CachedStores keccak encodeToBytes t' (calls.foldl Store.applyCall s)) ∨
      ∃ done rest t', call :: calls = done ++ .hash :: rest ∧
        runCalls keccak resolveWithDb (fuel + 1) t done = .ok t' ∧ t'.Hash keccak = .error "slice bounds out of range" := by
  rcases outcome with ⟨t', ran, stores'⟩ | ⟨done, rest, t', split, ran, panics⟩
  · exact .inl ⟨t', (step calls).trans ran, stores'⟩
  · exact .inr ⟨call :: done, rest, t', by rw [split, List.cons_append], (step done).trans ran, panics⟩

/-- The run lemma: from a trie with a coherent cache that holds exactly
\`s\`, a list of calls either succeeds and leaves such a trie for what its
updates and deletions make of \`s\`, or comes to a `Hash` that panics. -/
theorem runCalls_cachedStores (keccak : Bytes → Bytes) (encodeToBytes : Bool) :
    ∀ (calls : List TrieCall) (t : Trie) (s : Store), CachedStores keccak encodeToBytes t s →
      (∃ t', runCalls keccak resolveWithDb (fuel + 1) t calls = .ok t' ∧
        CachedStores keccak encodeToBytes t' (calls.foldl Store.applyCall s)) ∨
      ∃ done rest t', calls = done ++ .hash :: rest ∧ runCalls keccak resolveWithDb (fuel + 1) t done = .ok t' ∧
        t'.Hash keccak = .error "slice bounds out of range"
  | [], t, _, stores => .inl ⟨t, rfl, stores⟩
  | .op op :: calls, t, s, stores => by
      obtain ⟨t₁, applied, stores₁⟩ := applyOp_cachedStores resolveWithDb fuel stores op
      refine runCalls_of_step resolveWithDb fuel (fun rest => ?_)
        (runCalls_cachedStores keccak encodeToBytes calls t₁ _ stores₁)
      rw [runCalls_cons, applyCall, applied, ExceptRun.ok_bind]
  | .hash :: calls, t, s, stores => by
      cases hashed : t.Hash keccak with
      | error e =>
          -- the only error of `Hash` is the buffer's panic
          have panic : e = "slice bounds out of range" := by
            unfold Trie.Hash at hashed
            split at hashed <;> cases hashed
            rfl
          exact .inr ⟨[], calls, t, rfl, rfl, panic ▸ hashed⟩
      | ok root =>
          refine runCalls_of_step resolveWithDb fuel (fun rest => ?_)
            (runCalls_cachedStores keccak encodeToBytes calls _ s stores.afterHash)
          rw [runCalls_cons, applyCall, hashed]
          rfl

end Run

/-- `Hash` can be called between any two operations: every list of updates,
deletions and `Hash` calls on a new trie either succeeds and ends with the
root hash of the same updates and deletions run without the `Hash` calls, or
stops at a `Hash` call that panics because an encoding passes the hasher's
buffer. -/
theorem hashRoot_runCalls (resolveWithDb : TrieContinuation → Except String TrieContinuation) (fuel : Nat)
    (encodeToBytes : Bool) (keccak : Bytes → Bytes) (calls : List TrieCall) :
    (∃ t t', runCalls keccak resolveWithDb (fuel + 1) (Trie.new zeroHash encodeToBytes) calls = .ok t ∧
      runOps resolveWithDb (fuel + 1) (Trie.new zeroHash encodeToBytes) (TrieCall.ops calls) = .ok t' ∧
      t.hashRoot keccak = t'.hashRoot keccak) ∨
    ∃ done rest t, calls = done ++ .hash :: rest ∧
      runCalls keccak resolveWithDb (fuel + 1) (Trie.new zeroHash encodeToBytes) done = .ok t ∧
      t.Hash keccak = .error "slice bounds out of range" ∧
      runCalls keccak resolveWithDb (fuel + 1) (Trie.new zeroHash encodeToBytes) calls =
        .error "slice bounds out of range" := by
  rcases runCalls_cachedStores resolveWithDb fuel keccak encodeToBytes calls _ _
      ((stores_new encodeToBytes).cachedStores keccak) with
    ⟨t, run, stores⟩ | ⟨done, rest, t, split, ran, panics⟩
  · left
    obtain ⟨t', run', stores'⟩ := runOps_stores resolveWithDb fuel encodeToBytes (TrieCall.ops calls)
    have encoding' := runOps_encodeToBytes resolveWithDb (fuel + 1) encodeToBytes _ t' run'
    rw [Store.foldl_applyCall, ← Store.ofOps] at stores
    refine ⟨t, t', run, run', stores.hashRoot_eq ?_⟩
    rw [← encoding']
    exact stores'.cachedStores keccak
  · -- the run stops at the panicking `Hash`
    refine .inr ⟨done, rest, t, split, ran, panics, ?_⟩
    rw [split, runCalls_append, ran, ExceptRun.ok_bind, runCalls_cons, applyCall, panics]
    rfl

end TurboGeth.Trie
