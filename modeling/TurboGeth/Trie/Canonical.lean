import TurboGeth.Trie.Delete
import TurboGeth.Lib.ExceptRun

/-!
# The canonical shape of an in-memory trie

`Node.Canonical n term` is the shape every trie built by `insert` and
`delete` from the empty trie keeps: a duo node has two live children under
the two set bits of its mask, a full node at least three live children, a
short node a non-empty key in front of a branch or a value, and a value sits
exactly where the path walked so far ends in the terminator, which is what
the flag `term` records.  The nodes in such a trie are all loaded: there is
no hash node.

Beside the predicate, this module gives the building blocks of `insert` and
`delete` their shape and denotation lemmas, so that the proofs of the two
operations never unfold them.
-/

set_option autoImplicit false

namespace TurboGeth.Trie

open PathMap

namespace Node

def isShort : Node → Bool
  | shortNode .. => true
  | _ => false

@[simp] theorem isNil_nil : nil.isNil = true := rfl

@[simp] theorem isNil_fullNode (children : Nibble → Node) (flags : NodeFlag) :
    (fullNode children flags).isNil = false := rfl

@[simp] theorem isNil_duoNode (mask : UInt32) (child1 child2 : Node) (flags : NodeFlag) :
    (duoNode mask child1 child2 flags).isNil = false := rfl

@[simp] theorem isNil_shortNode (key : Bytes) (val : Node) (flags : NodeFlag) :
    (shortNode key val flags).isNil = false := rfl

@[simp] theorem isNil_valueNode (value : Bytes) : (valueNode value).isNil = false := rfl

@[simp] theorem isShort_fullNode (children : Nibble → Node) (flags : NodeFlag) :
    (fullNode children flags).isShort = false := rfl

@[simp] theorem isShort_duoNode (mask : UInt32) (child1 child2 : Node) (flags : NodeFlag) :
    (duoNode mask child1 child2 flags).isShort = false := rfl

@[simp] theorem isShort_valueNode (value : Bytes) : (valueNode value).isShort = false := rfl

@[simp] theorem isShort_shortNode (key : Bytes) (val : Node) (flags : NodeFlag) :
    (shortNode key val flags).isShort = true := rfl

theorem eq_nil_of_isNil {n : Node} (isNil : n.isNil = true) : n = nil := by
  cases n
  · rfl
  all_goals simp [Node.isNil] at isNil

@[simp] theorem isNil_adjustTod (n : Node) (fallback : Nat) : (n.adjustTod fallback).isNil = n.isNil := by
  cases n <;> rfl

@[simp] theorem isShort_adjustTod (n : Node) (fallback : Nat) :
    (n.adjustTod fallback).isShort = n.isShort := by
  cases n <;> rfl

end Node

@[simp] theorem denote_whenAdjust (adjust : Bool) (n : Node) (blockNr : Nat) :
    (whenAdjust adjust n blockNr).denote = n.denote := by
  cases adjust <;> simp [whenAdjust]

@[simp] theorem isNil_whenAdjust (adjust : Bool) (n : Node) (blockNr : Nat) :
    (whenAdjust adjust n blockNr).isNil = n.isNil := by
  cases adjust <;> simp [whenAdjust]

@[simp] theorem isShort_whenAdjust (adjust : Bool) (n : Node) (blockNr : Nat) :
    (whenAdjust adjust n blockNr).isShort = n.isShort := by
  cases adjust <;> simp [whenAdjust]

/-! ## Live slots of a branch -/

/-- The live slots of a full node, in slot order. -/
def liveList (children : Nibble → Node) : List Nibble :=
  (List.finRange 17).filter fun i => !(children i).isNil

theorem mem_liveList (children : Nibble → Node) (i : Nibble) :
    i ∈ liveList children ↔ (children i).isNil = false := by
  simp [liveList]

theorem liveList_sorted (children : Nibble → Node) : (liveList children).Pairwise (· < ·) :=
  (List.pairwise_lt_finRange 17).filter _

theorem liveList_update_of_live (children : Nibble → Node) (i : Nibble) (child : Node)
    (live : child.isNil = false) :
    (liveList children).length ≤ (liveList (Function.update children i child)).length := by
  apply List.Sublist.length_le
  apply List.monotone_filter_right
  intro j wasLive
  by_cases atSlot : j = i
  · subst atSlot
    simp [live]
  · simpa [Function.update, atSlot] using wasLive

theorem three_le_liveList {children : Nibble → Node} {a b c : Nibble} (ab : a ≠ b) (ac : a ≠ c) (bc : b ≠ c)
    (liveA : (children a).isNil = false) (liveB : (children b).isNil = false)
    (liveC : (children c).isNil = false) : 3 ≤ (liveList children).length := by
  have distinct : [a, b, c].Nodup := by simp [ab, ac, bc]
  have included : [a, b, c] ⊆ liveList children := by
    intro i member
    simp only [List.mem_cons, List.not_mem_nil, or_false] at member
    rcases member with rfl | rfl | rfl <;> simpa [mem_liveList]
  exact (distinct.subperm included).length_le

theorem foldl_liveStep_filter (children : Nibble → Node) :
    ∀ (slots : List Nibble) (found : Nat × Nibble × Nibble),
      slots.foldl (liveStep children) found =
        (slots.filter fun i => !(children i).isNil).foldl (liveStep children) found
  | [], _ => rfl
  | i :: rest, found => by
      obtain ⟨count, pos1, pos2⟩ := found
      by_cases dead : (children i).isNil
      · have skipped : liveStep children (count, pos1, pos2) i = (count, pos1, pos2) := by
          simp [liveStep, dead]
        simp only [List.foldl_cons, skipped, List.filter_cons, dead, Bool.not_true]
        exact foldl_liveStep_filter children rest _
      · simp only [List.foldl_cons, List.filter_cons, dead, Bool.not_false, if_true]
        exact foldl_liveStep_filter children rest _

theorem foldl_liveStep_saturated (children : Nibble → Node) :
    ∀ (slots : List Nibble) (pos1 pos2 : Nibble),
      slots.foldl (liveStep children) (3, pos1, pos2) = (3, pos1, pos2)
  | [], _, _ => rfl
  | i :: rest, pos1, pos2 => by
      have stays : liveStep children (3, pos1, pos2) i = (3, pos1, pos2) := by
        simp [liveStep]
      rw [List.foldl_cons, stays]
      exact foldl_liveStep_saturated children rest pos1 pos2

theorem liveSlots_eq (children : Nibble → Node) :
    liveSlots children =
      match liveList children with
      | [] => (0, 0, 0)
      | [x] => (1, x, 0)
      | [x, y] => (2, x, y)
      | x :: y :: _ :: _ => (3, x, y) := by
  have live : ∀ i ∈ liveList children, (children i).isNil = false := fun i member =>
    (mem_liveList children i).mp member
  rw [liveSlots, foldl_liveStep_filter]
  change (liveList children).foldl (liveStep children) (0, 0, 0) = _
  generalize liveList children = slots at live
  match slots, live with
  | [], _ => rfl
  | [x], live => simp [liveStep, live x (by simp)]
  | [x, y], live => simp [liveStep, live x (by simp), live y (by simp)]
  | x :: y :: z :: rest, live =>
      simp only [List.foldl_cons, liveStep, live x (by simp), live y (by simp), live z (by simp)]
      exact foldl_liveStep_saturated children rest x y

/-! ## The invariant -/

/-- The canonical shape; `term` says whether the path walked to the node
ends in the terminator. -/
inductive Node.Canonical : Node → Bool → Prop
  | nil (term : Bool) : Node.Canonical .nil term
  | valueNode (value : Bytes) : Node.Canonical (.valueNode value) true
  | shortNode (key : Bytes) (val : Node) (flags : NodeFlag)
      (keyLive : compactToHex key ≠ []) (keyShape : TermLast (compactToHex key))
      (valLive : val.isNil = false) (valNotShort : val.isShort = false)
      (valCanonical : Node.Canonical val (hasTerm (compactToHex key))) :
      Node.Canonical (.shortNode key val flags) false
  | duoNode (lower higher : Nibble) (ordered : lower < higher) (child1 child2 : Node) (flags : NodeFlag)
      (live1 : child1.isNil = false) (live2 : child2.isNil = false)
      (canonical1 : Node.Canonical child1 (decide (lower = 16)))
      (canonical2 : Node.Canonical child2 (decide (higher = 16))) :
      Node.Canonical (.duoNode (bit lower ||| bit higher) child1 child2 flags) false
  | fullNode (children : Nibble → Node) (flags : NodeFlag)
      (threeLive : 3 ≤ (liveList children).length)
      (childrenCanonical : ∀ i, Node.Canonical (children i) (decide (i = 16))) :
      Node.Canonical (.fullNode children flags) false

theorem ne_of_term_false {key : List Nibble} {pos : Nat} (term : false = decide (pos = key.length)) :
    key.length ≠ pos :=
  fun atEnd => by simp [atEnd] at term

namespace Node.Canonical

theorem adjustTod {n : Node} {term : Bool} (canonical : n.Canonical term) (fallback : Nat) :
    (n.adjustTod fallback).Canonical term := by
  cases canonical with
  | nil => exact .nil _
  | valueNode value => exact .valueNode value
  | shortNode key val flags keyLive keyShape valLive valNotShort valCanonical =>
      exact .shortNode key val _ keyLive keyShape valLive valNotShort valCanonical
  | duoNode lower higher ordered child1 child2 flags live1 live2 canonical1 canonical2 =>
      exact .duoNode lower higher ordered child1 child2 _ live1 live2 canonical1 canonical2
  | fullNode children flags threeLive childrenCanonical =>
      exact .fullNode children _ threeLive childrenCanonical

theorem whenAdjust {n : Node} {term : Bool} (canonical : n.Canonical term) (adjust : Bool) (blockNr : Nat) :
    (TurboGeth.Trie.whenAdjust adjust n blockNr).Canonical term := by
  cases adjust
  · exact canonical
  · exact canonical.adjustTod blockNr

theorem of_term {n : Node} (canonical : n.Canonical true) : n = .nil ∨ ∃ value, n = .valueNode value := by
  cases canonical with
  | nil => exact .inl rfl
  | valueNode value => exact .inr ⟨value, rfl⟩

theorem term_of_value {value : Bytes} {term : Bool} (canonical : (Node.valueNode value).Canonical term) :
    term = true := by
  cases canonical
  rfl

theorem not_hash {n : Node} {term : Bool} (canonical : n.Canonical term) (hash : Bytes) :
    n ≠ .hashNode hash := by
  rintro rfl
  cases canonical

end Node.Canonical

/-! ## Building blocks of `insert` and `delete` -/

theorem denote_newShortNode {key : List Nibble} (shape : TermLast key) (val : Node) (blockNr : Nat) :
    (newShortNode key val blockNr).denote = prefixed key val.denote := by
  simp [newShortNode, compactToHex_hexToCompact key shape]

theorem isNil_newShortNode (key : List Nibble) (val : Node) (blockNr : Nat) :
    (newShortNode key val blockNr).isNil = false := rfl

theorem canonical_newShortNode {key : List Nibble} (keyLive : key ≠ []) (shape : TermLast key) {val : Node}
    (valLive : val.isNil = false) (valNotShort : val.isShort = false)
    (valCanonical : val.Canonical (hasTerm key)) (blockNr : Nat) :
    (newShortNode key val blockNr).Canonical false := by
  have decoded := compactToHex_hexToCompact key shape
  apply Node.Canonical.adjustTod
  refine .shortNode _ val _ ?_ ?_ valLive valNotShort ?_
  · rwa [decoded]
  · rwa [decoded]
  · rwa [decoded]

section Leaf

variable {key : List Nibble} {pos : Nat}

theorem denote_leafFor (shape : TermLast key) (val : Node) (blockNr : Nat) :
    (leafFor key pos val blockNr).1.denote = prefixed (key.drop (pos + 1)) val.denote := by
  unfold leafFor
  split
  · next last =>
      have restEmpty : key.drop (pos + 1) = [] := List.drop_eq_nil_of_le (by omega)
      simp [restEmpty]
  · exact denote_newShortNode (termLast_drop shape _) val blockNr

theorem isNil_leafFor {val : Node} (valLive : val.isNil = false) (blockNr : Nat) :
    (leafFor key pos val blockNr).1.isNil = false := by
  unfold leafFor
  split
  · exact valLive
  · exact isNil_newShortNode _ _ _

theorem canonical_leafFor (shape : TermLast key) (inKey : pos < key.length) (val : Node)
    (valLive : val.isNil = false) (valNotShort : val.isShort = false)
    (valCanonical : val.Canonical (hasTerm key)) (blockNr : Nat) :
    (leafFor key pos val blockNr).1.Canonical (decide (key[pos] = 16)) := by
  unfold leafFor
  split
  · next last =>
      rwa [← hasTerm_eq_last key pos inKey last.symm]
  · next notLast =>
      have inBody : pos + 1 < key.length := by omega
      have notTerm : key[pos] ≠ 16 := (termLast_iff key).mp shape pos inBody
      rw [decide_eq_false notTerm]
      apply canonical_newShortNode _ (termLast_drop shape _) valLive valNotShort
      · rwa [hasTerm_drop key _ inBody]
      · simp only [ne_eq, List.drop_eq_nil_iff]
        omega

theorem canonical_valueLeaf (shape : HexKey key) (inKey : pos < key.length) (value : Bytes) (blockNr : Nat) :
    (leafFor key pos (.valueNode value) blockNr).1.Canonical (decide (key[pos] = 16)) := by
  apply canonical_leafFor shape.2 inKey _ rfl rfl
  rw [shape.1]
  exact .valueNode value

end Leaf

theorem canonical_duoNode_sorted {a b : Nibble} (different : a ≠ b) {x y : Node}
    (liveX : x.isNil = false) (liveY : y.isNil = false)
    (canonicalX : x.Canonical (decide (a = 16))) (canonicalY : y.Canonical (decide (b = 16)))
    (flags : NodeFlag) :
    (Node.duoNode (bit a ||| bit b) (if a < b then (x, y) else (y, x)).1
      (if a < b then (x, y) else (y, x)).2 flags).Canonical false := by
  rcases lt_or_gt_of_ne different with lower | higher
  · simp only [if_pos lower]
    exact .duoNode a b lower x y flags liveX liveY canonicalX canonicalY
  · simp only [if_neg (not_lt.mpr higher.le)]
    rw [childrenIdx_bits_comm]
    exact .duoNode b a higher y x flags liveY liveX canonicalY canonicalX

theorem denote_duoNode_sorted {a b : Nibble} (different : a ≠ b) (x y : Node) (flags : NodeFlag) :
    (Node.duoNode (bit a ||| bit b) (if a < b then (x, y) else (y, x)).1
      (if a < b then (x, y) else (y, x)).2 flags).denote =
      branch fun i => if i = a then x.denote else if i = b then y.denote else empty := by
  rcases lt_or_gt_of_ne different with lower | higher
  · simp only [if_pos lower]
    exact Node.denote_duoNode_bits a b lower x y flags
  · simp only [if_neg (not_lt.mpr higher.le)]
    rw [childrenIdx_bits_comm, Node.denote_duoNode_bits b a higher y x flags]
    congr 1
    funext i
    by_cases atA : i = a
    · subst atA
      simp [different]
    · simp [atA]

/-! ## A point update below a branch -/

section BranchUpdate

variable {lower higher : Nibble} (child1 child2 replacement : Node)
  (flags flags' : NodeFlag) (rest : List Nibble) (entry : Option Bytes)

theorem update_denote_duoNode_lower (ordered : lower < higher)
    (replaced : replacement.denote = Function.update child1.denote rest entry) :
    Function.update (Node.duoNode (bit lower ||| bit higher) child1 child2 flags).denote (lower :: rest) entry =
      (Node.duoNode (bit lower ||| bit higher) replacement child2 flags').denote := by
  rw [Node.denote_duoNode_bits _ _ ordered, Node.denote_duoNode_bits _ _ ordered, update_branch]
  congr 1
  funext i
  by_cases atLower : i = lower
  · subst atLower
    simp [replaced]
  · simp [atLower]

theorem update_denote_duoNode_higher (ordered : lower < higher)
    (replaced : replacement.denote = Function.update child2.denote rest entry) :
    Function.update (Node.duoNode (bit lower ||| bit higher) child1 child2 flags).denote (higher :: rest) entry =
      (Node.duoNode (bit lower ||| bit higher) child1 replacement flags').denote := by
  rw [Node.denote_duoNode_bits _ _ ordered, Node.denote_duoNode_bits _ _ ordered, update_branch]
  congr 1
  funext i
  by_cases atHigher : i = higher
  · subst atHigher
    simp [replaced, ordered.ne']
  · simp [atHigher]

end BranchUpdate

theorem update_denote_fullNode (children : Nibble → Node) (i : Nibble) (replacement : Node)
    (flags flags' : NodeFlag) (rest : List Nibble) (entry : Option Bytes)
    (replaced : replacement.denote = Function.update (children i).denote rest entry) :
    Function.update (Node.fullNode children flags).denote (i :: rest) entry =
      (Node.fullNode (Function.update children i replacement) flags').denote := by
  rw [Node.denote_fullNode, Node.denote_fullNode, update_branch]
  congr 1
  funext j
  by_cases atSlot : j = i
  · subst atSlot
    simp [replaced]
  · simp [atSlot]

end TurboGeth.Trie
