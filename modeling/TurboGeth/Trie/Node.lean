import TurboGeth.Trie.Encoding
import TurboGeth.Lib.PathMap

/-!
# Trie nodes

The five node kinds of `trie/node.go` and the absent node `nil`.  A
`fullNode` holds 17 child slots, slot 16 being the value of a key that ends
at the branch; a `duoNode` is a branch with exactly two live slots, named by
the two set bits of its mask; a `shortNode` holds a COMPACT key fragment in
front of its child.  Loaded nodes carry a `nodeFlag`: the block that last
touched the node, the oldest touch time below it, the cached hash and the
dirty bit.

The map a node stands for is `Node.denote`, built from the path-map
combinators: a short node places its child behind its key, a branch fans
out on the next nibble, a value node holds the value at the empty path.
-/

set_option autoImplicit false

namespace TurboGeth.Trie

open PathMap

/-- `nodeFlag`: caching metadata of a loaded node. -/
structure NodeFlag where
  /-- touch time of the node -/
  t : Nat := 0
  /-- touch time of the oldest descendant -/
  tod : Nat := 0
  /-- cached hash of the node -/
  hash : Bytes := List.replicate 32 0
  /-- whether `hash` does not represent the true hash -/
  dirty : Bool := false

inductive Node where
  | nil
  | fullNode (children : Nibble → Node) (flags : NodeFlag)
  | duoNode (mask : UInt32) (child1 child2 : Node) (flags : NodeFlag)
  | shortNode (key : Bytes) (val : Node) (flags : NodeFlag)
  | hashNode (hash : Bytes)
  | valueNode (value : Bytes)

-- a call of the trie's `joinGeneration` or `leftGeneration` callback
inductive GenEvent where
  | join (gen : Nat)
  | left (gen : Nat)
  deriving DecidableEq, Repr

namespace Node

def isNil : Node → Bool
  | nil => true
  | _ => false

/-- The type assertion `n.(valueNode)`. -/
def asValue : Node → Option Bytes
  | valueNode value => some value
  | _ => none

/-- The number of loaded nodes and leaves, the measure of the recursive walks. -/
def size : Node → Nat
  | fullNode children _ => 1 + ((List.finRange 17).map fun i => size (children i)).sum
  | duoNode _ child1 child2 _ => 1 + size child1 + size child2
  | shortNode _ val _ => 1 + size val
  | _ => 1

theorem size_children_lt (children : Nibble → Node) (flags : NodeFlag) (i : Nibble) :
    size (children i) < size (fullNode children flags) := by
  have bounded : size (children i) ≤ ((List.finRange 17).map fun i => size (children i)).sum :=
    List.le_sum_of_mem (List.mem_map.mpr ⟨i, List.mem_finRange i, rfl⟩)
  simp only [size]
  omega

theorem size_child1_lt (mask : UInt32) (child1 child2 : Node) (flags : NodeFlag) :
    size child1 < size (duoNode mask child1 child2 flags) := by
  simp only [size]
  omega

theorem size_child2_lt (mask : UInt32) (child1 child2 : Node) (flags : NodeFlag) :
    size child2 < size (duoNode mask child1 child2 flags) := by
  simp only [size]
  omega

theorem size_val_lt (key : Bytes) (val : Node) (flags : NodeFlag) :
    size val < size (shortNode key val flags) := by
  simp only [size]
  omega

/-- `tod(def)`: the oldest touch time below a loaded node, `def` elsewhere. -/
def tod : Node → Nat → Nat
  | fullNode _ flags, _ => flags.tod
  | duoNode _ _ _ flags, _ => flags.tod
  | shortNode _ _ flags, _ => flags.tod
  | _, fallback => fallback

end Node

def bit (i : Nibble) : UInt32 := (1 : UInt32) <<< i.val.toUInt32

/-- The scan of `duoNode.childrenIdx`: walk the 17 mask bits, recording the
first set bit, and stop at the second. -/
def childrenIdxLoop (mask : UInt32) : List Nibble → Nat → Nibble × Nibble → Nibble × Nibble
  | [], _, found => found
  | i :: rest, child, (i1, i2) =>
      if mask &&& bit i ≠ 0 then
        if child = 1 then childrenIdxLoop mask rest 2 (i, i2)
        else if child = 2 then (i1, i)
        else childrenIdxLoop mask rest child (i1, i2)
      else childrenIdxLoop mask rest child (i1, i2)

def childrenIdx (mask : UInt32) : Nibble × Nibble :=
  childrenIdxLoop mask (List.finRange 17) 1 (0, 0)

theorem childrenIdx_bits : ∀ a b : Nibble, a < b → childrenIdx (bit a ||| bit b) = (a, b) := by
  decide

theorem childrenIdx_bits_comm (a b : Nibble) : bit a ||| bit b = bit b ||| bit a := by
  rw [UInt32.or_comm]

/-- The core of `updateT`: a node touched in block `t` leaves its old
generation and joins generation `t`. -/
def stampT (flags : NodeFlag) (t : Nat) : NodeFlag × List GenEvent :=
  if flags.t ≠ t then ({ flags with t := t }, [.left flags.t, .join t]) else (flags, [])

namespace Node

/-- `adjustTod(def)`: recompute the oldest touch time from the children. -/
def adjustTod (n : Node) (fallback : Nat) : Node :=
  match n with
  | fullNode children flags =>
      let tod := (List.finRange 17).foldl
        (fun tod i => if (children i).isNil then tod else min tod ((children i).tod fallback))
        fallback
      fullNode children { flags with tod := tod }
  | duoNode mask child1 child2 flags =>
      let tod := if child1.isNil then fallback else min fallback (child1.tod fallback)
      let tod := if child2.isNil then tod else min tod (child2.tod fallback)
      duoNode mask child1 child2 { flags with tod := tod }
  | shortNode key val flags => shortNode key val { flags with tod := min fallback (val.tod fallback) }
  | other => other

def updateT (n : Node) (t : Nat) : Node × List GenEvent :=
  match n with
  | fullNode children flags => (fullNode children (stampT flags t).1, (stampT flags t).2)
  | duoNode mask child1 child2 flags => (duoNode mask child1 child2 (stampT flags t).1, (stampT flags t).2)
  | shortNode key val flags => (shortNode key val (stampT flags t).1, (stampT flags t).2)
  | other => (other, [])

/-- The map from hex paths to values that a loaded node stands for.  A hash
node stands for a subtree that is not in memory and contributes nothing. -/
def denote : Node → PMap Nibble Bytes
  | nil => empty
  | fullNode children _ => branch fun i => denote (children i)
  | duoNode mask child1 child2 _ =>
      branch fun i =>
        if i = (childrenIdx mask).1 then denote child1
        else if i = (childrenIdx mask).2 then denote child2 else empty
  | shortNode key val _ => prefixed (compactToHex key) (denote val)
  | hashNode _ => empty
  | valueNode value => single value

@[simp] theorem denote_nil : denote nil = empty := rfl

@[simp] theorem denote_valueNode (value : Bytes) : denote (valueNode value) = single value := rfl

@[simp] theorem denote_shortNode (key : Bytes) (val : Node) (flags : NodeFlag) :
    denote (shortNode key val flags) = prefixed (compactToHex key) (denote val) := rfl

@[simp] theorem denote_fullNode (children : Nibble → Node) (flags : NodeFlag) :
    denote (fullNode children flags) = branch fun i => denote (children i) := rfl

theorem denote_duoNode (mask : UInt32) (child1 child2 : Node) (flags : NodeFlag) :
    denote (duoNode mask child1 child2 flags) =
      branch fun i =>
        if i = (childrenIdx mask).1 then denote child1
        else if i = (childrenIdx mask).2 then denote child2 else empty := rfl

theorem denote_duoNode_bits (a b : Nibble) (lower : a < b) (child1 child2 : Node) (flags : NodeFlag) :
    denote (duoNode (bit a ||| bit b) child1 child2 flags) =
      branch fun i => if i = a then denote child1 else if i = b then denote child2 else empty := by
  rw [denote_duoNode, childrenIdx_bits a b lower]

@[simp] theorem denote_adjustTod (n : Node) (fallback : Nat) : denote (n.adjustTod fallback) = denote n := by
  cases n <;> rfl

@[simp] theorem denote_updateT (n : Node) (t : Nat) : denote (n.updateT t).1 = denote n := by
  cases n <;> rfl

end Node

end TurboGeth.Trie
