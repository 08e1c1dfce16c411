import TurboGeth.Trie.Insert

/-!
# Reading from the trie

`Trie.tryGet1` of `trie/trie.go`.  A read is not pure: every branch on the
way is stamped with the current block (`updateT`, firing the generation
callbacks) and may recompute its oldest touch time.  The model returns the
value, the `gotValue` flag (false when the walk hit a subtree that is not in
memory), the node after the walk and the callbacks fired.  With
`resolveReads` off a hash node is not resolved here.
-/

set_option autoImplicit false

namespace TurboGeth.Trie

/-- What `tryGet1` returns: the value (`none` for Go's nil), `gotValue`, the
node after the walk, and the generation callbacks fired. -/
abbrev Read := Except String (Option Bytes × Bool × Node × List GenEvent)

def tryGet1 (origNode : Node) (key : List Nibble) (pos : Nat) (blockNr : Nat) : Read :=
  match origNode with
  | .nil => return (none, true, .nil, [])
  | .valueNode v => return (some v, true, origNode, [])
  | .shortNode nk nval nflags =>
      let nKey := compactToHex nk
      if key.length < pos + nKey.length || nKey != (key.drop pos).take nKey.length then
        return (none, true, origNode, [])
      else
        match nval.asValue with
        | some v => return (some v, true, (Node.shortNode nk nval nflags).adjustTod blockNr, [])
        | none => do
            let (value, gotValue, nval, events) ← tryGet1 nval key (pos + nKey.length) blockNr
            return (value, gotValue, (Node.shortNode nk nval nflags).adjustTod blockNr, events)
  | .duoNode mask child1 child2 nflags => do
      let some nibble := key[pos]? | throw "index out of range"
      let (nflags, stamped) := stampT nflags blockNr
      let (i1, i2) := childrenIdx mask
      if nibble = i1 then
        -- Go reads `n.child1.tod` without a nil check
        if child1.isNil then throw "invalid memory address or nil pointer dereference"
        let adjust := nflags.tod == child1.tod blockNr
        let (value, gotValue, child1, events) ← tryGet1 child1 key (pos + 1) blockNr
        let n := Node.duoNode mask child1 child2 nflags
        return (value, gotValue, whenAdjust adjust n blockNr, stamped ++ events)
      else if nibble = i2 then
        if child2.isNil then throw "invalid memory address or nil pointer dereference"
        let adjust := nflags.tod == child2.tod blockNr
        let (value, gotValue, child2, events) ← tryGet1 child2 key (pos + 1) blockNr
        let n := Node.duoNode mask child1 child2 nflags
        return (value, gotValue, whenAdjust adjust n blockNr, stamped ++ events)
      else return (none, true, .duoNode mask child1 child2 nflags, stamped)
  | .fullNode children nflags => do
      let some nibble := key[pos]? | throw "index out of range"
      let (nflags, stamped) := stampT nflags blockNr
      let child := children nibble
      let adjust := !child.isNil && nflags.tod == child.tod blockNr
      let (value, gotValue, child, events) ← tryGet1 child key (pos + 1) blockNr
      let n := Node.fullNode (Function.update children nibble child) nflags
      return (value, gotValue, whenAdjust adjust n blockNr, stamped ++ events)
  | .hashNode _ => return (none, false, origNode, [])
termination_by origNode.size
decreasing_by
  · exact Node.size_val_lt _ _ _
  · exact Node.size_child1_lt _ _ _ _
  · exact Node.size_child2_lt _ _ _ _
  · exact Node.size_children_lt _ _ _

end TurboGeth.Trie
