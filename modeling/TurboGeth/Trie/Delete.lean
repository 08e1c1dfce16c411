import TurboGeth.Trie.Insert

/-!
# Deletion from the trie

`Trie.convertToShortNode` and `Trie.delete` of `trie/trie.go`, in the
conventions of `TurboGeth.Trie.Insert`.  Deleting reduces the trie to
canonical form on the way up: a branch left with one live slot becomes a
short node (merged with that child when it is a short node itself), a full
node left with two becomes a duo node, and a short node whose child shrank to
a short node absorbs it.
-/

set_option autoImplicit false

namespace TurboGeth.Trie

/-- `convertToShortNode`: the branch being reduced is replaced by a short
node leading to its only remaining child `child`, found at slot `pos`. -/
def convertToShortNode (child : Node) (pos : Nibble) (c : TrieContinuation) (blockNr : Nat)
    (done : Bool) : Bool × TrieContinuation × List GenEvent :=
  match child with
  | .shortNode shortKey shortVal shortFlags =>
      if pos ≠ 16 then
        -- If the remaining entry is a short node, it replaces n and its key
        -- gets the missing nibble tacked to the front.
        let newshort := (Node.shortNode (hexToCompact (pos :: compactToHex shortKey)) shortVal
          { dirty := true, t := blockNr }).adjustTod blockNr
        -- cnode gets removed, but newshort gets added
        (done, { c with updated := true, n := newshort }, [.left shortFlags.t])
      else
        (done, { c with updated := true, n := oneNibble }, [])
  | _ => (done, { c with updated := true, n := oneNibble }, [])
where
  -- Otherwise, n is replaced by a one-nibble short node containing the child.
  oneNibble : Node :=
    (Node.shortNode (hexToCompact [pos]) child { dirty := true, t := blockNr }).adjustTod blockNr

/-- One round of the count loop of the full-node case: a live slot is
counted, and the first two live positions are recorded, until the count
passes two. -/
def liveStep (children : Nibble → Node) (found : Nat × Nibble × Nibble) (i : Nibble) :
    Nat × Nibble × Nibble :=
  let (count, pos1, pos2) := found
  if (children i).isNil || count > 2 then found
  else (count + 1, if count = 0 then i else pos1, if count = 1 then i else pos2)

def liveSlots (children : Nibble → Node) : Nat × Nibble × Nibble :=
  (List.finRange 17).foldl (liveStep children) (0, 0, 0)

/-- The short-node case of `delete` after the deletion below the node
returned `(done, c)`: keep the node, drop it with its child, merge with a
child that shrank to a short node, or re-point it at the new child. -/
def shortAfterDelete (nk : Bytes) (nflags : NodeFlag) (blockNr : Nat) (done : Bool)
    (c : TrieContinuation) (events : List GenEvent) : Bool × TrieContinuation × List GenEvent :=
  if !c.updated then (done, { c with n := .shortNode nk c.n nflags }, events)
  else
    match c.n with
    | .nil => (true, { c with updated := true, n := .nil }, events ++ [.left nflags.t])
    | .shortNode childKey childVal childFlags =>
        -- Deleting from the subtrie reduced it to another short node.
        -- Merge the nodes to avoid creating a shortNode{..., shortNode{...}}.
        let newnode := (Node.shortNode (hexToCompact (compactToHex nk ++ compactToHex childKey)) childVal
          { dirty := true, t := blockNr }).adjustTod blockNr
        (done, { c with updated := true, n := newnode }, events ++ [.left childFlags.t])
    | child =>
        let n := (Node.shortNode nk child { nflags with dirty := true }).adjustTod blockNr
        (done, { c with updated := true, n := n }, events)

/-- One side of the duo-node case of `delete`, after the deletion in the
child on that side returned `(done, c)`.  `rebuild` puts the new child back
into the duo node; `sibling` is the child on the other side, at slot
`siblingIdx`.  The two sides of the Go code are this function with the roles
of `child1` and `child2` exchanged. -/
def duoAfterDelete (rebuild : Node → NodeFlag → Node) (sibling : Node) (siblingIdx : Nibble)
    (nflags : NodeFlag) (adjust : Bool) (blockNr : Nat) (done : Bool) (c : TrieContinuation)
    (events : List GenEvent) : Bool × TrieContinuation × List GenEvent :=
  if !c.updated && !done then
    (done, { c with n := whenAdjust adjust (rebuild c.n nflags) blockNr }, events)
  else
    let nn := c.n
    if nn.isNil then
      if sibling.isNil then (true, { c with updated := true, n := .nil }, events ++ [.left nflags.t])
      else
        let (done, c, converted) := convertToShortNode sibling siblingIdx c blockNr done
        if done then (done, c, events ++ converted)
        else
          let n := rebuild nn (if c.updated then { nflags with dirty := true } else nflags)
          (done, { c with n := whenAdjust adjust n blockNr }, events ++ converted)
    else
      let n := rebuild nn (if c.updated then { nflags with dirty := true } else nflags)
      (done, { c with n := whenAdjust adjust n blockNr }, events)

/-- The full-node case of `delete` after the deletion in slot `nibble`
returned `(done, c)`: count the live slots left and reduce the node to a
short node (one left) or a duo node (two left). -/
def fullAfterDelete (children : Nibble → Node) (nibble : Nibble) (nflags : NodeFlag)
    (adjust : Bool) (blockNr : Nat) (done : Bool) (c : TrieContinuation)
    (events : List GenEvent) : Bool × TrieContinuation × List GenEvent :=
  if !c.updated && !done then
    let n := Node.fullNode (Function.update children nibble c.n) nflags
    (false, { c with n := whenAdjust adjust n blockNr }, events)
  else
    let nn := c.n
    let children := Function.update children nibble nn
    -- Check how many non-nil entries are left after deleting and reduce
    -- the full node to a short node if only one entry is left.
    let (count, pos1, pos2) := liveSlots children
    let keep (c : TrieContinuation) : Node :=
      whenAdjust adjust
        (.fullNode children (if c.updated then { nflags with dirty := true } else nflags)) blockNr
    if count = 0 then (true, { c with updated := true, n := .nil }, events ++ [.left nflags.t])
    else if count = 1 then
      let (done, c, converted) := convertToShortNode (children pos1) pos1 c blockNr done
      if done then (done, c, events ++ converted)
      else (done, { c with n := keep c }, events ++ converted)
    else if count = 2 then
      let duo := (Node.duoNode (bit pos1 ||| bit pos2)
        (if pos1 = nibble then nn else children pos1)
        (if pos2 = nibble then nn else children pos2)
        { dirty := true, t := blockNr }).adjustTod blockNr
      (done, { c with updated := true, n := duo }, events)
    else
      -- n still contains at least three values and cannot be reduced.
      (done, { c with n := keep c }, events)

/-- `delete`: remove the remaining key `key[keyStart:]` below `origNode`. -/
def delete (origNode : Node) (key : List Nibble) (keyStart : Nat) (c : TrieContinuation)
    (blockNr : Nat) : Outcome :=
  match origNode with
  | .shortNode nk nval nflags =>
      let nKey := compactToHex nk
      let matchlen := prefixLen (key.drop keyStart) nKey
      if matchlen < nKey.length then
        -- don't replace n on mismatch
        return (true, { c with updated := false, n := origNode }, [])
      else if matchlen = key.length - keyStart then
        -- remove n entirely for whole matches
        return (true, { c with updated := true, n := .nil }, [.left nflags.t])
      else do
        -- The key is longer than n.Key. Remove the remaining suffix from the subtrie.
        let (done, c, events) ← delete nval key (keyStart + nKey.length) c blockNr
        return shortAfterDelete nk nflags blockNr done c events
  | .duoNode mask child1 child2 nflags => do
      let some nibble := key[keyStart]? | throw "index out of range"
      let (nflags, stamped) := stampT nflags blockNr
      let (i1, i2) := childrenIdx mask
      if nibble = i1 then
        let adjust := !child1.isNil && nflags.tod == child1.tod blockNr
        let (done, c, events) ← delete child1 key (keyStart + 1) c blockNr
        return duoAfterDelete (fun nn flags => .duoNode mask nn child2 flags) child2 i2 nflags adjust
          blockNr done c (stamped ++ events)
      else if nibble = i2 then
        let adjust := !child2.isNil && nflags.tod == child2.tod blockNr
        let (done, c, events) ← delete child2 key (keyStart + 1) c blockNr
        return duoAfterDelete (fun nn flags => .duoNode mask child1 nn flags) child1 i1 nflags adjust
          blockNr done c (stamped ++ events)
      else
        return (true, { c with updated := false, n := .duoNode mask child1 child2 nflags }, stamped)
  | .fullNode children nflags => do
      let some nibble := key[keyStart]? | throw "index out of range"
      let (nflags, stamped) := stampT nflags blockNr
      let child := children nibble
      let adjust := !child.isNil && nflags.tod == child.tod blockNr
      let (done, c, events) ← delete child key (keyStart + 1) c blockNr
      return fullAfterDelete children nibble nflags adjust blockNr done c (stamped ++ events)
  | .valueNode _ => return (true, { c with updated := true, n := .nil }, [])
  | .nil => return (true, { c with updated := false, n := .nil }, [])
  | .hashNode hash =>
      -- We've hit a part of the trie that isn't loaded yet.
      if c.resolved.isNil || key != c.resolveKey || keyStart != c.resolvePos then
        let c := { c with resolved := .nil, resolveKey := key, resolvePos := keyStart, resolveHash := hash }
        return (false, { c with updated := false, n := origNode }, [])
      else do
        let (rn, stamped) := timestampSubTree c.resolved blockNr
        let c := { c with resolved := .nil, resolveKey := [], resolvePos := 0 }
        let (done, c, events) ← delete rn key keyStart c blockNr
        -- Substitution is an update
        return (done, { c with updated := true }, stamped ++ events)
termination_by (if c.resolved.isNil then 0 else 1, origNode.size)
decreasing_by
  · exact Prod.Lex.right _ (Node.size_val_lt _ _ _)
  · exact Prod.Lex.right _ (Node.size_child1_lt _ _ _ _)
  · exact Prod.Lex.right _ (Node.size_child2_lt _ _ _ _)
  · exact Prod.Lex.right _ (Node.size_children_lt _ _ _)
  · apply Prod.Lex.left
    simp_all [Node.isNil]

end TurboGeth.Trie
