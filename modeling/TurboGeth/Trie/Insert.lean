import TurboGeth.Trie.Node

/-!
# Insertion into the trie

`Trie.insert` of `trie/trie.go`.  The Go function mutates nodes in place and
reports through the continuation `c`: `c.n` is the node that replaces the
visited one and `c.updated` whether the parent has to re-point its slot.  The
model returns the continuation; its `n` is always the node after the call,
which is what Go's parent ends up holding (the replacement when `updated`,
the same object mutated in place otherwise).  The `joinGeneration` and
`leftGeneration` callbacks are returned as a list of events in call order.
A Go panic (an index out of range, a failed type assertion, an invalid node)
is an `Except` error.

The proof-collecting callbacks behind `t.resolveReads` (`addProof`,
`addSoleHash`, `createProof`, `addValue`, `addShort`, `createShort`) change no
node; the model runs with `resolveReads` off.
-/

set_option autoImplicit false

namespace TurboGeth.Trie

inductive TrieAction where
  | insert
  | delete
  deriving DecidableEq, Repr

/-- `TrieContinuation`, without the back pointer to its trie. -/
structure TrieContinuation where
  action : TrieAction
  key : List Nibble
  value : Node
  resolveKey : List Nibble
  resolvePos : Nat
  resolveHash : Bytes
  resolved : Node
  n : Node
  updated : Bool

/-- The outcome of `insert` and `delete`: `done`, the continuation, and the
generation callbacks fired. -/
abbrev Outcome := Except String (Bool × TrieContinuation × List GenEvent)

/-- A fresh short node stamped with the current block, as `insert` builds
them: `&shortNode{Key: hexToCompact(key), Val: val}`, dirty, `t = blockNr`,
then `adjustTod(blockNr)`. -/
def newShortNode (key : List Nibble) (val : Node) (blockNr : Nat) : Node :=
  (Node.shortNode (hexToCompact key) val { dirty := true, t := blockNr }).adjustTod blockNr

/-- The child placed in a branch slot for the rest `key[pos+1:]` of a key
whose nibble `key[pos]` names the slot: `value` itself when nothing is left,
otherwise a new short node holding it, which joins the current generation.
`insert` builds both children of a split this way. -/
def leafFor (key : List Nibble) (pos : Nat) (value : Node) (blockNr : Nat) : Node × List GenEvent :=
  if key.length = pos + 1 then (value, [])
  else (newShortNode (key.drop (pos + 1)) value blockNr, [.join blockNr])

def whenAdjust (adjust : Bool) (n : Node) (blockNr : Nat) : Node :=
  if adjust then n.adjustTod blockNr else n

/-- `timestampSubTree`: stamp a freshly resolved subtree, whose nodes carry
`t = 0`, with the current block. -/
def timestampSubTree (n : Node) (blockNr : Nat) : Node × List GenEvent :=
  match n with
  | .shortNode key val flags =>
      if flags.t = 0 then
        let stamped := timestampSubTree val blockNr
        (.shortNode key stamped.1 { flags with t := blockNr, tod := blockNr },
          .join blockNr :: stamped.2)
      else (n, [])
  | .duoNode mask child1 child2 flags =>
      if flags.t = 0 then
        let first := timestampSubTree child1 blockNr
        let second := timestampSubTree child2 blockNr
        (.duoNode mask first.1 second.1 { flags with t := blockNr, tod := blockNr },
          .join blockNr :: first.2 ++ second.2)
      else (n, [])
  | .fullNode children flags =>
      if flags.t = 0 then
        (.fullNode (fun i => if (children i).isNil then children i
            else (timestampSubTree (children i) blockNr).1)
          { flags with t := blockNr, tod := blockNr },
          .join blockNr :: (List.finRange 17).flatMap fun i =>
            if (children i).isNil then [] else (timestampSubTree (children i) blockNr).2)
      else (n, [])
  | other => (other, [])

/-- `insert`: put `value` under the remaining key `key[pos:]` of `origNode`. -/
def insert (origNode : Node) (key : List Nibble) (pos : Nat) (value : Node)
    (c : TrieContinuation) (blockNr : Nat) : Outcome :=
  if key.length = pos then
    match origNode with
    | .valueNode v =>
        match value with
        | .valueNode w =>
            let updated := v != w
            return (true, { c with updated := updated, n := if updated then value else origNode }, [])
        | _ => throw "interface conversion: trie.node is not trie.valueNode"
    | _ => return (true, { c with updated := true, n := value }, [])
  else
    match origNode with
    | .shortNode nk nval nflags =>
        let nKey := compactToHex nk
        let matchlen := prefixLen (key.drop pos) nKey
        -- If the whole key matches, keep this short node as is
        -- and only update the value.
        if matchlen = nKey.length then do
          let (done, c, events) ← insert nval key (pos + matchlen) value c blockNr
          let n := Node.shortNode nk c.n (if c.updated then { nflags with dirty := true } else nflags)
          return (done, { c with n := n.adjustTod blockNr }, events)
        else do
          -- Otherwise branch out at the index where they differ.
          let some keyNibble := key[pos + matchlen]? | throw "index out of range"
          let some nNibble := nKey[matchlen]? | throw "index out of range"
          let (c1, events1) := leafFor nKey matchlen nval blockNr
          let (c2, events2) := leafFor key (pos + matchlen) value blockNr
          let (child1, child2) := if nNibble < keyNibble then (c1, c2) else (c2, c1)
          let branch := (Node.duoNode (bit nNibble ||| bit keyNibble) child1 child2
            { dirty := true, t := blockNr }).adjustTod blockNr
          -- Replace this shortNode with the branch if it occurs at index 0.
          if matchlen = 0 then
            return (true, { c with updated := true, n := branch }, events1 ++ events2)
          else
            -- Otherwise, replace it with a short node leading up to the branch.
            let n := (Node.shortNode (hexToCompact ((key.drop pos).take matchlen)) branch
              { nflags with dirty := true }).adjustTod blockNr
            return (true, { c with updated := true, n := n }, events1 ++ events2 ++ [.join blockNr])
    | .duoNode mask child1 child2 nflags => do
        let some nibble := key[pos]? | throw "index out of range"
        let (nflags, stamped) := stampT nflags blockNr
        let (i1, i2) := childrenIdx mask
        if nibble = i1 then
          let adjust := !child1.isNil && nflags.tod == child1.tod blockNr
          if child1.isNil then
            let (child, events) := leafFor key pos value blockNr
            let n := Node.duoNode mask child child2 { nflags with dirty := true }
            return (true, { c with updated := true, n := n }, stamped ++ events)
          else
            let (done, c, events) ← insert child1 key (pos + 1) value c blockNr
            let n := Node.duoNode mask c.n child2 (if c.updated then { nflags with dirty := true } else nflags)
            return (done, { c with n := whenAdjust adjust n blockNr }, stamped ++ events)
        else if nibble = i2 then
          let adjust := !child2.isNil && nflags.tod == child2.tod blockNr
          if child2.isNil then
            let (child, events) := leafFor key pos value blockNr
            let n := Node.duoNode mask child1 child { nflags with dirty := true }
            return (true, { c with updated := true, n := n }, stamped ++ events)
          else
            let (done, c, events) ← insert child2 key (pos + 1) value c blockNr
            let n := Node.duoNode mask child1 c.n (if c.updated then { nflags with dirty := true } else nflags)
            return (done, { c with n := whenAdjust adjust n blockNr }, stamped ++ events)
        else
          -- a third live slot turns the duo node into a full node; its
          -- oldest touch time is taken before the new child goes in
          let (child, events) := leafFor key pos value blockNr
          let newnode := (Node.fullNode
            (Function.update (Function.update (fun _ => Node.nil) i1 child1) i2 child2)
            { dirty := true, t := blockNr }).adjustTod blockNr
          let newnode := match newnode with
            | .fullNode children flags => Node.fullNode (Function.update children nibble child) flags
            | other => other
          return (true, { c with updated := true, n := newnode }, stamped ++ events)
    | .fullNode children nflags => do
        let some nibble := key[pos]? | throw "index out of range"
        let (nflags, stamped) := stampT nflags blockNr
        let child := children nibble
        let adjust := !child.isNil && nflags.tod == child.tod blockNr
        if child.isNil then
          let (newChild, events) := leafFor key pos value blockNr
          let n := Node.fullNode (Function.update children nibble newChild) { nflags with dirty := true }
          return (true, { c with updated := true, n := whenAdjust adjust n blockNr }, stamped ++ events)
        else
          let (done, c, events) ← insert child key (pos + 1) value c blockNr
          let n := Node.fullNode (Function.update children nibble c.n)
            (if c.updated then { nflags with dirty := true } else nflags)
          return (done, { c with n := whenAdjust adjust n blockNr }, stamped ++ events)
    | .hashNode hash =>
        -- We've hit a part of the trie that isn't loaded yet.
        if c.resolved.isNil || key != c.resolveKey || pos != c.resolvePos then
          let c := { c with resolved := .nil, resolveKey := key, resolvePos := pos, resolveHash := hash }
          return (false, { c with updated := false, n := origNode }, [])
        else do
          let (rn, stamped) := timestampSubTree c.resolved blockNr
          let c := { c with resolved := .nil, resolveKey := [], resolvePos := 0 }
          let (done, c, events) ← insert rn key pos value c blockNr
          -- Substitution of the hashNode with resolved node is an update
          return (done, { c with updated := true }, stamped ++ events)
    | _ => throw "invalid node"
termination_by (if c.resolved.isNil then 0 else 1, origNode.size)
decreasing_by
  · exact Prod.Lex.right _ (Node.size_val_lt _ _ _)
  · exact Prod.Lex.right _ (Node.size_child1_lt _ _ _ _)
  · exact Prod.Lex.right _ (Node.size_child2_lt _ _ _ _)
  · exact Prod.Lex.right _ (Node.size_children_lt _ _ _)
  · apply Prod.Lex.left
    simp_all [Node.isNil]

end TurboGeth.Trie
