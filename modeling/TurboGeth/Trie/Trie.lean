import TurboGeth.Trie.Delete
import TurboGeth.Trie.Get
import TurboGeth.Lib.ExceptRun

/-!
# The trie and its public operations

`New`, `UpdateAction`, `DeleteAction`, `TrieContinuation.RunWithDb`,
`TryUpdate`, `TryDelete` and `TryGet` of `trie/trie.go`.

`TryUpdate` and `TryDelete` run the continuation and, each time it stops at
a subtree that is not in memory, hand it to the database resolver
(`TrieResolver.ResolveWithDb`), which fills `tc.resolved`, and run it again.
The resolver is a parameter here; `fuel` bounds the number of rounds, and an
in-memory trie needs one.  `TryGet` falls back to the database read
`tryGet` when the walk reports `gotValue = false`; that read is the
parameter `dbGet`.
-/

set_option autoImplicit false
set_option linter.dupNamespace false

namespace TurboGeth.Trie

structure Trie where
  root : Node
  encodeToBytes : Bool

def zeroHash : Bytes := List.replicate 32 0

/-- `emptyRoot`, the root hash of the empty trie. -/
def emptyRoot : Bytes :=
  [0x56, 0xe8, 0x1f, 0x17, 0x1b, 0xcc, 0x55, 0xa6, 0xff, 0x83, 0x45, 0xe6, 0x92, 0xc0, 0xf8, 0x6e,
   0x5b, 0x48, 0xe0, 0x1b, 0x99, 0x6c, 0xad, 0xc0, 0x01, 0x62, 0x2f, 0xb5, 0xe3, 0x63, 0xb4, 0x21]

/-- `New`: the zero hash and `emptyRoot` give an empty trie that needs no
database; any other root starts out as a hash node to resolve. -/
def Trie.new (root : Bytes) (encodeToBytes : Bool) : Trie :=
  { root := if root != zeroHash && root != emptyRoot then .hashNode root else .nil,
    encodeToBytes := encodeToBytes }

def blankContinuation : TrieContinuation :=
  { action := .insert, key := [], value := .nil, resolveKey := [], resolvePos := 0,
    resolveHash := [], resolved := .nil, n := .nil, updated := false }

/-- `UpdateAction`: an empty value deletes the key. -/
def updateAction (key value : Bytes) : TrieContinuation :=
  if value.length ≠ 0 then
    { blankContinuation with key := keybytesToHex key, action := .insert, value := .valueNode value }
  else { blankContinuation with key := keybytesToHex key, action := .delete }

def deleteAction (key : Bytes) : TrieContinuation :=
  { blankContinuation with key := keybytesToHex key, action := .delete }

/-- `RunWithDb`.  Go then sets `root = tc.n` when `tc.updated`; otherwise the
root was changed in place, and in the model `tc.n` is that node too. -/
def runWithDb (tc : TrieContinuation) (root : Node) (blockNr : Nat) : Outcome := do
  let tc := { tc with updated := false }
  match tc.action with
  | .insert =>
      if root.isNil then
        return (true, { tc with n := newShortNode tc.key tc.value blockNr, updated := true },
          [.join blockNr])
      else insert root tc.key 0 tc.value tc blockNr
  | .delete => delete root tc.key 0 tc blockNr

theorem runWithDb_updateAction_nil (key value : Bytes) (written : value ≠ []) (blockNr : Nat) :
    runWithDb (updateAction key value) .nil blockNr = .ok (true, { updateAction key value with
      n := newShortNode (keybytesToHex key) (.valueNode value) blockNr, updated := true }, [.join blockNr]) := by
  have stored : value.length ≠ 0 := by simpa using written
  simp [runWithDb, updateAction, stored, Node.isNil]

theorem runWithDb_updateAction_shortNode (key value : Bytes) (written : value ≠ []) (nk : Bytes) (nval : Node)
    (nflags : NodeFlag) (blockNr : Nat) :
    runWithDb (updateAction key value) (.shortNode nk nval nflags) blockNr =
      insert (.shortNode nk nval nflags) (keybytesToHex key) 0 (.valueNode value)
        { updateAction key value with updated := false } blockNr := by
  have stored : value.length ≠ 0 := by simpa using written
  simp [runWithDb, updateAction, stored, Node.isNil]

/-- The loop of `TryUpdate` and `TryDelete`: run, and resolve while not done. -/
def resolveLoop (resolveWithDb : TrieContinuation → Except String TrieContinuation) :
    Nat → TrieContinuation → Trie → Nat → Except String (Trie × List GenEvent)
  | 0, _, _, _ => throw "resolution rounds exhausted"
  | fuel + 1, tc, t, blockNr => do
      let (done, tc, events) ← runWithDb tc t.root blockNr
      let t := { t with root := tc.n }
      if done then return (t, events)
      else
        let tc ← resolveWithDb tc
        let (t, more) ← resolveLoop resolveWithDb fuel tc t blockNr
        return (t, events ++ more)

def tryUpdate (resolveWithDb : TrieContinuation → Except String TrieContinuation) (fuel : Nat)
    (t : Trie) (key value : Bytes) (blockNr : Nat) : Except String (Trie × List GenEvent) :=
  resolveLoop resolveWithDb fuel (updateAction key value) t blockNr

def tryDelete (resolveWithDb : TrieContinuation → Except String TrieContinuation) (fuel : Nat)
    (t : Trie) (key : Bytes) (blockNr : Nat) : Except String (Trie × List GenEvent) :=
  resolveLoop resolveWithDb fuel (deleteAction key) t blockNr

/-- `TryGet`: the value for `key` (`none` for nil), and the trie after the
walk stamped its branches. -/
def tryGet (dbGet : Bytes → Option Bytes) (t : Trie) (key : Bytes) (blockNr : Nat) :
    Except String (Option Bytes × Trie × List GenEvent) := do
  let (value, gotValue, root, events) ← tryGet1 t.root (keybytesToHex key) 0 blockNr
  let t := { t with root := root }
  if gotValue then return (value, t, events)
  else return (dbGet key, t, events)

/-- One call of the public API, at some block. -/
inductive TrieOp where
  | update (key value : Bytes) (blockNr : Nat)
  | delete (key : Bytes) (blockNr : Nat)

def applyOp (resolveWithDb : TrieContinuation → Except String TrieContinuation) (fuel : Nat)
    (t : Trie) : TrieOp → Except String Trie
  | .update key value blockNr => Prod.fst <$> tryUpdate resolveWithDb fuel t key value blockNr
  | .delete key blockNr => Prod.fst <$> tryDelete resolveWithDb fuel t key blockNr

def runOps (resolveWithDb : TrieContinuation → Except String TrieContinuation) (fuel : Nat)
    (t : Trie) (ops : List TrieOp) : Except String Trie :=
  ops.foldlM (applyOp resolveWithDb fuel) t

end TurboGeth.Trie
