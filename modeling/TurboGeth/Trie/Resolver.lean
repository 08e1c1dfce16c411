import TurboGeth.State.AccountEncoding
import TurboGeth.Ethdb.Walk
import TurboGeth.Trie.Canonical

/-!
# Resolving hash nodes from the database

`TrieResolver` of `trie/resolver.go` rebuilds the subtries behind hash nodes
from the leaves of a bucket, which `MultiWalk` streams in key order.  Each key
is kept until the next one arrives; `finishPreviousKey` then knows how many
leading nibbles the two share and builds, bottom up, the levels below that
point.  Level `l` holds a short node in `nodeStack[l]`, a full node in
`vertical[l]`, and in `fillCount[l]` the number of children placed there so
far: a level with one child becomes a short node, one with two a duo node, one
with more a full node.  A full or duo node below the level at work is hashed;
off the paths to resolve it is replaced by its hash.  When a range ends, the
node at the continuation's level is checked against the hash asked for and
becomes the continuation's `resolved`.

Go holds the continuations by pointer and the resolver's stacks by value; the
model holds a list of continuations, each with the prefix of its trie, and
functions from levels to nodes.  The hasher's cache is kept as
`afterHashInternal` leaves it.  Go's panics are errors of their own.
-/

set_option autoImplicit false
set_option linter.dupNamespace false

namespace TurboGeth.Trie

open TurboGeth.Ethdb

/-- `Levels`: the last index of the resolver's stacks, one level per nibble
of a 52-byte storage key. -/
def Levels : Nat := 104

/-- `dbutils.AccountsBucket`, `"AT"`. -/
def AccountsBucket : Bytes := [0x41, 0x54]

/-- `dbutils.StorageBucket`, `"ST"`. -/
def StorageBucket : Bytes := [0x53, 0x54]

/-- Go's `prefixLen` on byte keys: the length of the common prefix. -/
def prefixLenBytes : Bytes → Bytes → Nat
  | x :: a, y :: b => if x = y then prefixLenBytes a b + 1 else 0
  | _, _ => 0

theorem decodeNibbles_nil (bytes : Bytes) : decodeNibbles [] bytes = bytes := by
  simp [decodeNibbles, hasTerm, decodePairs]

/-! ## Sorting -/

section Sorting

variable {α : Type} (less : α → α → Bool)

/-- The inner loop of Go's `insertionSort`: the next element moves left past
every element it is `less` than.  The sorted part is kept reversed, nearest
first. -/
def sinkLeft (x : α) : List α → List α
  | [] => [x]
  | y :: ys => if less x y then y :: sinkLeft x ys else x :: y :: ys

/-- Go's `insertionSort`, which `sort.Stable` runs on blocks of 20. -/
def insertionSort (l : List α) : List α :=
  (l.foldl (fun sorted x => sinkLeft less x sorted) []).reverse

end Sorting

/-! ## The resolver's state -/

/-- A `shortNode` held by value in `nodeStack`. -/
structure StackNode where
  key : Bytes := []
  val : Node := .nil
  flags : NodeFlag := {}

/-- A `fullNode` held by value in `vertical`. -/
structure VerticalNode where
  children : Nibble → Node := fun _ => .nil
  flags : NodeFlag := {}

def StackNode.copy (n : StackNode) : Node := .shortNode n.key n.val n.flags

def VerticalNode.copy (n : VerticalNode) : Node := .fullNode n.children n.flags

/-- `fullNode.duoCopy`: a duo node over the first two live children, with the
flags of the full node, its hash only when clean. -/
def VerticalNode.duoCopy (n : VerticalNode) : Node :=
  let flags : NodeFlag :=
    { t := n.flags.t, tod := n.flags.tod, dirty := n.flags.dirty, hash := if n.flags.dirty then zeroHash else n.flags.hash }
  match liveList n.children with
  | [] => .duoNode 0 .nil .nil flags
  | [i] => .duoNode (bit i) (n.children i) .nil flags
  | i :: j :: _ => .duoNode (bit i ||| bit j) (n.children i) (n.children j) flags

/-- A level cleared for the next range: no key or child, and dirty. -/
def StackNode.reset (n : StackNode) : StackNode := { key := [], val := .nil, flags := { n.flags with dirty := true } }

def VerticalNode.reset (n : VerticalNode) : VerticalNode :=
  { children := fun _ => .nil, flags := { n.flags with dirty := true } }

/-- A continuation as the resolver holds it: with the prefix of its trie
(`tc.t.prefix`: empty for the account trie, the address for a storage trie)
and the `extResolvePos` that `PrepareResolveParams` gives it. -/
structure ResolverEntry where
  prefixBytes : Bytes
  tc : TrieContinuation
  extResolvePos : Nat := 0

structure TrieResolver where
  accounts : Bool
  hashes : Bool
  continuations : List ResolverEntry
  resolveHexes : List (List Nibble)
  /-- the last resolve hex at or before the current key, `-1` before the first -/
  rhIndexLte : Int
  /-- the first resolve hex after the current key -/
  rhIndexGt : Nat
  contIndices : List Nat
  key : Bytes
  value : Bytes
  key_set : Bool
  nodeStack : Nat → StackNode
  vertical : Nat → VerticalNode
  fillCount : Nat → Nat
  startLevel : Nat
  keyIdx : Nat

/-- How resolution stops: the errors `finishPreviousKey`, `Walker` and
`ResolveWithDb` return, and the panics of Go. -/
inductive ResolveError where
  | nilRoot
  | wrongHash (expected got : Bytes)
  | wrongEmbedded (expected : Bytes)
  | decode (err : Rlp.FieldError)
  | noDatabase
  | panic (msg : String)
  | outOfFuel
  deriving DecidableEq, Repr

/-- The text of the error, up to the keys and hashes Go formats into it. -/
def ResolveError.message : ResolveError → String
  | .nilRoot => "Resolve returned nil root"
  | .wrongHash _ _ => "Resolving wrong hash for prefix"
  | .wrongEmbedded _ => "Resolving wrong hash for key"
  | .decode _ => "rlp: decoding ExtAccount"
  | .noDatabase => "Unexpected resolution"
  | .panic msg => msg
  | .outOfFuel => "walk out of fuel"

/-- The stops of `MultiWalk` as resolution errors: a slice out of range is a
panic. -/
def ResolveError.ofWalk : WalkError ResolveError → ResolveError
  | .walker err => err
  | .stop .panic => .panic "slice bounds out of range"
  | .stop .outOfFuel => .outOfFuel

def NewResolver (hashes accounts : Bool) : TrieResolver where
  accounts := accounts
  hashes := hashes
  continuations := []
  resolveHexes := []
  rhIndexLte := -1
  rhIndexGt := 0
  contIndices := []
  key := []
  value := []
  key_set := false
  nodeStack := fun _ => {}
  vertical := fun _ => {}
  fillCount := fun _ => 0
  startLevel := 0
  keyIdx := 0

namespace TrieResolver

/-- `AddContinuation`: a storage continuation's resolve hex starts with the
40 nibbles of its address. -/
def AddContinuation (tr : TrieResolver) (prefixBytes : Bytes) (c : TrieContinuation) : TrieResolver :=
  { tr with
    continuations := tr.continuations ++ [{ prefixBytes := prefixBytes, tc := c }]
    resolveHexes := tr.resolveHexes ++
      [if prefixBytes = [] then c.resolveKey else (keybytesToHex prefixBytes).take 40 ++ c.resolveKey] }

/-- `Less`: by trie prefix, then by the resolve keys up to the shorter
position, then shorter positions first. -/
def Less (ci cj : ResolverEntry) : Bool :=
  let m := min ci.tc.resolvePos cj.tc.resolvePos
  if ci.prefixBytes ≠ cj.prefixBytes then decide (ci.prefixBytes < cj.prefixBytes)
  else if ci.tc.resolveKey.take m ≠ cj.tc.resolveKey.take m then decide (ci.tc.resolveKey.take m < cj.tc.resolveKey.take m)
  else decide (ci.tc.resolvePos < cj.tc.resolvePos)

/-- The filter of `PrepareResolveParams` on the sorted resolve hexes: a hex
that is a prefix of the next one is dropped. -/
def dropCovered : List (List Nibble) → List (List Nibble)
  | h :: next :: rest => if h.isPrefixOf next then dropCovered (next :: rest) else h :: dropCovered (next :: rest)
  | hexes => hexes

/-- The loop of `PrepareResolveParams` over the sorted continuations, from
index `i`: a continuation that is not below the previous chosen one starts a
walk, at its trie prefix followed by the bytes of its resolve path, with
`4 * extResolvePos` fixed bits.  It returns the continuations, the indices of
the chosen ones, and the start keys with their fixed bits. -/
def chooseStarts : List ResolverEntry → Nat → Option ResolverEntry →
    List ResolverEntry × List Nat × List (Bytes × Nat)
  | [], _, _ => ([], [], [])
  | c :: rest, i, prevC =>
    let fresh := match prevC with
      | none => true
      | some p => decide (c.tc.resolvePos < p.tc.resolvePos) || c.prefixBytes != p.prefixBytes ||
          !((p.tc.resolveKey.take p.tc.resolvePos).isPrefixOf (c.tc.resolveKey.take c.tc.resolvePos))
    if fresh then
      let c := { c with extResolvePos := c.tc.resolvePos + 2 * c.prefixBytes.length }
      let startkey := c.prefixBytes ++ decodeNibbles (c.tc.resolveKey.take c.tc.resolvePos) (List.replicate 32 0)
      let (cs, indices, starts) := chooseStarts rest (i + 1) (some c)
      (c :: cs, i :: indices, (startkey, 4 * c.extResolvePos) :: starts)
    else
      let (cs, indices, starts) := chooseStarts rest (i + 1) prevC
      (c :: cs, indices, starts)

/-- `PrepareResolveParams`: the start keys and fixed bits for `MultiWalk`,
and the resolver with its continuations sorted and the first one's level as
the level to start from. -/
def PrepareResolveParams (tr : TrieResolver) : TrieResolver × List Bytes × List Nat :=
  match tr.continuations with
  | [] => (tr, [], [])
  | _ :: _ =>
    let sorted := insertionSort Less tr.continuations
    let resolveHexes := dropCovered (insertionSort (fun a b => decide (a < b)) tr.resolveHexes)
    let (continuations, indices, starts) := chooseStarts sorted 0 none
    ({ tr with
        continuations := continuations
        resolveHexes := resolveHexes
        contIndices := tr.contIndices ++ indices
        startLevel := ((continuations.head?).map (·.extResolvePos)).getD 0 },
      starts.map Prod.fst, starts.map Prod.snd)

/-! ## Building the levels -/

/-- Clear level `l` for the next key. -/
def resetLevel (tr : TrieResolver) (l : Nat) : TrieResolver :=
  { tr with
    nodeStack := Function.update tr.nodeStack l (tr.nodeStack l).reset
    fillCount := Function.update tr.fillCount l 0
    vertical := Function.update tr.vertical l (tr.vertical l).reset }

/-- Clear every level, once a range is resolved. -/
def clearLevels (tr : TrieResolver) : TrieResolver :=
  { tr with
    nodeStack := fun l => if l ≤ Levels then (tr.nodeStack l).reset else tr.nodeStack l
    fillCount := fun l => if l ≤ Levels then 0 else tr.fillCount l
    vertical := fun l => if l ≤ Levels then (tr.vertical l).reset else tr.vertical l }

/-- What both branches of a turn of the level loop do with the node built
below `level`: it becomes child `keynibble` of the full node at `level`, and,
when it is the first child there, the short node at `level` leads to `val`
with the key `key`.  A level at or below the continuation's is cleared once
used. -/
def place (tr : TrieResolver) (extResolvePos level : Nat) (keynibble : Nibble) (child : Node) (key : Bytes)
    (val : Node) : TrieResolver :=
  let full := tr.vertical level
  let tr := { tr with
    vertical := Function.update tr.vertical level
      { children := Function.update full.children keynibble child, flags := { full.flags with dirty := true } } }
  let short := tr.nodeStack level
  let tr := if tr.fillCount level = 0 then
      { tr with
        nodeStack := Function.update tr.nodeStack level
          { key := key, val := val, flags := { short.flags with dirty := true } } }
    else tr
  let tr := { tr with fillCount := Function.update tr.fillCount level (tr.fillCount level + 1) }
  if extResolvePos ≤ level then tr.resetLevel (level + 1) else tr

section Finish

variable (keccak : Bytes → Bytes)

/-- The full node at `level + 1` as the hasher leaves it: hashed with its
children, their hashes cached. -/
def hashedVertical (tr : TrieResolver) (level : Nat) : VerticalNode :=
  match afterHashInternal keccak (!tr.accounts) (tr.vertical (level + 1)).copy false with
  | .fullNode children flags => { children := children, flags := flags }
  | _ => tr.vertical (level + 1)

/-- One turn of the level loop of `finishPreviousKey` at `level` of the key
`hex`.  A single child below is promoted as a short node whose key grows by
one nibble.  Two or more make a full node, hashed: a node whose encoding is
shorter than a hash is a panic.  On a path to resolve, and at level 5 when
the resolver is for hashes, the node itself is kept, as a duo node when it has
two children; elsewhere its hash. -/
def finishLevel (tr : TrieResolver) (hex : List Nibble) (rhPrefixLen extResolvePos level : Nat) :
    Except ResolveError TrieResolver :=
  match hex[level]? with
  | none => .error (.panic "index out of range")
  | some keynibble =>
    if tr.fillCount (level + 1) = 1 then
      let short := tr.nodeStack (level + 1)
      .ok (tr.place extResolvePos level keynibble short.copy (hexToCompact (keynibble :: compactToHex short.key))
        short.val)
    else
      let stored := hashInternal keccak (!tr.accounts) (tr.vertical (level + 1)).copy false
      if stored.length < 32 then .error (.panic "hashNode expected")
      else
        let full := tr.hashedVertical keccak level
        let tr := { tr with vertical := Function.update tr.vertical (level + 1) full }
        -- `<=` rather than `<`, so that deletes resolve in one go
        let child := if level ≤ rhPrefixLen || (tr.hashes && level == 5) then
            (if tr.fillCount (level + 1) = 2 then full.duoCopy else full.copy)
          else .hashNode stored
        .ok (tr.place extResolvePos level keynibble child (hexToCompact [keynibble]) child)

/-- The level loop, `count` turns from `level` down. -/
def levelLoop (hex : List Nibble) (rhPrefixLen extResolvePos : Nat) :
    Nat → Nat → TrieResolver → Except ResolveError TrieResolver
  | 0, _, tr => .ok tr
  | count + 1, level, tr =>
    match tr.finishLevel keccak hex rhPrefixLen extResolvePos level with
    | .error err => .error err
    | .ok tr => levelLoop hex rhPrefixLen extResolvePos count (level - 1) tr

/-- The end of a range: the node built at the continuation's level, checked
against the hash asked for, becomes its `resolved`, hashed with `force` at
the root of a trie; every level is cleared. -/
def finishRange (tr : TrieResolver) (idx : Nat) (entry : ResolverEntry) : Except ResolveError TrieResolver :=
  let ext := entry.extResolvePos
  let root :=
    if tr.fillCount ext = 1 then some (tr.nodeStack ext).copy
    else if tr.fillCount ext = 2 then some (tr.vertical ext).duoCopy
    else if 2 < tr.fillCount ext then some (tr.vertical ext).copy
    else none
  match root with
  | none => .error .nilRoot
  | some root =>
    let force := entry.tc.resolvePos = 0
    let gotHash := hashInternal keccak (!tr.accounts) root force
    if gotHash.length = 32 ∧ entry.tc.resolveHash ≠ gotHash then .error (.wrongHash entry.tc.resolveHash gotHash)
    else if gotHash.length ≠ 32 ∧ entry.tc.resolveHash ≠ [] then .error (.wrongEmbedded entry.tc.resolveHash)
    else
      let resolved := afterHashInternal keccak (!tr.accounts) root force
      .ok { tr.clearLevels with
        continuations := tr.continuations.modify idx fun e => { e with tc := { e.tc with resolved := resolved } } }

end Finish

/-- The loop of `finishPreviousKey` that moves `rhIndexGt` past the resolve
hexes at or before `hex`, and `rhIndexLte` along with it. -/
def advanceRh (hex : List Nibble) : List (List Nibble) → Int → Nat → Int × Nat
  | [], lte, gt => (lte, gt)
  | h :: rest, lte, gt => if hex < h then (lte, gt) else advanceRh hex rest (lte + 1) (gt + 1)

/-- How far `hex` follows the nearest resolve hexes on either side.
`rhIndexLte` is one below `rhIndexGt`, so it never leaves the list. -/
def rhPrefixLen (resolveHexes : List (List Nibble)) (hex : List Nibble) (lte : Int) (gt : Nat) : Nat :=
  let lteLen := if 0 ≤ lte then ((resolveHexes[lte.toNat]?).map (prefixLen hex)).getD 0 else 0
  match resolveHexes[gt]? with
  | some h => max lteLen (prefixLen hex h)
  | none => lteLen

/-- The length `Walker` cuts keys to: an account key, or an address and a
storage key. -/
def keyLength (accounts : Bool) : Nat := if accounts then 32 else 52

/-- The level where the loop of `finishPreviousKey` stops: twice the bytes
the next key `k` shares with the key held, one more when they also share the
next high nibble; `0`, the top, when the range ends. -/
def stopLevel (key : Bytes) : Option Bytes → Except ResolveError Nat
  | none => .ok 0
  | some k =>
    let pLen := prefixLenBytes k key
    match k[pLen]?, key[pLen]? with
    | some a, some b => .ok (if (a ^^^ b) &&& 0xf0 = 0 then 2 * pLen + 1 else 2 * pLen)
    | _, _ => .error (.panic "index out of range")

/-- The key held, `hex`, as a short node from `level` to its value, and the
resolve hexes caught up with it. -/
def holdLeaf (tr : TrieResolver) (hex : List Nibble) (level : Nat) : TrieResolver :=
  let leaf := tr.nodeStack level
  let rh := advanceRh hex (tr.resolveHexes.drop tr.rhIndexGt) tr.rhIndexLte tr.rhIndexGt
  { tr with
    nodeStack := Function.update tr.nodeStack level
      { key := hexToCompact (hex.drop level), val := .valueNode tr.value, flags := { leaf.flags with dirty := true } }
    fillCount := Function.update tr.fillCount level 1
    rhIndexLte := rh.1
    rhIndexGt := rh.2 }

section Finish

variable (keccak : Bytes → Bytes)

/-- `finishPreviousKey`: the key held, now followed by `k` (or by nothing
when its range ends), is placed as a leaf below the levels it shares with `k`,
and the levels from there up to the shared ones are built. -/
def finishPreviousKey (tr : TrieResolver) (k : Option Bytes) : Except ResolveError TrieResolver :=
  match stopLevel tr.key k, (tr.contIndices[tr.keyIdx]?).bind fun idx => (tr.continuations[idx]?).map (idx, ·) with
  | .error err, _ => .error err
  | .ok _, none => .error (.panic "index out of range")
  | .ok stop, some (idx, entry) =>
    let startLevel := max (max tr.startLevel entry.extResolvePos) stop
    let hex := keybytesToHex tr.key
    if Levels < startLevel + 1 ∨ hex.length < startLevel + 1 then .error (.panic "index out of range")
    else
      let tr := tr.holdLeaf hex (startLevel + 1)
      match tr.levelLoop keccak hex (rhPrefixLen tr.resolveHexes hex tr.rhIndexLte tr.rhIndexGt) entry.extResolvePos
          (startLevel + 1 - stop) startLevel with
      | .error err => .error err
      | .ok tr =>
        let tr := { tr with startLevel := stop }
        match k with
        | some _ => .ok tr
        | none => tr.finishRange keccak idx entry

/-- `Walker`: a new range first finishes the key held from the last one; a
pair with a value finishes the key held and is held in its place, its key cut
to 32 bytes for accounts and 52 for storage, an account's value rebuilt in
full. -/
def Walker (tr : TrieResolver) (keyIdx : Nat) (kv : Option (Bytes × Bytes)) : Except ResolveError (Bool × TrieResolver) :=
  let switched : Except ResolveError TrieResolver :=
    if keyIdx ≠ tr.keyIdx then
      if tr.key_set then
        (tr.finishPreviousKey keccak none).map fun tr => { tr with key_set := false, keyIdx := keyIdx }
      else .ok { tr with keyIdx := keyIdx }
    else .ok tr
  match switched, kv with
  | .error err, _ => .error err
  | .ok tr, none => .ok (true, tr)
  | .ok tr, some (k, v) =>
    if v.length = 0 then .ok (true, tr)
    else
      let finished := if tr.key_set then tr.finishPreviousKey keccak (some k) else .ok tr
      match finished with
      | .error err => .error err
      | .ok tr =>
        if k.length < keyLength tr.accounts then .error (.panic "slice bounds out of range")
        else
          match State.walkerValue tr.accounts v with
          | .error err => .error (.decode err)
          | .ok value => .ok (true, { tr with key := k.take (keyLength tr.accounts), value := value, key_set := true })

/-- `ResolveWithDb` without history: one walk over the account or the
storage bucket, allowed `fuel` cursor steps; the resolver at its end. -/
def ResolveWithDb (tr : TrieResolver) (db : Option Tx) (fuel : Nat) : Except ResolveError TrieResolver :=
  let (tr, startkeys, fixedbits) := tr.PrepareResolveParams
  match db with
  | none => .error .noDatabase
  | some tx =>
    (MultiWalk tx (if tr.accounts then AccountsBucket else StorageBucket) startkeys fixedbits
      (fun keyIdx kv tr => tr.Walker keccak keyIdx kv) fuel tr).mapError ResolveError.ofWalk

end Finish

end TrieResolver

/-- The resolution in the loop of `TryUpdate` and `TryDelete`: a new
resolver, not for hashes, with the one continuation of a trie with prefix
`prefixBytes`.  The continuation comes back with what was resolved for it. -/
def resolveContinuation (keccak : Bytes → Bytes) (db : Option Tx) (accounts : Bool) (prefixBytes : Bytes)
    (fuel : Nat) (tc : TrieContinuation) : Except String TrieContinuation :=
  match ((NewResolver false accounts).AddContinuation prefixBytes tc).ResolveWithDb keccak db fuel with
  | .error err => .error err.message
  | .ok tr => .ok (((tr.continuations.head?).map (·.tc)).getD tc)

end TurboGeth.Trie
