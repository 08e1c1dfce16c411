import TurboGeth.Trie.Trie
import TurboGeth.Lib.Rlp
import Mathlib.Data.List.AList
import Mathlib.Data.List.Sort

/-!
# The trie cache of `TrieDbState`

`TrieDbState` of `core/state/database.go` keeps the account trie and the
storage tries in memory from block to block.  `MakeListed` hands every one of
them the state's `joinGeneration` and `leftGeneration`, which the trie calls
for each node it creates, stamps or drops, so that `nodeCount` and
`generationCounts` follow the loaded nodes and their touch times;
`PruneTries` uses the counts to unload the oldest generations once there are
more than `MaxTrieCacheGen` nodes.  `countNodes` of `trie/trie.go` counts the
same nodes by walking a trie.

Updates are buffered by the `TrieStateWriter` (`accountUpdates`,
`storageUpdates`, `deleted`) and flushed by `trieRoot`: one continuation per
update, run in rounds, with the ones that stop at a node not in memory
resolved from the database between rounds.

What the state reaches outside the in-memory trie code is the environment
`Env`: Keccak-256, the RLP decoders behind `encodingToAccount`, the flat-state
reads, the resolver and the trie hash.
-/

set_option autoImplicit false

namespace TurboGeth.State

open TurboGeth.Trie

/-- `Account` of `core/state/state_object.go`; a nil balance is zero. -/
structure Account where
  nonce : Nat
  balance : Nat
  root : Bytes
  codeHash : Bytes
  deriving DecidableEq, Repr

/-- `rlp.EncodeToBytes(account)`: the list of the four fields. -/
def Account.encodeRLP (account : Account) : Bytes :=
  Rlp.encode (.list [.ofNat account.nonce, .ofNat account.balance, .bytes account.root,
    .bytes account.codeHash])

theorem Account.encodeRLP_ne_nil (account : Account) : account.encodeRLP ≠ [] :=
  Rlp.encode_ne_nil _

structure Env where
  /-- Keccak-256, behind `HashAddress`, `HashKey` and `emptyCodeHash` -/
  keccak : Bytes → Bytes
  /-- `rlp.DecodeBytes` into an `Account` -/
  decodeAccount : Bytes → Option Account
  /-- `rlp.DecodeBytes` into an `ExtAccount`: nonce and balance -/
  decodeExtAccount : Bytes → Option (Nat × Nat)
  /-- the read of `AccountsBucket` behind `TryGet` on the account trie -/
  accountGet : Bytes → Option Bytes
  /-- the read of `StorageBucket` behind `TryGet` on the storage trie of an address -/
  storageGet : Bytes → Bytes → Option Bytes
  /-- `TrieResolver.ResolveWithDb` for one continuation -/
  resolveWithDb : TrieContinuation → Except String TrieContinuation
  /-- `Trie.Hash` -/
  hashTrie : Trie → Bytes
  /-- a bound on the rounds of a resolution loop -/
  fuel : Nat

/-- `sort.Sort(Hashes)`: byte strings in `bytes.Compare` order. -/
def sortBytes (keys : List Bytes) : List Bytes := keys.insertionSort (· ≤ ·)

/-- The fields of `TrieDbState` that the trie cache and its write buffer use.
Go maps are association lists; a missing generation counts zero. -/
structure TrieDbState where
  t : Trie
  blockNr : Nat
  storageTries : AList fun _ : Bytes => Trie
  accountUpdates : AList fun _ : Bytes => Option Account
  storageUpdates : AList fun _ : Bytes => AList fun _ : Bytes => Bytes
  deleted : List Bytes
  nodeCount : Int
  generationCounts : Nat → Int
  oldestGeneration : Nat

/-- `NewTrieDbState`: the account trie of `root`, nothing counted yet, and the
oldest generation the starting block. -/
def newTrieDbState (root : Bytes) (blockNr : Nat) : TrieDbState where
  t := Trie.new root false
  blockNr := blockNr
  storageTries := ∅
  accountUpdates := ∅
  storageUpdates := ∅
  deleted := []
  nodeCount := 0
  generationCounts := fun _ => 0
  oldestGeneration := blockNr

/-- `prepareToRemove`: the `leftGeneration` calls for every loaded node of a
trie that is dropped, parent first. -/
def prepareToRemove : Node → List GenEvent
  | .shortNode _ val flags => .left flags.t :: prepareToRemove val
  | .duoNode _ child1 child2 flags => .left flags.t :: (prepareToRemove child1 ++ prepareToRemove child2)
  | .fullNode children flags => .left flags.t :: (List.finRange 17).flatMap fun i => prepareToRemove (children i)
  | _ => []

/-- `countNodes`: the number of loaded short, duo and full nodes below `n`,
each also added to the count of its generation in `m`. -/
def countNodes (n : Node) (m : Nat → Int) : Nat × (Nat → Int) :=
  match n with
  | .shortNode _ val flags =>
      let (c, m) := countNodes val m
      (1 + c, Function.update m flags.t (m flags.t + 1))
  | .duoNode _ child1 child2 flags =>
      let (c1, m) := countNodes child1 m
      let (c2, m) := countNodes child2 m
      (1 + c1 + c2, Function.update m flags.t (m flags.t + 1))
  | .fullNode children flags =>
      let (count, m) := (List.finRange 17).foldl (fun (count, m) i =>
        if (children i).isNil then (count, m)
        else
          let (c, m) := countNodes (children i) m
          (count + c, m)) (1, m)
      (count, Function.update m flags.t (m flags.t + 1))
  | _ => (0, m)

/-- The continuation of an update and the trie it runs on: the account trie,
or the storage trie of an account hash. -/
abbrev Pending := Option Bytes × TrieContinuation

namespace TrieDbState

variable (env : Env)

def setBlockNr (tds : TrieDbState) (blockNr : Nat) : TrieDbState := { tds with blockNr := blockNr }

def joinGeneration (tds : TrieDbState) (gen : Nat) : TrieDbState :=
  { tds with
    nodeCount := tds.nodeCount + 1
    generationCounts := Function.update tds.generationCounts gen (tds.generationCounts gen + 1) }

def leftGeneration (tds : TrieDbState) (gen : Nat) : TrieDbState :=
  { tds with
    nodeCount := tds.nodeCount - 1
    generationCounts := Function.update tds.generationCounts gen (tds.generationCounts gen - 1) }

def hear (tds : TrieDbState) : GenEvent → TrieDbState
  | .join gen => tds.joinGeneration gen
  | .left gen => tds.leftGeneration gen

/-- The callbacks a trie operation fired, in the order it fired them. -/
def listen (tds : TrieDbState) (events : List GenEvent) : TrieDbState := events.foldl hear tds

def trieOf (tds : TrieDbState) : Option Bytes → Trie
  | none => tds.t
  | some addrHash => (tds.storageTries.lookup addrHash).getD (Trie.new zeroHash true)

def setTrie (tds : TrieDbState) : Option Bytes → Trie → TrieDbState
  | none, t => { tds with t := t }
  | some addrHash, t => { tds with storageTries := tds.storageTries.insert addrHash t }

/-! ## Reads -/

/-- `encodingToAccount`: one byte is the empty account, a short encoding an
`ExtAccount` with the empty storage and code, a longer one a whole account. -/
def encodingToAccount : Option Bytes → Option Account
  | none => none
  | some [] => none
  | some [_] => some { nonce := 0, balance := 0, codeHash := env.keccak [], root := emptyRoot }
  | some enc =>
      if enc.length < 60 then
        (env.decodeExtAccount enc).map fun (nonce, balance) =>
          { nonce := nonce, balance := balance, codeHash := env.keccak [], root := emptyRoot }
      else env.decodeAccount enc

/-- `ReadAccountData`: a read of the account trie under the address hash,
which stamps the branches on its way. -/
def readAccountData (tds : TrieDbState) (address : Bytes) :
    Except String (Option Account × TrieDbState) := do
  let (enc, t, events) ← tryGet env.accountGet tds.t (env.keccak address) tds.blockNr
  return (encodingToAccount env enc, ({ tds with t := t } : TrieDbState).listen events)

/-- `getStorageTrie` with `create`: a storage trie not in memory yet starts
from the storage root of the account as read from the account trie. -/
def getStorageTrie (tds : TrieDbState) (address addrHash : Bytes) :
    Except String (Trie × TrieDbState) :=
  match tds.storageTries.lookup addrHash with
  | some t => pure (t, tds)
  | none => do
      let (account, tds) ← readAccountData env tds address
      let t := Trie.new ((account.map Account.root).getD zeroHash) true
      return (t, { tds with storageTries := tds.storageTries.insert addrHash t })

def readAccountStorage (tds : TrieDbState) (address key : Bytes) :
    Except String (Option Bytes × TrieDbState) := do
  let addrHash := env.keccak address
  let (t, tds) ← getStorageTrie env tds address addrHash
  let (enc, t, events) ← tryGet (env.storageGet address) t (env.keccak key) tds.blockNr
  return (enc, (tds.setTrie (some addrHash) t).listen events)

/-! ## The write buffer of `TrieStateWriter` -/

def updateAccountData (tds : TrieDbState) (address : Bytes) (account : Account) : TrieDbState :=
  { tds with accountUpdates := tds.accountUpdates.insert (env.keccak address) (some account) }

def deleteAccount (tds : TrieDbState) (address : Bytes) : TrieDbState :=
  let addrHash := env.keccak address
  { tds with
    accountUpdates := tds.accountUpdates.insert addrHash none
    deleted := if addrHash ∈ tds.deleted then tds.deleted else addrHash :: tds.deleted }

/-- `WriteAccountStorage`: the value without its leading zeros, empty for a
cleared slot. -/
def writeAccountStorage (tds : TrieDbState) (address key value : Bytes) : TrieDbState :=
  let m := (tds.storageUpdates.lookup address).getD ∅
  { tds with storageUpdates := tds.storageUpdates.insert address (m.insert (env.keccak key) (value.dropWhile (· = 0))) }

def clearUpdates (tds : TrieDbState) : TrieDbState :=
  { tds with accountUpdates := ∅, storageUpdates := ∅, deleted := [] }

/-! ## Flushing the buffer: `trieRoot` -/

/-- One round of a loop of `trieRoot`: run every pending continuation on its
trie, and keep those that stopped at a node not in memory. -/
def runRound (tds : TrieDbState) : List Pending → Except String (TrieDbState × List Pending)
  | [] => pure (tds, [])
  | (owner, tc) :: rest => do
      let t := tds.trieOf owner
      let (done, tc, events) ← runWithDb tc t.root tds.blockNr
      let tds := (tds.setTrie owner { t with root := tc.n }).listen events
      let (tds, waiting) ← runRound tds rest
      return (tds, if done then waiting else (owner, tc) :: waiting)

/-- The loop `for len(oldContinuations) > 0`: run a round, and while some
continuations wait, resolve them and go again.  `fuel` bounds the rounds of
resolution; a round that leaves nothing waiting needs none. -/
def resolveRounds : Nat → TrieDbState → List Pending → Except String TrieDbState
  | _, tds, [] => pure tds
  | 0, tds, pending@(_ :: _) => do
      let (tds, waiting) ← tds.runRound pending
      if waiting.isEmpty then pure tds else throw "resolution rounds exhausted"
  | fuel + 1, tds, pending@(_ :: _) => do
      let (tds, waiting) ← tds.runRound pending
      let resolved ← waiting.mapM fun (owner, tc) => do return (owner, ← env.resolveWithDb tc)
      resolveRounds fuel tds resolved

/-- The continuations for the written slots of one address, in key order;
an empty value deletes. -/
def slotContinuations (addrHash : Bytes) (m : AList fun _ : Bytes => Bytes) : List Pending :=
  (sortBytes m.keys).map fun keyHash =>
    let v := (m.lookup keyHash).getD []
    (some addrHash, if v.length > 0 then updateAction keyHash v else deleteAction keyHash)

/-- The first half of `trieRoot`: the storage updates of every address not
deleted in the block, each on its storage trie. -/
def storageContinuations (tds : TrieDbState) :
    List (Σ _ : Bytes, AList fun _ : Bytes => Bytes) → Except String (TrieDbState × List Pending)
  | [] => pure (tds, [])
  | ⟨address, m⟩ :: rest => do
      let addrHash := env.keccak address
      if addrHash ∈ tds.deleted then storageContinuations tds rest
      else
        let (_, tds) ← getStorageTrie env tds address addrHash
        let (tds, pending) ← storageContinuations tds rest
        return (tds, slotContinuations addrHash m ++ pending)

/-- The account record `trieRoot` writes: a deleted account gets the empty
storage root, otherwise the root of its storage trie when one is loaded and
the flush goes forward. -/
def accountForTrie (tds : TrieDbState) (forward : Bool) (addrHash : Bytes) (account : Account) : Account :=
  if addrHash ∈ tds.deleted then { account with root := emptyRoot }
  else
    match tds.storageTries.lookup addrHash with
    | some storageTrie => if forward then { account with root := env.hashTrie storageTrie } else account
    | none => account

/-- The continuation `trieRoot` builds for one account hash, and the state
after it drops the storage trie of an account that is deleted or was
deleted in the block (`PrepareToRemove` fires `leftGeneration` for each of
its nodes). -/
def accountStep (forward : Bool) (tds : TrieDbState) (addrHash : Bytes) : TrieDbState × Pending :=
  let account := (tds.accountUpdates.lookup addrHash).getD none
  let deleteStorageTrie := account.isNone || addrHash ∈ tds.deleted
  let tc := match account with
    | some account => updateAction addrHash (accountForTrie env tds forward addrHash account).encodeRLP
    | none => deleteAction addrHash
  match tds.storageTries.lookup addrHash with
  | some storageTrie =>
      if deleteStorageTrie then
        (({ tds with storageTries := tds.storageTries.erase addrHash } : TrieDbState).listen
          (prepareToRemove storageTrie.root), (none, tc))
      else (tds, (none, tc))
  | none => (tds, (none, tc))

/-- The second half of `trieRoot`: the account updates in hash order. -/
def accountContinuations (forward : Bool) (tds : TrieDbState) :
    List Bytes → TrieDbState × List Pending
  | [] => (tds, [])
  | addrHash :: rest =>
      let (tds, pending) := accountStep env forward tds addrHash
      let (tds, more) := accountContinuations forward tds rest
      (tds, pending :: more)

/-- `trieRoot`: flush the storage updates, then the account updates, and
hash the account trie. -/
def trieRoot (tds : TrieDbState) (forward : Bool) : Except String (Bytes × TrieDbState) :=
  if tds.storageUpdates.entries.isEmpty && tds.accountUpdates.entries.isEmpty then
    pure (env.hashTrie tds.t, tds)
  else do
    let (tds, pending) ← storageContinuations env tds tds.storageUpdates.entries
    let tds ← resolveRounds env env.fuel tds pending
    let (tds, pending) := accountContinuations env forward tds (sortBytes tds.accountUpdates.keys)
    let tds ← resolveRounds env env.fuel tds pending
    return (env.hashTrie tds.t, tds)

/-- `TrieRoot`: `trieRoot` going forward, then the buffer is cleared. -/
def trieRootAndClear (tds : TrieDbState) : Except String (Bytes × TrieDbState) := do
  let (root, tds) ← trieRoot env tds true
  return (root, tds.clearUpdates)

/-! ## Runs -/

/-- The calls that change the trie cache between two prunings. -/
inductive Command where
  | setBlockNr (blockNr : Nat)
  | updateAccountData (address : Bytes) (account : Account)
  | deleteAccount (address : Bytes)
  | writeAccountStorage (address key value : Bytes)
  | readAccountData (address : Bytes)
  | readAccountStorage (address key : Bytes)
  | trieRoot

def exec (tds : TrieDbState) : Command → Except String TrieDbState
  | .setBlockNr blockNr => pure (tds.setBlockNr blockNr)
  | .updateAccountData address account => pure (tds.updateAccountData env address account)
  | .deleteAccount address => pure (tds.deleteAccount env address)
  | .writeAccountStorage address key value => pure (tds.writeAccountStorage env address key value)
  | .readAccountData address => Prod.snd <$> tds.readAccountData env address
  | .readAccountStorage address key => Prod.snd <$> tds.readAccountStorage env address key
  | .trieRoot => Prod.snd <$> tds.trieRootAndClear env

def run (tds : TrieDbState) (commands : List Command) : Except String TrieDbState :=
  commands.foldlM (exec env) tds

end TrieDbState

end TurboGeth.State
