import TurboGeth.State.TrieDbState
import TurboGeth.State.AccountEncoding
import TurboGeth.Trie.Canonical
import TurboGeth.Lib.MerklePatricia
import TurboGeth.Lib.ExceptRun

/-!
# Flushing the write buffer

The callbacks of `MakeListed` move the counters of `TrieDbState` by one per
call, so the counters after a trie operation are fixed by the list of calls
it made (`listen_eq`).  A flush whose continuations all finish in the first
round is one `RunWithDb` each, with the callbacks they fire.

`trieRoot` skips the storage updates of every address whose hash is in
`deleted`, and writes such an account with the empty storage root.  The
buffer keeps `deleted` for the whole block, while `Finalise` hands it the
changes of each transaction in turn: an account that one transaction
destroys and a later one creates again, with storage, keeps its hash in
`deleted`, and the storage written after the re-creation never reaches the
trie.
-/

set_option autoImplicit false

namespace TurboGeth.Trie

/-- The change a callback makes to `nodeCount`. -/
def GenEvent.weight : GenEvent → Int
  | .join _ => 1
  | .left _ => -1

/-- The change a callback makes to the count of generation `g`. -/
def GenEvent.weightAt (g : Nat) : GenEvent → Int
  | .join gen => if gen = g then 1 else 0
  | .left gen => if gen = g then -1 else 0

end TurboGeth.Trie

namespace TurboGeth.State

open TurboGeth.Trie

namespace TrieDbState

variable (env : Env)

/-! ## The callbacks move the counters -/

@[simp] theorem listen_nil (tds : TrieDbState) : tds.listen [] = tds := rfl

@[simp] theorem listen_append (tds : TrieDbState) (first second : List GenEvent) :
    tds.listen (first ++ second) = (tds.listen first).listen second := by
  simp [listen, List.foldl_append]

theorem hear_eq (tds : TrieDbState) (event : GenEvent) :
    tds.hear event = { tds with
      nodeCount := tds.nodeCount + event.weight
      generationCounts := fun g => tds.generationCounts g + event.weightAt g } := by
  cases event with
  | join gen =>
      simp only [hear, joinGeneration, GenEvent.weight, GenEvent.weightAt]
      congr 1
      funext g
      by_cases same : gen = g
      · subst same
        simp
      · simp [same, Function.update_of_ne (Ne.symm same)]
  | left gen =>
      simp only [hear, leftGeneration, GenEvent.weight, GenEvent.weightAt]
      congr 1
      funext g
      by_cases same : gen = g
      · subst same
        simp
        omega
      · simp [same, Function.update_of_ne (Ne.symm same)]

theorem listen_eq (events : List GenEvent) : ∀ tds : TrieDbState,
    tds.listen events = { tds with
      nodeCount := tds.nodeCount + (events.map GenEvent.weight).sum
      generationCounts := fun g => tds.generationCounts g + (events.map (GenEvent.weightAt g)).sum } := by
  induction events with
  | nil => intro tds; simp
  | cons event rest ih =>
      intro tds
      rw [listen, List.foldl_cons, ← listen, ih, hear_eq]
      simp only [List.map_cons, List.sum_cons]
      congr 1
      · omega
      · funext g
        omega

@[simp] theorem listen_t (events : List GenEvent) (tds : TrieDbState) : (tds.listen events).t = tds.t := by
  rw [listen_eq]

/-! ## Flushing one account -/

theorem runRound_done (tds : TrieDbState) (owner : Option Bytes) (tc : TrieContinuation) {tc' : TrieContinuation}
    {events : List GenEvent} (ran : runWithDb tc (tds.trieOf owner).root tds.blockNr = .ok (true, tc', events)) :
    tds.runRound [(owner, tc)] =
      .ok ((tds.setTrie owner { tds.trieOf owner with root := tc'.n }).listen events, []) := by
  simp [runRound, ran]

theorem resolveRounds_done (fuel : Nat) {tds tds' : TrieDbState} {pending : List Pending} (live : pending ≠ [])
    (ran : tds.runRound pending = .ok (tds', [])) : resolveRounds env fuel tds pending = .ok tds' := by
  obtain ⟨p, rest, rfl⟩ := List.exists_cons_of_ne_nil live
  cases fuel with
  | zero => simp [resolveRounds, ran]
  | succ fuel => simp [resolveRounds, ran]

theorem storageContinuations_skipped (tds : TrieDbState) :
    ∀ entries : List (Σ _ : Bytes, AList fun _ : Bytes => Bytes),
      (∀ entry ∈ entries, env.keccak entry.1 ∈ tds.deleted) → storageContinuations env tds entries = .ok (tds, [])
  | [], _ => rfl
  | ⟨address, m⟩ :: rest, skipped => by
      have deleted : env.keccak address ∈ tds.deleted := skipped _ List.mem_cons_self
      simp only [storageContinuations, if_pos deleted]
      exact storageContinuations_skipped tds rest fun entry mem => skipped entry (List.mem_cons_of_mem _ mem)

/-- With one account update buffered, and beside it only storage updates of
accounts deleted in the block, `TrieRoot` is one `RunWithDb` of the record
`accountForTrie` makes of the account. -/
theorem trieRootAndClear_single (tds : TrieDbState) (addrHash : Bytes) (account : Account)
    (skipped : ∀ entry ∈ tds.storageUpdates.entries, env.keccak entry.1 ∈ tds.deleted)
    (noTries : tds.storageTries = ∅) (written : tds.accountUpdates = (∅ : AList _).insert addrHash (some account))
    {tc : TrieContinuation} {events : List GenEvent}
    (ran : runWithDb (updateAction addrHash (accountForTrie env tds true addrHash account).encodeRLP) tds.t.root
      tds.blockNr = .ok (true, tc, events)) :
    tds.trieRootAndClear env = .ok (env.hashTrie { tds.t with root := tc.n },
      ((tds.setTrie none { tds.t with root := tc.n }).listen events).clearUpdates) := by
  have flushed := resolveRounds_done env env.fuel (List.cons_ne_nil _ []) (runRound_done tds none _ ran)
  have keys : tds.accountUpdates.keys = [addrHash] := by
    rw [written, AList.insert_empty, AList.keys_singleton]
  have found : tds.accountUpdates.lookup addrHash = some (some account) := by
    rw [written, AList.lookup_insert]
  have buffered : (tds.storageUpdates.entries.isEmpty && tds.accountUpdates.entries.isEmpty) = false := by
    simp [written]
  have step : accountStep env true tds addrHash =
      (tds, (none, updateAction addrHash (accountForTrie env tds true addrHash account).encodeRLP)) := by
    simp [accountStep, found, noTries]
  have built : accountContinuations env true tds (sortBytes tds.accountUpdates.keys) =
      (tds, [(none, updateAction addrHash (accountForTrie env tds true addrHash account).encodeRLP)]) := by
    rw [keys]
    simp [sortBytes, accountContinuations, step]
  rw [trieRootAndClear, trieRoot, buffered, if_neg Bool.false_ne_true]
  simp only [storageContinuations_skipped env tds _ skipped, ExceptRun.ok_bind, resolveRounds,
    ExceptRun.pure_eq_ok, built, flushed, listen_t]
  rfl

theorem trieRootAndClear_one_account (tds : TrieDbState) (addrHash : Bytes) (account : Account)
    (noStorage : tds.storageUpdates = ∅) (noneDeleted : tds.deleted = []) (noTries : tds.storageTries = ∅)
    (written : tds.accountUpdates = (∅ : AList _).insert addrHash (some account))
    {tc : TrieContinuation} {events : List GenEvent}
    (ran : runWithDb (updateAction addrHash account.encodeRLP) tds.t.root tds.blockNr = .ok (true, tc, events)) :
    tds.trieRootAndClear env = .ok (env.hashTrie { tds.t with root := tc.n },
      ((tds.setTrie none { tds.t with root := tc.n }).listen events).clearUpdates) := by
  have kept : accountForTrie env tds true addrHash account = account := by
    simp [accountForTrie, noneDeleted, noTries]
  have nothingStored : ∀ entry ∈ tds.storageUpdates.entries, env.keccak entry.1 ∈ tds.deleted := by
    rw [noStorage]
    intro entry stored
    cases stored
  exact trieRootAndClear_single env tds addrHash account nothingStored noTries written (by rwa [kept])

/-! ## An account destroyed and created again in one block -/

/-- The storage root the Yellow Paper gives an account: the trie of its
non-zero slots under their hashes, each value the RLP string of the word
without its leading zeros. -/
def paperStorageRoot (keccak : Bytes → Bytes) (slots : List (Bytes × Bytes)) : Bytes :=
  MerklePatricia.root keccak ((slots.filter fun slot => !(slot.2.dropWhile (· = 0)).isEmpty).map
    fun slot => (keccak slot.1, Rlp.encode (.bytes (slot.2.dropWhile (· = 0)))))

/-- The calls `Finalise` makes on the `TrieStateWriter` when one transaction
destroys an account and a later one of the same block creates it again and
writes a non-zero slot, then `TrieRoot`: the account trie holds the account
with the empty storage root, where the Yellow Paper puts the root of the
slot written. -/
theorem recreated_account_loses_storage (address key value : Bytes) (account : Account) (blockNr : Nat)
    (stored : value.dropWhile (· = 0) ≠ []) :
    ∃ tds paperStorage,
      (newTrieDbState emptyRoot blockNr).run env
          [.deleteAccount address, .writeAccountStorage address key value, .updateAccountData address account,
            .trieRoot] = .ok tds ∧
        tds.t.root.denote (keybytesToHex (env.keccak address)) =
          some ({ account with root := emptyRoot } : Account).encodeRLP ∧
        paperStorageRoot env.keccak [(key, value)] = env.keccak paperStorage ∧
        paperStorage ≠ Rlp.encode (.bytes []) := by
  set addrHash := env.keccak address
  set recreated := (((newTrieDbState emptyRoot blockNr).deleteAccount env address).writeAccountStorage env address
    key value).updateAccountData env address account with recreatedDef
  have empty : recreated.t.root = .nil := by
    simp [recreatedDef, newTrieDbState, Trie.new, updateAccountData, writeAccountStorage, deleteAccount, emptyRoot,
      zeroHash]
  have gone : addrHash ∈ recreated.deleted := by
    simp [recreatedDef, newTrieDbState, updateAccountData, writeAccountStorage, deleteAccount, addrHash]
  -- the only storage update is the one of the destroyed address
  have skipped : ∀ entry ∈ recreated.storageUpdates.entries, env.keccak entry.1 ∈ recreated.deleted := by
    intro entry buffered
    have only : recreated.storageUpdates.entries =
        [⟨address, (∅ : AList fun _ : Bytes => Bytes).insert (env.keccak key) (value.dropWhile (· = 0))⟩] := by
      simp [recreatedDef, newTrieDbState, updateAccountData, writeAccountStorage, deleteAccount]
    rw [only, List.mem_singleton] at buffered
    rw [buffered]
    exact gone
  have written : recreated.accountUpdates = (∅ : AList _).insert addrHash (some account) := by
    simp [recreatedDef, newTrieDbState, updateAccountData, writeAccountStorage, deleteAccount, addrHash]
  have emptied : accountForTrie env recreated true addrHash account = { account with root := emptyRoot } := by
    simp [accountForTrie, gone]
  have flushed := trieRootAndClear_single env recreated addrHash account skipped rfl written
    (by rw [emptied, empty]; exact runWithDb_updateAction_nil _ _ (Account.encodeRLP_ne_nil _) _)
  refine ⟨?final, Rlp.encode (.list [.bytes (MerklePatricia.hexPrefix (MerklePatricia.nibbles (env.keccak key)) true),
    .bytes (Rlp.encode (.bytes (value.dropWhile (· = 0))))]), ?run, ?denote, ?paper, ?differs⟩
  case run =>
    simp only [run, List.foldlM_cons, List.foldlM_nil, exec, ExceptRun.pure_eq_ok, ExceptRun.ok_bind]
    rw [← recreatedDef, flushed]
    rfl
  case denote =>
    simp only [setTrie, listen_t, clearUpdates]
    rw [denote_newShortNode (keybytesToHex_termLast _)]
    simpa using PathMap.prefixed_apply_append (keybytesToHex addrHash) []
      (Node.denote (.valueNode ({ account with root := emptyRoot } : Account).encodeRLP))
  case paper =>
    simp [paperStorageRoot, stored, MerklePatricia.root_single]
  case differs =>
    exact Rlp.encode_list_ne_empty _ (List.cons_ne_nil _ _)

/-- A stand-in for Keccak-256 with its output length: the bytes padded or
cut to 32. -/
def hash32 (b : Bytes) : Bytes := (b ++ List.replicate 32 0).take 32

/-- The environment of the model: Go's account decoders and the trie's
\`hashRoot\`, with \`hash32\` for the hash, and an empty database. -/
def modelEnv : Env where
  keccak := hash32
  decodeAccount enc := (decodeAccount enc).toOption
  decodeExtAccount enc := (decodeExtAccount enc).toOption
  accountGet _ := none
  storageGet _ _ := none
  resolveWithDb := .ok
  hashTrie t := t.hashRoot hash32
  fuel := 0

theorem recreated_account_loses_storage_at_one :
    ([0x01] : Bytes).dropWhile (· = 0) ≠ [] ∧
    ∃ tds paperStorage,
      (newTrieDbState emptyRoot 0).run modelEnv
          [.deleteAccount (List.replicate 19 0 ++ [0x01]),
            .writeAccountStorage (List.replicate 19 0 ++ [0x01]) (List.replicate 31 0 ++ [0x01]) [0x01],
            .updateAccountData (List.replicate 19 0 ++ [0x01]) ⟨1, 0, emptyRoot, emptyCodeHash⟩, .trieRoot] = .ok tds ∧
        tds.t.root.denote (keybytesToHex (hash32 (List.replicate 19 0 ++ [0x01]))) =
          some ({ (⟨1, 0, emptyRoot, emptyCodeHash⟩ : Account) with root := emptyRoot }).encodeRLP ∧
        paperStorageRoot hash32 [(List.replicate 31 0 ++ [0x01], [0x01])] = hash32 paperStorage ∧
        paperStorage ≠ Rlp.encode (.bytes []) :=
  ⟨by decide, recreated_account_loses_storage _ (List.replicate 19 0 ++ [0x01]) (List.replicate 31 0 ++ [0x01]) [0x01]
    ⟨1, 0, emptyRoot, emptyCodeHash⟩ 0 (by decide)⟩

end TrieDbState

end TurboGeth.State
