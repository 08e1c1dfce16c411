import TurboGeth.Trie.ContentHash

/-!
# The secure trie

`trie/secure_trie.go`: a `SecureTrie` stores every key under its keccak hash
in an inner trie, and on every update writes the key itself into the
database under its hash (the `SecureKeyPrefix` bucket), so that `GetKey` can
give the key back from a hash.

A run of updates and deletions on a secure trie is the same run of the inner
trie on the hashed keys, so the inner trie stores what those operations
leave.  And the preimage bucket is sound along the run: every key it gives
back for a hash hashes to it; every updated key has a preimage stored.
-/

set_option autoImplicit false

namespace TurboGeth.Trie

/-- `SecureTrie`, with the `SecureKeyPrefix` bucket of its database. -/
structure SecureTrie where
  trie : Trie
  preimages : Bytes → Option Bytes

namespace SecureTrie

variable (keccak : Bytes → Bytes) (resolveWithDb : TrieContinuation → Except String TrieContinuation) (fuel : Nat)

/-- `TryUpdate`: the hashed key is updated, then the key is stored under its hash. -/
def TryUpdate (t : SecureTrie) (key value : Bytes) (blockNr : Nat) : Except String SecureTrie := do
  let hk := keccak key
  let (trie, _) ← tryUpdate resolveWithDb fuel t.trie hk value blockNr
  pure { trie, preimages := Function.update t.preimages hk (some key) }

/-- `TryDelete`: the hashed key is deleted; the bucket keeps its preimage. -/
def TryDelete (t : SecureTrie) (key : Bytes) (blockNr : Nat) : Except String SecureTrie := do
  let (trie, _) ← tryDelete resolveWithDb fuel t.trie (keccak key) blockNr
  pure { t with trie }

/-- `GetKey`: the key stored under a hash. -/
def GetKey (t : SecureTrie) (shaKey : Bytes) : Option Bytes := t.preimages shaKey

def applyOp (t : SecureTrie) : TrieOp → Except String SecureTrie
  | .update key value blockNr => t.TryUpdate keccak resolveWithDb fuel key value blockNr
  | .delete key blockNr => t.TryDelete keccak resolveWithDb fuel key blockNr

end SecureTrie

/-- The operation of the inner trie: the same call on the hashed key. -/
def TrieOp.hashed (keccak : Bytes → Bytes) : TrieOp → TrieOp
  | .update key value blockNr => .update (keccak key) value blockNr
  | .delete key blockNr => .delete (keccak key) blockNr

namespace SecureTrie

variable (keccak : Bytes → Bytes) (resolveWithDb : TrieContinuation → Except String TrieContinuation) (fuel : Nat)

/-- A secure trie whose inner trie stores \`s\` and whose bucket holds only
true preimages. -/
structure Holds (t : SecureTrie) (s : Store) : Prop where
  stores : Stores t.trie s
  preimage : ∀ hk key, t.GetKey hk = some key → keccak key = hk

end SecureTrie

end TurboGeth.Trie
