import TurboGeth.State.TrieDbState
import TurboGeth.Rlp.Typed
import TurboGeth.Trie.HashEncoding
import TurboGeth.Lib.ExceptRun

/-!
# The compact encoding of accounts

`accountToEncoding` of `core/state/database.go` writes an account to the flat
`AccountsBucket` in one of three forms: the byte `0xc0` for an account with
nothing in it, the RLP of an `ExtAccount` (nonce and balance) for one with no
code and no storage, and the RLP of the whole account otherwise, its nil code
hash and zero storage root replaced by the empty ones.  `encodingToAccount`
tells the forms apart by length alone: one byte, fewer than 60 bytes, or
more.  `TrieResolver.Walker` of `trie/resolver.go` turns the same stored bytes
into the leaf of the account trie, the RLP of the whole account.

The state's environment takes the two RLP decoders as parameters;
`DecodesRlp` says they are Go's, and the results below hold for every
environment that says so.

For a code hash of 32 bytes, or none, the readers agree with the writer: the
account read back is the one written with its defaults filled in, and the leaf
is its RLP.  Any other non-nil code hash puts the whole account into the
encoding, which can then be shorter than 60 bytes; both readers take it for an
`ExtAccount` and fail.
-/

set_option autoImplicit false

namespace TurboGeth.State

open TurboGeth.Trie TurboGeth.Rlp

/-- `emptyCodeHash`, Keccak-256 of no bytes, as `core/state` and
`trie/resolver.go` both define it. -/
def emptyCodeHash : Bytes :=
  [0xc5, 0xd2, 0x46, 0x01, 0x86, 0xf7, 0x23, 0x3c, 0x92, 0x7e, 0x7d, 0xb2, 0xdc, 0xc7, 0x03, 0xc0,
   0xe5, 0x00, 0xb6, 0x53, 0xca, 0x82, 0x27, 0x3b, 0x7b, 0xfa, 0xd8, 0x04, 0x5d, 0x85, 0xa4, 0x70]

/-- `*Account` as `accountToEncoding` is handed it.  Go's nil code hash is
`none`, which the encoder tells apart from an empty slice; a nil balance is
zero there and in RLP alike.  The nonce is a `uint64`, the root a
`common.Hash`, and the balance is below `2 ^ 256`. -/
structure NilableAccount where
  nonce : Nat
  balance : Nat
  root : Bytes
  codeHash : Option Bytes
  nonceFits : nonce < 2 ^ 64
  balanceFits : balance < 2 ^ 256
  rootLength : root.length = 32

/-- The account `accountToEncoding` encodes in full: a nil code hash becomes
`emptyCodeHash` and a zero root `emptyRoot`. -/
def NilableAccount.withDefaults (account : NilableAccount) : Account where
  nonce := account.nonce
  balance := account.balance
  root := if account.root = zeroHash then emptyRoot else account.root
  codeHash := account.codeHash.getD emptyCodeHash

/-- `rlp.EncodeToBytes` of an `ExtAccount`. -/
def encodeExtAccount (nonce balance : Nat) : Bytes := Rlp.encode (.list [.ofNat nonce, .ofNat balance])

/-- `accountToEncoding`.  The encoder's error is never returned for a balance
that is not negative. -/
def accountToEncoding (account : NilableAccount) : Bytes :=
  if (account.codeHash = none ∨ account.codeHash = some emptyCodeHash) ∧
      (account.root = emptyRoot ∨ account.root = zeroHash) then
    if account.balance = 0 ∧ account.nonce = 0 then [192]
    else encodeExtAccount account.nonce account.balance
  else account.withDefaults.encodeRLP

/-- `rlp.DecodeBytes` into an `ExtAccount`. -/
def decodeExtAccount (enc : Bytes) : Except FieldError (Nat × Nat) := do
  let fields ← structFields enc
  let nonce ← structField fields 0 decodeUint
  let balance ← structField fields 1 decodeBigInt
  structEnd fields 2
  return (nonce, balance)

/-- `rlp.DecodeBytes` into an `Account`. -/
def decodeAccount (enc : Bytes) : Except FieldError Account := do
  let fields ← structFields enc
  let nonce ← structField fields 0 decodeUint
  let balance ← structField fields 1 decodeBigInt
  let root ← structField fields 2 (decodeByteArray 32)
  let codeHash ← structField fields 3 decodeByteSlice
  structEnd fields 4
  return ⟨nonce, balance, root, codeHash⟩

/-- The environment's decoders are Go's, an error read as no account, and its
Keccak-256 hashes no bytes to `emptyCodeHash`. -/
structure DecodesRlp (env : Env) : Prop where
  emptyCode : env.keccak [] = emptyCodeHash
  account : ∀ enc, env.decodeAccount enc = (decodeAccount enc).toOption
  extAccount : ∀ enc, env.decodeExtAccount enc = (decodeExtAccount enc).toOption

/-- The value `TrieResolver.Walker` keeps for a key with a non-empty stored
value `v`: in the account bucket the RLP of the whole account, rebuilt from a
short form with the empty code and storage. -/
def walkerValue (accounts : Bool) (v : Bytes) : Except FieldError Bytes :=
  if accounts then
    if v.length = 1 then .ok (Account.encodeRLP ⟨0, 0, emptyRoot, emptyCodeHash⟩)
    else if v.length < 60 then
      match decodeExtAccount v with
      | .error err => .error err
      | .ok (nonce, balance) => .ok (Account.encodeRLP ⟨nonce, balance, emptyRoot, emptyCodeHash⟩)
    else .ok v
  else .ok v

/-! ## Lengths of the three forms -/

theorem emptyCodeHash_length : emptyCodeHash.length = 32 := rfl

theorem encodeExtAccount_length (nonce balance : Nat) (nonceFits : nonce < 2 ^ 64)
    (balanceFits : balance < 2 ^ 256) :
    2 ≤ (encodeExtAccount nonce balance).length ∧ (encodeExtAccount nonce balance).length < 60 := by
  have nonceBytes : (Rlp.natBytes nonce).length ≤ 8 := Rlp.natBytes_length_le nonce 8 (by simpa using nonceFits)
  have balanceBytes : (Rlp.natBytes balance).length ≤ 32 :=
    Rlp.natBytes_length_le balance 32 (by simpa using balanceFits)
  have nonceEnc := encode_bytes_length_le (Rlp.natBytes nonce) (by omega)
  have balanceEnc := encode_bytes_length_le (Rlp.natBytes balance) (by omega)
  have nonceLive := Rlp.encode_length_pos (.bytes (Rlp.natBytes nonce))
  have balanceLive := Rlp.encode_length_pos (.bytes (Rlp.natBytes balance))
  -- a payload of at most 48 bytes takes a one-byte header
  rw [encodeExtAccount, Rlp.encode_list, Rlp.header_short 192 _ (by simp [Rlp.Item.ofNat]; omega)]
  simp only [Rlp.Item.ofNat, Rlp.encodeAll_cons, Rlp.encodeAll_nil, List.append_nil, List.length_append,
    List.length_singleton]
  omega

theorem encodeRLP_length (account : Account) (rootLength : account.root.length = 32)
    (codeHashLength : account.codeHash.length = 32) : 60 ≤ account.encodeRLP.length := by
  have nonceLive := Rlp.encode_length_pos (.ofNat account.nonce)
  have balanceLive := Rlp.encode_length_pos (.ofNat account.balance)
  have headerLive := List.length_pos_of_ne_nil (Rlp.header_ne_nil 192
    (Rlp.encodeAll [.ofNat account.nonce, .ofNat account.balance, .bytes account.root, .bytes account.codeHash]).length)
  rw [Account.encodeRLP, Rlp.encode_list, List.length_append]
  simp only [Rlp.encodeAll_cons, Rlp.encodeAll_nil, List.append_nil, List.length_append,
    Rlp.encode_hash _ rootLength, Rlp.encode_hash _ codeHashLength, List.length_cons] at headerLive ⊢
  omega

theorem encodeRLP_length_ge (account : Account) :
    2 ≤ account.encodeRLP.length ∧ account.codeHash.length ≤ account.encodeRLP.length := by
  have codeHashEnc := Rlp.length_le_encode_bytes account.codeHash
  have nonceLive := Rlp.encode_length_pos (.ofNat account.nonce)
  have headerLive := List.length_pos_of_ne_nil (Rlp.header_ne_nil 192
    (Rlp.encodeAll [.ofNat account.nonce, .ofNat account.balance, .bytes account.root, .bytes account.codeHash]).length)
  rw [Account.encodeRLP, Rlp.encode_list, List.length_append]
  simp only [Rlp.encodeAll_cons, Rlp.encodeAll_nil, List.append_nil, List.length_append] at headerLive ⊢
  omega

/-! ## Decoding the forms -/

theorem fields_encodable (nonce balance : Nat) (rest : List Bytes) (nonceFits : nonce < 2 ^ 64)
    (balanceFits : balance < 2 ^ 256) (restFits : (Rlp.encodeAll (rest.map .bytes)).length < 2 ^ 32) :
    Rlp.Encodable (.list (.ofNat nonce :: .ofNat balance :: rest.map .bytes)) := by
  have nonceBytes : (Rlp.natBytes nonce).length ≤ 8 := Rlp.natBytes_length_le nonce 8 (by simpa using nonceFits)
  have balanceBytes : (Rlp.natBytes balance).length ≤ 32 :=
    Rlp.natBytes_length_le balance 32 (by simpa using balanceFits)
  have nonceEnc := encode_bytes_length_le (Rlp.natBytes nonce) (by omega)
  have balanceEnc := encode_bytes_length_le (Rlp.natBytes balance) (by omega)
  apply Rlp.encodable_list_bytes (Rlp.natBytes nonce :: Rlp.natBytes balance :: rest)
  simp only [List.map_cons, Rlp.encodeAll_cons, List.length_append]
  omega

theorem decodeExtAccount_encodeExtAccount (nonce balance : Nat) (nonceFits : nonce < 2 ^ 64)
    (balanceFits : balance < 2 ^ 256) : decodeExtAccount (encodeExtAccount nonce balance) = .ok (nonce, balance) := by
  have fits := fields_encodable nonce balance [] nonceFits balanceFits (by simp)
  rw [List.map_nil] at fits
  rw [decodeExtAccount, encodeExtAccount, structFields_encode _ fits]
  simp [structField, structEnd, decodeUint_ofNat nonce nonceFits, decodeBigInt_ofNat]

section Whole

variable (account : Account) (nonceFits : account.nonce < 2 ^ 64) (balanceFits : account.balance < 2 ^ 256)
  (rootLength : account.root.length = 32) (codeHashFits : account.codeHash.length < 2 ^ 24)
include nonceFits balanceFits rootLength codeHashFits

theorem account_fields_encodable :
    Rlp.Encodable (.list [.ofNat account.nonce, .ofNat account.balance, .bytes account.root, .bytes account.codeHash]) := by
  have rootEnc := encode_bytes_length_le account.root (by omega)
  have codeHashEnc := encode_bytes_length_le account.codeHash codeHashFits
  apply fields_encodable account.nonce account.balance [account.root, account.codeHash] nonceFits balanceFits
  simp only [List.map_cons, List.map_nil, Rlp.encodeAll_cons, Rlp.encodeAll_nil, List.append_nil, List.length_append]
  omega

theorem decodeAccount_encodeRLP : decodeAccount account.encodeRLP = .ok account := by
  have fits := account_fields_encodable account nonceFits balanceFits rootLength codeHashFits
  rw [decodeAccount, Account.encodeRLP, structFields_encode _ fits]
  simp [structField, structEnd, decodeUint_ofNat _ nonceFits, decodeBigInt_ofNat, ← rootLength,
    decodeByteArray_bytes, decodeByteSlice]

theorem decodeExtAccount_encodeRLP : decodeExtAccount account.encodeRLP = .error .tooManyElements := by
  have fits := account_fields_encodable account nonceFits balanceFits rootLength codeHashFits
  rw [decodeExtAccount, Account.encodeRLP, structFields_encode _ fits]
  simp [structField, structEnd, decodeUint_ofNat _ nonceFits, decodeBigInt_ofNat]

end Whole

/-! ## The defaults -/

namespace NilableAccount

variable (account : NilableAccount)

theorem withDefaults_root_length : account.withDefaults.root.length = 32 := by
  unfold withDefaults
  split_ifs
  · rfl
  · exact account.rootLength

theorem withDefaults_of_compact (noCode : account.codeHash = none ∨ account.codeHash = some emptyCodeHash)
    (noStorage : account.root = emptyRoot ∨ account.root = zeroHash) :
    account.withDefaults = ⟨account.nonce, account.balance, emptyRoot, emptyCodeHash⟩ := by
  have root : (if account.root = zeroHash then emptyRoot else account.root) = emptyRoot := by
    rcases noStorage with same | zero
    · rw [same, ite_self]
    · rw [if_pos zero]
  have codeHash : account.codeHash.getD emptyCodeHash = emptyCodeHash := by
    rcases noCode with none | empty
    · rw [none, Option.getD_none]
    · rw [empty, Option.getD_some]
  simp only [withDefaults, root, codeHash]

end NilableAccount

theorem accountToEncoding_cases (account : NilableAccount) :
    (accountToEncoding account = [192] ∧ account.withDefaults = ⟨0, 0, emptyRoot, emptyCodeHash⟩) ∨
    (accountToEncoding account = encodeExtAccount account.nonce account.balance ∧
      account.withDefaults = ⟨account.nonce, account.balance, emptyRoot, emptyCodeHash⟩) ∨
    accountToEncoding account = account.withDefaults.encodeRLP := by
  unfold accountToEncoding
  by_cases compact : (account.codeHash = none ∨ account.codeHash = some emptyCodeHash) ∧
      (account.root = emptyRoot ∨ account.root = zeroHash)
  · have defaults := account.withDefaults_of_compact compact.1 compact.2
    rw [if_pos compact]
    by_cases empty : account.balance = 0 ∧ account.nonce = 0
    · rw [if_pos empty, defaults, empty.1, empty.2]
      exact Or.inl ⟨rfl, rfl⟩
    · rw [if_neg empty]
      exact Or.inr (Or.inl ⟨rfl, defaults⟩)
  · rw [if_neg compact]
    exact Or.inr (Or.inr rfl)

/-! ## The resolver's leaf -/

theorem walkerValue_short (v : Bytes) (two : 2 ≤ v.length) (short : v.length < 60) :
    walkerValue true v = match decodeExtAccount v with
      | .error err => .error err
      | .ok (nonce, balance) => .ok (Account.encodeRLP ⟨nonce, balance, emptyRoot, emptyCodeHash⟩) := by
  rw [walkerValue, if_pos rfl, if_neg (by omega), if_pos short]

theorem walkerValue_long (v : Bytes) (long : 60 ≤ v.length) : walkerValue true v = .ok v := by
  rw [walkerValue, if_pos rfl, if_neg (by omega), if_neg (by omega)]

theorem walkerValue_encodeExtAccount (nonce balance : Nat) (nonceFits : nonce < 2 ^ 64)
    (balanceFits : balance < 2 ^ 256) :
    walkerValue true (encodeExtAccount nonce balance) = .ok (Account.encodeRLP ⟨nonce, balance, emptyRoot, emptyCodeHash⟩) := by
  obtain ⟨two, short⟩ := encodeExtAccount_length nonce balance nonceFits balanceFits
  rw [walkerValue_short _ two short, decodeExtAccount_encodeExtAccount nonce balance nonceFits balanceFits]

/-! ## Reading accounts back -/

theorem encodingToAccount_of_two_le (env : Env) (enc : Bytes) (two : 2 ≤ enc.length) :
    TrieDbState.encodingToAccount env (some enc) =
      if enc.length < 60 then (env.decodeExtAccount enc).map fun (nonce, balance) =>
          { nonce := nonce, balance := balance, codeHash := env.keccak [], root := emptyRoot }
      else env.decodeAccount enc := by
  match enc, two with
  | [], two => simp at two
  | [_], two => simp at two
  | _ :: _ :: _, _ => rfl

section Readers

variable (env : Env) (decodes : DecodesRlp env)
include decodes

theorem encodingToAccount_encodeExtAccount (nonce balance : Nat) (nonceFits : nonce < 2 ^ 64)
    (balanceFits : balance < 2 ^ 256) :
    TrieDbState.encodingToAccount env (some (encodeExtAccount nonce balance)) =
      some ⟨nonce, balance, emptyRoot, emptyCodeHash⟩ := by
  obtain ⟨two, short⟩ := encodeExtAccount_length nonce balance nonceFits balanceFits
  rw [encodingToAccount_of_two_le env _ two, if_pos short, decodes.extAccount,
    decodeExtAccount_encodeExtAccount nonce balance nonceFits balanceFits, decodes.emptyCode]
  rfl

section Whole

variable (account : Account) (nonceFits : account.nonce < 2 ^ 64) (balanceFits : account.balance < 2 ^ 256)
  (rootLength : account.root.length = 32)
include nonceFits balanceFits rootLength

theorem encodingToAccount_encodeRLP (codeHashLength : account.codeHash.length = 32) :
    TrieDbState.encodingToAccount env (some account.encodeRLP) = some account := by
  have long := encodeRLP_length account rootLength codeHashLength
  rw [encodingToAccount_of_two_le env _ (by omega), if_neg (by omega), decodes.account,
    decodeAccount_encodeRLP account nonceFits balanceFits rootLength (by omega)]
  rfl

theorem encodingToAccount_encodeRLP_short (short : account.encodeRLP.length < 60) :
    TrieDbState.encodingToAccount env (some account.encodeRLP) = none := by
  obtain ⟨two, codeHashShort⟩ := encodeRLP_length_ge account
  rw [encodingToAccount_of_two_le env _ two, if_pos short, decodes.extAccount,
    decodeExtAccount_encodeRLP account nonceFits balanceFits rootLength (by omega)]
  rfl

end Whole

/-- For a code hash of 32 bytes, or none, the stored form reads back as the
account with its defaults, the resolver rebuilds that account's RLP from it,
and that RLP, the trie leaf, reads back as the same account. -/
theorem accountToEncoding_readers_agree (account : NilableAccount)
    (hashed : ∀ c, account.codeHash = some c → c.length = 32) :
    TrieDbState.encodingToAccount env (some (accountToEncoding account)) = some account.withDefaults ∧
      walkerValue true (accountToEncoding account) = .ok account.withDefaults.encodeRLP ∧
      TrieDbState.encodingToAccount env (some account.withDefaults.encodeRLP) = some account.withDefaults := by
  have codeHashLength : account.withDefaults.codeHash.length = 32 := by
    cases stored : account.codeHash with
    | none => simp [NilableAccount.withDefaults, stored, emptyCodeHash_length]
    | some c => simp [NilableAccount.withDefaults, stored, hashed c stored]
  have whole := encodingToAccount_encodeRLP env decodes account.withDefaults account.nonceFits account.balanceFits
    account.withDefaults_root_length codeHashLength
  suffices stored : TrieDbState.encodingToAccount env (some (accountToEncoding account)) = some account.withDefaults ∧
      walkerValue true (accountToEncoding account) = .ok account.withDefaults.encodeRLP from
    ⟨stored.1, stored.2, whole⟩
  -- the reader and the resolver agree with the writer on each of its three forms
  rcases accountToEncoding_cases account with ⟨empty, defaults⟩ | ⟨ext, defaults⟩ | full
  · rw [empty, defaults]
    constructor
    · simp [TrieDbState.encodingToAccount, decodes.emptyCode]
    · rfl
  · rw [ext, defaults]
    exact ⟨encodingToAccount_encodeExtAccount env decodes _ _ account.nonceFits account.balanceFits,
      walkerValue_encodeExtAccount _ _ account.nonceFits account.balanceFits⟩
  · rw [full]
    exact ⟨whole, walkerValue_long _ (encodeRLP_length _ account.withDefaults_root_length codeHashLength)⟩

/-- A code hash that is neither nil nor `emptyCodeHash` puts the whole account
into the stored form.  When that is shorter than 60 bytes, as it is for a code
hash of a few bytes, every reader takes it for an `ExtAccount` and fails: the
account reads back neither from the flat bucket nor from its trie leaf, and
the resolver cannot rebuild the leaf. -/
theorem accountToEncoding_short_codeHash_unreadable (account : NilableAccount) (codeHash : Bytes)
    (nonNil : account.codeHash = some codeHash) (notEmpty : codeHash ≠ emptyCodeHash)
    (short : account.withDefaults.encodeRLP.length < 60) :
    TrieDbState.encodingToAccount env (some (accountToEncoding account)) = none ∧
      walkerValue true (accountToEncoding account) = .error .tooManyElements ∧
      TrieDbState.encodingToAccount env (some account.withDefaults.encodeRLP) = none := by
  have full : accountToEncoding account = account.withDefaults.encodeRLP := by
    rw [accountToEncoding, if_neg]
    rintro ⟨noCode | emptyCode, -⟩
    · rw [nonNil] at noCode
      cases noCode
    · rw [nonNil] at emptyCode
      exact notEmpty (Option.some.inj emptyCode)
  obtain ⟨two, codeHashShort⟩ := encodeRLP_length_ge account.withDefaults
  have unreadable := encodingToAccount_encodeRLP_short env decodes account.withDefaults account.nonceFits
    account.balanceFits account.withDefaults_root_length short
  rw [full]
  refine ⟨unreadable, ?_, unreadable⟩
  rw [walkerValue_short _ two short, decodeExtAccount_encodeRLP _ account.nonceFits account.balanceFits
    account.withDefaults_root_length (by omega)]

end Readers

theorem accountToEncoding_short_codeHash_unreadable_at_empty :
    TrieDbState.encodingToAccount
        { keccak := fun _ => emptyCodeHash, decodeAccount := fun enc => (decodeAccount enc).toOption,
          decodeExtAccount := fun enc => (decodeExtAccount enc).toOption, accountGet := fun _ => none,
          storageGet := fun _ _ => none, resolveWithDb := fun tc => .ok tc, hashTrie := fun _ => [], fuel := 0 }
        (some (accountToEncoding ⟨0, 0, emptyRoot, some [], by decide, by decide, rfl⟩)) = none ∧
      walkerValue true (accountToEncoding ⟨0, 0, emptyRoot, some [], by decide, by decide, rfl⟩) =
        .error .tooManyElements ∧
      TrieDbState.encodingToAccount
        { keccak := fun _ => emptyCodeHash, decodeAccount := fun enc => (decodeAccount enc).toOption,
          decodeExtAccount := fun enc => (decodeExtAccount enc).toOption, accountGet := fun _ => none,
          storageGet := fun _ _ => none, resolveWithDb := fun tc => .ok tc, hashTrie := fun _ => [], fuel := 0 }
        (some (NilableAccount.withDefaults ⟨0, 0, emptyRoot, some [], by decide, by decide, rfl⟩).encodeRLP) = none :=
  accountToEncoding_short_codeHash_unreadable _ ⟨rfl, fun _ => rfl, fun _ => rfl⟩
    ⟨0, 0, emptyRoot, some [], by decide, by decide, rfl⟩ [] rfl (by decide) (by decide)

end TurboGeth.State
