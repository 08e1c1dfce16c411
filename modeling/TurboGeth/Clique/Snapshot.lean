import TurboGeth.Trie.Encoding
import TurboGeth.Lib.ExceptRun

/-!
# The voting snapshot of clique

`consensus/clique/snapshot.go`.  A snapshot holds the authorized signers,
the signers of the most recent blocks, and the votes cast since the last
checkpoint together with their tally.  `apply` folds headers into it: each
header's signer must be authorized and not among the recent signers, its
earlier vote on the same account is replaced by the header's vote, and a vote
that a majority of the signers has cast adds or drops the account.

Go maps are modelled by what the code does with them: the signers, whose
count and order matter, by a duplicate-free list; the recent signers, which
are searched by value, by an association list; the tally, which is only
looked up, by a function.  Recovering a header's signer is a parameter.  A
Go panic is the error `divideByZero`.
-/

set_option autoImplicit false

namespace TurboGeth.Clique

open TurboGeth.Trie

abbrev Address := Bytes

/-- `params.CliqueConfig`; `New` replaces a zero epoch by `epochLength`. -/
structure CliqueConfig where
  period : Nat
  epoch : Nat
  epoch_pos : 0 < epoch

inductive CliqueError where
  | errUnknownBlock
  | errInvalidVotingChain
  | errUnauthorizedSigner
  | errRecentlySigned
  | errInvalidVote
  | errWrongDifficulty
  -- a signature that cannot be recovered: missing, or refused by `crypto.Ecrecover`
  | errMissingSignature
  -- the runtime panic of `number % 0` in `inturn`
  | divideByZero
  deriving DecidableEq, Repr

/-- The nonces of an authorizing and of a dropping vote, as big-endian
numbers. -/
def nonceAuthVote : UInt64 := 0xffffffffffffffff
def nonceDropVote : UInt64 := 0

def diffInTurn : Nat := 2
def diffNoTurn : Nat := 1

structure Vote where
  signer : Address
  block : Nat
  address : Address
  authorize : Bool
  deriving DecidableEq, Repr

structure Tally where
  authorize : Bool
  votes : Nat
  deriving DecidableEq, Repr

/-- The fields of a header that clique reads; the signature in `extra` is
recovered by `ecrecover`. -/
structure Header where
  number : Nat
  coinbase : Address
  nonce : UInt64
  difficulty : Nat
  extra : Bytes

structure Snapshot where
  config : CliqueConfig
  number : Nat
  signers : List Address
  signers_nodup : signers.Nodup
  recents : AList fun _ : Nat => Address
  votes : List Vote
  tally : Address → Option Tally

/-- `newSnapshot`: the signers without repetition, nothing recent and no
votes. -/
def newSnapshot (config : CliqueConfig) (number : Nat) (signers : List Address) : Snapshot :=
  { config, number, signers := signers.dedup, signers_nodup := List.nodup_dedup signers, recents := ∅,
    votes := [], tally := fun _ => none }

theorem newSnapshot_signers (config : CliqueConfig) (number : Nat) {signers : List Address}
    (distinct : signers.Nodup) : (newSnapshot config number signers).signers = signers :=
  distinct.dedup

namespace Snapshot

def validVote (s : Snapshot) (address : Address) (authorize : Bool) : Bool :=
  let signer := decide (address ∈ s.signers)
  (signer && !authorize) || (!signer && authorize)

/-- `cast`: a vote that makes sense is added to the tally of its account. -/
def cast (s : Snapshot) (address : Address) (authorize : Bool) : Bool × Snapshot :=
  if !s.validVote address authorize then (false, s)
  else
    match s.tally address with
    | some old => (true, { s with tally := Function.update s.tally address (some { old with votes := old.votes + 1 }) })
    | none => (true, { s with tally := Function.update s.tally address (some ⟨authorize, 1⟩) })

/-- `uncast`: a counted vote is taken out of the tally, and the tally of its
account dropped with its last vote. -/
def uncast (s : Snapshot) (address : Address) (authorize : Bool) : Bool × Snapshot :=
  match s.tally address with
  | none => (false, s)
  | some tally =>
    if tally.authorize != authorize then (false, s)
    else if tally.votes > 1 then
      (true, { s with tally := Function.update s.tally address (some { tally with votes := tally.votes - 1 }) })
    else (true, { s with tally := Function.update s.tally address none })

/-- "Remove any votes on checkpoint blocks". -/
def checkpointReset (snap : Snapshot) (number : Nat) : Snapshot :=
  if number % snap.config.epoch = 0 then { snap with votes := [], tally := fun _ => none } else snap

/-- "Delete the oldest signer from the recent list to allow it signing
again"; `apply` does the same again after a signer is dropped. -/
def expireRecent (snap : Snapshot) (number : Nat) : Snapshot :=
  let limit := snap.signers.length / 2 + 1
  if number ≥ limit then { snap with recents := snap.recents.erase (number - limit) } else snap

end Snapshot

/-- The first vote of `signer` on `address`, and the votes without it. -/
def takeVote (signer address : Address) : List Vote → Option Vote × List Vote
  | [] => (none, [])
  | vote :: rest =>
    if vote.signer = signer ∧ vote.address = address then (some vote, rest)
    else ((takeVote signer address rest).1, vote :: (takeVote signer address rest).2)

namespace Snapshot

/-- "Header authorized, discard any previous votes from the signer": only
the first, as one vote is allowed. -/
def discardVote (snap : Snapshot) (signer address : Address) : Snapshot :=
  match takeVote signer address snap.votes with
  | (some vote, votes) => { (snap.uncast vote.address vote.authorize).2 with votes }
  | (none, _) => snap

/-- "Discard any previous votes the deauthorized signer cast": the loop that
steps back after each removal visits every vote once, in order. -/
def discardVotesOf (signer : Address) : Snapshot → List Vote → Snapshot × List Vote
  | snap, [] => (snap, [])
  | snap, vote :: rest =>
    if vote.signer = signer then discardVotesOf signer (snap.uncast vote.address vote.authorize).2 rest
    else ((discardVotesOf signer snap rest).1, vote :: (discardVotesOf signer snap rest).2)

/-- The signers with `address` authorized. -/
def addSigner (snap : Snapshot) (address : Address) : Snapshot :=
  { snap with signers := snap.signers.insert address, signers_nodup := snap.signers_nodup.insert }

/-- The signers with `address` deauthorized. -/
def dropSigner (snap : Snapshot) (address : Address) : Snapshot :=
  { snap with signers := snap.signers.erase address, signers_nodup := snap.signers_nodup.erase address }

/-- "If the vote passed, update the list of signers": a tally above half the
signers adds or drops the account, and every vote on it is discarded. -/
def passVote (snap : Snapshot) (number : Nat) (coinbase : Address) : Snapshot :=
  let tally := (snap.tally coinbase).getD ⟨false, 0⟩
  if tally.votes > snap.signers.length / 2 then
    let snap :=
      if tally.authorize then snap.addSigner coinbase
      else
        let snap := (snap.dropSigner coinbase).expireRecent number
        let discarded := discardVotesOf coinbase snap snap.votes
        { discarded.1 with votes := discarded.2 }
    let snap := { snap with votes := snap.votes.filter fun vote => vote.address ≠ coinbase }
    { snap with tally := Function.update snap.tally coinbase none }
  else snap

end Snapshot

section Apply

variable (ecrecover : Header → Option Address)

/-- `ecrecover`: the signer of a header, when its seal can be recovered. -/
def recoverSigner (header : Header) : Except CliqueError Address :=
  match ecrecover header with
  | some signer => .ok signer
  | none => .error .errMissingSignature

/-- The votes of a header's nonce. -/
def voteOf (nonce : UInt64) : Except CliqueError Bool :=
  if nonce = nonceAuthVote then .ok true
  else if nonce = nonceDropVote then .ok false
  else .error .errInvalidVote

/-- `Recents[number] = signer`. -/
def Snapshot.recordSigner (snap : Snapshot) (number : Nat) (signer : Address) : Snapshot :=
  { snap with recents := snap.recents.insert number signer }

/-- "Tally up the new vote from the signer": a vote that is cast joins the
chronological list. -/
def Snapshot.castVote (snap : Snapshot) (signer : Address) (number : Nat) (coinbase : Address) (authorize : Bool) :
    Snapshot :=
  let cast := snap.cast coinbase authorize
  if cast.1 then { cast.2 with votes := cast.2.votes ++ [⟨signer, number, coinbase, authorize⟩] } else cast.2

/-- One turn of the loop of `apply`. -/
def Snapshot.applyHeader (snap : Snapshot) (header : Header) : Except CliqueError Snapshot := do
  let number := header.number
  let snap := (snap.checkpointReset number).expireRecent number
  let signer ← recoverSigner ecrecover header
  if signer ∉ snap.signers then throw .errUnauthorizedSigner
  if snap.recents.entries.any fun recent => recent.2 = signer then throw .errRecentlySigned
  let snap := (snap.recordSigner number signer).discardVote signer header.coinbase
  let authorize ← voteOf header.nonce
  pure ((snap.castVote signer number header.coinbase authorize).passVote number header.coinbase)

def Snapshot.applyHeaders (snap : Snapshot) : List Header → Except CliqueError Snapshot
  | [] => .ok snap
  | header :: rest => do
    let snap ← snap.applyHeader ecrecover header
    snap.applyHeaders rest

/-- Consecutive numbers along the headers. -/
def chained : List Header → Bool
  | first :: second :: rest => second.number == first.number + 1 && chained (second :: rest)
  | _ => true

/-- `apply`, without the hash of the last header. -/
def Snapshot.apply (s : Snapshot) (headers : List Header) : Except CliqueError Snapshot :=
  match headers with
  | [] => .ok s
  | first :: _ =>
    if !chained headers then .error .errInvalidVotingChain
    else if first.number ≠ s.number + 1 then .error .errInvalidVotingChain
    else do
      let snap ← s.applyHeaders ecrecover headers
      pure { snap with number := snap.number + headers.length }

end Apply

namespace Snapshot

/-! What each step of `apply` leaves alone. -/

@[simp] theorem checkpointReset_signers (snap : Snapshot) (number : Nat) :
    (snap.checkpointReset number).signers = snap.signers := by
  unfold checkpointReset
  split <;> rfl

@[simp] theorem checkpointReset_recents (snap : Snapshot) (number : Nat) :
    (snap.checkpointReset number).recents = snap.recents := by
  unfold checkpointReset
  split <;> rfl

@[simp] theorem checkpointReset_number (snap : Snapshot) (number : Nat) :
    (snap.checkpointReset number).number = snap.number := by
  unfold checkpointReset
  split <;> rfl

@[simp] theorem expireRecent_signers (snap : Snapshot) (number : Nat) :
    (snap.expireRecent number).signers = snap.signers := by
  unfold expireRecent
  dsimp only
  split <;> rfl

@[simp] theorem expireRecent_number (snap : Snapshot) (number : Nat) :
    (snap.expireRecent number).number = snap.number := by
  unfold expireRecent
  dsimp only
  split <;> rfl

theorem expireRecent_of_lt {snap : Snapshot} {number : Nat} (early : number < snap.signers.length / 2 + 1) :
    snap.expireRecent number = snap := by
  simp [expireRecent, Nat.not_le.mpr early]

@[simp] theorem cast_signers (snap : Snapshot) (address : Address) (authorize : Bool) :
    (snap.cast address authorize).2.signers = snap.signers := by
  unfold cast
  split
  · rfl
  · split <;> rfl

@[simp] theorem cast_recents (snap : Snapshot) (address : Address) (authorize : Bool) :
    (snap.cast address authorize).2.recents = snap.recents := by
  unfold cast
  split
  · rfl
  · split <;> rfl

@[simp] theorem cast_number (snap : Snapshot) (address : Address) (authorize : Bool) :
    (snap.cast address authorize).2.number = snap.number := by
  unfold cast
  split
  · rfl
  · split <;> rfl

@[simp] theorem uncast_signers (snap : Snapshot) (address : Address) (authorize : Bool) :
    (snap.uncast address authorize).2.signers = snap.signers := by
  unfold uncast
  split
  · rfl
  · split
    · rfl
    · split <;> rfl

@[simp] theorem uncast_recents (snap : Snapshot) (address : Address) (authorize : Bool) :
    (snap.uncast address authorize).2.recents = snap.recents := by
  unfold uncast
  split
  · rfl
  · split
    · rfl
    · split <;> rfl

@[simp] theorem uncast_number (snap : Snapshot) (address : Address) (authorize : Bool) :
    (snap.uncast address authorize).2.number = snap.number := by
  unfold uncast
  split
  · rfl
  · split
    · rfl
    · split <;> rfl

@[simp] theorem discardVote_signers (snap : Snapshot) (signer address : Address) :
    (snap.discardVote signer address).signers = snap.signers := by
  unfold discardVote
  split <;> simp

@[simp] theorem discardVote_recents (snap : Snapshot) (signer address : Address) :
    (snap.discardVote signer address).recents = snap.recents := by
  unfold discardVote
  split <;> simp

@[simp] theorem discardVote_number (snap : Snapshot) (signer address : Address) :
    (snap.discardVote signer address).number = snap.number := by
  unfold discardVote
  split <;> simp

@[simp] theorem expireRecent_votes (snap : Snapshot) (number : Nat) :
    (snap.expireRecent number).votes = snap.votes := by
  unfold expireRecent
  dsimp only
  split <;> rfl

@[simp] theorem expireRecent_tally (snap : Snapshot) (number : Nat) :
    (snap.expireRecent number).tally = snap.tally := by
  unfold expireRecent
  dsimp only
  split <;> rfl

@[simp] theorem recordSigner_votes (snap : Snapshot) (number : Nat) (signer : Address) :
    (snap.recordSigner number signer).votes = snap.votes := rfl

@[simp] theorem recordSigner_tally (snap : Snapshot) (number : Nat) (signer : Address) :
    (snap.recordSigner number signer).tally = snap.tally := rfl

theorem checkpointReset_votes_nil {snap : Snapshot} (empty : snap.votes = []) (number : Nat) :
    (snap.checkpointReset number).votes = [] := by
  unfold checkpointReset
  split
  · rfl
  · exact empty

theorem checkpointReset_tally_none {snap : Snapshot} {address : Address} (untallied : snap.tally address = none)
    (number : Nat) : (snap.checkpointReset number).tally address = none := by
  unfold checkpointReset
  split
  · rfl
  · exact untallied

theorem discardVote_of_votes_nil {snap : Snapshot} (empty : snap.votes = []) (signer address : Address) :
    snap.discardVote signer address = snap := by
  simp [discardVote, empty, takeVote]

theorem cast_tally_votes_le (snap : Snapshot) (address : Address) (authorize : Bool) :
    (((snap.cast address authorize).2.tally address).getD ⟨false, 0⟩).votes ≤
      ((snap.tally address).getD ⟨false, 0⟩).votes + 1 := by
  unfold cast
  split
  · simp
  · split <;> simp_all

theorem passVote_of_le {snap : Snapshot} {number : Nat} {coinbase : Address}
    (short : ((snap.tally coinbase).getD ⟨false, 0⟩).votes ≤ snap.signers.length / 2) :
    snap.passVote number coinbase = snap := by
  simp [passVote, Nat.not_lt.mpr short]

@[simp] theorem recordSigner_signers (snap : Snapshot) (number : Nat) (signer : Address) :
    (snap.recordSigner number signer).signers = snap.signers := rfl

@[simp] theorem recordSigner_recents (snap : Snapshot) (number : Nat) (signer : Address) :
    (snap.recordSigner number signer).recents = snap.recents.insert number signer := rfl

@[simp] theorem recordSigner_number (snap : Snapshot) (number : Nat) (signer : Address) :
    (snap.recordSigner number signer).number = snap.number := rfl

@[simp] theorem castVote_signers (snap : Snapshot) (signer : Address) (number : Nat) (coinbase : Address)
    (authorize : Bool) : (snap.castVote signer number coinbase authorize).signers = snap.signers := by
  unfold castVote
  dsimp only
  split <;> simp

@[simp] theorem castVote_recents (snap : Snapshot) (signer : Address) (number : Nat) (coinbase : Address)
    (authorize : Bool) : (snap.castVote signer number coinbase authorize).recents = snap.recents := by
  unfold castVote
  dsimp only
  split <;> simp

@[simp] theorem castVote_number (snap : Snapshot) (signer : Address) (number : Nat) (coinbase : Address)
    (authorize : Bool) : (snap.castVote signer number coinbase authorize).number = snap.number := by
  unfold castVote
  dsimp only
  split <;> simp

theorem castVote_tally (snap : Snapshot) (signer : Address) (number : Nat) (coinbase : Address)
    (authorize : Bool) : (snap.castVote signer number coinbase authorize).tally = (snap.cast coinbase authorize).2.tally := by
  unfold castVote
  dsimp only
  split <;> rfl

section Apply

variable (ecrecover : Header → Option Address)

/-- A header whose signer is recovered, authorized and not recent after the
oldest recent signer is let go, and whose nonce is a vote, goes through the
steps of the loop. -/
theorem applyHeader_of_checks {snap : Snapshot} {header : Header} {signer : Address} {authorize : Bool}
    (signed : ecrecover header = some signer) (member : signer ∈ snap.signers)
    (fresh : ((snap.checkpointReset header.number).expireRecent header.number).recents.entries.any
      (fun recent => recent.2 = signer) = false)
    (vote : voteOf header.nonce = .ok authorize) :
    snap.applyHeader ecrecover header =
      .ok ((((((snap.checkpointReset header.number).expireRecent header.number).recordSigner header.number
        signer).discardVote signer header.coinbase).castVote signer header.number header.coinbase
        authorize).passVote header.number header.coinbase) := by
  simp only [applyHeader, recoverSigner, signed, ExceptRun.ok_bind, expireRecent_signers, checkpointReset_signers, member,
    not_true_eq_false, if_false, fresh, Bool.false_eq_true, vote]
  rfl

theorem applyHeader_eq_ok {snap snap' : Snapshot} {header : Header}
    (applied : snap.applyHeader ecrecover header = .ok snap') :
    ∃ signer authorize, ecrecover header = some signer ∧ signer ∈ snap.signers ∧
      ((snap.checkpointReset header.number).expireRecent header.number).recents.entries.any
        (fun recent => recent.2 = signer) = false ∧
      voteOf header.nonce = .ok authorize ∧
      snap' = (((((snap.checkpointReset header.number).expireRecent header.number).recordSigner header.number
        signer).discardVote signer header.coinbase).castVote signer header.number header.coinbase
        authorize).passVote header.number header.coinbase := by
  cases signed : ecrecover header with
  | none => simp [applyHeader, recoverSigner, signed] at applied
  | some signer =>
    by_cases member : signer ∈ snap.signers
    · cases fresh : ((snap.checkpointReset header.number).expireRecent header.number).recents.entries.any
          (fun recent => recent.2 = signer) with
      | true => simp [applyHeader, recoverSigner, signed, member, fresh] at applied
      | false =>
        cases vote : voteOf header.nonce with
        | error err => simp [applyHeader, recoverSigner, signed, member, fresh, vote] at applied
        | ok authorize =>
          rw [applyHeader_of_checks ecrecover signed member fresh vote] at applied
          cases applied
          exact ⟨signer, authorize, rfl, member, fresh, rfl, rfl⟩
    · simp [applyHeader, recoverSigner, signed, member] at applied

theorem apply_single (snap : Snapshot) (header : Header) (next : header.number = snap.number + 1) :
    snap.apply ecrecover [header] =
      (snap.applyHeader ecrecover header).map fun snap => { snap with number := snap.number + 1 } := by
  cases applied : snap.applyHeader ecrecover header with
  | error err => simp [apply, chained, next, applyHeaders, applied, Except.map]
  | ok snap' => simp [apply, chained, next, applyHeaders, applied, Except.map]

theorem applyHeader_recent {snap : Snapshot} {header : Header} {signer : Address}
    (signed : ecrecover header = some signer) (member : signer ∈ snap.signers)
    (recent : ((snap.checkpointReset header.number).expireRecent header.number).recents.entries.any
      (fun recent => recent.2 = signer) = true) :
    snap.applyHeader ecrecover header = .error .errRecentlySigned := by
  simp [applyHeader, recoverSigner, signed, member, recent]

end Apply

/-- `signers()`: the signers in ascending `bytes.Compare` order. -/
def sortedSigners (s : Snapshot) : List Address := s.signers.insertionSort (· ≤ ·)

/-- `inturn`: the signer at the block number's place, counted round the
sorted signers; an unknown signer is at the place past the last. -/
def inturn (s : Snapshot) (number : Nat) (signer : Address) : Except CliqueError Bool :=
  let signers := s.sortedSigners
  let offset := signers.idxOf signer
  if signers.length = 0 then .error .divideByZero else .ok (number % signers.length = offset)

theorem inturn_error {s : Snapshot} {number : Nat} {signer : Address} {err : CliqueError}
    (failed : s.inturn number signer = .error err) : err = .divideByZero := by
  unfold inturn at failed
  dsimp only at failed
  split at failed
  · cases failed
    rfl
  · cases failed

end Snapshot

/-- `CalcDifficulty`: the difficulty of the snapshot's next block signed by
`signer`. -/
def calcDifficulty (snap : Snapshot) (signer : Address) : Except CliqueError Nat := do
  let inturn ← snap.inturn (snap.number + 1) signer
  pure (if inturn then diffInTurn else diffNoTurn)

end TurboGeth.Clique
