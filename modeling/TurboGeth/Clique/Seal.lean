import TurboGeth.Clique.Snapshot

/-!
# Admitting and sealing a block

`consensus/clique/clique.go`.  `verifySeal` checks a header against the
snapshot of its parent, `Seal` decides whether the local signer may sign
the next block, and both repeat the recent-signer window that `apply`
enforces.  `apply` lets the oldest recent signer go before it looks;
`verifySeal` compares `seen > number - limit` in `uint64`, which wraps for a
block below `limit`; `Seal` guards that comparison with `number < limit`.
-/

set_option autoImplicit false

namespace TurboGeth.Clique

namespace Snapshot

/-- The recent-signer test of `verifySeal`. -/
def signedRecently (snap : Snapshot) (number : Nat) (signer : Address) : Bool :=
  let limit : UInt64 := UInt64.ofNat (snap.signers.length / 2 + 1)
  snap.recents.entries.any fun recent => recent.2 = signer && UInt64.ofNat recent.1 > UInt64.ofNat number - limit

/-- The recent-signer test of `Seal`. -/
def mustWait (snap : Snapshot) (number : Nat) (signer : Address) : Bool :=
  let limit := snap.signers.length / 2 + 1
  snap.recents.entries.any fun recent => recent.2 = signer && (number < limit || recent.1 > number - limit)

end Snapshot

/-- What `Seal` does: refuse, wait (an empty block of a zero-period chain,
or a signer that signed recently), or sign. -/
inductive SealOutcome where
  | paused
  | waiting
  | signing
  deriving DecidableEq, Repr

section Seal

variable (ecrecover : Header → Option Address)

/-- "Ensure that the difficulty corresponds to the turn-ness of the
signer". -/
def checkDifficulty (snap : Snapshot) (header : Header) (signer : Address) : Except CliqueError Unit := do
  let inturn ← snap.inturn header.number signer
  if inturn && header.difficulty != diffInTurn then throw .errWrongDifficulty
  if !inturn && header.difficulty != diffNoTurn then throw .errWrongDifficulty

/-- `verifySeal` against `snap`, the snapshot of the parent block; with
`fakeDiff` the difficulty is not checked. -/
def verifySeal (snap : Snapshot) (header : Header) (fakeDiff : Bool) : Except CliqueError Unit :=
  if header.number = 0 then .error .errUnknownBlock
  else
    match recoverSigner ecrecover header with
    | .error err => .error err
    | .ok signer =>
      if signer ∉ snap.signers then .error .errUnauthorizedSigner
      else if snap.signedRecently header.number signer then .error .errRecentlySigned
      else if fakeDiff then .ok ()
      else checkDifficulty snap header signer

/-- `Seal` of block `number` with `txCount` transactions by the local
`signer`, against `snap`, the snapshot of the parent block. -/
def sealBlock (snap : Snapshot) (number txCount : Nat) (signer : Address) : Except CliqueError SealOutcome :=
  if number = 0 then .error .errUnknownBlock
  else if snap.config.period = 0 ∧ txCount = 0 then .ok .paused
  else if signer ∉ snap.signers then .error .errUnauthorizedSigner
  else if snap.mustWait number signer then .ok .waiting
  else .ok .signing

theorem checkDifficulty_ne_recent (snap : Snapshot) (header : Header) (signer : Address) :
    checkDifficulty snap header signer ≠ .error .errRecentlySigned := by
  unfold checkDifficulty
  cases turn : snap.inturn header.number signer with
  | error err => simp [Snapshot.inturn_error turn]
  | ok inturn => cases inturn <;> simp <;> split <;> simp

theorem signedRecently_of_verifySeal {snap : Snapshot} {header : Header} {fakeDiff : Bool}
    (refused : verifySeal ecrecover snap header fakeDiff = .error .errRecentlySigned) :
    ∃ signer, ecrecover header = some signer ∧ snap.signedRecently header.number signer = true := by
  cases signed : ecrecover header with
  | none =>
    simp only [verifySeal, recoverSigner, signed] at refused
    split at refused <;> simp at refused
  | some signer =>
    refine ⟨signer, rfl, ?_⟩
    by_contra fresh
    simp only [Bool.not_eq_true] at fresh
    -- past the recent-signer test only the difficulty can be refused
    simp only [verifySeal, recoverSigner, signed, fresh, Bool.false_eq_true, if_false] at refused
    split at refused
    · cases refused
    · split at refused
      · cases refused
      · split at refused
        · cases refused
        · exact checkDifficulty_ne_recent snap header signer refused

theorem wrapped_window (seen number limit : Nat) (before : seen < number) (early : number < limit)
    (small : limit < 2 ^ 63) : ¬ UInt64.ofNat seen > UInt64.ofNat number - UInt64.ofNat limit := by
  rw [gt_iff_lt, UInt64.lt_iff_toNat_lt, UInt64.toNat_sub]
  simp only [UInt64.toNat_ofNat']
  omega

/-- Two blocks in a row by the same signer at the start of a chain of at
least four signers: `apply` refuses the second as recently signed, while the
test of `verifySeal`, whose `number - limit` wraps below `limit`, lets it
through. -/
theorem verifySeal_admits_recent_signer (config : CliqueConfig) (signers : List Address) (distinct : signers.Nodup)
    (four : 4 ≤ signers.length) (fits : signers.length < 2 ^ 63) (signer : Address) (member : signer ∈ signers)
    (first second : Header) (one : first.number = 1) (two : second.number = 2)
    (signedFirst : ecrecover first = some signer) (signedSecond : ecrecover second = some signer)
    (vote : first.nonce = nonceAuthVote ∨ first.nonce = nonceDropVote) (fakeDiff : Bool) :
    ∃ snap, (newSnapshot config 0 signers).apply ecrecover [first] = .ok snap ∧
      snap.apply ecrecover [second] = .error .errRecentlySigned ∧
      verifySeal ecrecover snap second fakeDiff ≠ .error .errRecentlySigned := by
  let genesis := newSnapshot config 0 signers
  have genesisSigners : genesis.signers = signers := newSnapshot_signers config 0 distinct
  have wide : 3 ≤ signers.length / 2 + 1 := by omega
  obtain ⟨authorize, voted⟩ : ∃ authorize, voteOf first.nonce = .ok authorize := by
    rcases vote with auth | drop
    · exact ⟨true, by simp [voteOf, auth]⟩
    · exact ⟨false, by simp [voteOf, drop, nonceAuthVote, nonceDropVote]⟩
  -- the first block: nothing recent yet, no vote to discard, and one vote passes nothing
  let reset := (genesis.checkpointReset first.number).expireRecent first.number
  have resetRecents : reset.recents = ∅ := by
    simp only [reset, Snapshot.expireRecent_of_lt (by simp [genesisSigners]; omega : first.number <
      (genesis.checkpointReset first.number).signers.length / 2 + 1), Snapshot.checkpointReset_recents]
    rfl
  have fresh : reset.recents.entries.any (fun recent => recent.2 = signer) = false := by
    rw [resetRecents]
    rfl
  have applied := Snapshot.applyHeader_of_checks ecrecover signedFirst (genesisSigners ▸ member) fresh voted
  have noVotes : (reset.recordSigner first.number signer).votes = [] := by
    simp only [reset, Snapshot.recordSigner_votes, Snapshot.expireRecent_votes]
    exact Snapshot.checkpointReset_votes_nil rfl first.number
  rw [Snapshot.discardVote_of_votes_nil noVotes] at applied
  let cast := (reset.recordSigner first.number signer).castVote signer first.number first.coinbase authorize
  have castSigners : cast.signers = signers := by simp [cast, reset, genesisSigners]
  have passed : cast.passVote first.number first.coinbase = cast := by
    apply Snapshot.passVote_of_le
    have untallied : (reset.recordSigner first.number signer).tally first.coinbase = none := by
      simp only [reset, Snapshot.recordSigner_tally, Snapshot.expireRecent_tally]
      exact Snapshot.checkpointReset_tally_none rfl first.number
    have once := Snapshot.cast_tally_votes_le (reset.recordSigner first.number signer) first.coinbase authorize
    rw [untallied] at once
    simp only [cast, Snapshot.castVote_tally, castSigners]
    simp only [Option.getD_none] at once
    omega
  rw [passed] at applied
  -- the snapshot after the first block: its signer is the one recent signer
  let snap : Snapshot := { cast with number := cast.number + 1 }
  have snapNumber : snap.number = 1 := by simp [snap, cast, reset, genesis, newSnapshot]
  have snapRecents : snap.recents = (∅ : AList fun _ : Nat => Address).insert first.number signer := by
    simp [snap, cast, resetRecents]
  have snapSigners : snap.signers = signers := castSigners
  refine ⟨snap, ?_, ?_, ?_⟩
  · rw [Snapshot.apply_single ecrecover genesis first (by simp [one, genesis, newSnapshot]), applied]
    rfl
  · have recent : ((snap.checkpointReset second.number).expireRecent second.number).recents.entries.any
        (fun recent => recent.2 = signer) = true := by
      rw [Snapshot.expireRecent_of_lt (by simp [snapSigners, two]; omega), Snapshot.checkpointReset_recents,
        snapRecents]
      simp
    rw [Snapshot.apply_single ecrecover snap second (by rw [snapNumber, two]),
      Snapshot.applyHeader_recent ecrecover signedSecond (snapSigners ▸ member) recent]
    rfl
  · intro refused
    obtain ⟨recovered, signed, caught⟩ := signedRecently_of_verifySeal ecrecover refused
    rw [signedSecond] at signed
    cases signed
    have window := wrapped_window first.number second.number (signers.length / 2 + 1) (by omega) (by omega)
      (by omega)
    simp [Snapshot.signedRecently, snapRecents, snapSigners] at caught
    simp only [gt_iff_lt, UInt64.ofNat_add] at window
    exact window caught

end Seal

/-- Four signers, whose seal is the header's extra data. -/
def fourSigners : List Address := [[1], [2], [3], [4]]

def sealedByExtra (header : Header) : Option Address := some header.extra

def blockBy (number : Nat) (signer : Address) : Header :=
  { number, coinbase := [], nonce := nonceDropVote, difficulty := diffNoTurn, extra := signer }

theorem verifySeal_admits_recent_signer_at_two :
    fourSigners.Nodup ∧ 4 ≤ fourSigners.length ∧ fourSigners.length < 2 ^ 63 ∧ [1] ∈ fourSigners ∧
      (blockBy 1 [1]).number = 1 ∧ (blockBy 2 [1]).number = 2 ∧
      sealedByExtra (blockBy 1 [1]) = some [1] ∧ sealedByExtra (blockBy 2 [1]) = some [1] ∧
      ((blockBy 1 [1]).nonce = nonceAuthVote ∨ (blockBy 1 [1]).nonce = nonceDropVote) ∧
      ∃ snap, (newSnapshot ⟨0, 30000, by decide⟩ 0 fourSigners).apply sealedByExtra [blockBy 1 [1]] = .ok snap ∧
        snap.apply sealedByExtra [blockBy 2 [1]] = .error .errRecentlySigned ∧
        verifySeal sealedByExtra snap (blockBy 2 [1]) false ≠ .error .errRecentlySigned :=
  ⟨by decide, by decide, by norm_num [fourSigners], by decide, rfl, rfl, rfl, rfl, Or.inr rfl,
    verifySeal_admits_recent_signer sealedByExtra ⟨0, 30000, by decide⟩ fourSigners (by decide) (by decide)
      (by norm_num [fourSigners]) [1] (by decide) (blockBy 1 [1]) (blockBy 2 [1]) rfl rfl rfl rfl (Or.inr rfl) false⟩

end TurboGeth.Clique
