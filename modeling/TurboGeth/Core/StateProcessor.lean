import TurboGeth.Core.StateTransition

/-!
# Processing the transactions of a block

`core/state_processor.go` with `core/gaspool.go`: `Process` fills a gas pool
with the block's gas limit and applies the block's messages in order.
`ApplyTransaction` runs one message with `ApplyMessage`, finalises the
state, adds the gas the message used to the block's total, and records both
amounts in the message's receipt.  The first message that returns an error
ends the block.

The accounts of a block stay balanced along the loop: the gas in the pool and
the gas used make up the gas limit, the gas used is the sum of the receipts'
gas, and the receipts count it cumulatively.  So when the EVM never gives back
more gas than it is given, a processed block has used at most its gas limit.
-/

set_option autoImplicit false

namespace TurboGeth.Core

def ReceiptStatusFailed : UInt64 := 0
def ReceiptStatusSuccessful : UInt64 := 1

/-- The gas fields of `types.Receipt`, with its status; the logs and the bloom
are those of `Receipt` in the bloom model. -/
structure GasReceipt where
  Status : UInt64
  CumulativeGasUsed : UInt64
  GasUsed : UInt64
  deriving DecidableEq, Repr

/-- `NewReceipt`: the status and the block's gas so far. -/
def NewReceipt (failed : Bool) (cumulativeGasUsed : UInt64) : GasReceipt :=
  { Status := if failed then ReceiptStatusFailed else ReceiptStatusSuccessful
    CumulativeGasUsed := cumulativeGasUsed
    GasUsed := 0 }

/-- Why `Process` stops: the error a message returns, or a panic. -/
inductive ProcessError where
  | tx (err : TxError)
  | panic (msg : String)
  deriving DecidableEq, Repr

/-- `StateDB.Finalise` as far as the transition's state goes: the refund
counter is cleared with the journal. -/
def StateDB.finalise (s : StateDB) : StateDB := { s with refund := 0 }

/-- `ApplyTransaction`: the receipt, and the block's gas used, the pool and
the state that its pointers leave behind. -/
def applyTransaction (evm : Evm) (gp : UInt64) (state : StateDB) (usedGas : UInt64) (msg : Message) :
    Except ProcessError (GasReceipt × UInt64 × UInt64 × StateDB) :=
  match applyMessage evm msg gp state with
  | .error msg => .error (.panic msg)
  | .ok (res, st) =>
    match res.err with
    | some err => .error (.tx err)
    | none =>
      let usedGas := usedGas + res.usedGas
      let receipt := { NewReceipt res.failed usedGas with GasUsed := res.usedGas }
      .ok (receipt, usedGas, st.gp, st.state.finalise)

theorem applyTransaction_ok {evm : Evm} {gp usedGas gp' usedGas' : UInt64} {state state' : StateDB} {msg : Message}
    {receipt : GasReceipt} (applied : applyTransaction evm gp state usedGas msg = .ok (receipt, usedGas', gp', state')) :
    ∃ res st, applyMessage evm msg gp state = .ok (res, st) ∧ res.err = none ∧
      receipt = { NewReceipt res.failed (usedGas + res.usedGas) with GasUsed := res.usedGas } ∧
      usedGas' = usedGas + res.usedGas ∧ gp' = st.gp ∧ state' = st.state.finalise := by
  unfold applyTransaction at applied
  split at applied
  · cases applied
  · rename_i res st ran
    split at applied
    · cases applied
    · rename_i ok
      cases applied
      exact ⟨res, st, ran, ok, rfl, rfl, rfl, rfl⟩

/-- What the loop of `Process` carries from one transaction to the next. -/
structure BlockRun where
  receipts : List GasReceipt
  usedGas : UInt64
  gp : UInt64
  state : StateDB

/-- One round of the loop of `Process`. -/
def processStep (evm : Evm) (run : BlockRun) (msg : Message) : Except ProcessError BlockRun := do
  let (receipt, usedGas, gp, state) ← applyTransaction evm run.gp run.state run.usedGas msg
  pure { receipts := run.receipts ++ [receipt], usedGas, gp, state }

/-- `Process` up to the engine's `Finalize`: the receipts, the gas used and
the state after the block's messages. -/
def process (evm : Evm) (gasLimit : UInt64) (state : StateDB) (msgs : List Message) :
    Except ProcessError (List GasReceipt × UInt64 × StateDB) := do
  let gp ← (addGas 0 gasLimit).mapError ProcessError.panic
  let run ← msgs.foldlM (processStep evm) { receipts := [], usedGas := 0, gp, state }
  pure (run.receipts, run.usedGas, run.state)

/-! ## The gas accounts of a block -/

/-- The gas accounts of a block part-way through its messages. -/
structure GasAccounts (gasLimit : UInt64) (run : BlockRun) : Prop where
  balanced : run.gp.toNat + run.usedGas.toNat = gasLimit.toNat
  summed : run.usedGas.toNat = (run.receipts.map fun r => r.GasUsed.toNat).sum
  cumulative : run.receipts.map (fun r => r.CumulativeGasUsed.toNat) =
    (run.receipts.map fun r => r.GasUsed.toNat).partialSums.tail

theorem addGas_zero (gasLimit : UInt64) : addGas 0 gasLimit = .ok gasLimit :=
  addGas_eq_ok.mpr ⟨by grind [MaxUint64], by simp⟩

theorem partialSums_tail_concat (amounts : List Nat) (amount : Nat) :
    (amounts ++ [amount]).partialSums.tail = amounts.partialSums.tail ++ [amounts.sum + amount] := by
  rw [List.partialSums_append]
  cases sums : amounts.partialSums with
  | nil => exact absurd sums List.partialSums_ne_nil
  | cons first rest => simp [List.partialSums]

theorem gasAccounts_start (gasLimit : UInt64) (state : StateDB) :
    GasAccounts gasLimit { receipts := [], usedGas := 0, gp := gasLimit, state } :=
  ⟨by simp, by simp, by simp⟩

section Step

variable {evm : Evm} (conserving : evm.Conserving) {gasLimit : UInt64}
include conserving

/-- The step lemma: a message that applies moves the gas it used from the
pool to the block's total, at most the gas it bought, and its receipt
records it. -/
theorem processStep_gasAccounts {run run' : BlockRun} {msg : Message} (accounts : GasAccounts gasLimit run)
    (stepped : processStep evm run msg = .ok run') :
    GasAccounts gasLimit run' ∧ ∃ receipt, run'.receipts = run.receipts ++ [receipt] ∧ receipt.GasUsed ≤ msg.gas := by
  obtain ⟨⟨receipt, usedGas, gp, state⟩, applied, done⟩ := ExceptRun.bind_eq_ok.mp stepped
  dsimp only at done
  rw [ExceptRun.pure_eq_ok, Except.ok.injEq] at done
  subst done
  obtain ⟨res, st, ran, ok, rfl, rfl, rfl, rfl⟩ := applyTransaction_ok applied
  obtain ⟨-, -, -, -, within, pool⟩ := applyMessage_success_gas evm conserving msg run.gp run.state ran ok
  -- the block's total stays below the gas limit, so adding to it does not wrap
  have total : (run.usedGas + res.usedGas).toNat = run.usedGas.toNat + res.usedGas.toNat := by
    rw [UInt64.toNat_add]
    exact Nat.mod_eq_of_lt (by have := gasLimit.toNat_lt; have := accounts.balanced; omega)
  refine ⟨⟨?_, ?_, ?_⟩, _, rfl, within⟩
  · show st.gp.toNat + (run.usedGas + res.usedGas).toNat = gasLimit.toNat
    have := accounts.balanced
    omega
  · rw [List.map_append, List.sum_append, ← accounts.summed, total]
    simp only [List.map_cons, List.map_nil, List.sum_cons, List.sum_nil, Nat.add_zero]
  · simp only [List.map_append, List.map_cons, List.map_nil]
    rw [partialSums_tail_concat, ← accounts.cumulative, ← accounts.summed]
    dsimp only [NewReceipt]
    rw [total]

theorem processLoop_gasAccounts :
    ∀ (msgs : List Message) (run run' : BlockRun), GasAccounts gasLimit run →
      msgs.foldlM (processStep evm) run = .ok run' →
      GasAccounts gasLimit run' ∧
        ∃ added, run'.receipts = run.receipts ++ added ∧ List.Forall₂ (fun r msg => r.GasUsed ≤ msg.gas) added msgs
  | [], run, run', accounts, ran => by
      rw [List.foldlM_nil, ExceptRun.pure_eq_ok, Except.ok.injEq] at ran
      subst ran
      exact ⟨accounts, [], by simp, .nil⟩
  | msg :: rest, run, run', accounts, ran => by
      rw [List.foldlM_cons, ExceptRun.bind_eq_ok] at ran
      obtain ⟨next, stepped, ranRest⟩ := ran
      obtain ⟨accountsNext, receipt, grown, within⟩ := processStep_gasAccounts conserving accounts stepped
      obtain ⟨accountsFinal, added, grownRest, withinRest⟩ :=
        processLoop_gasAccounts rest next run' accountsNext ranRest
      exact ⟨accountsFinal, receipt :: added, by rw [grownRest, grown, List.append_assoc, List.singleton_append],
        .cons within withinRest⟩

end Step

/-- The gas accounts of a processed block.  When the EVM gives back at most
the gas it is given, every block that \`Process\` gets through has one receipt
per message, each for at most the gas its message bought; the gas used is
the sum of the receipts' gas and at most the block's gas limit; and each
receipt's cumulative gas is the gas used by the block up to and including
its message. -/
theorem process_gasAccounts (evm : Evm) (conserving : evm.Conserving) (gasLimit : UInt64) (state : StateDB)
    (msgs : List Message) {receipts : List GasReceipt} {usedGas : UInt64} {state' : StateDB}
    (processed : process evm gasLimit state msgs = .ok (receipts, usedGas, state')) :
    List.Forall₂ (fun receipt msg => receipt.GasUsed ≤ msg.gas) receipts msgs ∧
      usedGas ≤ gasLimit ∧
      usedGas.toNat = (receipts.map fun r => r.GasUsed.toNat).sum ∧
      receipts.map (fun r => r.CumulativeGasUsed.toNat) = (receipts.map fun r => r.GasUsed.toNat).partialSums.tail := by
  unfold process at processed
  -- the pool starts with the gas limit
  obtain ⟨gp, started, processed⟩ := ExceptRun.bind_eq_ok.mp processed
  rw [addGas_zero] at started
  cases started
  obtain ⟨run, ran, finished⟩ := ExceptRun.bind_eq_ok.mp processed
  rw [ExceptRun.pure_eq_ok, Except.ok.injEq, Prod.mk.injEq, Prod.mk.injEq] at finished
  obtain ⟨rfl, rfl, -⟩ := finished
  obtain ⟨accounts, added, grown, within⟩ :=
    processLoop_gasAccounts conserving msgs _ run (gasAccounts_start gasLimit state) ran
  rw [List.nil_append] at grown
  refine ⟨grown ▸ within, ?_, accounts.summed, accounts.cumulative⟩
  have := accounts.balanced
  rw [UInt64.le_iff_toNat_le]
  omega

/-- A plain transfer of 21000 gas at price zero. -/
def transferMessage : Message :=
  { sender := [1], recipient := some [2], gasPrice := 0, gas := 21000, value := 0, nonce := 0, checkNonce := false,
    data := [] }

theorem idleEvm_conserving : idleEvm.Conserving :=
  ⟨fun _ _ _ _ _ _ => UInt64.le_refl _, fun _ _ _ _ _ => UInt64.le_refl _⟩


theorem process_gasAccounts_two_transfers :
    ∃ receipts usedGas state', process idleEvm 42000 emptyState [transferMessage, transferMessage] =
        .ok (receipts, usedGas, state') ∧
      List.Forall₂ (fun receipt msg => receipt.GasUsed ≤ msg.gas) receipts [transferMessage, transferMessage] ∧
      usedGas ≤ 42000 ∧
      usedGas.toNat = (receipts.map fun r => r.GasUsed.toNat).sum ∧
      receipts.map (fun r => r.CumulativeGasUsed.toNat) = (receipts.map fun r => r.GasUsed.toNat).partialSums.tail :=
  ⟨_, _, _, rfl, process_gasAccounts idleEvm idleEvm_conserving 42000 emptyState _ rfl⟩

end TurboGeth.Core
