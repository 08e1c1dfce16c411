import TurboGeth.Trie.Encoding
import TurboGeth.Lib.ExceptRun

/-!
# Applying a message

`core/state_transition.go`: a message buys its gas from the block's gas pool
and the sender's balance, pays the intrinsic gas, runs in the EVM and gets
back the gas it did not use, together with a refund of at most half of what
it used.  The coinbase is paid for the gas used.

Gas amounts are the code's `uint64` values; balances are `big.Int`s.  The EVM
is a parameter: its `Call` and `Create` take the state, the gas and the value
and give back the returned bytes, the gas left, an error and the state.  A
Go panic is the `Except String` failure of the whole run.
-/

set_option autoImplicit false

namespace TurboGeth.Core

open TurboGeth.Trie

abbrev Address := Bytes

def TxGas : UInt64 := 21000
def TxGasContractCreation : UInt64 := 53000
def TxDataZeroGas : UInt64 := 4
def TxDataNonZeroGas : UInt64 := 68
def MaxUint64 : UInt64 := 18446744073709551615

/-- The errors of `core/vm/errors.go` that `TransitionDb` looks at; every
other error of the interpreter only marks the message as failed. -/
inductive VmError where
  | errOutOfGas
  | errInsufficientBalance
  | errExecution
  deriving DecidableEq, Repr

inductive TxError where
  | errNonceTooHigh
  | errNonceTooLow
  | errInsufficientBalanceForGas
  | errGasLimitReached
  | vm (err : VmError)
  deriving DecidableEq, Repr

/-- `Message`; `sender` is `From()`, and `recipient` is `To()`, `none` for a
contract creation. -/
structure Message where
  sender : Address
  recipient : Option Address
  gasPrice : Nat
  gas : UInt64
  value : Nat
  nonce : UInt64
  checkNonce : Bool
  data : Bytes

/-- The part of `vm.StateDB` that a state transition reads and writes. -/
structure StateDB where
  balance : Address → Int
  nonce : Address → UInt64
  refund : UInt64

namespace StateDB

def getBalance (s : StateDB) (addr : Address) : Int := s.balance addr

def addBalance (s : StateDB) (addr : Address) (amount : Int) : StateDB :=
  { s with balance := Function.update s.balance addr (s.balance addr + amount) }

def subBalance (s : StateDB) (addr : Address) (amount : Int) : StateDB :=
  { s with balance := Function.update s.balance addr (s.balance addr - amount) }

def getNonce (s : StateDB) (addr : Address) : UInt64 := s.nonce addr

def setNonce (s : StateDB) (addr : Address) (nonce : UInt64) : StateDB :=
  { s with nonce := Function.update s.nonce addr nonce }

def getRefund (s : StateDB) : UInt64 := s.refund

@[simp] theorem getBalance_addBalance (s : StateDB) (addr other : Address) (amount : Int) :
    (s.addBalance addr amount).getBalance other =
      if other = addr then s.getBalance other + amount else s.getBalance other := by
  by_cases same : other = addr
  · subst same
    simp [addBalance, getBalance]
  · simp [addBalance, getBalance, same]

@[simp] theorem getBalance_subBalance (s : StateDB) (addr other : Address) (amount : Int) :
    (s.subBalance addr amount).getBalance other =
      if other = addr then s.getBalance other - amount else s.getBalance other := by
  by_cases same : other = addr
  · subst same
    simp [subBalance, getBalance]
  · simp [subBalance, getBalance, same]

@[simp] theorem getNonce_subBalance (s : StateDB) (addr : Address) (amount : Int) :
    (s.subBalance addr amount).getNonce = s.getNonce := rfl

@[simp] theorem getRefund_addBalance (s : StateDB) (addr : Address) (amount : Int) :
    (s.addBalance addr amount).getRefund = s.getRefund := rfl

end StateDB

/-- The EVM of a transaction: its coinbase, whether the block is past
Homestead, and the two entry points a message uses. -/
structure Evm where
  coinbase : Address
  homestead : Bool
  /-- `EVM.Call(caller, addr, input, gas, value)`: returned bytes, gas left, error, state -/
  call : StateDB → Address → Address → Bytes → UInt64 → Nat → Bytes × UInt64 × Option VmError × StateDB
  /-- `EVM.Create(caller, code, gas, value)`, without the new contract's address -/
  create : StateDB → Address → Bytes → UInt64 → Nat → Bytes × UInt64 × Option VmError × StateDB

/-- The EVM gives back at most the gas it is given. -/
def Evm.Conserving (evm : Evm) : Prop :=
  (∀ s caller addr input gas value, (evm.call s caller addr input gas value).2.1 ≤ gas) ∧
    ∀ s caller code gas value, (evm.create s caller code gas value).2.1 ≤ gas

/-- `IntrinsicGas`: the base price of a message and of its data, each step
checked against `uint64` overflow. -/
def intrinsicGas (data : Bytes) (contractCreation homestead : Bool) : Except VmError UInt64 :=
  let gas : UInt64 := if contractCreation && homestead then TxGasContractCreation else TxGas
  if data.length > 0 then
    let nz : UInt64 := UInt64.ofNat (data.countP (· != 0))
    if (MaxUint64 - gas) / TxDataNonZeroGas < nz then .error .errOutOfGas
    else
      let gas := gas + nz * TxDataNonZeroGas
      let z : UInt64 := UInt64.ofNat data.length - nz
      if (MaxUint64 - gas) / TxDataZeroGas < z then .error .errOutOfGas
      else .ok (gas + z * TxDataZeroGas)
  else .ok gas

/-- `GasPool.SubGas`. -/
def subGas (gp amount : UInt64) : Except TxError UInt64 :=
  if gp < amount then .error .errGasLimitReached else .ok (gp - amount)

/-- `GasPool.AddGas`, which panics past `uint64`. -/
def addGas (gp amount : UInt64) : Except String UInt64 :=
  if gp > MaxUint64 - amount then .error "gas pool pushed above uint64" else .ok (gp + amount)

theorem addGas_eq_ok {gp amount gp' : UInt64} : addGas gp amount = .ok gp' ↔ gp ≤ MaxUint64 - amount ∧ gp' = gp + amount := by
  unfold addGas
  by_cases pushed : gp > MaxUint64 - amount
  · simp [pushed]
  · simp [pushed, UInt64.not_lt.mp pushed, eq_comm]

/-- The fields of `StateTransition` that change; `gasPrice`, `value` and
`data` are the message's. -/
structure StateTransition where
  gp : UInt64
  msg : Message
  gas : UInt64
  initialGas : UInt64
  state : StateDB

def newStateTransition (msg : Message) (gp : UInt64) (state : StateDB) : StateTransition :=
  { gp, msg, gas := 0, initialGas := 0, state }

/-- What `TransitionDb` returns: `ret`, `usedGas`, `failed` and `err`. -/
structure ExecutionResult where
  ret : Bytes
  usedGas : UInt64
  failed : Bool
  err : Option TxError

namespace StateTransition

/-- `to()`: the zero address for a contract creation. -/
def recipient (st : StateTransition) : Address := st.msg.recipient.getD (List.replicate 20 0)

def useGas (st : StateTransition) (amount : UInt64) : Except TxError StateTransition :=
  if st.gas < amount then .error (.vm .errOutOfGas) else .ok { st with gas := st.gas - amount }

/-- `buyGas`: the gas is taken from the pool and paid for by the sender. -/
def buyGas (st : StateTransition) : Except TxError StateTransition := do
  let mgval : Int := st.msg.gas.toNat * st.msg.gasPrice
  if st.state.getBalance st.msg.sender < mgval then throw .errInsufficientBalanceForGas
  let gp ← subGas st.gp st.msg.gas
  pure { st with
    gp := gp
    gas := st.gas + st.msg.gas
    initialGas := st.msg.gas
    state := st.state.subBalance st.msg.sender mgval }

def preCheck (st : StateTransition) : Except TxError StateTransition :=
  if st.msg.checkNonce then
    let nonce := st.state.getNonce st.msg.sender
    if nonce < st.msg.nonce then .error .errNonceTooHigh
    else if nonce > st.msg.nonce then .error .errNonceTooLow
    else st.buyGas
  else st.buyGas

def gasUsed (st : StateTransition) : UInt64 := st.initialGas - st.gas

/-- `refundGas`: the refund counter, capped at half the gas used, is added to
the gas left; the sender is paid for it and the pool gets it back. -/
def refundGas (st : StateTransition) : Except String StateTransition := do
  let refund := if st.gasUsed / 2 > st.state.getRefund then st.state.getRefund else st.gasUsed / 2
  let st := { st with gas := st.gas + refund }
  let remaining : Int := st.gas.toNat * st.msg.gasPrice
  let state := st.state.addBalance st.msg.sender remaining
  let gp ← addGas st.gp st.gas
  pure { st with state := state, gp := gp }

/-- The EVM run of `TransitionDb`: a creation, or a call after the sender's
nonce is bumped. -/
def execute (evm : Evm) (st : StateTransition) : Bytes × UInt64 × Option VmError × StateDB :=
  if st.msg.recipient.isNone then evm.create st.state st.msg.sender st.msg.data st.gas st.msg.value
  else
    let state := st.state.setNonce st.msg.sender (st.state.getNonce st.msg.sender + 1)
    evm.call state st.msg.sender st.recipient st.msg.data st.gas st.msg.value

/-- `TransitionDb`.  Every early return hands back the transition as it
stands, so that the pool and the balance that `buyGas` took stay taken. -/
def transitionDb (evm : Evm) (st : StateTransition) : Except String (ExecutionResult × StateTransition) :=
  match st.preCheck with
  | .error err => .ok (⟨[], 0, false, some err⟩, st)
  | .ok st =>
    match intrinsicGas st.msg.data st.msg.recipient.isNone evm.homestead with
    | .error err => .ok (⟨[], 0, false, some (.vm err)⟩, st)
    | .ok gas =>
      match st.useGas gas with
      | .error err => .ok (⟨[], 0, false, some err⟩, st)
      | .ok st =>
        let (ret, leftOverGas, vmerr, state) := st.execute evm
        let st := { st with gas := leftOverGas, state }
        if vmerr = some .errInsufficientBalance then
          .ok (⟨[], 0, false, some (.vm .errInsufficientBalance)⟩, st)
        else do
          let st ← st.refundGas
          let state := st.state.addBalance evm.coinbase (st.gasUsed.toNat * st.msg.gasPrice)
          pure (⟨ret, st.gasUsed, vmerr.isSome, none⟩, { st with state })

theorem useGas_of_lt {st : StateTransition} {amount : UInt64} (short : st.gas < amount) :
    st.useGas amount = .error (.vm .errOutOfGas) := by
  simp [useGas, short]

theorem buyGas_eq_ok {st st' : StateTransition} :
    st.buyGas = .ok st' ↔
      (st.msg.gas.toNat * st.msg.gasPrice : Int) ≤ st.state.getBalance st.msg.sender ∧
        st.msg.gas ≤ st.gp ∧
        st' = { st with
          gp := st.gp - st.msg.gas
          gas := st.gas + st.msg.gas
          initialGas := st.msg.gas
          state := st.state.subBalance st.msg.sender (st.msg.gas.toNat * st.msg.gasPrice) } := by
  unfold buyGas subGas
  by_cases poor : st.state.getBalance st.msg.sender < (st.msg.gas.toNat * st.msg.gasPrice : Int)
  · simp [poor]
  · by_cases empty : st.gp < st.msg.gas
    · simp [poor, empty]
    · simp [poor, empty, Int.not_lt.mp poor, UInt64.not_lt.mp empty, eq_comm]

theorem preCheck_of_nonce (st : StateTransition)
    (nonceOk : st.msg.checkNonce = true → st.state.getNonce st.msg.sender = st.msg.nonce) :
    st.preCheck = st.buyGas := by
  unfold preCheck
  split
  · rename_i check
    simp [nonceOk check]
  · rfl

theorem buyGas_of_preCheck {st st' : StateTransition} (checked : st.preCheck = .ok st') : st.buyGas = .ok st' := by
  unfold preCheck at checked
  split at checked
  · dsimp only at checked
    split at checked
    · cases checked
    · split at checked
      · cases checked
      · exact checked
  · exact checked

theorem useGas_eq_ok {st st' : StateTransition} {amount : UInt64} :
    st.useGas amount = .ok st' ↔ amount ≤ st.gas ∧ st' = { st with gas := st.gas - amount } := by
  unfold useGas
  by_cases short : st.gas < amount
  · simp [short]
  · simp [short, UInt64.not_lt.mp short, eq_comm]

end StateTransition

theorem intrinsicGas_error {data : Bytes} {contractCreation homestead : Bool} {err : VmError}
    (failed : intrinsicGas data contractCreation homestead = .error err) : err = .errOutOfGas := by
  simp only [intrinsicGas] at failed
  split_ifs at failed <;> cases failed <;> rfl

namespace StateTransition

variable (evm : Evm)

theorem transitionDb_intrinsic_short {st st₁ : StateTransition} (bought : st.preCheck = .ok st₁)
    (short : ∀ gas, intrinsicGas st₁.msg.data st₁.msg.recipient.isNone evm.homestead = .ok gas → st₁.gas < gas) :
    st.transitionDb evm = .ok (⟨[], 0, false, some (.vm .errOutOfGas)⟩, st₁) := by
  unfold transitionDb
  rw [bought]
  dsimp only
  cases intrinsic : intrinsicGas st₁.msg.data st₁.msg.recipient.isNone evm.homestead with
  | error err =>
    rw [intrinsicGas_error intrinsic]
  | ok gas => simp [useGas_of_lt (short gas intrinsic)]

theorem refundGas_eq_ok {st st' : StateTransition} (refunded : st.refundGas = .ok st') :
    st'.gas = st.gas + min (st.gasUsed / 2) st.state.getRefund ∧
      st'.msg = st.msg ∧ st'.initialGas = st.initialGas ∧
      st'.gp = st.gp + st'.gas ∧ st.gp ≤ MaxUint64 - st'.gas ∧
      st'.state = st.state.addBalance st.msg.sender (st'.gas.toNat * st.msg.gasPrice) := by
  unfold refundGas at refunded
  -- the code's cap, written as an `if`, is the minimum
  have capped : (if st.gasUsed / 2 > st.state.getRefund then st.state.getRefund else st.gasUsed / 2) =
      min (st.gasUsed / 2) st.state.getRefund := by
    rw [UInt64.min_def]
    split_ifs <;> grind
  rw [capped] at refunded
  generalize min (st.gasUsed / 2) st.state.getRefund = refund at refunded ⊢
  dsimp only at refunded
  cases added : addGas st.gp (st.gas + refund) with
  | error msg =>
    rw [added] at refunded
    cases refunded
  | ok gp =>
    rw [added] at refunded
    cases refunded
    obtain ⟨fits, rfl⟩ := addGas_eq_ok.mp added
    exact ⟨rfl, rfl, rfl, rfl, fits, rfl⟩

/-- A run that reports no error went through every step: the gas was
bought, the intrinsic gas paid, the EVM ran, the refund was made and the
coinbase was paid for the gas used. -/
theorem transitionDb_eq_ok_of_success {st st' : StateTransition} {res : ExecutionResult}
    (ran : st.transitionDb evm = .ok (res, st')) (ok : res.err = none) :
    ∃ st₁ gas st₂ st₃, st.preCheck = .ok st₁ ∧
      intrinsicGas st₁.msg.data st₁.msg.recipient.isNone evm.homestead = .ok gas ∧ st₁.useGas gas = .ok st₂ ∧
      ({ st₂ with gas := (st₂.execute evm).2.1, state := (st₂.execute evm).2.2.2 } : StateTransition).refundGas =
        .ok st₃ ∧
      res.usedGas = st₃.gasUsed ∧
      st' = { st₃ with state := st₃.state.addBalance evm.coinbase (st₃.gasUsed.toNat * st₃.msg.gasPrice) } := by
  unfold transitionDb at ran
  cases pre : st.preCheck with
  | error err =>
    rw [pre] at ran
    cases ran
    cases ok
  | ok st₁ =>
    rw [pre] at ran
    dsimp only at ran
    cases intrinsic : intrinsicGas st₁.msg.data st₁.msg.recipient.isNone evm.homestead with
    | error err =>
      rw [intrinsic] at ran
      cases ran
      cases ok
    | ok gas =>
      rw [intrinsic] at ran
      dsimp only at ran
      cases used : st₁.useGas gas with
      | error err =>
        rw [used] at ran
        cases ran
        cases ok
      | ok st₂ =>
        rw [used] at ran
        dsimp only at ran
        split at ran
        · cases ran
          cases ok
        · cases refunded : ({ st₂ with gas := (st₂.execute evm).2.1, state := (st₂.execute evm).2.2.2 } :
              StateTransition).refundGas with
          | error msg =>
            rw [refunded] at ran
            cases ran
          | ok st₃ =>
            rw [refunded] at ran
            cases ran
            exact ⟨st₁, gas, st₂, st₃, rfl, intrinsic, used, refunded, rfl, rfl⟩

theorem execute_le {evm : Evm} (conserving : evm.Conserving) (st : StateTransition) :
    (st.execute evm).2.1 ≤ st.gas := by
  unfold execute
  split
  · exact conserving.2 _ _ _ _ _
  · exact conserving.1 _ _ _ _ _ _

end StateTransition

/-- `ApplyMessage`, with the pool and the state after it. -/
def applyMessage (evm : Evm) (msg : Message) (gp : UInt64) (state : StateDB) :
    Except String (ExecutionResult × StateTransition) :=
  (newStateTransition msg gp state).transitionDb evm

theorem gasLeft_add_refund_le (bought leftOver refund : UInt64) (within : leftOver ≤ bought)
    (capped : refund ≤ (bought - leftOver) / 2) : leftOver.toNat + refund.toNat ≤ bought.toNat := by
  have rest : (bought - leftOver).toNat = bought.toNat - leftOver.toNat := UInt64.toNat_sub_of_le _ _ within
  have half : ((bought - leftOver) / 2).toNat = (bought - leftOver).toNat / 2 := UInt64.toNat_div _ _
  have cappedNat := UInt64.le_iff_toNat_le.mp capped
  have withinNat := UInt64.le_iff_toNat_le.mp within
  omega

/-- The gas of a successful message, when the EVM gives back at most what it
is given: the message uses at most the gas it bought, what it used is the gas
bought less the gas the EVM left and the refund, the refund is the refund
counter capped at half of what the EVM used, and the pool is short of
exactly what it used. -/
theorem applyMessage_success_gas (evm : Evm) (conserving : evm.Conserving) (msg : Message) (gp : UInt64)
    (state : StateDB) {res : ExecutionResult} {st : StateTransition}
    (ran : applyMessage evm msg gp state = .ok (res, st)) (ok : res.err = none) :
    ∃ leftOver counter : UInt64, leftOver ≤ msg.gas ∧
      res.usedGas = msg.gas - (leftOver + min ((msg.gas - leftOver) / 2) counter) ∧ res.usedGas ≤ msg.gas ∧
      st.gp.toNat + res.usedGas.toNat = gp.toNat := by
  obtain ⟨st₁, gas, st₂, st₃, checked, -, used, refunded, usedGas, rfl⟩ :=
    StateTransition.transitionDb_eq_ok_of_success evm ran ok
  have leftOverLe := StateTransition.execute_le conserving st₂
  obtain ⟨gas₃, -, initial₃, gp₃, -, -⟩ := StateTransition.refundGas_eq_ok refunded
  generalize (st₂.execute evm) = outcome at leftOverLe gas₃ initial₃ gp₃
  obtain ⟨ret, leftOver, vmerr, after⟩ := outcome
  obtain ⟨-, inPool, rfl⟩ := StateTransition.buyGas_eq_ok.mp (StateTransition.buyGas_of_preCheck checked)
  obtain ⟨enough, rfl⟩ := StateTransition.useGas_eq_ok.mp used
  simp only [newStateTransition, StateTransition.gasUsed] at *
  generalize refundDef : min ((msg.gas - leftOver) / 2) after.getRefund = refund at gas₃
  have capped : refund ≤ (msg.gas - leftOver) / 2 := by
    rw [← refundDef, UInt64.min_def]
    split
    · exact UInt64.le_refl _
    · grind
  have within : leftOver ≤ msg.gas := by grind
  -- what the message hands back fits in the gas it bought, so nothing below wraps
  have handedBack := gasLeft_add_refund_le msg.gas leftOver refund within capped
  have sumNat : (leftOver + refund).toNat = leftOver.toNat + refund.toNat := by
    rw [UInt64.toNat_add]
    have bound := msg.gas.toNat_lt
    exact Nat.mod_eq_of_lt (by omega)
  have usedNat : res.usedGas.toNat = msg.gas.toNat - (leftOver.toNat + refund.toNat) := by
    rw [usedGas, initial₃, gas₃, UInt64.toNat_sub_of_le _ _ (UInt64.le_iff_toNat_le.mpr (by omega)), sumNat]
  have paidNat : (gp - msg.gas).toNat = gp.toNat - msg.gas.toNat := UInt64.toNat_sub_of_le _ _ inPool
  have poolNat : st₃.gp.toNat = gp.toNat - msg.gas.toNat + (leftOver.toNat + refund.toNat) := by
    have inPoolNat := UInt64.le_iff_toNat_le.mp inPool
    have bound := gp.toNat_lt
    rw [gp₃, gas₃, UInt64.toNat_add, sumNat, paidNat]
    exact Nat.mod_eq_of_lt (by omega)
  refine ⟨leftOver, after.getRefund, within, by rw [usedGas, initial₃, gas₃, refundDef], ?_, ?_⟩
  · rw [UInt64.le_iff_toNat_le, usedNat]
    omega
  · rw [poolNat, usedNat]
    have inPoolNat := UInt64.le_iff_toNat_le.mp inPool
    omega

/-- A message whose gas is bought but falls short of its intrinsic gas is
rejected with an error, and the pool keeps the loss of the message's gas. -/
theorem applyMessage_error_spends_pool (evm : Evm) (msg : Message) (gp : UInt64) (state : StateDB)
    (nonceOk : msg.checkNonce = true → state.getNonce msg.sender = msg.nonce)
    (affordable : (msg.gas.toNat * msg.gasPrice : Int) ≤ state.getBalance msg.sender)
    (inPool : msg.gas ≤ gp) (bought : 0 < msg.gas)
    (short : ∀ gas, intrinsicGas msg.data msg.recipient.isNone evm.homestead = .ok gas → msg.gas < gas) :
    ∃ res st, applyMessage evm msg gp state = .ok (res, st) ∧ res.err = some (.vm .errOutOfGas) ∧
      st.gp = gp - msg.gas ∧ st.gp ≠ gp := by
  let st₀ := newStateTransition msg gp state
  obtain ⟨st₁, bought₁⟩ : ∃ st₁, st₀.preCheck = .ok st₁ := by
    rw [StateTransition.preCheck_of_nonce st₀ nonceOk]
    exact ⟨_, StateTransition.buyGas_eq_ok.mpr ⟨affordable, inPool, rfl⟩⟩
  have paid := StateTransition.buyGas_eq_ok.mp ((StateTransition.preCheck_of_nonce st₀ nonceOk) ▸ bought₁)
  obtain ⟨-, -, rfl⟩ := paid
  refine ⟨_, _, StateTransition.transitionDb_intrinsic_short evm bought₁ ?_, rfl, rfl, ?_⟩
  · intro gas intrinsic
    simpa [st₀, newStateTransition] using short gas intrinsic
  · show gp - msg.gas ≠ gp
    grind

/-- A call of one unit of gas at price zero, from a pool of one unit. -/
def shortMessage : Message :=
  { sender := [1], recipient := some [2], gasPrice := 0, gas := 1, value := 0, nonce := 0, checkNonce := false,
    data := [] }

def idleEvm : Evm :=
  { coinbase := [], homestead := true, call := fun s _ _ _ gas _ => ([], gas, none, s),
    create := fun s _ _ gas _ => ([], gas, none, s) }

def emptyState : StateDB := { balance := fun _ => 0, nonce := fun _ => 0, refund := 0 }

theorem applyMessage_error_spends_pool_at_one :
    (shortMessage.checkNonce = true → emptyState.getNonce shortMessage.sender = shortMessage.nonce) ∧
    (shortMessage.gas.toNat * shortMessage.gasPrice : Int) ≤ emptyState.getBalance shortMessage.sender ∧
    shortMessage.gas ≤ 1 ∧ 0 < shortMessage.gas ∧
    (∀ gas, intrinsicGas shortMessage.data shortMessage.recipient.isNone idleEvm.homestead = .ok gas →
      shortMessage.gas < gas) ∧
    ∃ res st, applyMessage idleEvm shortMessage 1 emptyState = .ok (res, st) ∧ res.err = some (.vm .errOutOfGas) ∧
      st.gp = 1 - shortMessage.gas ∧ st.gp ≠ 1 := by
  have nonceOk : shortMessage.checkNonce = true → emptyState.getNonce shortMessage.sender = shortMessage.nonce :=
    fun checked => absurd checked (by decide)
  have affordable : (shortMessage.gas.toNat * shortMessage.gasPrice : Int) ≤ emptyState.getBalance shortMessage.sender := by
    decide
  have short : ∀ gas, intrinsicGas shortMessage.data shortMessage.recipient.isNone idleEvm.homestead = .ok gas →
      shortMessage.gas < gas := by
    intro gas intrinsic
    have base : intrinsicGas shortMessage.data shortMessage.recipient.isNone idleEvm.homestead = .ok 21000 := by decide
    rw [base] at intrinsic
    cases intrinsic
    decide
  exact ⟨nonceOk, affordable, by decide, by decide, short,
    applyMessage_error_spends_pool idleEvm shortMessage 1 emptyState nonceOk affordable (by decide) (by decide) short⟩

end TurboGeth.Core
