import TurboGeth.Trie.Encoding

/-!
# The nonce manager of the transaction pool

`core/state/managed_state.go`: a `ManagedState` hands out the nonces of the
accounts it manages.  For each it keeps the first nonce it tracks (`nstart`)
and, from there on, which nonces are taken (`nonces`).  `NewNonce` looks for
a nonce that is not taken, else takes the next one; `RemoveNonce` forgets the
nonces from a given one on; `SetNonce` restarts an account at a nonce; and an
account whose nonce in the backing state has moved past the tracked ones is
restarted there when it is next read.

Every call writes `true` into the slice or cuts it, so along any run every
tracked nonce is taken.  The gap search of `NewNonce` therefore never finds a
gap, and `NewNonce` hands out the nonce `GetNonce` reports.
-/

set_option autoImplicit false

namespace TurboGeth.State

open TurboGeth.Trie

/-- `account`: the first tracked nonce and which nonces from it are taken. -/
structure ManagedState.account where
  nstart : UInt64
  nonces : List Bool

/-- `ManagedState`, with the nonces of the backing state's objects (`none`
where there is no object). -/
structure ManagedState where
  nonce : Bytes → Option UInt64
  accounts : Bytes → Option ManagedState.account

namespace ManagedState

/-- `ManageState`: no account managed yet. -/
def ManageState (nonce : Bytes → Option UInt64) : ManagedState := { nonce, accounts := fun _ => none }

/-- `SetState`: a new backing state. -/
def SetState (ms : ManagedState) (nonce : Bytes → Option UInt64) : ManagedState := { ms with nonce }

def newAccount (nonce : UInt64) : account := { nstart := nonce, nonces := [] }

/-- `GetOrNewStateObject(addr).Nonce()`: a missing object is created with
nonce 0. -/
def getOrNewNonce (ms : ManagedState) (addr : Bytes) : UInt64 × ManagedState :=
  match ms.nonce addr with
  | some n => (n, ms)
  | none => (0, { ms with nonce := Function.update ms.nonce addr (some 0) })

/-- The account at `addr` replaced. -/
def setAccount (ms : ManagedState) (addr : Bytes) (acc : account) : ManagedState :=
  { ms with accounts := Function.update ms.accounts addr (some acc) }

/-- `getAccount`: a new account from the state's nonce; or the tracked one,
restarted at the state's nonce when that has passed it. -/
def getAccount (ms : ManagedState) (addr : Bytes) : account × ManagedState :=
  match ms.accounts addr with
  | none =>
    let (n, ms) := ms.getOrNewNonce addr
    (newAccount n, ms.setAccount addr (newAccount n))
  | some acc =>
    match ms.nonce addr with
    | some n =>
      if UInt64.ofNat acc.nonces.length + acc.nstart < n then (newAccount n, ms.setAccount addr (newAccount n))
      else (acc, ms)
    | none => (acc, ms)

def hasAccount (ms : ManagedState) (addr : Bytes) : Bool := (ms.accounts addr).isSome

/-- The loop of `NewNonce` over the slice: the first nonce not taken. -/
def firstFree : List Bool → Option Nat
  | [] => none
  | taken :: rest => if !taken then some 0 else (firstFree rest).map (· + 1)

/-- `NewNonce`. -/
def NewNonce (ms : ManagedState) (addr : Bytes) : UInt64 × ManagedState :=
  let (acc, ms) := ms.getAccount addr
  match firstFree acc.nonces with
  | some i => (acc.nstart + UInt64.ofNat i, ms)
  | none =>
    let acc := { acc with nonces := acc.nonces ++ [true] }
    (UInt64.ofNat (acc.nonces.length - 1) + acc.nstart, ms.setAccount addr acc)

/-- `GetNonce`: one past the tracked nonces of a managed account, else the
state's nonce. -/
def GetNonce (ms : ManagedState) (addr : Bytes) : UInt64 × ManagedState :=
  if ms.hasAccount addr then
    let (acc, ms) := ms.getAccount addr
    (UInt64.ofNat acc.nonces.length + acc.nstart, ms)
  else ((ms.nonce addr).getD 0, ms)

/-- `SetNonce`: the state object's nonce is set and the account restarts
there. -/
def SetNonce (ms : ManagedState) (addr : Bytes) (nonce : UInt64) : ManagedState :=
  let ms := { ms with nonce := Function.update ms.nonce addr (some nonce) }
  ms.setAccount addr (newAccount nonce)

/-- `RemoveNonce`: the slice is cut at \`n\` when \`n - nstart\`, in \`uint64\`, is
within it. -/
def RemoveNonce (ms : ManagedState) (addr : Bytes) (n : UInt64) : ManagedState :=
  if ms.hasAccount addr then
    let (acc, ms) := ms.getAccount addr
    if (n - acc.nstart).toNat ≤ acc.nonces.length then
      ms.setAccount addr { acc with nonces := acc.nonces.take (n - acc.nstart).toNat }
    else ms
  else ms

/-- The calls of the manager's users. -/
inductive Call where
  | newNonce (addr : Bytes)
  | getNonce (addr : Bytes)
  | setNonce (addr : Bytes) (nonce : UInt64)
  | removeNonce (addr : Bytes) (n : UInt64)
  | setState (nonce : Bytes → Option UInt64)

def applyCall (ms : ManagedState) : Call → ManagedState
  | .newNonce addr => (ms.NewNonce addr).2
  | .getNonce addr => (ms.GetNonce addr).2
  | .setNonce addr nonce => ms.SetNonce addr nonce
  | .removeNonce addr n => ms.RemoveNonce addr n
  | .setState nonce => ms.SetState nonce

/-! ## Every tracked nonce is taken -/

/-- Every nonce in the slice of every managed account is taken. -/
def Taken (ms : ManagedState) : Prop :=
  ∀ addr acc, ms.accounts addr = some acc → ∀ b ∈ acc.nonces, b = true

theorem firstFree_of_taken : ∀ {l : List Bool}, (∀ b ∈ l, b = true) → firstFree l = none
  | [], _ => rfl
  | b :: rest, taken => by
      have head : b = true := taken b List.mem_cons_self
      rw [firstFree, head, firstFree_of_taken fun c inRest => taken c (List.mem_cons_of_mem b inRest)]
      rfl

theorem taken_setAccount {ms : ManagedState} (taken : ms.Taken) (addr : Bytes) {acc : account}
    (accTaken : ∀ b ∈ acc.nonces, b = true) : (ms.setAccount addr acc).Taken := by
  intro other found stored
  by_cases same : other = addr
  · subst same
    simp only [setAccount, Function.update_self, Option.some.injEq] at stored
    exact stored ▸ accTaken
  · simp only [setAccount, Function.update_of_ne same] at stored
    exact taken other found stored

theorem taken_newAccount (nonce : UInt64) : ∀ b ∈ (newAccount nonce).nonces, b = true := by
  simp [newAccount]

theorem taken_getOrNewNonce {ms : ManagedState} (taken : ms.Taken) (addr : Bytes) : (ms.getOrNewNonce addr).2.Taken := by
  unfold getOrNewNonce
  split
  · exact taken
  · exact taken

theorem getAccount_taken {ms : ManagedState} (taken : ms.Taken) (addr : Bytes) :
    (ms.getAccount addr).2.Taken ∧ (∀ b ∈ (ms.getAccount addr).1.nonces, b = true) ∧
      (ms.getAccount addr).2.accounts addr = some (ms.getAccount addr).1 := by
  unfold getAccount
  split
  · exact ⟨taken_setAccount (taken_getOrNewNonce taken addr) addr (taken_newAccount _), taken_newAccount _,
      by simp [setAccount]⟩
  · rename_i acc stored
    split
    · split
      · exact ⟨taken_setAccount taken addr (taken_newAccount _), taken_newAccount _, by simp [setAccount]⟩
      · exact ⟨taken, taken addr acc stored, stored⟩
    · exact ⟨taken, taken addr acc stored, stored⟩

theorem applyCall_taken {ms : ManagedState} (taken : ms.Taken) : ∀ call, (ms.applyCall call).Taken
  | .newNonce addr => by
      obtain ⟨takenAfter, accTaken, -⟩ := getAccount_taken taken addr
      simp only [applyCall, NewNonce]
      rw [firstFree_of_taken accTaken]
      refine taken_setAccount takenAfter addr fun b appended => ?_
      rcases List.mem_append.mp appended with old | new
      · exact accTaken b old
      · exact List.mem_singleton.mp new
  | .getNonce addr => by
      simp only [applyCall, GetNonce]
      split
      · exact (getAccount_taken taken addr).1
      · exact taken
  | .setNonce addr nonce => by
      simp only [applyCall, SetNonce]
      exact taken_setAccount (fun other acc stored => taken other acc stored) addr (taken_newAccount nonce)
  | .removeNonce addr n => by
      obtain ⟨takenAfter, accTaken, -⟩ := getAccount_taken taken addr
      simp only [applyCall, RemoveNonce]
      split
      · split
        · exact taken_setAccount takenAfter addr fun b kept => accTaken b (List.mem_of_mem_take kept)
        · exact takenAfter
      · exact taken
  | .setState nonce => fun addr acc stored => taken addr acc stored

theorem foldl_applyCall_taken : ∀ (calls : List Call) (ms : ManagedState), ms.Taken → (calls.foldl applyCall ms).Taken
  | [], _, taken => taken
  | call :: rest, ms, taken => foldl_applyCall_taken rest (ms.applyCall call) (applyCall_taken taken call)

theorem NewNonce_eq_GetNonce {ms : ManagedState} (taken : ms.Taken) (addr : Bytes) :
    (ms.NewNonce addr).1 = (ms.GetNonce addr).1 := by
  obtain ⟨-, accTaken, -⟩ := getAccount_taken taken addr
  simp only [NewNonce]
  rw [firstFree_of_taken accTaken]
  simp only [List.length_append, List.length_singleton, Nat.add_sub_cancel, GetNonce]
  split
  · rfl
  · rename_i unmanaged
    have none : ms.accounts addr = none := by simpa [hasAccount] using unmanaged
    simp only [getAccount, none, getOrNewNonce]
    split <;> simp [newAccount, *]

/-- The nonce manager never hands out a nonce out of turn.  After any run of
`NewNonce`, `GetNonce`, `SetNonce`, `RemoveNonce` and `SetState` calls from
`ManageState`, every nonce in the slices of the managed accounts is taken,
so the gap search of `NewNonce` finds none, and `NewNonce` returns, for
every address, the nonce that `GetNonce` reports at that point. -/
theorem NewNonce_after_calls (nonce : Bytes → Option UInt64) (calls : List Call) (addr : Bytes) :
    (calls.foldl applyCall (ManageState nonce)).Taken ∧
      firstFree ((calls.foldl applyCall (ManageState nonce)).getAccount addr).1.nonces = none ∧
      ((calls.foldl applyCall (ManageState nonce)).NewNonce addr).1 =
        ((calls.foldl applyCall (ManageState nonce)).GetNonce addr).1 := by
  have taken := foldl_applyCall_taken calls (ManageState nonce) fun _ _ absent => by simp [ManageState] at absent
  exact ⟨taken, firstFree_of_taken (getAccount_taken taken addr).2.1, NewNonce_eq_GetNonce taken addr⟩

end ManagedState

end TurboGeth.State
