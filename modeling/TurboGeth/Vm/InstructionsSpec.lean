import TurboGeth.Vm.Instructions

/-!
# The arithmetic instructions compute the Yellow Paper's words

One lemma per handler: on the big integers of words `a`, `b`, ... the handler
pushes the big integer of the word `WordSpec` gives.  The `big.Int` steps of
each handler are first brought to an `Int` formula (`U256` to a remainder
modulo `2^256`, `S256` to `BitVec.toInt`, `Exp` to a power) and the formula
then to the `BitVec` operation.
-/

set_option autoImplicit false

namespace TurboGeth.Vm

section Handlers

variable (rest : Stack)

theorem opAdd_bigOf (a b : Word) : opAdd (bigOf a :: bigOf b :: rest) = some (bigOf (a + b) :: rest) := by
  rw [opAdd, U256_of_emod]
  simp [bigOf, BitVec.toNat_add]

theorem opSub_bigOf (a b : Word) : opSub (bigOf a :: bigOf b :: rest) = some (bigOf (a - b) :: rest) := by
  rw [opSub, U256_of_emod]
  have := a.isLt
  have := b.isLt
  simp only [bigOf, BitVec.toNat_sub]
  omega

theorem opMul_bigOf (a b : Word) : opMul (bigOf a :: bigOf b :: rest) = some (bigOf (a * b) :: rest) := by
  rw [opMul, U256_of_emod]
  simp [bigOf, BitVec.toNat_mul]

theorem opDiv_bigOf (a b : Word) :
    opDiv (bigOf a :: bigOf b :: rest) = some (bigOf (if b = 0 then 0 else a / b) :: rest) := by
  rw [opDiv]
  by_cases zero : b = 0
  · simp [zero]
  · have nonzero : (bigOf b).sign ≠ 0 := by rwa [ne_eq, Int.sign_eq_zero_iff_zero, bigOf_eq_zero]
    rw [if_pos nonzero, if_neg zero, ← bigOf_udiv, U256_bigOf]

theorem opSdiv_bigOf (a b : Word) :
    opSdiv (bigOf a :: bigOf b :: rest) = some (bigOf (if b = 0 then 0 else a.sdiv b) :: rest) := by
  simp only [opSdiv, S256_bigOf]
  by_cases bzero : b = 0
  · simp [bzero]
  by_cases azero : a = 0
  · simp [azero, BitVec.zero_sdiv]
  have xne : a.toInt ≠ 0 := fun zero => azero (BitVec.eq_of_toInt_eq (by simpa using zero))
  have yne : b.toInt ≠ 0 := fun zero => bzero (BitVec.eq_of_toInt_eq (by simpa using zero))
  rw [if_neg (by simp [Int.sign_eq_zero_iff_zero, xne, yne]), if_neg bzero, ← wordOf_tdiv]
  -- the handler's quotient of magnitudes is the truncated quotient
  have quotient := IntBits.tdiv_eq_abs xne yne
  split
  · rename_i signs
    rw [if_pos signs] at quotient
    rw [← quotient, U256_eq_bigOf]
  · rename_i signs
    rw [if_neg signs] at quotient
    rw [← quotient, U256_eq_bigOf]

theorem opMod_bigOf (a b : Word) :
    opMod (bigOf a :: bigOf b :: rest) = some (bigOf (if b = 0 then 0 else a % b) :: rest) := by
  rw [opMod]
  by_cases zero : b = 0
  · simp [zero]
  · have nonzero : ¬(bigOf b).sign = 0 := by rwa [Int.sign_eq_zero_iff_zero, bigOf_eq_zero]
    rw [if_neg nonzero, if_neg zero, ← bigOf_umod, U256_bigOf]

theorem opSmod_bigOf (a b : Word) :
    opSmod (bigOf a :: bigOf b :: rest) = some (bigOf (if b = 0 then 0 else a.srem b) :: rest) := by
  simp only [opSmod, S256_bigOf, Int.sign_neg_iff]
  by_cases bzero : b = 0
  · simp [bzero]
  have yne : b.toInt ≠ 0 := fun zero => bzero (BitVec.eq_of_toInt_eq (by simpa using zero))
  rw [if_neg (by simp [Int.sign_eq_zero_iff_zero, yne]), if_neg bzero, ← wordOf_tmod]
  -- the remainder of magnitudes, with the dividend's sign, is the truncated remainder
  have remainder := IntBits.tmod_eq_abs a.toInt b.toInt
  split
  · rename_i negative
    rw [if_pos negative] at remainder
    rw [← remainder, U256_eq_bigOf]
  · rename_i negative
    rw [if_neg negative] at remainder
    rw [← remainder, U256_eq_bigOf]

theorem opExp_bigOf (a b : Word) : opExp (bigOf a :: bigOf b :: rest) = some (bigOf (a ^ b.toNat) :: rest) := by
  have power : bigOf (a ^ b.toNat) = bigOf a ^ b.toNat % 2 ^ 256 := by simp [bigOf, BitVec.toNat_pow]
  rw [opExp, power]
  split_ifs with zero base one
  · have none : b.toNat = 0 := by unfold bigOf at zero; omega
    simp [none]
  · have nothing : bigOf a = 0 := Int.sign_eq_zero_iff_zero.mp base
    rw [nothing, zero_pow (by unfold bigOf at zero; omega)]
    rfl
  · have once : b.toNat = 1 := by unfold bigOf at one; omega
    rw [once, pow_one, Int.emod_eq_of_lt (bigOf_nonneg a) (bigOf_lt a)]
  · rw [Exp_eq (bigOf_nonneg a) (bigOf_lt a), bigOf_natAbs]

theorem signExtend_masks (x : Word) {bit : Nat} (small : bit < 255) :
    bigOf ((x.setWidth (bit + 1)).signExtend 256) =
      if (bigOf x).testBit bit then U256 (Int.lor (bigOf x) (Int.lnot (2 ^ bit - 1)))
      else U256 (Int.land (bigOf x) (2 ^ bit - 1)) := by
  have top : (x.setWidth (bit + 1)).msb = x.toNat.testBit bit := by
    simp [BitVec.msb_setWidth, BitVec.testBit_toNat]
  have room : 2 ^ bit ≤ 2 ^ 254 := Nat.pow_le_pow_right (by decide) (by omega)
  -- the low `bit + 1` bits are the low `bit` ones and the top one
  have low : x.toNat % 2 ^ (bit + 1) = x.toNat % 2 ^ bit + 2 ^ bit * (x.toNat / 2 ^ bit % 2) := Nat.mod_pow_succ
  have twice : 2 ^ (bit + 1) = 2 * 2 ^ bit := Nat.pow_succ'
  have digit : x.toNat.testBit bit = decide (x.toNat / 2 ^ bit % 2 = 1) := Nat.testBit_eq_decide_div_mod_eq
  have below : x.toNat % 2 ^ bit < 2 ^ bit := Nat.mod_lt _ (by positivity)
  unfold bigOf
  rw [BitVec.toNat_signExtend, BitVec.toNat_setWidth, BitVec.toNat_setWidth, top]
  change _ = if x.toNat.testBit bit then _ else _
  cases set : x.toNat.testBit bit
  · have clear : x.toNat / 2 ^ bit % 2 = 0 := by
      rw [set] at digit
      simp at digit
      omega
    rw [clear, Nat.mul_zero, Nat.add_zero] at low
    rw [if_neg Bool.false_ne_true, if_neg Bool.false_ne_true, U256_land_mask _ (by omega), Nat.add_zero]
    congr 1
    omega
  · have one : x.toNat / 2 ^ bit % 2 = 1 := by
      rw [set] at digit
      simpa using digit.symm
    rw [one, Nat.mul_one] at low
    rw [if_pos rfl, if_pos rfl, U256_lor_mask _ (by omega)]
    congr 1
    omega

theorem opSignExtend_bigOf (b x : Word) :
    opSignExtend (bigOf b :: bigOf x :: rest) =
      some (bigOf (if b.toNat < 31 then (x.setWidth (8 * b.toNat + 8)).signExtend 256 else x) :: rest) := by
  rw [opSignExtend]
  by_cases small : b.toNat < 31
  · rw [if_pos (by unfold bigOf; omega), if_pos small, show 8 * b.toNat + 8 = b.toNat * 8 + 7 + 1 by omega,
      signExtend_masks x (by omega), bigOf_toNat]
    dsimp only
    split_ifs <;> rfl
  · rw [if_neg (by unfold bigOf; omega), if_neg small]

theorem opNot_bigOf (a : Word) : opNot (bigOf a :: rest) = some (bigOf (~~~a) :: rest) := by
  rw [opNot, U256_of_emod]
  have := a.isLt
  show Int.negSucc a.toNat % 2 ^ 256 = ((~~~a).toNat : Int)
  rw [BitVec.toNat_not, Int.negSucc_eq]
  omega

theorem opLt_bigOf (a b : Word) : opLt (bigOf a :: bigOf b :: rest) = some (bigOf (if a < b then 1 else 0) :: rest) := by
  simp only [opLt, bigOf_lt_iff, bigOf_ite]

theorem opGt_bigOf (a b : Word) : opGt (bigOf a :: bigOf b :: rest) = some (bigOf (if b < a then 1 else 0) :: rest) := by
  simp only [opGt, gt_iff_lt, bigOf_lt_iff, bigOf_ite]

theorem toInt_lt_iff (a b : Word) :
    a.toInt < b.toInt ↔ (bigOf a ≥ tt255 ∧ bigOf b < tt255) ∨
      (¬(bigOf a < tt255 ∧ bigOf b ≥ tt255) ∧ bigOf a < bigOf b) := by
  have := a.isLt
  have := b.isLt
  rw [BitVec.toInt_eq_toNat_cond, BitVec.toInt_eq_toNat_cond]
  unfold tt255 bigOf
  split_ifs <;> omega

theorem opSlt_bigOf (a b : Word) :
    opSlt (bigOf a :: bigOf b :: rest) = some (bigOf (if a.slt b then 1 else 0) :: rest) := by
  simp only [opSlt, bigOf_ite, BitVec.slt_iff_toInt_lt, toInt_lt_iff]
  congr 2
  split_ifs <;> omega

theorem opSgt_bigOf (a b : Word) :
    opSgt (bigOf a :: bigOf b :: rest) = some (bigOf (if b.slt a then 1 else 0) :: rest) := by
  simp only [opSgt, bigOf_ite, BitVec.slt_iff_toInt_lt, toInt_lt_iff]
  congr 2
  split_ifs <;> omega

theorem opEq_bigOf (a b : Word) : opEq (bigOf a :: bigOf b :: rest) = some (bigOf (if a = b then 1 else 0) :: rest) := by
  simp only [opEq, bigOf_inj, bigOf_ite]

theorem opIszero_bigOf (a : Word) : opIszero (bigOf a :: rest) = some (bigOf (if a = 0 then 1 else 0) :: rest) := by
  rw [opIszero, bigOf_ite]
  by_cases zero : a = 0
  · simp [zero]
  · have positive : (bigOf a).sign > 0 := by
      rw [gt_iff_lt, Int.sign_pos_iff]
      exact lt_of_le_of_ne (bigOf_nonneg a) (Ne.symm (mt bigOf_eq_zero.mp zero))
    rw [if_pos positive, if_neg zero]

theorem opAnd_bigOf (a b : Word) : opAnd (bigOf a :: bigOf b :: rest) = some (bigOf (a &&& b) :: rest) := by
  rw [opAnd, bigOf, bigOf, bigOf, BitVec.toNat_and]
  rfl

theorem opOr_bigOf (a b : Word) : opOr (bigOf a :: bigOf b :: rest) = some (bigOf (a ||| b) :: rest) := by
  rw [opOr, bigOf, bigOf, bigOf, BitVec.toNat_or]
  rfl

theorem opXor_bigOf (a b : Word) : opXor (bigOf a :: bigOf b :: rest) = some (bigOf (a ^^^ b) :: rest) := by
  rw [opXor, bigOf, bigOf, bigOf, BitVec.toNat_xor]
  rfl

theorem opByte_bigOf (i x : Word) :
    opByte (bigOf i :: bigOf x :: rest) =
      some (bigOf (if i.toNat < 32 then (x >>> (8 * (31 - i.toNat))) &&& 0xff else 0) :: rest) := by
  rw [opByte]
  by_cases inside : i.toNat < 32
  · rw [if_pos (by unfold bigOf; omega), if_pos inside, bigOf_toNat, Byte_eq _ inside, bigOf_natAbs]
    have mask : (0xff : Word).toNat = 2 ^ 8 - 1 := rfl
    rw [bigOf, BitVec.toNat_and, BitVec.toNat_ushiftRight, mask, Nat.and_two_pow_sub_one_eq_mod, UInt8.toNat_ofNat']
  · rw [if_neg (by unfold bigOf; omega), if_neg inside]
    rfl

theorem opAddmod_bigOf (a b n : Word) :
    opAddmod (bigOf a :: bigOf b :: bigOf n :: rest) =
      some (bigOf (if n = 0 then 0 else BitVec.ofNat 256 ((a.toNat + b.toNat) % n.toNat)) :: rest) := by
  rw [opAddmod]
  by_cases zero : n = 0
  · simp [zero]
  · have positive : bigOf n > 0 := lt_of_le_of_ne (bigOf_nonneg n) (Ne.symm (mt bigOf_eq_zero.mp zero))
    -- the exact sum's remainder is below the modulus, so it is a word
    have small : (a.toNat + b.toNat) % n.toNat < 2 ^ 256 :=
      lt_trans (Nat.mod_lt _ (by unfold bigOf at positive; omega)) n.isLt
    have value : (bigOf a + bigOf b) % bigOf n = bigOf (BitVec.ofNat 256 ((a.toNat + b.toNat) % n.toNat)) := by
      simp only [bigOf, BitVec.toNat_ofNat, Nat.mod_eq_of_lt small]
      push_cast
      rfl
    rw [if_pos positive, if_neg zero, value, U256_bigOf]

theorem opMulmod_bigOf (a b n : Word) :
    opMulmod (bigOf a :: bigOf b :: bigOf n :: rest) =
      some (bigOf (if n = 0 then 0 else BitVec.ofNat 256 (a.toNat * b.toNat % n.toNat)) :: rest) := by
  rw [opMulmod]
  by_cases zero : n = 0
  · simp [zero]
  · have positive : bigOf n > 0 := lt_of_le_of_ne (bigOf_nonneg n) (Ne.symm (mt bigOf_eq_zero.mp zero))
    have small : a.toNat * b.toNat % n.toNat < 2 ^ 256 :=
      lt_trans (Nat.mod_lt _ (by unfold bigOf at positive; omega)) n.isLt
    have value : bigOf a * bigOf b % bigOf n = bigOf (BitVec.ofNat 256 (a.toNat * b.toNat % n.toNat)) := by
      simp only [bigOf, BitVec.toNat_ofNat, Nat.mod_eq_of_lt small]
      push_cast
      rfl
    rw [if_pos positive, if_neg zero, value, U256_bigOf]

theorem opSHL_bigOf (s v : Word) : opSHL (bigOf s :: bigOf v :: rest) = some (bigOf (v <<< s.toNat) :: rest) := by
  simp only [opSHL, U256_bigOf, bigOf_toNat]
  by_cases wide : 256 ≤ s.toNat
  · rw [if_pos (by unfold bigOf; omega), BitVec.shiftLeft_eq_zero wide]
    rfl
  · rw [if_neg (by unfold bigOf; omega), U256_of_emod]
    simp [bigOf, BitVec.toNat_shiftLeft, Nat.shiftLeft_eq]

theorem opSHR_bigOf (s v : Word) : opSHR (bigOf s :: bigOf v :: rest) = some (bigOf (v >>> s.toNat) :: rest) := by
  simp only [opSHR, U256_bigOf, bigOf_toNat]
  by_cases wide : 256 ≤ s.toNat
  · rw [if_pos (by unfold bigOf; omega), BitVec.ushiftRight_eq_zero wide]
    rfl
  · have shifted : bigOf v >>> s.toNat = bigOf (v >>> s.toNat) := by
      rw [bigOf, bigOf, BitVec.toNat_ushiftRight, Int.natCast_shiftRight]
    rw [if_neg (by unfold bigOf; omega), shifted, U256_bigOf]

theorem toInt_shiftRight_wide (v : Word) {n : Nat} (wide : 256 ≤ n) :
    v.toInt >>> n = if 0 ≤ v.toInt then 0 else -1 := by
  have above := v.toInt_lt
  have below := v.le_toInt
  have large : (2 ^ 256 : Int) ≤ ((2 ^ n : Nat) : Int) := by exact_mod_cast Nat.pow_le_pow_right (by decide) wide
  rw [Int.shiftRight_eq_div_pow]
  split
  · rename_i nonneg
    exact Int.ediv_eq_zero_of_lt nonneg (by simp at above; omega)
  · rename_i negative
    exact ((Int.ediv_emod_unique (b := ((2 ^ n : Nat) : Int)) (r := v.toInt + ((2 ^ n : Nat) : Int))
      (by omega)).mpr ⟨by ring, by simp at below; omega, by omega⟩).1

theorem opSAR_bigOf (s v : Word) :
    opSAR (bigOf s :: bigOf v :: rest) = some (bigOf (v.sshiftRight s.toNat) :: rest) := by
  simp only [opSAR, U256_bigOf, S256_bigOf, bigOf_toNat]
  rw [BitVec.sshiftRight_eq]
  change _ = some (bigOf (wordOf _) :: rest)
  by_cases wide : 256 ≤ s.toNat
  · rw [if_pos (by unfold bigOf; omega), toInt_shiftRight_wide v wide]
    split
    · rename_i nonneg
      rw [if_pos (Int.sign_nonneg_iff.mp nonneg), U256_eq_bigOf]
    · rename_i negative
      rw [if_neg (mt Int.sign_nonneg_iff.mpr negative), U256_eq_bigOf]
  · rw [if_neg (by unfold bigOf; omega), U256_eq_bigOf]

end Handlers

/-! ## Every operation -/

theorem UnaryOp.execute_bigOf (op : UnaryOp) (a : Word) (rest : Stack) :
    op.execute (bigOf a :: rest) = some (bigOf (op.result a) :: rest) := by
  cases op with
  | iszero => exact opIszero_bigOf rest a
  | not => exact opNot_bigOf rest a

theorem BinaryOp.execute_bigOf (op : BinaryOp) (a b : Word) (rest : Stack) :
    op.execute (bigOf a :: bigOf b :: rest) = some (bigOf (op.result a b) :: rest) := by
  cases op with
  | add => exact opAdd_bigOf rest a b
  | mul => exact opMul_bigOf rest a b
  | sub => exact opSub_bigOf rest a b
  | div => exact opDiv_bigOf rest a b
  | sdiv => exact opSdiv_bigOf rest a b
  | mod => exact opMod_bigOf rest a b
  | smod => exact opSmod_bigOf rest a b
  | exp => exact opExp_bigOf rest a b
  | signextend => exact opSignExtend_bigOf rest a b
  | lt => exact opLt_bigOf rest a b
  | gt => exact opGt_bigOf rest a b
  | slt => exact opSlt_bigOf rest a b
  | sgt => exact opSgt_bigOf rest a b
  | eq => exact opEq_bigOf rest a b
  | and => exact opAnd_bigOf rest a b
  | or => exact opOr_bigOf rest a b
  | xor => exact opXor_bigOf rest a b
  | byte => exact opByte_bigOf rest a b
  | shl => exact opSHL_bigOf rest a b
  | shr => exact opSHR_bigOf rest a b
  | sar => exact opSAR_bigOf rest a b

theorem TernaryOp.execute_bigOf (op : TernaryOp) (a b n : Word) (rest : Stack) :
    op.execute (bigOf a :: bigOf b :: bigOf n :: rest) = some (bigOf (op.result a b n) :: rest) := by
  cases op with
  | addmod => exact opAddmod_bigOf rest a b n
  | mulmod => exact opMulmod_bigOf rest a b n

theorem ArithOp.execute_bigOf (op : ArithOp) (stack : List Word) (enough : op.arity ≤ stack.length) :
    op.execute (stack.map bigOf) = (op.yellowPaper stack).map (List.map bigOf) := by
  match op, stack with
  | .unary op, a :: rest => exact op.execute_bigOf a (rest.map bigOf)
  | .binary op, a :: b :: rest => exact op.execute_bigOf a b (rest.map bigOf)
  | .ternary op, a :: b :: n :: rest => exact op.execute_bigOf a b n (rest.map bigOf)
  | .unary _, [] | .binary _, [] | .binary _, [_] | .ternary _, [] | .ternary _, [_] | .ternary _, [_, _] =>
    simp [arity] at enough

/-- For every arithmetic, comparison, bitwise and shift instruction and every
stack of words in `[0, 2^256)` that holds its operands, the handler replaces
the operands by the Yellow Paper's result, and every word it leaves is in
`[0, 2^256)`. -/
theorem execute_eq_yellowPaper (op : ArithOp) (stack : Stack) (words : ∀ x ∈ stack, 0 ≤ x ∧ x < 2 ^ 256)
    (enough : op.arity ≤ stack.length) :
    ∃ after, op.yellowPaper (stack.map wordOf) = some after ∧ op.execute stack = some (after.map bigOf) ∧
      ∀ x ∈ after.map bigOf, 0 ≤ x ∧ x < 2 ^ 256 := by
  have held : (stack.map wordOf).map bigOf = stack := by
    rw [List.map_map]
    conv_rhs => rw [← List.map_id stack]
    exact List.map_congr_left fun x mem => bigOf_wordOf (words x mem).1 (words x mem).2
  have operands : op.arity ≤ (stack.map wordOf).length := by rwa [List.length_map]
  obtain ⟨after, stepped, -⟩ := op.yellowPaper_length (stack.map wordOf) operands
  refine ⟨after, stepped, ?_, ?_⟩
  · have run := op.execute_bigOf (stack.map wordOf) operands
    rwa [held, stepped] at run
  · intro x mem
    obtain ⟨w, -, rfl⟩ := List.mem_map.mp mem
    exact ⟨bigOf_nonneg w, bigOf_lt w⟩

/-- `SDIV` of `-2^255` by `-1`, the one signed quotient that overflows. -/
theorem execute_eq_yellowPaper_at_sdiv_overflow :
    (∀ x ∈ [2 ^ 255, 2 ^ 256 - 1], (0 : Int) ≤ x ∧ x < 2 ^ 256) ∧ (ArithOp.binary .sdiv).arity ≤ 2 ∧
      ∃ after, (ArithOp.binary .sdiv).yellowPaper ([2 ^ 255, 2 ^ 256 - 1].map wordOf) = some after ∧
        (ArithOp.binary .sdiv).execute [2 ^ 255, 2 ^ 256 - 1] = some (after.map bigOf) ∧
        ∀ x ∈ after.map bigOf, 0 ≤ x ∧ x < 2 ^ 256 :=
  ⟨by decide, by decide, execute_eq_yellowPaper (.binary .sdiv) [2 ^ 255, 2 ^ 256 - 1] (by decide) (by decide)⟩

end TurboGeth.Vm
