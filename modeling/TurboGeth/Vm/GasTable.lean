import Mathlib.Tactic.Ring

/-!
# The memory expansion fee

`memoryGasCost` of `core/vm/gas_table.go` charges for growing the memory to
`newMemSize` bytes the quadratic fee of the new size in words less
`lastGasCost`, the fee already charged, and records the new fee.  `Run` in
`core/vm/interpreter.go` calls it with the operation's memory size rounded up
to words, after checking that this fits 64 bits.  The arithmetic is Go's
`uint64`, which wraps: here `UInt64`.

A size above `0xffffffffe0` is refused, so that, by the comment above the
check, the square of the word count cannot overflow.  But that size is
`2 ^ 35 - 1` words, whose square is near `2 ^ 70`.  Up to `2 ^ 32 - 1` words
the fee is the exact difference of the two quadratic fees over the
naturals; from `2 ^ 32` words on the square wraps, and an expansion from empty
memory is charged less than its fee.
-/

set_option autoImplicit false

namespace TurboGeth.Vm

inductive GasError where
  | errGasUintOverflow
  deriving DecidableEq, Repr

/-- `Memory`: its store, of which the fee reads the length, and the fee
charged for it so far. -/
structure Memory where
  store : List UInt8
  lastGasCost : UInt64
  deriving DecidableEq, Repr

def Memory.Len (mem : Memory) : Nat := mem.store.length

/-- `math.MaxUint64`. -/
def MaxUint64 : UInt64 := 0xffffffffffffffff

/-- `params.MemoryGas`. -/
def MemoryGas : UInt64 := 3

/-- `params.QuadCoeffDiv`. -/
def QuadCoeffDiv : UInt64 := 512

/-- `toWordSize`: the words that hold `size` bytes, rounded up. -/
def toWordSize (size : UInt64) : UInt64 :=
  if size > MaxUint64 - 31 then MaxUint64 / 32 + 1 else (size + 31) / 32

def memoryGasCost (mem : Memory) (newMemSize : UInt64) : Except GasError (UInt64 × Memory) :=
  if newMemSize = 0 then .ok (0, mem)
  -- the highest size that does not overflow the fee, by the comment in Go
  else if newMemSize > 0xffffffffe0 then .error .errGasUintOverflow
  else
    let newMemSizeWords := toWordSize newMemSize
    let newMemSize := newMemSizeWords * 32
    if newMemSize > UInt64.ofNat mem.Len then
      let square := newMemSizeWords * newMemSizeWords
      let linCoef := newMemSizeWords * MemoryGas
      let quadCoef := square / QuadCoeffDiv
      let newTotalFee := linCoef + quadCoef
      let fee := newTotalFee - mem.lastGasCost
      .ok (fee, { mem with lastGasCost := newTotalFee })
    else .ok (0, mem)

/-- `math.SafeMul`: the wrapped product and whether it overflowed. -/
def SafeMul (x y : UInt64) : UInt64 × Bool :=
  if x = 0 ∨ y = 0 then (0, false) else (x * y, decide (y > MaxUint64 / x))

/-- The memory size `Run` hands to the gas function for an operation whose
`memorySize` is `memSize`: `bigUint64` refuses a size of more than 64 bits,
then the size is rounded up to words with an overflow check. -/
def runMemorySize (memSize : Nat) : Except GasError UInt64 :=
  if 2 ^ 64 ≤ memSize then .error .errGasUintOverflow
  else
    match SafeMul (toWordSize (UInt64.ofNat memSize)) 32 with
    | (_, true) => .error .errGasUintOverflow
    | (memorySize, false) => .ok memorySize

/-- The fee of a memory of `w` words, over the naturals. -/
def memoryFee (w : Nat) : Nat := 3 * w + w * w / 512

/-! ## Words -/

theorem toWordSize_toNat (size : UInt64) (fits : size.toNat ≤ 2 ^ 64 - 32) :
    (toWordSize size).toNat = (size.toNat + 31) / 32 := by
  have notTop : ¬ size > MaxUint64 - 31 := by
    simp only [gt_iff_lt, UInt64.lt_iff_toNat_lt, MaxUint64]
    simp
    omega
  rw [toWordSize, if_neg notTop, UInt64.toNat_div, UInt64.toNat_add]
  simp
  omega

theorem toWordSize_words (w : Nat) (fits : 32 * w < 2 ^ 64) : toWordSize (UInt64.ofNat (32 * w)) = UInt64.ofNat w := by
  apply UInt64.toNat_inj.mp
  rw [toWordSize_toNat _ (by simp; omega)]
  simp
  omega

theorem runMemorySize_words (w : Nat) (live : 0 < w) (fits : w < 2 ^ 59) :
    runMemorySize (32 * w) = .ok (UInt64.ofNat (32 * w)) := by
  have words := toWordSize_words w (by omega)
  have noOverflow : ¬ (32 : UInt64) > MaxUint64 / UInt64.ofNat w := by
    simp only [gt_iff_lt, UInt64.lt_iff_toNat_lt, UInt64.toNat_div, MaxUint64]
    simp
    rw [Nat.mod_eq_of_lt (by omega)]
    have : 32 * w ≤ 2 ^ 64 - 1 := by omega
    have : 32 ≤ (2 ^ 64 - 1) / w := (Nat.le_div_iff_mul_le live).mpr (by omega)
    omega
  have nonzero : UInt64.ofNat w ≠ 0 := by
    intro zero
    have := congrArg UInt64.toNat zero
    simp at this
    omega
  have product : UInt64.ofNat w * 32 = UInt64.ofNat (32 * w) := by
    apply UInt64.toNat_inj.mp
    simp
    omega
  rw [runMemorySize, if_neg (by omega), words, SafeMul, if_neg (by simp [nonzero]), decide_eq_false noOverflow,
    product]

/-! ## The fee -/

theorem totalFee_toNat (words : UInt64) (small : words.toNat < 2 ^ 32) :
    (words * MemoryGas + words * words / QuadCoeffDiv).toNat = memoryFee words.toNat := by
  have square : words.toNat * words.toNat < 2 ^ 64 := by
    calc words.toNat * words.toNat < 2 ^ 32 * 2 ^ 32 := Nat.mul_lt_mul'' small small
      _ = 2 ^ 64 := by norm_num
  rw [UInt64.toNat_add, UInt64.toNat_mul, UInt64.toNat_div, UInt64.toNat_mul]
  simp only [MemoryGas, QuadCoeffDiv, UInt64.reduceToNat, memoryFee]
  have linear : words.toNat * 3 < 2 ^ 35 := by omega
  have quadratic : words.toNat * words.toNat / 512 < 2 ^ 55 := by omega
  rw [Nat.mod_eq_of_lt square, Nat.mod_eq_of_lt (by omega : words.toNat * 3 < 2 ^ 64),
    Nat.mod_eq_of_lt (by omega : words.toNat * 3 + words.toNat * words.toNat / 512 < 2 ^ 64)]
  ring

theorem memoryFee_mono (a b : Nat) (le : a ≤ b) : memoryFee a ≤ memoryFee b := by
  have square : a * a ≤ b * b := Nat.mul_le_mul le le
  have quadratic : a * a / 512 ≤ b * b / 512 := Nat.div_le_div_right square
  unfold memoryFee
  omega

/-- Up to `2 ^ 32 - 1` words, from a memory of whole words whose fee has been
charged: no fee for a size the memory already has, and otherwise the exact
difference of the two fees, which becomes the fee charged. -/
theorem memoryGasCost_exact (mem : Memory) (newMemSize : UInt64) (whole : mem.Len % 32 = 0)
    (paid : mem.lastGasCost.toNat = memoryFee (mem.Len / 32)) (fitsLen : mem.Len < 2 ^ 64)
    (small : newMemSize.toNat < 2 ^ 37 - 31) :
    memoryGasCost mem newMemSize =
      if 32 * ((newMemSize.toNat + 31) / 32) ≤ mem.Len then .ok (0, mem)
      else .ok (UInt64.ofNat (memoryFee ((newMemSize.toNat + 31) / 32) - memoryFee (mem.Len / 32)),
        { mem with lastGasCost := UInt64.ofNat (memoryFee ((newMemSize.toNat + 31) / 32)) }) := by
  by_cases zero : newMemSize = 0
  · subst zero
    simp [memoryGasCost]
  · have admitted : ¬ newMemSize > 0xffffffffe0 := by
      simp only [gt_iff_lt, UInt64.lt_iff_toNat_lt, UInt64.reduceToNat]
      omega
    have wordsIs := toWordSize_toNat newMemSize (by omega)
    have bytesIs : (toWordSize newMemSize * 32).toNat = 32 * ((newMemSize.toNat + 31) / 32) := by
      rw [UInt64.toNat_mul, wordsIs]
      simp
      omega
    have grows : toWordSize newMemSize * 32 > UInt64.ofNat mem.Len ↔
        ¬ 32 * ((newMemSize.toNat + 31) / 32) ≤ mem.Len := by
      simp only [gt_iff_lt, UInt64.lt_iff_toNat_lt, bytesIs, UInt64.toNat_ofNat', Nat.mod_eq_of_lt fitsLen]
      omega
    rw [memoryGasCost, if_neg zero, if_neg admitted]
    dsimp only
    split_ifs with expands above above
    · exact absurd above (grows.mp expands)
    · -- the memory grows: the fee charged so far is that of fewer words
      have total := totalFee_toNat (toWordSize newMemSize) (by omega)
      rw [wordsIs] at total
      have charged : memoryFee (mem.Len / 32) ≤ memoryFee ((newMemSize.toNat + 31) / 32) :=
        memoryFee_mono _ _ (by omega)
      have feeFits : memoryFee ((newMemSize.toNat + 31) / 32) < 2 ^ 64 := total ▸ UInt64.toNat_lt _
      have fee : toWordSize newMemSize * MemoryGas + toWordSize newMemSize * toWordSize newMemSize / QuadCoeffDiv -
          mem.lastGasCost = UInt64.ofNat (memoryFee ((newMemSize.toNat + 31) / 32) - memoryFee (mem.Len / 32)) := by
        apply UInt64.toNat_inj.mp
        rw [UInt64.toNat_sub_of_le _ _ (UInt64.le_iff_toNat_le.mpr (by omega)), total, paid, UInt64.toNat_ofNat',
          Nat.mod_eq_of_lt (by omega)]
      have recorded : toWordSize newMemSize * MemoryGas + toWordSize newMemSize * toWordSize newMemSize / QuadCoeffDiv =
          UInt64.ofNat (memoryFee ((newMemSize.toNat + 31) / 32)) := by
        apply UInt64.toNat_inj.mp
        rw [total, UInt64.toNat_ofNat', Nat.mod_eq_of_lt feeFits]
      rw [fee, recorded]
    · rfl
    · exact absurd (grows.mpr above) expands

/-- From `2 ^ 32` words on, up to the largest size admitted, the square of
the word count wraps: an expansion of empty memory, by a size `Run` passes on,
is charged less than the fee of the words it gets. -/
theorem memoryGasCost_square_wraps (mem : Memory) (w : Nat) (empty : mem.Len = 0) (unpaid : mem.lastGasCost = 0)
    (large : 2 ^ 32 ≤ w) (admitted : w < 2 ^ 35) :
    runMemorySize (32 * w) = .ok (UInt64.ofNat (32 * w)) ∧
      memoryGasCost mem (UInt64.ofNat (32 * w)) =
        .ok (UInt64.ofNat (3 * w + w * w % 2 ^ 64 / 512),
          { mem with lastGasCost := UInt64.ofNat (3 * w + w * w % 2 ^ 64 / 512) }) ∧
      3 * w + w * w % 2 ^ 64 / 512 < memoryFee w - memoryFee (mem.Len / 32) := by
  have sizeIs : (UInt64.ofNat (32 * w)).toNat = 32 * w := by
    rw [UInt64.toNat_ofNat', Nat.mod_eq_of_lt (by omega)]
  have live : UInt64.ofNat (32 * w) ≠ 0 := by
    intro zero
    have := congrArg UInt64.toNat zero
    rw [sizeIs] at this
    simp at this
    omega
  have notRefused : ¬ UInt64.ofNat (32 * w) > 0xffffffffe0 := by
    simp only [gt_iff_lt, UInt64.lt_iff_toNat_lt, sizeIs, UInt64.reduceToNat]
    omega
  have grows : UInt64.ofNat w * 32 > UInt64.ofNat mem.Len := by
    simp only [gt_iff_lt, UInt64.lt_iff_toNat_lt, UInt64.toNat_mul, UInt64.toNat_ofNat', empty]
    simp
    omega
  -- the square wraps at least once
  have wide : 2 ^ 64 ≤ w * w := by
    calc 2 ^ 64 = 2 ^ 32 * 2 ^ 32 := by norm_num
      _ ≤ w * w := Nat.mul_le_mul large large
  have wrapped : w * w % 2 ^ 64 + 2 ^ 64 ≤ w * w := by
    have split := Nat.mod_add_div (w * w) (2 ^ 64)
    have once : 1 ≤ w * w / 2 ^ 64 := (Nat.le_div_iff_mul_le (by norm_num)).mpr (by omega)
    have : 2 ^ 64 ≤ 2 ^ 64 * (w * w / 2 ^ 64) := Nat.le_mul_of_pos_right _ once
    omega
  have charged : UInt64.ofNat w * MemoryGas + UInt64.ofNat w * UInt64.ofNat w / QuadCoeffDiv =
      UInt64.ofNat (3 * w + w * w % 2 ^ 64 / 512) := by
    apply UInt64.toNat_inj.mp
    simp only [UInt64.toNat_add, UInt64.toNat_mul, UInt64.toNat_div, UInt64.toNat_ofNat', MemoryGas, QuadCoeffDiv,
      UInt64.reduceToNat]
    rw [Nat.mod_eq_of_lt (by omega : w < 2 ^ 64)]
    have quadratic : w * w % 2 ^ 64 / 512 < 2 ^ 55 := by omega
    rw [Nat.mod_eq_of_lt (by omega : w * 3 < 2 ^ 64), Nat.mod_eq_of_lt (by omega : w * 3 + w * w % 2 ^ 64 / 512 < 2 ^ 64),
      Nat.mod_eq_of_lt (by omega : 3 * w + w * w % 2 ^ 64 / 512 < 2 ^ 64), Nat.mul_comm w 3]
  refine ⟨runMemorySize_words w (by omega) (by omega), ?_, ?_⟩
  · rw [memoryGasCost, if_neg live, if_neg notRefused]
    dsimp only
    rw [toWordSize_words w (by omega), if_pos grows, charged, unpaid, UInt64.sub_zero]
  · rw [empty, Nat.zero_div, memoryFee, memoryFee]
    omega

theorem memoryGasCost_undercharges_empty_memory :
    (⟨[], 0⟩ : Memory).Len = 0 ∧ (2 ^ 32 ≤ 2 ^ 32 ∧ 2 ^ 32 < 2 ^ 35) ∧
      runMemorySize (32 * 2 ^ 32) = .ok (UInt64.ofNat (32 * 2 ^ 32)) ∧
      memoryGasCost ⟨[], 0⟩ (UInt64.ofNat (32 * 2 ^ 32)) =
        .ok (UInt64.ofNat (3 * 2 ^ 32 + 2 ^ 32 * 2 ^ 32 % 2 ^ 64 / 512),
          { (⟨[], 0⟩ : Memory) with lastGasCost := UInt64.ofNat (3 * 2 ^ 32 + 2 ^ 32 * 2 ^ 32 % 2 ^ 64 / 512) }) ∧
      3 * 2 ^ 32 + 2 ^ 32 * 2 ^ 32 % 2 ^ 64 / 512 < memoryFee (2 ^ 32) - memoryFee ((⟨[], 0⟩ : Memory).Len / 32) :=
  ⟨rfl, ⟨le_rfl, by omega⟩, memoryGasCost_square_wraps ⟨[], 0⟩ (2 ^ 32) rfl rfl le_rfl (by omega)⟩

end TurboGeth.Vm
