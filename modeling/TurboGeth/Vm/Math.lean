import TurboGeth.Lib.IntBits
import TurboGeth.Vm.WordSpec

/-!
# 256-bit words in big integers

`common/math/big.go`.  The interpreter keeps its words in `big.Int`s and
reads them as words through `U256`, which keeps the low 256 bits in place,
and `S256`, which reads a word as a two's-complement number.  `Exp` raises to
a power by squaring over the 64-bit words of the exponent, truncating after
every product; `Byte` picks a byte of a word through the same words.

A `big.Int` is an `Int`, with the two's-complement bitwise operations of
`Int.land` and its kin.  Its `Bits()`, the little-endian words of its
magnitude, are the digits of the magnitude in base `2^64`: words are 64 bits
wide, as on the 64-bit platforms the client is built for.  The lemmas read
each function as an operation on words (`bigOf`, `wordOf`).
-/

set_option autoImplicit false

namespace TurboGeth.Vm

def tt255 : Int := 2 ^ 255
def tt256 : Int := 2 ^ 256
def tt256m1 : Int := 2 ^ 256 - 1

/-- `wordBits` of a `big.Word`, and `wordBytes`. -/
def wordBits : Nat := 64
def wordBytes : Nat := wordBits / 8

/-- `x.Bits()`: the little-endian words of the magnitude. -/
def bits (x : Int) : List Nat := Nat.digits (2 ^ wordBits) x.natAbs

/-- `U256`: `x.And(x, tt256m1)`. -/
def U256 (x : Int) : Int := Int.land x tt256m1

/-- `S256`: a word read as a two's-complement number. -/
def S256 (x : Int) : Int := if x < tt255 then x else x - tt256

/-- The inner loop of `Exp` over the bits of one word of the exponent, least
significant first: a set bit multiplies the base into the result, and the
base is squared. -/
def expWord (word : Nat) : Nat → Int × Int → Int × Int
  | 0, acc => acc
  | i + 1, (result, base) =>
    let result := if word &&& 1 = 1 then U256 (result * base) else result
    expWord (word >>> 1) i (result, U256 (base * base))

/-- `Exp`: the result starts at one and runs through every word of the
exponent. -/
def Exp (base exponent : Int) : Int :=
  ((bits exponent).foldl (fun acc word => expWord word wordBits acc) (1, base)).1

/-- `bigEndianByteAt`: byte `n`, the least significant first. -/
def bigEndianByteAt (bigint : Int) (n : Nat) : UInt8 :=
  let words := bits bigint
  let i := n / wordBytes
  if i ≥ words.length then 0
  else
    let word := words.getD i 0
    let shift := 8 * (n % wordBytes)
    UInt8.ofNat (word >>> shift)

/-- `Byte`: byte `n` of a number `padlength` bytes long, the most
significant first. -/
def Byte (bigint : Int) (padlength n : Nat) : UInt8 :=
  if n ≥ padlength then 0 else bigEndianByteAt bigint (padlength - 1 - n)

/-! ## Words and the big integers that hold them -/

theorem bigOf_nonneg (w : Word) : 0 ≤ bigOf w := Int.natCast_nonneg _

theorem bigOf_lt (w : Word) : bigOf w < 2 ^ 256 := by
  have := w.isLt
  unfold bigOf
  omega

@[simp] theorem bigOf_zero : bigOf 0#256 = 0 := rfl

@[simp] theorem bigOf_one : bigOf 1 = 1 := rfl

theorem bigOf_inj {a b : Word} : bigOf a = bigOf b ↔ a = b := by
  rw [bigOf, bigOf, Int.natCast_inj, BitVec.toNat_inj]

theorem bigOf_eq_zero {w : Word} : bigOf w = 0 ↔ w = 0 := by
  rw [← bigOf_zero, bigOf_inj]
  exact Iff.rfl

theorem wordOf_bigOf (w : Word) : wordOf (bigOf w) = w := by
  simp [wordOf, bigOf]

@[simp] theorem bigOf_toNat (w : Word) : (bigOf w).toNat = w.toNat := Int.toNat_natCast _

@[simp] theorem bigOf_natAbs (w : Word) : (bigOf w).natAbs = w.toNat := Int.natAbs_natCast _

theorem bigOf_lt_iff {a b : Word} : bigOf a < bigOf b ↔ a < b := by
  rw [bigOf, bigOf, Int.ofNat_lt, BitVec.lt_def]

theorem bigOf_ite (p : Prop) [Decidable p] : bigOf (if p then 1 else 0) = if p then 1 else 0 := by
  split <;> rfl

theorem bigOf_udiv (a b : Word) : bigOf (a / b) = bigOf a / bigOf b := by
  rw [bigOf, BitVec.toNat_udiv, Int.natCast_div]
  rfl

theorem bigOf_umod (a b : Word) : bigOf (a % b) = bigOf a % bigOf b := by
  rw [bigOf, BitVec.toNat_umod, Int.natCast_mod]
  rfl

theorem wordOf_tdiv (a b : Word) : wordOf (a.toInt.tdiv b.toInt) = a.sdiv b :=
  BitVec.eq_of_toInt_eq (by rw [wordOf, BitVec.toInt_ofInt, BitVec.toInt_sdiv])

theorem wordOf_tmod (a b : Word) : wordOf (a.toInt.tmod b.toInt) = a.srem b := by
  rw [wordOf, ← BitVec.toInt_srem, BitVec.ofInt_toInt]

theorem bigOf_wordOf {x : Int} (nonneg : 0 ≤ x) (lt : x < 2 ^ 256) : bigOf (wordOf x) = x := by
  rw [bigOf, wordOf, BitVec.toNat_ofInt, Int.toNat_of_nonneg (by omega)]
  omega

/-! ## `U256` and `S256` -/

theorem U256_eq_emod (x : Int) : U256 x = x % 2 ^ 256 :=
  IntBits.land_two_pow_sub_one x 256

theorem U256_eq_bigOf (x : Int) : U256 x = bigOf (wordOf x) := by
  rw [U256_eq_emod, bigOf, wordOf, BitVec.toNat_ofInt, Int.toNat_of_nonneg (by omega)]
  rfl

theorem U256_of_emod {x : Int} {w : Word} (low : x % 2 ^ 256 = bigOf w) : U256 x = bigOf w := by
  rw [U256_eq_emod, low]

theorem U256_bigOf (w : Word) : U256 (bigOf w) = bigOf w := by
  rw [U256_eq_bigOf, wordOf_bigOf]

theorem U256_lt (x : Int) : U256 x < 2 ^ 256 := by
  rw [U256_eq_emod]
  omega

theorem U256_nonneg (x : Int) : 0 ≤ U256 x := by
  rw [U256_eq_emod]
  omega

theorem U256_land_mask (m : Nat) {bit : Nat} (small : bit < 256) :
    U256 (Int.land m (2 ^ bit - 1)) = ((m % 2 ^ bit : Nat) : Int) := by
  have room : 2 ^ bit ≤ 2 ^ 255 := Nat.pow_le_pow_right (by decide) (by omega)
  have below : m % 2 ^ bit < 2 ^ bit := Nat.mod_lt _ (by positivity)
  rw [IntBits.land_two_pow_sub_one, U256_eq_emod, show (m : Int) % 2 ^ bit = ((m % 2 ^ bit : Nat) : Int) by push_cast; rfl]
  omega

theorem U256_lor_mask (m : Nat) {bit : Nat} (small : bit < 256) :
    U256 (Int.lor m (Int.lnot (2 ^ bit - 1))) = ((2 ^ 256 - 2 ^ bit + m % 2 ^ bit : Nat) : Int) := by
  have room : 2 ^ bit ≤ 2 ^ 255 := Nat.pow_le_pow_right (by decide) (by omega)
  have below : m % 2 ^ bit < 2 ^ bit := Nat.mod_lt _ (by positivity)
  rw [IntBits.lor_lnot_two_pow_sub_one, U256_eq_emod,
    show (m : Int) % 2 ^ bit - 2 ^ bit = ((m % 2 ^ bit : Nat) : Int) - ((2 ^ bit : Nat) : Int) by push_cast; rfl]
  omega

theorem S256_bigOf (w : Word) : S256 (bigOf w) = w.toInt := by
  have := w.isLt
  rw [S256, BitVec.toInt_eq_toNat_cond]
  unfold tt255 tt256 bigOf
  split_ifs <;> omega

/-! ## `Exp` -/

/-- One word of the exponent, read `i` bits deep, multiplies the result by
the base raised to those bits and raises the base to `2^i`, all modulo
`2^256`. -/
theorem expWord_eq (word : Nat) : ∀ (i : Nat) (result base : Int), 0 ≤ result → result < 2 ^ 256 → 0 ≤ base →
    base < 2 ^ 256 →
    expWord word i (result, base) = ((result * base ^ (word % 2 ^ i)) % 2 ^ 256, base ^ 2 ^ i % 2 ^ 256)
  | 0, result, base, _, _, _, _ => by
    simp only [expWord, pow_zero, Nat.mod_one, mul_one, pow_one]
    refine Prod.ext ?_ ?_ <;> dsimp only <;> omega
  | i + 1, result, base, resultNonneg, resultLt, _, _ => by
    generalize stepDef : (if word &&& 1 = 1 then U256 (result * base) else result) = step
    have stepEq : step ≡ result * base ^ (word % 2) [ZMOD 2 ^ 256] := by
      rw [← stepDef, Nat.and_one_is_mod]
      split
      · rename_i odd
        rw [odd, pow_one, U256_eq_emod]
        exact Int.mod_modEq _ _
      · rename_i even
        rw [show word % 2 = 0 by omega, pow_zero, mul_one]
    have squared : U256 (base * base) ≡ base ^ 2 [ZMOD 2 ^ 256] := by
      rw [U256_eq_emod, sq]
      exact Int.mod_modEq _ _
    have stepRange : 0 ≤ step ∧ step < 2 ^ 256 := by
      rw [← stepDef]
      split
      · exact ⟨U256_nonneg _, U256_lt _⟩
      · exact ⟨resultNonneg, resultLt⟩
    have rest := expWord_eq (word >>> 1) i step (U256 (base * base)) stepRange.1 stepRange.2 (U256_nonneg _)
      (U256_lt _)
    -- the low bit of the word, then the bits above it
    have split : word % 2 ^ (i + 1) = word % 2 + 2 * (word >>> 1 % 2 ^ i) := by
      rw [pow_succ', Nat.mod_mul, Nat.shiftRight_one]
    simp only [expWord, stepDef]
    rw [rest]
    refine Prod.ext ?_ ?_
    · show _ ≡ _ [ZMOD 2 ^ 256]
      calc step * U256 (base * base) ^ (word >>> 1 % 2 ^ i)
          ≡ result * base ^ (word % 2) * (base ^ 2) ^ (word >>> 1 % 2 ^ i) [ZMOD 2 ^ 256] :=
            stepEq.mul (squared.pow _)
        _ = result * base ^ (word % 2 ^ (i + 1)) := by rw [split, pow_add, pow_mul, mul_assoc]
    · show _ ≡ _ [ZMOD 2 ^ 256]
      calc U256 (base * base) ^ 2 ^ i
          ≡ (base ^ 2) ^ 2 ^ i [ZMOD 2 ^ 256] := squared.pow _
        _ = base ^ 2 ^ (i + 1) := by rw [← pow_mul, pow_succ']

theorem foldl_expWord : ∀ (words : List Nat) (result base : Int), (∀ word ∈ words, word < 2 ^ wordBits) →
    0 ≤ result → result < 2 ^ 256 → 0 ≤ base → base < 2 ^ 256 →
    (words.foldl (fun acc word => expWord word wordBits acc) (result, base)).1 =
      result * base ^ Nat.ofDigits (2 ^ wordBits) words % 2 ^ 256
  | [], result, base, _, _, _, _, _ => by
    simp only [List.foldl_nil, Nat.ofDigits_nil, pow_zero, mul_one]
    omega
  | word :: words, result, base, small, _, _, _, _ => by
    have low : word % 2 ^ wordBits = word := Nat.mod_eq_of_lt (small word (by simp))
    rw [List.foldl_cons, expWord_eq word wordBits result base (by omega) (by omega) (by omega) (by omega), low,
      foldl_expWord words _ _ (fun word mem => small word (by simp [mem])) (by omega) (by omega) (by omega)
        (by omega)]
    show _ ≡ _ [ZMOD 2 ^ 256]
    calc result * base ^ word % 2 ^ 256 * (base ^ 2 ^ wordBits % 2 ^ 256) ^ Nat.ofDigits (2 ^ wordBits) words
        ≡ result * base ^ word * (base ^ 2 ^ wordBits) ^ Nat.ofDigits (2 ^ wordBits) words [ZMOD 2 ^ 256] :=
          (Int.mod_modEq _ _).mul ((Int.mod_modEq _ _).pow _)
      _ = result * base ^ Nat.ofDigits (2 ^ wordBits) (word :: words) := by
          rw [Nat.ofDigits_cons, pow_add, pow_mul, mul_assoc]

theorem Exp_eq {base : Int} (nonneg : 0 ≤ base) (lt : base < 2 ^ 256) (exponent : Int) :
    Exp base exponent = base ^ exponent.natAbs % 2 ^ 256 := by
  have small : ∀ word ∈ bits exponent, word < 2 ^ wordBits :=
    fun word mem => Nat.digits_lt_base (Nat.one_lt_two_pow (by decide)) mem
  rw [Exp, foldl_expWord _ 1 base small (by decide) (by decide) nonneg lt, bits, Nat.ofDigits_digits, one_mul]

/-! ## `Byte` -/

theorem bigEndianByteAt_eq (x : Int) (n : Nat) : bigEndianByteAt x n = UInt8.ofNat (x.natAbs >>> (8 * n)) := by
  -- past the last word the word read would be zero: both branches read `getD`
  have read : bigEndianByteAt x n = UInt8.ofNat ((bits x).getD (n / wordBytes) 0 >>> (8 * (n % wordBytes))) := by
    unfold bigEndianByteAt
    dsimp only
    split
    · rename_i past
      rw [List.getD_eq_default _ _ past, Nat.zero_shiftRight]
      rfl
    · rfl
  rw [read, bits, Nat.getD_digits _ _ (Nat.le_self_pow (by decide) 2), ← pow_mul, ← Nat.shiftRight_eq_div_pow]
  apply UInt8.toNat.inj
  rw [UInt8.toNat_ofNat', UInt8.toNat_ofNat']
  apply Nat.eq_of_testBit_eq
  intro j
  simp only [Nat.testBit_mod_two_pow, Nat.testBit_shiftRight, wordBits, wordBytes]
  by_cases byte : j < 8
  · have below : 8 * (n % 8) + j < 64 := by omega
    have whole : 64 * (n / 8) + (8 * (n % 8) + j) = 8 * n + j := by omega
    simp [byte, below, whole]
  · simp [byte]

theorem Byte_eq (x : Int) {n : Nat} (inside : n < 32) :
    Byte x 32 n = UInt8.ofNat (x.natAbs >>> (8 * (31 - n))) := by
  rw [Byte, if_neg (by omega), bigEndianByteAt_eq]

end TurboGeth.Vm
