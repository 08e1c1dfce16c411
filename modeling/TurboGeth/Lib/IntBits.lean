import Mathlib

/-!
# Two's-complement bit operations on integers

Arbitrary-precision integers with two's-complement bitwise operations, as
`Int.land`, `Int.lor` and `Int.lnot` of Mathlib define them: a negative
integer carries infinitely many one bits above its highest zero bit.  A
machine word of `n` bits is read off such an integer by masking with `n` low
ones, which is reduction modulo `2^n`; this file proves that, the
complementary mask used to extend a sign, and the truncated division and
remainder of integers written through their absolute values.
-/

set_option autoImplicit false

namespace IntBits

theorem ldiff_two_pow_sub_one (n m : Nat) : Nat.ldiff (2 ^ n - 1) m = 2 ^ n - (m % 2 ^ n + 1) := by
  apply Nat.eq_of_testBit_eq
  intro i
  rw [Nat.testBit_ldiff, Nat.testBit_two_pow_sub_one,
    Nat.testBit_two_pow_sub_succ (Nat.mod_lt _ (Nat.two_pow_pos n)), Nat.testBit_mod_two_pow]
  by_cases low : i < n <;> simp [low]

theorem two_pow_sub_one_cast (n : Nat) : (2 ^ n - 1 : Int) = ((2 ^ n - 1 : Nat) : Int) := by
  rw [Nat.cast_sub Nat.one_le_two_pow]
  push_cast
  rfl

theorem land_two_pow_sub_one (x : Int) (n : Nat) : Int.land x (2 ^ n - 1) = x % 2 ^ n := by
  rw [two_pow_sub_one_cast]
  have below (m : Nat) : m % 2 ^ n + 1 ≤ 2 ^ n := Nat.mod_lt _ (Nat.two_pow_pos n)
  cases x with
  | ofNat m =>
    show ((m &&& (2 ^ n - 1) : Nat) : Int) = _
    rw [Nat.and_two_pow_sub_one_eq_mod]
    push_cast
    rfl
  | negSucc m =>
    show ((Nat.ldiff (2 ^ n - 1) m : Nat) : Int) = _
    rw [ldiff_two_pow_sub_one, Int.negSucc_emod m (by positivity), Nat.cast_sub (below m)]
    push_cast
    omega

theorem lor_lnot_two_pow_sub_one (m n : Nat) :
    Int.lor m (Int.lnot (2 ^ n - 1)) = (m : Int) % 2 ^ n - 2 ^ n := by
  rw [two_pow_sub_one_cast]
  show Int.negSucc (Nat.ldiff (2 ^ n - 1) m) = _
  have below : m % 2 ^ n + 1 ≤ 2 ^ n := Nat.mod_lt _ (Nat.two_pow_pos n)
  rw [ldiff_two_pow_sub_one, Int.negSucc_eq, Nat.cast_sub below]
  push_cast
  omega

theorem tdiv_eq_abs {x y : Int} (xne : x ≠ 0) (yne : y ≠ 0) :
    x.tdiv y = if x.sign ≠ y.sign then -(|x| / |y|) else |x| / |y| := by
  rw [Int.abs_eq_natAbs, Int.abs_eq_natAbs, ← Int.natCast_div]
  obtain ⟨m, rfl | rfl⟩ := Int.eq_nat_or_neg x <;> obtain ⟨k, rfl | rfl⟩ := Int.eq_nat_or_neg y
  all_goals
    have mpos : m ≠ 0 := by omega
    have kpos : k ≠ 0 := by omega
    simp [Int.sign_natCast_of_ne_zero mpos, Int.sign_natCast_of_ne_zero kpos, Int.tdiv_neg, Int.neg_tdiv]

theorem tmod_eq_abs (x y : Int) : x.tmod y = if x < 0 then -(|x| % |y|) else |x| % |y| := by
  rw [Int.abs_eq_natAbs, Int.abs_eq_natAbs, ← Int.natCast_mod]
  obtain ⟨m, rfl | rfl⟩ := Int.eq_nat_or_neg x
  · -- a non-negative dividend
    rw [if_neg (by omega), Int.natAbs_natCast]
    obtain ⟨k, rfl | rfl⟩ := Int.eq_nat_or_neg y
    · rw [Int.natAbs_natCast, ← Int.ofNat_tmod]
    · rw [Int.tmod_neg, Int.natAbs_neg, Int.natAbs_natCast, ← Int.ofNat_tmod]
  · by_cases zero : m = 0
    · simp [zero]
    · rw [if_pos (by omega), Int.neg_tmod, Int.natAbs_neg, Int.natAbs_natCast]
      obtain ⟨k, rfl | rfl⟩ := Int.eq_nat_or_neg y
      · rw [Int.natAbs_natCast, ← Int.ofNat_tmod]
      · rw [Int.tmod_neg, Int.natAbs_neg, Int.natAbs_natCast, ← Int.ofNat_tmod]

end IntBits
