import Mathlib.Data.Nat.Bitwise
import Mathlib.Data.List.Basic
import TurboGeth.Lib.Rlp

/-!
# Bits of byte strings

A byte string read as a bit vector, most significant bit first within each
byte: bit `i` is bit `7 - i % 8` of byte `i / 8` (`msbBit`).  Code sets such
bits by or-ing a mask into one byte, the mask built by shifting `0x80`,
`0xFF` or `1`; the lemmas say which bits each such write sets, so that a
loop of writes can be followed bit by bit.  The same bytes read as a
big-endian number number their bits the other way, from the least
significant bit of the last byte (`testBit_bigEndian`).
-/

set_option autoImplicit false

namespace ByteBits

/-- Bit `i` of a byte string, most significant bit of byte 0 first; bits
past the end read as zero. -/
def msbBit (bs : List UInt8) (i : Nat) : Bool :=
  (bs.getD (i / 8) 0).toNat.testBit (7 - i % 8)

theorem getD_modify {α : Type} (l : List α) (f : α → α) (j n : Nat) (d : α) :
    (l.modify j f).getD n d = if j = n ∧ n < l.length then f (l.getD n d) else l.getD n d := by
  simp only [List.getD_eq_getElem?_getD, List.getElem?_modify]
  by_cases inside : n < l.length
  · simp only [List.getElem?_eq_getElem inside, Option.map_eq_map, Option.map_some, Option.getD_some]
    by_cases same : j = n <;> simp [same, inside]
  · simp [inside]

theorem testBit_or_byte (x m : UInt8) (i : Nat) :
    (x ||| m).toNat.testBit i = (x.toNat.testBit i || m.toNat.testBit i) := by
  simp [UInt8.toNat_or, Nat.testBit_or]

theorem msbBit_modify_or (bs : List UInt8) (j : Nat) (m : UInt8) (inside : j < bs.length) (i : Nat) :
    msbBit (bs.modify j (· ||| m)) i = (msbBit bs i || (i / 8 == j && m.toNat.testBit (7 - i % 8))) := by
  unfold msbBit
  rw [getD_modify]
  by_cases same : j = i / 8
  · rw [if_pos ⟨same, same ▸ inside⟩, testBit_or_byte]
    subst same
    simp
  · rw [if_neg (fun h => same h.1)]
    have other : (i / 8 == j) = false := beq_eq_false_iff_ne.mpr (Ne.symm same)
    simp [other]

@[simp] theorem msbBit_replicate_zero (n i : Nat) : msbBit (List.replicate n 0) i = false := by
  unfold msbBit
  rw [List.getD_eq_getElem?_getD, List.getElem?_replicate]
  split <;> simp

theorem msbBit_past_end (bs : List UInt8) (i : Nat) (past : 8 * bs.length ≤ i) : msbBit bs i = false := by
  unfold msbBit
  rw [List.getD_eq_default _ _ (by omega)]
  simp

theorem getD_ne_zero_of_msbBit (bs : List UInt8) (i : Nat) (set : msbBit bs i = true) : bs.getD (i / 8) 0 ≠ 0 := by
  intro zero
  unfold msbBit at set
  rw [zero] at set
  simp at set

theorem testBit_byte_high (b : UInt8) (k : Nat) (high : 8 ≤ k) : b.toNat.testBit k = false :=
  Nat.testBit_lt_two_pow (lt_of_lt_of_le b.toNat_lt (Nat.pow_le_pow_right (by decide) high))

theorem msbBit_ext (a b : List UInt8) (sameLength : a.length = b.length)
    (sameBits : ∀ i, msbBit a i = msbBit b i) : a = b := by
  apply List.ext_getElem sameLength
  intro j inA inB
  apply UInt8.toNat_inj.mp
  apply Nat.eq_of_testBit_eq
  intro k
  by_cases low : k < 8
  · -- bit `k` of byte `j` is bit `8 * j + 7 - k` of the string
    have same := sameBits (8 * j + (7 - k))
    unfold msbBit at same
    rw [show (8 * j + (7 - k)) / 8 = j by omega, show 7 - (8 * j + (7 - k)) % 8 = k by omega,
      List.getD_eq_getElem _ _ inA, List.getD_eq_getElem _ _ inB] at same
    exact same
  · rw [testBit_byte_high _ k (by omega), testBit_byte_high _ k (by omega)]

/-! ## Masks

Each mask is a constant shifted by a bit count below 8; over `Fin 8` the
facts are small closed computations. -/

section Masks

variable (k i : Nat) (hk : k < 8) (hi : i < 8)
include hk hi

theorem testBit_0x80_shiftRight :
    ((0x80 : UInt8) >>> UInt8.ofNat k).toNat.testBit (7 - i) = decide (i = k) := by
  have table : ∀ k i : Fin 8,
      ((0x80 : UInt8) >>> UInt8.ofNat k.val).toNat.testBit (7 - i.val) = decide (i = k) := by
    decide
  simpa [Fin.ext_iff] using table ⟨k, hk⟩ ⟨i, hi⟩

theorem testBit_0xFF_shiftRight :
    ((0xFF : UInt8) >>> UInt8.ofNat k).toNat.testBit (7 - i) = decide (k ≤ i) := by
  have table : ∀ k i : Fin 8,
      ((0xFF : UInt8) >>> UInt8.ofNat k.val).toNat.testBit (7 - i.val) = decide (k ≤ i) := by
    decide
  simpa [Fin.le_def] using table ⟨k, hk⟩ ⟨i, hi⟩

theorem testBit_not_0xFF_shiftRight :
    (~~~((0xFF : UInt8) >>> UInt8.ofNat k)).toNat.testBit (7 - i) = decide (i < k) := by
  have table : ∀ k i : Fin 8,
      (~~~((0xFF : UInt8) >>> UInt8.ofNat k.val)).toNat.testBit (7 - i.val) = decide (i < k) := by
    decide
  simpa [Fin.lt_def] using table ⟨k, hk⟩ ⟨i, hi⟩

theorem testBit_one_shiftLeft :
    ((1 : UInt8) <<< UInt8.ofNat k).toNat.testBit i = decide (i = k) := by
  have table : ∀ k i : Fin 8, ((1 : UInt8) <<< UInt8.ofNat k.val).toNat.testBit i.val = decide (i = k) := by
    decide
  simpa [Fin.ext_iff] using table ⟨k, hk⟩ ⟨i, hi⟩

end Masks

theorem and_single_bit_ne_zero (b m : UInt8) (k : Nat) (single : m.toNat = 2 ^ k) :
    ((b &&& m) != 0) = b.toNat.testBit k := by
  have masked : (b &&& m).toNat = (b.toNat.testBit k).toNat * 2 ^ k := by
    rw [UInt8.toNat_and, single, Nat.and_two_pow]
  cases bit : b.toNat.testBit k
  · have zero : b &&& m = 0 := UInt8.toNat_inj.mp (by simp [masked, bit])
    simp [zero]
  · have live : b &&& m ≠ 0 := by
      intro zero
      have := congrArg UInt8.toNat zero
      rw [masked, bit] at this
      simp at this
    simpa using live

theorem and_0x80_shiftRight_eq_zero (b : UInt8) (k : Nat) (hk : k < 8) :
    ((b &&& ((0x80 : UInt8) >>> UInt8.ofNat k)) == 0) = !b.toNat.testBit (7 - k) := by
  have table : ∀ k : Fin 8, ((0x80 : UInt8) >>> UInt8.ofNat k.val).toNat = 2 ^ (7 - k.val) := by
    decide
  rw [← and_single_bit_ne_zero b _ (7 - k) (table ⟨k, hk⟩), bne, Bool.not_not]

theorem and_one_shiftLeft_ne_zero (b : UInt8) (k : Nat) (hk : k < 8) :
    ((b &&& ((1 : UInt8) <<< UInt8.ofNat k)) != 0) = b.toNat.testBit k := by
  have table : ∀ k : Fin 8, ((1 : UInt8) <<< UInt8.ofNat k.val).toNat = 2 ^ k.val := by
    decide
  exact and_single_bit_ne_zero b _ k (table ⟨k, hk⟩)

/-! ## Big-endian numbers -/

theorem testBit_bigEndian (bs : List UInt8) (i : Nat) :
    (Rlp.bigEndian bs).testBit i = (decide (i < 8 * bs.length) && (bs.getD (bs.length - 1 - i / 8) 0).toNat.testBit (i % 8)) := by
  induction bs using List.reverseRecOn generalizing i with
  | nil => simp
  | append_singleton bs b ih =>
    have shifted : Rlp.bigEndian (bs ++ [b]) = 2 ^ 8 * Rlp.bigEndian bs + b.toNat := by
      rw [Rlp.bigEndian_append_singleton]
      ring
    rw [shifted, Nat.testBit_two_pow_mul_add _ b.toNat_lt]
    by_cases low : i < 8
    · have last : (bs ++ [b]).length - 1 - i / 8 = bs.length := by simp; omega
      rw [if_pos low, last, List.getD_append_right _ _ _ _ (le_refl _), Nat.sub_self, Nat.mod_eq_of_lt low]
      simp
      omega
    · have earlier : (bs ++ [b]).length - 1 - i / 8 = bs.length - 1 - (i - 8) / 8 := by simp; omega
      have inside : i < 8 * (bs ++ [b]).length → bs.length - 1 - (i - 8) / 8 < bs.length := by simp; omega
      rw [if_neg low, ih, earlier, show (i - 8) % 8 = i % 8 by omega]
      by_cases fits : i < 8 * (bs ++ [b]).length
      · rw [List.getD_append _ _ _ _ (inside fits)]
        simp only [List.length_append, List.length_singleton] at fits
        simp [fits, show i - 8 < 8 * bs.length by omega]
      · simp only [List.length_append, List.length_singleton] at fits
        simp [fits, show ¬ i - 8 < 8 * bs.length by omega]

theorem bigEndian_append (a b : List UInt8) :
    Rlp.bigEndian (a ++ b) = Rlp.bigEndian a * 256 ^ b.length + Rlp.bigEndian b := by
  rw [Rlp.bigEndian, List.foldl_append, Rlp.foldl_bigEndian]
  rfl

theorem bigEndian_replicate_zero (n : Nat) : Rlp.bigEndian (List.replicate n 0) = 0 := by
  induction n with
  | zero => rfl
  | succ n ih => rw [List.replicate_succ, Rlp.bigEndian_cons, ih]; simp

/-! ## Numbers built by or -/

theorem testBit_foldl_of_step {α : Type} (step : Nat → α → Nat) (P : α → Nat → Bool)
    (hstep : ∀ acc a i, (step acc a).testBit i = (acc.testBit i || P a i)) (l : List α) (init i : Nat) :
    (l.foldl step init).testBit i = (init.testBit i || l.any (P · i)) := by
  induction l generalizing init with
  | nil => simp
  | cons a rest ih => rw [List.foldl_cons, ih, hstep, List.any_cons, Bool.or_assoc]

end ByteBits
