import TurboGeth.Ethdb.Database
import TurboGeth.Lib.Rlp

/-!
# The timestamp suffix of history keys

`ethdb/encoding.go`: `encodeTimestamp` writes a block number big-endian in
the fewest bytes that leave the top three bits of the first byte free, and
puts the byte count there; `decodeTimestamp` reads the count back from those
bits.  History keys are a key followed by this suffix, so the suffix has to
read back and to sort as the numbers do.

Up to seven bytes both hold: a timestamp below `2 ^ 53` reads back whatever
follows it, and the suffixes of such timestamps sort as the timestamps.  The
eighth byte count does not fit the three bits (`byte(8) << 5` is zero), and
the loop gives up past `2 ^ 61` with an empty suffix: from `2 ^ 53` on the
suffix neither reads back nor sorts after the smaller timestamps.
-/

set_option autoImplicit false

namespace TurboGeth.Ethdb

open TurboGeth.Trie

/-- `decodeTimestamp`: the byte count from the top three bits of the first
byte, the timestamp from its low five bits and the bytes after it.  Go
indexes `suffix` without a check; `none` is where it panics. -/
def decodeTimestamp (suffix : Bytes) : Option (Nat × Bytes) :=
  match suffix with
  | [] => none
  | first :: more =>
    let bytecount := (first >>> 5).toNat
    if bytecount ≤ suffix.length then
      some ((more.take (bytecount - 1)).foldl (fun timestamp b => timestamp * 256 + b.toNat) (first &&& 0x1f).toNat,
        suffix.drop bytecount)
    else none

/-! ## The bytes of a suffix -/

theorem bigEndian_lowBytes (t : Nat) :
    ∀ i, Rlp.bigEndian ((List.range i).reverse.map fun j => UInt8.ofNat (t / 256 ^ j)) = t % 256 ^ i
  | 0 => by simp [Nat.mod_one]
  | i + 1 => by
    have step : t % 256 ^ (i + 1) = t % 256 ^ i + 256 ^ i * (t / 256 ^ i % 256) := Nat.mod_pow_succ
    rw [List.range_succ, List.reverse_append, List.reverse_singleton, List.singleton_append, List.map_cons,
      Rlp.bigEndian_cons, bigEndian_lowBytes t i, List.length_map, List.length_reverse, List.length_range,
      UInt8.toNat_ofNat', step]
    ring

theorem header_toNat (a c : Nat) (low : a < 32) (few : c < 8) :
    (UInt8.ofNat a ||| (UInt8.ofNat c <<< 5)).toNat = a + 32 * c := by
  have shifted : (UInt8.ofNat c <<< 5).toNat = c <<< 5 := by
    simp [UInt8.toNat_shiftLeft, Nat.shiftLeft_eq]
    omega
  rw [UInt8.toNat_or, shifted, UInt8.toNat_ofNat', Nat.mod_eq_of_lt (by omega), Nat.or_comm,
    ← Nat.shiftLeft_add_eq_or_of_lt (by omega : a < 2 ^ 5), Nat.shiftLeft_eq]
  omega

theorem count_toNat (x : UInt8) : (x >>> 5).toNat = x.toNat / 32 := by
  simp [UInt8.toNat_shiftRight, Nat.shiftRight_eq_div_pow]

theorem top_toNat (x : UInt8) : (x &&& 0x1f).toNat = x.toNat % 32 := by
  simp only [UInt8.toNat_and, UInt8.reduceToNat]
  exact Nat.and_two_pow_sub_one_eq_mod x.toNat 5

theorem encodeTimestamp_of_count (t i : Nat) (count : i < 8) (low : t < 32 * 256 ^ i)
    (least : ∀ j < i, 32 * 256 ^ j ≤ t) :
    encodeTimestamp t = (UInt8.ofNat (t / 256 ^ i) ||| (UInt8.ofNat (i + 1) <<< 5)) ::
      (List.range i).reverse.map fun j => UInt8.ofNat (t / 256 ^ j) := by
  have found : (List.range 8).find? (fun i => decide (t < 32 * 256 ^ i)) = some i := by
    rw [List.find?_range_eq_some]
    refine ⟨by simpa using low, List.mem_range.mpr count, fun j below => ?_⟩
    simpa using least j below
  rw [encodeTimestamp, found]

theorem exists_count (t : Nat) (fits : t < 2 ^ 61) :
    ∃ i < 8, t < 32 * 256 ^ i ∧ ∀ j < i, 32 * 256 ^ j ≤ t := by
  have seventh : t < 32 * 256 ^ 7 := by norm_num; omega
  have within : ∃ i, t < 32 * 256 ^ i := ⟨7, seventh⟩
  refine ⟨Nat.find within, ?_, Nat.find_spec within, fun j below => Nat.le_of_not_lt (Nat.find_min within below)⟩
  exact Nat.lt_succ_of_le (Nat.find_min' within seventh)

theorem count_le (t i : Nat) (low : t < 32 * 256 ^ i) (j : Nat) (least : ∀ k < j, 32 * 256 ^ k ≤ t) :
    j ≤ i := by
  by_contra beyond
  have := least i (by omega)
  omega

/-! ## Up to seven bytes -/

theorem top_lt (t i : Nat) (low : t < 32 * 256 ^ i) : t / 256 ^ i < 32 :=
  Nat.div_lt_of_lt_mul (by rw [Nat.mul_comm]; exact low)

theorem bigEndian_encodeTimestamp (t i : Nat) (count : i < 7) (low : t < 32 * 256 ^ i) (least : ∀ j < i, 32 * 256 ^ j ≤ t) :
    Rlp.bigEndian (encodeTimestamp t) = t + 32 * (i + 1) * 256 ^ i := by
  rw [encodeTimestamp_of_count t i (by omega) low least, Rlp.bigEndian_cons, bigEndian_lowBytes,
    header_toNat _ _ (top_lt t i low) (by omega), List.length_map, List.length_reverse, List.length_range]
  have split := Nat.div_add_mod t (256 ^ i)
  rw [Nat.add_mul, Nat.mul_assoc 32]
  nlinarith [split]

theorem short_count (t i : Nat) (small : t < 2 ^ 53) (least : ∀ j < i, 32 * 256 ^ j ≤ t) : i < 7 := by
  have := count_le t 6 (by norm_num; omega) i least
  omega

theorem decodeTimestamp_encodeTimestamp (t : Nat) (small : t < 2 ^ 53) (rest : Bytes) :
    decodeTimestamp (encodeTimestamp t ++ rest) = some (t, rest) := by
  obtain ⟨i, count, low, least⟩ := exists_count t (by omega)
  have short := short_count t i small least
  have top := top_lt t i low
  have header := header_toNat (t / 256 ^ i) (i + 1) top (by omega)
  have bytecount : ((UInt8.ofNat (t / 256 ^ i) ||| (UInt8.ofNat (i + 1) <<< 5)) >>> 5).toNat = i + 1 := by
    rw [count_toNat, header, Nat.add_mul_div_left _ _ (by norm_num : 0 < 32), Nat.div_eq_of_lt top, Nat.zero_add]
  have low5 : ((UInt8.ofNat (t / 256 ^ i) ||| (UInt8.ofNat (i + 1) <<< 5)) &&& 0x1f).toNat = t / 256 ^ i := by
    rw [top_toNat, header, Nat.add_mul_mod_self_left, Nat.mod_eq_of_lt top]
  have lowLength : ((List.range i).reverse.map fun j => UInt8.ofNat (t / 256 ^ j)).length = i := by simp
  rw [encodeTimestamp_of_count t i count low least, List.cons_append, decodeTimestamp]
  rw [bytecount, if_pos (by simp), low5, Nat.add_sub_cancel, List.take_left' lowLength,
    Rlp.foldl_bigEndian, bigEndian_lowBytes, lowLength, List.drop_succ_cons, List.drop_left' lowLength,
    Nat.div_add_mod']

theorem encodeTimestamp_lt (t₁ t₂ : Nat) (lt : t₁ < t₂) (small : t₂ < 2 ^ 53) :
    encodeTimestamp t₁ < encodeTimestamp t₂ := by
  obtain ⟨i₁, count₁, low₁, least₁⟩ := exists_count t₁ (by omega)
  obtain ⟨i₂, count₂, low₂, least₂⟩ := exists_count t₂ (by omega)
  have short₂ := short_count t₂ i₂ small least₂
  have ordered : i₁ ≤ i₂ := count_le t₁ i₂ (by omega) i₁ least₁
  rcases Nat.lt_or_eq_of_le ordered with fewer | same
  · -- fewer bytes: the count in the first byte decides
    rw [encodeTimestamp_of_count t₁ i₁ count₁ low₁ least₁, encodeTimestamp_of_count t₂ i₂ count₂ low₂ least₂]
    apply List.Lex.rel
    have top₁ := top_lt t₁ i₁ low₁
    rw [UInt8.lt_iff_toNat_lt, header_toNat _ _ top₁ (by omega), header_toNat _ _ (top_lt t₂ i₂ low₂) (by omega)]
    generalize t₁ / 256 ^ i₁ = a₁ at top₁ ⊢
    generalize t₂ / 256 ^ i₂ = a₂
    omega
  · -- as many bytes: the suffixes are the timestamps raised by one constant
    subst same
    apply Rlp.lt_of_bigEndian_lt
    · simp [encodeTimestamp_of_count t₁ i₁ count₁ low₁ least₁, encodeTimestamp_of_count t₂ i₁ count₂ low₂ least₂]
    · rw [bigEndian_encodeTimestamp t₁ i₁ short₂ low₁ least₁, bigEndian_encodeTimestamp t₂ i₁ short₂ low₂ least₂]
      omega

theorem encodeTimestamp_lt_iff (t₁ t₂ : Nat) (small₁ : t₁ < 2 ^ 53) (small₂ : t₂ < 2 ^ 53) :
    encodeTimestamp t₁ < encodeTimestamp t₂ ↔ t₁ < t₂ := by
  constructor
  · intro sorted
    by_contra notLess
    rcases Nat.lt_or_eq_of_le (Nat.le_of_not_lt notLess) with greater | same
    · exact List.lt_asymm sorted (encodeTimestamp_lt t₂ t₁ greater small₁)
    · subst same
      exact List.lt_irrefl _ sorted
  · intro lt
    exact encodeTimestamp_lt t₁ t₂ lt small₂

/-! ## From eight bytes on -/

theorem encodeTimestamp_eight (t : Nat) (big : 2 ^ 53 ≤ t) (fits : t < 2 ^ 61) :
    encodeTimestamp t = UInt8.ofNat (t / 256 ^ 7) :: (List.range 7).reverse.map fun j => UInt8.ofNat (t / 256 ^ j) := by
  obtain ⟨i, count, low, least⟩ := exists_count t fits
  have seven : i = 7 := by
    have := count_le t i low 7 (fun j below => ?_)
    · omega
    · calc 32 * 256 ^ j ≤ 32 * 256 ^ 6 := Nat.mul_le_mul_left _ (Nat.pow_le_pow_right (by norm_num) (by omega))
        _ ≤ t := by norm_num; omega
  subst seven
  have dropped : (UInt8.ofNat (7 + 1) <<< 5) = 0 := by decide
  rw [encodeTimestamp_of_count t 7 count low least, dropped, UInt8.or_zero]

example : encodeTimestamp (2 ^ 53) = [0, 32, 0, 0, 0, 0, 0, 0] := by decide

theorem encodeTimestamp_empty (t : Nat) (huge : 2 ^ 61 ≤ t) : encodeTimestamp t = [] := by
  have missing : (List.range 8).find? (fun i => decide (t < 32 * 256 ^ i)) = none := by
    rw [List.find?_eq_none]
    intro i below
    have : 32 * 256 ^ i ≤ 32 * 256 ^ 7 :=
      Nat.mul_le_mul_left _ (Nat.pow_le_pow_right (by norm_num) (by simpa [Nat.lt_succ_iff] using below))
    simp only [decide_eq_true_eq, not_lt]
    omega
  rw [encodeTimestamp, missing]

theorem decodeTimestamp_eight (t : Nat) (big : 2 ^ 53 ≤ t) (fits : t < 2 ^ 61) (rest : Bytes) :
    decodeTimestamp (encodeTimestamp t ++ rest) = some (t / 2 ^ 56, encodeTimestamp t ++ rest) := by
  have top : t / 256 ^ 7 < 32 := Nat.div_lt_of_lt_mul (by norm_num; omega)
  have first : (UInt8.ofNat (t / 256 ^ 7)).toNat = t / 256 ^ 7 := by
    rw [UInt8.toNat_ofNat']
    exact Nat.mod_eq_of_lt (by omega)
  rw [encodeTimestamp_eight t big fits, List.cons_append, decodeTimestamp]
  rw [count_toNat, first, Nat.div_eq_of_lt top, if_pos (Nat.zero_le _), top_toNat, first, Nat.mod_eq_of_lt top]
  simp

theorem decodeTimestamp_ne_self (rest : Bytes) (t : Nat) (big : 32 ≤ t) : decodeTimestamp rest ≠ some (t, rest) := by
  intro read
  cases rest with
  | nil => cases read
  | cons first more =>
    simp only [decodeTimestamp] at read
    split_ifs at read with fits
    simp only [Option.some.injEq, Prod.mk.injEq] at read
    obtain ⟨value, remainder⟩ := read
    by_cases zero : (first >>> 5).toNat = 0
    · rw [zero, top_toNat] at value
      simp only [Nat.zero_sub, List.take_zero, List.foldl_nil] at value
      omega
    · have := congrArg List.length remainder
      simp only [List.length_drop, List.length_cons] at this
      omega

theorem encodeTimestamp_lt_zero (t : Nat) (big : 2 ^ 53 ≤ t) : encodeTimestamp t < encodeTimestamp 0 := by
  have zero : encodeTimestamp 0 = [32] := by decide
  rw [zero]
  by_cases fits : t < 2 ^ 61
  · rw [encodeTimestamp_eight t big fits]
    apply List.Lex.rel
    rw [UInt8.lt_iff_toNat_lt, UInt8.toNat_ofNat']
    have top : t / 256 ^ 7 < 32 := Nat.div_lt_of_lt_mul (by norm_num; omega)
    simp only [UInt8.reduceToNat]
    omega
  · rw [encodeTimestamp_empty t (by omega)]
    exact List.nil_lt_cons _ _

theorem decodeTimestamp_ne_of_big (t : Nat) (big : 2 ^ 53 ≤ t) (rest : Bytes) :
    decodeTimestamp (encodeTimestamp t ++ rest) ≠ some (t, rest) := by
  by_cases fits : t < 2 ^ 61
  · -- eight bytes: the count reads as zero
    rw [decodeTimestamp_eight t big fits rest]
    intro read
    simp only [Option.some.injEq, Prod.mk.injEq] at read
    have smaller : t / 2 ^ 56 < t := Nat.div_lt_self (by omega) (by norm_num)
    omega
  · -- past eight bytes: the suffix is empty
    rw [encodeTimestamp_empty t (by omega)]
    exact decodeTimestamp_ne_self rest t (by omega)

/-! ## The code is not prefix-free and order-preserving -/

/-- From `2 ^ 53` on, a timestamp's suffix does not read back, whatever
follows it, and it sorts before the suffix of block zero. -/
theorem timestamp_suffix_breaks_from_2_pow_53 (t : Nat) (big : 2 ^ 53 ≤ t) :
    (∀ rest, decodeTimestamp (encodeTimestamp t ++ rest) ≠ some (t, rest)) ∧
      encodeTimestamp t < encodeTimestamp 0 :=
  ⟨decodeTimestamp_ne_of_big t big, encodeTimestamp_lt_zero t big⟩

theorem timestamp_suffix_breaks_at_2_pow_53 :
    (∀ rest, decodeTimestamp (encodeTimestamp (2 ^ 53) ++ rest) ≠ some (2 ^ 53, rest)) ∧
      encodeTimestamp (2 ^ 53) < encodeTimestamp 0 :=
  timestamp_suffix_breaks_from_2_pow_53 (2 ^ 53) (le_refl _)

end TurboGeth.Ethdb
