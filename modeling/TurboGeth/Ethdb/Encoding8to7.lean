import TurboGeth.Trie.Encoding

/-!
# Packing bytes into seven bits

`ethdb/encoding.go`: `encode8to7` spreads the bits of a byte string over
bytes that use only their seven low bits and have the top bit set;
`decode7to8` reads the bits back.  Seven input bytes fill eight output bytes:
input byte `7q + k` puts its high `7 - k` bits into the low bits of output
byte `8q + k`, and its low `k + 1` bits into output byte `8q + k + 1`.

Both loops are modelled as Go writes them: `encode8to7` ORs into a buffer of
`0x80`s at the two positions its `switch` names and moves its output index by
eight after every seventh input byte; `decode7to8` builds each output byte
from two input bytes and moves its input index by eight after every seventh.
Go indexes the buffers without a check: here a write past the end is
dropped and a read past the end reads zero, and `encode8to7_writes_inside`
and `decode7to8_reads_inside` show that the loops stay inside.

Over the loops, `packedByte` says what the encoding holds at each position
and `unpack` how the decoder reads a byte back from two positions.  The main
result: for every byte string, decoding the encoding gives it back, the
encoding has `encodingLen8to7 b` bytes, the ceiling of `8 * len b / 7`, and
each of them has its top bit set.
-/

set_option autoImplicit false

namespace TurboGeth.Ethdb

open TurboGeth.Trie

/-! ## The two loops -/

def encodingLen8to7 (b : Bytes) : Nat := (b.length * 8 + 6) / 7

/-- `out[i] |= x`. -/
def orAt (out : Bytes) (i : Nat) (x : UInt8) : Bytes := out.modify i (· ||| x)

/-- One turn of the loop of `encode8to7`: the case `inidx % 7` of the switch
for the input byte `bb`, and the output index after it. -/
def encodeByte (inidx : Nat) (bb : UInt8) (out : Bytes) (outidx : Nat) : Bytes × Nat :=
  match inidx % 7 with
  | 0 => (orAt (orAt out outidx (bb >>> 1)) (outidx + 1) ((bb &&& 0x1) <<< 6), outidx)
  | 1 => (orAt (orAt out (outidx + 1) ((bb >>> 2) &&& 0x3f)) (outidx + 2) ((bb &&& 0x3) <<< 5), outidx)
  | 2 => (orAt (orAt out (outidx + 2) ((bb >>> 3) &&& 0x1f)) (outidx + 3) ((bb &&& 0x7) <<< 4), outidx)
  | 3 => (orAt (orAt out (outidx + 3) ((bb >>> 4) &&& 0xf)) (outidx + 4) ((bb &&& 0xf) <<< 3), outidx)
  | 4 => (orAt (orAt out (outidx + 4) ((bb >>> 5) &&& 0x7)) (outidx + 5) ((bb &&& 0x1f) <<< 2), outidx)
  | 5 => (orAt (orAt out (outidx + 5) ((bb >>> 6) &&& 0x3)) (outidx + 6) ((bb &&& 0x3f) <<< 1), outidx)
  | _ => (orAt (orAt out (outidx + 6) (bb >>> 7)) (outidx + 7) (bb &&& 0x7f), outidx + 8)

/-- The loop of `encode8to7` over the input bytes from `inidx` on. -/
def encodeLoop : Nat → Bytes → Bytes → Nat → Bytes
  | _, [], out, _ => out
  | inidx, bb :: rest, out, outidx =>
    let (out, outidx) := encodeByte inidx bb out outidx
    encodeLoop (inidx + 1) rest out outidx

def encode8to7 (b : Bytes) : Bytes :=
  encodeLoop 0 b (List.replicate ((b.length * 8 + 6) / 7) 0x80) 0

/-- One turn of the loop of `decode7to8`: output byte `outidx`, from input
bytes `inidx + outidx % 7` and the one after, and the input index after it. -/
def decodeByte (b : Bytes) (outidx inidx : Nat) : UInt8 × Nat :=
  match outidx % 7 with
  | 0 => (((b.getD inidx 0 &&& 0x7f) <<< 1) ||| ((b.getD (inidx + 1) 0 >>> 6) &&& 0x1), inidx)
  | 1 => (((b.getD (inidx + 1) 0 &&& 0x3f) <<< 2) ||| ((b.getD (inidx + 2) 0 >>> 5) &&& 0x3), inidx)
  | 2 => (((b.getD (inidx + 2) 0 &&& 0x1f) <<< 3) ||| ((b.getD (inidx + 3) 0 >>> 4) &&& 0x7), inidx)
  | 3 => (((b.getD (inidx + 3) 0 &&& 0xf) <<< 4) ||| ((b.getD (inidx + 4) 0 >>> 3) &&& 0xf), inidx)
  | 4 => (((b.getD (inidx + 4) 0 &&& 0x7) <<< 5) ||| ((b.getD (inidx + 5) 0 >>> 2) &&& 0x1f), inidx)
  | 5 => (((b.getD (inidx + 5) 0 &&& 0x3) <<< 6) ||| ((b.getD (inidx + 6) 0 >>> 1) &&& 0x3f), inidx)
  | _ => (((b.getD (inidx + 6) 0 &&& 0x1) <<< 7) ||| (b.getD (inidx + 7) 0 &&& 0x7f), inidx + 8)

/-- The loop of `decode7to8`: `count` output bytes from `outidx` on. -/
def decodeLoop (b : Bytes) : Nat → Nat → Nat → Bytes
  | 0, _, _ => []
  | count + 1, outidx, inidx =>
    let (x, inidx) := decodeByte b outidx inidx
    x :: decodeLoop b count (outidx + 1) inidx

def decode7to8 (b : Bytes) : Bytes := decodeLoop b (b.length * 7 / 8) 0 0

/-! ## The two halves of an input byte -/

/-- What input byte `7q + k` ORs into output byte `8q + k`: its high
`7 - k` bits. -/
def highPart (k : Nat) (bb : UInt8) : UInt8 :=
  match k with
  | 0 => bb >>> 1
  | 1 => (bb >>> 2) &&& 0x3f
  | 2 => (bb >>> 3) &&& 0x1f
  | 3 => (bb >>> 4) &&& 0xf
  | 4 => (bb >>> 5) &&& 0x7
  | 5 => (bb >>> 6) &&& 0x3
  | _ => bb >>> 7

/-- What input byte `7q + k` ORs into output byte `8q + k + 1`: its low
`k + 1` bits, at the top of the seven. -/
def lowPart (k : Nat) (bb : UInt8) : UInt8 :=
  match k with
  | 0 => (bb &&& 0x1) <<< 6
  | 1 => (bb &&& 0x3) <<< 5
  | 2 => (bb &&& 0x7) <<< 4
  | 3 => (bb &&& 0xf) <<< 3
  | 4 => (bb &&& 0x1f) <<< 2
  | 5 => (bb &&& 0x3f) <<< 1
  | _ => bb &&& 0x7f

theorem encodeByte_eq (inidx : Nat) (bb : UInt8) (out : Bytes) (outidx : Nat) :
    encodeByte inidx bb out outidx =
      (orAt (orAt out (outidx + inidx % 7) (highPart (inidx % 7) bb)) (outidx + inidx % 7 + 1)
        (lowPart (inidx % 7) bb), if inidx % 7 = 6 then outidx + 8 else outidx) := by
  have cases : inidx % 7 = 0 ∨ inidx % 7 = 1 ∨ inidx % 7 = 2 ∨ inidx % 7 = 3 ∨ inidx % 7 = 4 ∨
      inidx % 7 = 5 ∨ inidx % 7 = 6 := by omega
  unfold encodeByte
  rcases cases with k | k | k | k | k | k | k <;> simp [k, highPart, lowPart]

/-- The masks and shifts of the case `k` of `decode7to8`: the low bits of the
first byte, moved up, and the high bits of the second, moved down. -/
def firstMask (k : Nat) : UInt8 := match k with
  | 0 => 0x7f | 1 => 0x3f | 2 => 0x1f | 3 => 0xf | 4 => 0x7 | 5 => 0x3 | _ => 0x1

def secondMask (k : Nat) : UInt8 := match k with
  | 0 => 0x1 | 1 => 0x3 | 2 => 0x7 | 3 => 0xf | 4 => 0x1f | 5 => 0x3f | _ => 0x7f

/-- The byte the case `k` of `decode7to8` reads from the bytes `a` and `c`. -/
def unpack (k : Nat) (a c : UInt8) : UInt8 :=
  ((a &&& firstMask k) <<< UInt8.ofNat (k + 1)) ||| ((c >>> UInt8.ofNat (6 - k)) &&& secondMask k)

theorem decodeByte_eq (b : Bytes) (outidx inidx : Nat) :
    decodeByte b outidx inidx =
      (unpack (outidx % 7) (b.getD (inidx + outidx % 7) 0) (b.getD (inidx + outidx % 7 + 1) 0),
        if outidx % 7 = 6 then inidx + 8 else inidx) := by
  have cases : outidx % 7 = 0 ∨ outidx % 7 = 1 ∨ outidx % 7 = 2 ∨ outidx % 7 = 3 ∨ outidx % 7 = 4 ∨
      outidx % 7 = 5 ∨ outidx % 7 = 6 := by omega
  unfold decodeByte
  rcases cases with k | k | k | k | k | k | k <;> simp [k, unpack, firstMask, secondMask]

theorem highPart_zero (k : Nat) : highPart k 0 = 0 := by
  unfold highPart
  split <;> rfl

theorem lowPart_zero (k : Nat) : lowPart k 0 = 0 := by
  unfold lowPart
  split <;> rfl

/-! ## What the encoding holds -/

/-- The bits that output byte `p` takes from the input byte before its own
in the group; none at the first position of a group. -/
def lowIn (x : Nat → UInt8) (p : Nat) : UInt8 :=
  if p % 8 = 0 then 0 else lowPart (p % 8 - 1) (x (7 * (p / 8) + p % 8 - 1))

/-- The bits that output byte `p` takes from its own input byte; none at the
last position of a group. -/
def highIn (x : Nat → UInt8) (p : Nat) : UInt8 :=
  if p % 8 = 7 then 0 else highPart (p % 8) (x (7 * (p / 8) + p % 8))

/-- Output byte `p` of the encoding of the input `x`, read as zero past its
end. -/
def packedByte (x : Nat → UInt8) (p : Nat) : UInt8 := 0x80 ||| lowIn x p ||| highIn x p

theorem packedByte_update (x : Nat → UInt8) (i : Nat) (bb : UInt8) (unset : x i = 0) (p : Nat) :
    packedByte (Function.update x i bb) p =
      if p = 8 * (i / 7) + i % 7 then packedByte x p ||| highPart (i % 7) bb
      else if p = 8 * (i / 7) + i % 7 + 1 then packedByte x p ||| lowPart (i % 7) bb
      else packedByte x p := by
  have lowOther : (p % 8 ≠ 0 → 7 * (p / 8) + p % 8 - 1 ≠ i) →
      lowIn (Function.update x i bb) p = lowIn x p := by
    intro other
    unfold lowIn
    split_ifs with first
    · rfl
    · rw [Function.update_of_ne (other first)]
  have highOther : (p % 8 ≠ 7 → 7 * (p / 8) + p % 8 ≠ i) →
      highIn (Function.update x i bb) p = highIn x p := by
    intro other
    unfold highIn
    split_ifs with last
    · rfl
    · rw [Function.update_of_ne (other last)]
  split_ifs with high low
  · -- the high half lands at `p`, where the input byte read zero
    have own : 7 * (p / 8) + p % 8 = i := by omega
    have highNew : highIn (Function.update x i bb) p = highPart (i % 7) bb := by
      unfold highIn
      rw [if_neg (by omega), own, Function.update_self, show p % 8 = i % 7 by omega]
    have highOld : highIn x p = 0 := by
      unfold highIn
      rw [if_neg (by omega), own, unset, highPart_zero]
    rw [packedByte, packedByte, lowOther (by omega), highNew, highOld, UInt8.or_zero]
  · -- the low half lands at the position after it
    have own : 7 * (p / 8) + p % 8 - 1 = i := by omega
    have lowNew : lowIn (Function.update x i bb) p = lowPart (i % 7) bb := by
      unfold lowIn
      rw [if_neg (by omega), own, Function.update_self, show p % 8 - 1 = i % 7 by omega]
    have lowOld : lowIn x p = 0 := by
      unfold lowIn
      rw [if_neg (by omega), own, unset, lowPart_zero]
    rw [packedByte, packedByte, lowNew, lowOld, highOther (by omega), UInt8.or_zero, UInt8.or_assoc,
      UInt8.or_assoc, UInt8.or_comm (lowPart _ _)]
  · rw [packedByte, packedByte, lowOther (by omega), highOther (by omega)]

theorem orAt_packed (m : Nat) (x : Nat → UInt8) (i : Nat) (bb : UInt8) (unset : x i = 0) :
    orAt (orAt ((List.range m).map (packedByte x)) (8 * (i / 7) + i % 7) (highPart (i % 7) bb))
        (8 * (i / 7) + i % 7 + 1) (lowPart (i % 7) bb) =
      (List.range m).map (packedByte (Function.update x i bb)) := by
  apply List.ext_getElem
  · simp [orAt]
  · intro p inside _
    simp only [orAt, List.getElem_modify, List.getElem_map, List.getElem_range]
    rw [packedByte_update x i bb unset p]
    split_ifs <;> first | rfl | omega

theorem encodeLoop_packed (m : Nat) :
    ∀ (rest : Bytes) (i outidx : Nat) (x : Nat → UInt8), outidx = 8 * (i / 7) → (∀ j, i ≤ j → x j = 0) →
      encodeLoop i rest ((List.range m).map (packedByte x)) outidx =
        (List.range m).map (packedByte fun j => if j < i then x j else rest.getD (j - i) 0) := by
  intro rest
  induction rest with
  | nil =>
    intro i outidx x _ unset
    have same : (fun j => if j < i then x j else ([] : Bytes).getD (j - i) 0) = x := by
      funext j
      split_ifs with before
      · rfl
      · rw [unset j (by omega)]
        rfl
    rw [encodeLoop, same]
  | cons bb rest ih =>
    intro i outidx x aligned unset
    have next : (if i % 7 = 6 then outidx + 8 else outidx) = 8 * ((i + 1) / 7) := by
      split_ifs <;> omega
    have written := ih (i + 1) _ (Function.update x i bb) next (by
      intro j after
      rw [Function.update_of_ne (by omega), unset j (by omega)])
    have input : (fun j => if j < i + 1 then Function.update x i bb j else rest.getD (j - (i + 1)) 0) =
        fun j => if j < i then x j else (bb :: rest).getD (j - i) 0 := by
      funext j
      by_cases before : j < i
      · rw [if_pos (by omega), if_pos before, Function.update_of_ne (by omega)]
      · by_cases here : j = i
        · subst here
          simp
        · rw [if_neg (by omega), if_neg before, show j - i = j - (i + 1) + 1 by omega]
          rfl
    rw [encodeLoop, encodeByte_eq]
    dsimp only
    rw [aligned, orAt_packed m x i bb (unset i le_rfl), ← aligned, written, input]

theorem encode8to7_eq (b : Bytes) :
    encode8to7 b = (List.range (encodingLen8to7 b)).map (packedByte fun j => b.getD j 0) := by
  have blank : List.replicate ((b.length * 8 + 6) / 7) (0x80 : UInt8) =
      (List.range ((b.length * 8 + 6) / 7)).map (packedByte fun _ => 0) := by
    apply List.ext_getElem
    · simp
    · intro p _ _
      simp [packedByte, lowIn, highIn, highPart_zero, lowPart_zero]
  rw [encode8to7, blank, encodeLoop_packed _ b 0 0 (fun _ => 0) rfl (fun _ _ => rfl)]
  simp [encodingLen8to7]

theorem packed_getD (m : Nat) (f : Nat → UInt8) (p : Nat) (inside : p < m) :
    ((List.range m).map f).getD p 0 = f p := by
  simp [List.getD_eq_getElem?_getD, inside]

theorem encode8to7_length (b : Bytes) : (encode8to7 b).length = encodingLen8to7 b := by
  rw [encode8to7_eq]
  simp

/-! ## What the decoder reads -/

theorem decodeLoop_eq (b : Bytes) :
    ∀ (count outidx inidx : Nat), inidx = 8 * (outidx / 7) →
      decodeLoop b count outidx inidx =
        (List.range' outidx count).map fun o =>
          unpack (o % 7) (b.getD (8 * (o / 7) + o % 7) 0) (b.getD (8 * (o / 7) + o % 7 + 1) 0) := by
  intro count
  induction count with
  | zero => intro outidx inidx _; rfl
  | succ count ih =>
    intro outidx inidx aligned
    have next : (if outidx % 7 = 6 then inidx + 8 else inidx) = 8 * ((outidx + 1) / 7) := by
      split_ifs <;> omega
    rw [decodeLoop, decodeByte_eq]
    dsimp only
    rw [ih (outidx + 1) _ next, List.range'_succ, List.map_cons, aligned]

/-! ## The loops stay inside their buffers -/

/-- Go indexes both buffers without a check; these bounds are what keep the
loops from panicking.  Input byte `i` of `encode8to7` ORs into output bytes
`8 (i / 7) + i % 7` and the one after (`encodeByte_eq`, at the output index
`encodeLoop_packed` keeps), and both are inside the output. -/
theorem encode8to7_writes_inside (b : Bytes) (i : Nat) (inside : i < b.length) :
    8 * (i / 7) + i % 7 + 1 < (encode8to7 b).length := by
  rw [encode8to7_length, encodingLen8to7]
  omega

/-- Output byte `o` of `decode7to8` reads input bytes `8 (o / 7) + o % 7` and
the one after (`decodeLoop_eq`), and both are inside the input. -/
theorem decode7to8_reads_inside (b : Bytes) (o : Nat) (inside : o < (decode7to8 b).length) :
    8 * (o / 7) + o % 7 + 1 < b.length := by
  rw [decode7to8, decodeLoop_eq b _ 0 0 rfl, List.length_map, List.length_range'] at inside
  omega

theorem or_and_byte (a b m : UInt8) : (a ||| b) &&& m = (a &&& m) ||| (b &&& m) := by
  apply UInt8.toBitVec_inj.mp
  simp [BitVec.and_or_distrib_right]

theorem byte_eq_of_getLsbD {a b : UInt8} (bits : ∀ i < 8, a.toBitVec.getLsbD i = b.toBitVec.getLsbD i) :
    a = b :=
  UInt8.eq_of_toBitVec_eq (BitVec.eq_of_getLsbD_eq bits)

/-! The facts below are about one byte each, so they are checked bit by bit,
case by case of the position `k` in the group: each bit of a shifted and
masked byte is a bit of the byte or a constant. -/

section Masks

variable (k : Nat) (small : k < 7)

include small

theorem top_firstMask : (0x80 : UInt8) &&& firstMask k = 0 := by
  interval_cases k <;> decide

theorem top_secondMask : ((0x80 : UInt8) >>> UInt8.ofNat (6 - k)) &&& secondMask k = 0 := by
  interval_cases k <;> decide

theorem highPart_firstMask : ∀ v, highPart k v &&& firstMask k = highPart k v := by
  intro v
  apply byte_eq_of_getLsbD
  intro i below
  interval_cases k <;> interval_cases i <;>
    simp +decide only [highPart, firstMask, UInt8.toBitVec_and, UInt8.toBitVec_shiftRight, UInt8.toBitVec_ofNat,
      BitVec.getLsbD_and, BitVec.getLsbD_ushiftRight, BitVec.ushiftRight_eq', BitVec.getLsbD_ofNat,
      Nat.testBit_eq_decide_div_mod_eq, decide_true, Bool.and_true, BitVec.getLsbD_of_ge]

theorem unpack_halves :
    ∀ v, (highPart k v <<< UInt8.ofNat (k + 1)) ||| ((lowPart k v >>> UInt8.ofNat (6 - k)) &&& secondMask k) = v := by
  intro v
  apply byte_eq_of_getLsbD
  intro i below
  -- bit `i` comes from the high part when `i > k` and from the low part otherwise
  interval_cases k <;> interval_cases i <;>
    simp +decide only [highPart, lowPart, secondMask, UInt8.toBitVec_and, UInt8.toBitVec_or,
      UInt8.toBitVec_shiftLeft, UInt8.toBitVec_shiftRight, UInt8.toBitVec_ofNat, BitVec.getLsbD_and,
      BitVec.getLsbD_or, BitVec.getLsbD_shiftLeft, BitVec.getLsbD_ushiftRight, BitVec.ushiftRight_eq',
      BitVec.shiftLeft_eq', BitVec.getLsbD_ofNat, Nat.testBit_eq_decide_div_mod_eq, decide_true, decide_false,
      UInt8.reduceOfNat, BitVec.reduceMod, BitVec.reduceToNat, Nat.reduceAdd, Nat.reduceSub, Bool.and_true,
      Bool.true_and, Bool.and_false, Bool.false_and, Bool.or_false, Bool.false_or, Bool.not_true, Bool.not_false]

omit small in
theorem lowPart_firstMask (inner : 0 < k) (small : k < 7) : ∀ y, lowPart (k - 1) y &&& firstMask k = 0 := by
  intro y
  apply byte_eq_of_getLsbD
  intro i below
  interval_cases k <;> interval_cases i <;>
    simp +decide only [lowPart, firstMask, UInt8.toBitVec_and, UInt8.toBitVec_shiftLeft, UInt8.toBitVec_ofNat,
      BitVec.getLsbD_and, BitVec.getLsbD_shiftLeft, BitVec.shiftLeft_eq', BitVec.getLsbD_ofNat,
      Nat.testBit_eq_decide_div_mod_eq, decide_true, decide_false, Bool.and_false, Bool.false_and, Bool.not_true]

omit small in
theorem highPart_secondMask (small : k < 6) :
    ∀ z, (highPart (k + 1) z >>> UInt8.ofNat (6 - k)) &&& secondMask k = 0 := by
  intro z
  apply byte_eq_of_getLsbD
  intro i below
  interval_cases k <;> interval_cases i <;>
    simp +decide only [highPart, UInt8.toBitVec_and, UInt8.toBitVec_shiftRight, BitVec.getLsbD_and,
      BitVec.getLsbD_ushiftRight, BitVec.ushiftRight_eq', BitVec.getLsbD_of_ge]

theorem unpack_packed (v L H : UInt8) (lowFree : L &&& firstMask k = 0)
    (highFree : (H >>> UInt8.ofNat (6 - k)) &&& secondMask k = 0) :
    unpack k (0x80 ||| L ||| highPart k v) (0x80 ||| lowPart k v ||| H) = v := by
  rw [unpack, or_and_byte, or_and_byte, top_firstMask k small, lowFree, highPart_firstMask k small,
    UInt8.shiftRight_or, UInt8.shiftRight_or, or_and_byte, or_and_byte, top_secondMask k small, highFree]
  simp only [UInt8.zero_or, UInt8.or_zero]
  exact unpack_halves k small v

end Masks

theorem unpack_encode (b : Bytes) (o : Nat) (inside : o < b.length) :
    unpack (o % 7) ((encode8to7 b).getD (8 * (o / 7) + o % 7) 0) ((encode8to7 b).getD (8 * (o / 7) + o % 7 + 1) 0) =
      b[o] := by
  have small : o % 7 < 7 := Nat.mod_lt o (by decide)
  have fits : 8 * (o / 7) + o % 7 + 1 < encodingLen8to7 b := by
    unfold encodingLen8to7
    omega
  have position : (8 * (o / 7) + o % 7) % 8 = o % 7 ∧ (8 * (o / 7) + o % 7) / 8 = o / 7 := by omega
  have next : (8 * (o / 7) + o % 7 + 1) % 8 = o % 7 + 1 ∧ (8 * (o / 7) + o % 7 + 1) / 8 = o / 7 := by omega
  have own : b.getD (7 * (o / 7) + o % 7) 0 = b[o] := by
    rw [show 7 * (o / 7) + o % 7 = o by omega]
    simp [List.getD_eq_getElem?_getD, inside]
  have high : highIn (fun j => b.getD j 0) (8 * (o / 7) + o % 7) = highPart (o % 7) b[o] := by
    rw [highIn, if_neg (by omega), position.1, position.2, own]
  have low : lowIn (fun j => b.getD j 0) (8 * (o / 7) + o % 7 + 1) = lowPart (o % 7) b[o] := by
    rw [lowIn, if_neg (by omega), next.1, next.2, Nat.add_sub_cancel,
      show 7 * (o / 7) + (o % 7 + 1) - 1 = 7 * (o / 7) + o % 7 by omega, own]
  -- the neighbours' bits sit outside the masks
  have lowFree : lowIn (fun j => b.getD j 0) (8 * (o / 7) + o % 7) &&& firstMask (o % 7) = 0 := by
    unfold lowIn
    split_ifs with first
    · exact UInt8.zero_and
    · rw [position.1]
      exact lowPart_firstMask _ (by omega) small _
  have highFree : (highIn (fun j => b.getD j 0) (8 * (o / 7) + o % 7 + 1) >>> UInt8.ofNat (6 - o % 7)) &&&
      secondMask (o % 7) = 0 := by
    unfold highIn
    split_ifs with last
    · simp
    · rw [next.1]
      exact highPart_secondMask _ (by omega) _
  rw [encode8to7_eq, packed_getD _ _ _ (by omega), packed_getD _ _ _ fits, packedByte, packedByte, high, low]
  exact unpack_packed _ small _ _ _ lowFree highFree

theorem decode7to8_encode8to7 (b : Bytes) : decode7to8 (encode8to7 b) = b := by
  have count : encodingLen8to7 b * 7 / 8 = b.length := by
    unfold encodingLen8to7
    omega
  rw [decode7to8, encode8to7_length, count, decodeLoop_eq _ _ 0 0 rfl]
  apply List.ext_getElem
  · simp
  · intro o inside _
    simp only [List.getElem_map, List.getElem_range', Nat.zero_add, Nat.one_mul]
    exact unpack_encode b o (by simpa using inside)

theorem encode8to7_top_bit (b : Bytes) : ∀ x ∈ encode8to7 b, x &&& 0x80 = 0x80 := by
  have top : ∀ y : UInt8, (0x80 ||| y) &&& 0x80 = 0x80 := by
    intro y
    apply byte_eq_of_getLsbD
    intro i below
    interval_cases i <;>
      simp +decide only [UInt8.toBitVec_and, UInt8.toBitVec_or, UInt8.toBitVec_ofNat, BitVec.getLsbD_and,
        BitVec.getLsbD_or, BitVec.getLsbD_ofNat, Nat.testBit_eq_decide_div_mod_eq, decide_true, decide_false,
        Bool.true_and, Bool.and_false, Bool.true_or]
  rw [encode8to7_eq]
  intro x member
  obtain ⟨p, -, rfl⟩ := List.mem_map.mp member
  rw [packedByte, UInt8.or_assoc]
  exact top _

/-- `decode7to8` inverts `encode8to7` on every byte string; the encoding has
`encodingLen8to7 b` bytes, the least number of seven-bit groups that hold the
bits of `b`, and each of them has its top bit set. -/
theorem encode8to7_round_trip (b : Bytes) :
    decode7to8 (encode8to7 b) = b ∧ (encode8to7 b).length = encodingLen8to7 b ∧
      8 * b.length ≤ 7 * encodingLen8to7 b ∧ 7 * encodingLen8to7 b < 8 * b.length + 7 ∧
      ∀ x ∈ encode8to7 b, x &&& 0x80 = 0x80 := by
  refine ⟨decode7to8_encode8to7 b, encode8to7_length b, ?_, ?_, encode8to7_top_bit b⟩
  · unfold encodingLen8to7
    omega
  · unfold encodingLen8to7
    omega

end TurboGeth.Ethdb
