import TurboGeth.Lib.ByteBits
import TurboGeth.Lib.Sparse
import TurboGeth.Lib.ExceptRun

/-!
# Sparse bitset compression

`CompressBytes` and `DecompressBytes` of `common/bitutil/compress.go`, for
data with many zero bytes.  Data of two bytes or more is written as the
compression of the bitset of its non-zero bytes (most significant bit
first), followed by those bytes; data of no non-zero byte as nothing, and a
single byte as itself when it is not zero.  `CompressBytes` keeps the data
as it is unless the compression is shorter, and `DecompressBytes` tells the
two apart by the target length.

The decoder reads the bitset back first, at its own target length, and then
hands the input bytes after it to the set bits in order.  It refuses input
that is not the compression of anything: a set bit with no byte left for it
(`errMissingData`), a set bit past the target (`errExceededTarget`), a zero
byte where a set bit asks for one (`errZeroContent`), and bytes no bit asks
for (`errUnreferencedData`).

Go returns the error with a `nil` output and a size its callers ignore; the
model returns the error alone.  The target is a natural number: Go refuses a
negative target in the first check of `DecompressBytes`.
-/

set_option autoImplicit false

namespace TurboGeth.Bitutil

open ByteBits

/-- The errors of decompression. -/
inductive DecompressError
  /-- "missing bytes on input" -/
  | errMissingData
  /-- "extra bytes on input" -/
  | errUnreferencedData
  /-- "target data size exceeded" -/
  | errExceededTarget
  /-- "zero byte in input content" -/
  | errZeroContent
  deriving DecidableEq, Repr

/-- One pass of the loop of `bitsetEncodeBytes`, over byte `b` at index `i`:
a non-zero byte is gathered and its bit set. -/
def gatherStep (acc : List UInt8 × List UInt8) (bi : UInt8 × Nat) : List UInt8 × List UInt8 :=
  if bi.1 ≠ 0 then
    (acc.1.modify (bi.2 / 8) (· ||| (1 : UInt8) <<< UInt8.ofNat (7 - bi.2 % 8)), acc.2 ++ [bi.1])
  else acc

/-- The loop of `bitsetEncodeBytes`: the bitset of the non-zero bytes of
`data`, and those bytes. -/
def gatherNonZero (data : List UInt8) : List UInt8 × List UInt8 :=
  data.zipIdx.foldl gatherStep (List.replicate ((data.length + 7) / 8) 0, [])

theorem gatherStep_length (acc : List UInt8 × List UInt8) (bi : UInt8 × Nat) :
    (gatherStep acc bi).1.length = acc.1.length := by
  unfold gatherStep
  split <;> simp

theorem foldl_gatherStep_length (pairs : List (UInt8 × Nat)) (acc : List UInt8 × List UInt8) :
    (pairs.foldl gatherStep acc).1.length = acc.1.length := by
  induction pairs generalizing acc with
  | nil => rfl
  | cons bi rest ih => rw [List.foldl_cons, ih, gatherStep_length]

theorem gatherNonZero_fst_length (data : List UInt8) :
    (gatherNonZero data).1.length = (data.length + 7) / 8 := by
  rw [gatherNonZero, foldl_gatherStep_length, List.length_replicate]

def bitsetEncodeBytes (data : List UInt8) : List UInt8 :=
  -- Empty slices get compressed to nil
  if data.length = 0 then []
  -- One byte slices compress to nil or retain the single byte
  else if data.length = 1 then (if data.headD 0 = 0 then [] else data)
  else
    -- Calculate the bitset of set bytes, and gather the non-zero bytes
    let gathered := gatherNonZero data
    if gathered.2.length = 0 then []
    else bitsetEncodeBytes gathered.1 ++ gathered.2
termination_by data.length
decreasing_by
  rw [gatherNonZero_fst_length]
  omega

/-- `CompressBytes`: the compression when it is shorter, the data as it is
otherwise. -/
def CompressBytes (data : List UInt8) : List UInt8 :=
  let out := bitsetEncodeBytes data
  if out.length < data.length then out else data

/-- One pass of the loop of `bitsetDecodePartialBytes`, at bit `i` of the
decompressed bitset: a set bit takes the next input byte into slot `i`. -/
def decodeStep (data nonZeroBitset : List UInt8) (st : List UInt8 × Nat) (i : Nat) :
    Except DecompressError (List UInt8 × Nat) :=
  if nonZeroBitset.getD (i / 8) 0 &&& (1 : UInt8) <<< UInt8.ofNat (7 - i % 8) ≠ 0 then
    -- Make sure we have enough data to push into the correct slot
    if st.2 ≥ data.length then .error .errMissingData
    else if i ≥ st.1.length then .error .errExceededTarget
    -- Make sure the data is valid and push into the slot
    else if data.getD st.2 0 = 0 then .error .errZeroContent
    else .ok (st.1.set i (data.getD st.2 0), st.2 + 1)
  else .ok st

/-- `bitsetDecodePartialBytes`: the decompressed data and how many input
bytes it took. -/
def bitsetDecodePartialBytes (data : List UInt8) (target : Nat) :
    Except DecompressError (List UInt8 × Nat) :=
  -- Sanity check 0 targets to avoid infinite recursion
  if target = 0 then .ok ([], 0)
  else
    -- Handle the zero and single byte corner cases
    let decomp := List.replicate target 0
    if data.length = 0 then .ok (decomp, 0)
    else if target = 1 then
      if data.headD 0 ≠ 0 then .ok ([data.headD 0], 1) else .ok ([data.headD 0], 0)
    else
      -- Decompress the bitset of set bytes and distribute the non zero bytes
      match bitsetDecodePartialBytes data ((target + 7) / 8) with
      | .error err => .error err
      | .ok (nonZeroBitset, ptr) =>
        (List.range (8 * nonZeroBitset.length)).foldlM (decodeStep data nonZeroBitset) (decomp, ptr)
termination_by target
decreasing_by omega

def bitsetDecodeBytes (data : List UInt8) (target : Nat) : Except DecompressError (List UInt8) :=
  match bitsetDecodePartialBytes data target with
  | .error err => .error err
  | .ok (out, size) => if size ≠ data.length then .error .errUnreferencedData else .ok out

/-- `DecompressBytes`: input as long as the target is the data itself. -/
def DecompressBytes (data : List UInt8) (target : Nat) : Except DecompressError (List UInt8) :=
  if data.length > target then .error .errExceededTarget
  else if data.length = target then .ok data
  else bitsetDecodeBytes data target

/-! ## The gathering loop -/

theorem foldl_gatherStep_snd (l : List UInt8) (n : Nat) (acc : List UInt8 × List UInt8) :
    ((l.zipIdx n).foldl gatherStep acc).2 = acc.2 ++ l.filter (· != 0) := by
  induction l generalizing n acc with
  | nil => simp
  | cons b rest ih =>
    rw [List.zipIdx_cons, List.foldl_cons, ih, gatherStep]
    by_cases zero : b = 0
    · simp [zero]
    · simp [zero]

theorem msbBit_gatherStep (acc : List UInt8 × List UInt8) (b : UInt8) (i : Nat) (inside : i / 8 < acc.1.length)
    (q : Nat) : msbBit (gatherStep acc (b, i)).1 q = (msbBit acc.1 q || (q == i && b != 0)) := by
  unfold gatherStep
  by_cases zero : b = 0
  · simp [zero]
  · rw [if_pos zero]
    dsimp only
    rw [msbBit_modify_or _ _ _ inside, testBit_one_shiftLeft _ _ (by omega) (by omega)]
    congr 1
    rw [Bool.eq_iff_iff]
    simp only [Bool.and_eq_true, beq_iff_eq, decide_eq_true_eq, bne_iff_ne, ne_eq, zero, not_false_eq_true,
      and_true]
    omega

theorem msbBit_foldl_gatherStep (l : List UInt8) (n : Nat) (acc : List UInt8 × List UInt8)
    (room : (n + l.length + 7) / 8 ≤ acc.1.length) (q : Nat) :
    msbBit ((l.zipIdx n).foldl gatherStep acc).1 q =
      (msbBit acc.1 q || (decide (n ≤ q) && l.getD (q - n) 0 != 0)) := by
  induction l generalizing n acc with
  | nil => simp
  | cons b rest ih =>
    have inside : n / 8 < acc.1.length := by
      simp only [List.length_cons] at room
      omega
    rw [List.zipIdx_cons, List.foldl_cons, ih (n + 1) _ (by rw [gatherStep_length]; simp at room ⊢; omega),
      msbBit_gatherStep _ _ _ inside, Bool.or_assoc]
    congr 1
    -- position `q` is this byte, a later one, or an earlier one
    rcases Nat.lt_trichotomy q n with before | here | after
    · simp [show q ≠ n by omega, show ¬ n ≤ q by omega, show ¬ n + 1 ≤ q by omega]
    · subst here
      simp
    · rw [show q - n = (q - (n + 1)) + 1 by omega, List.getD_cons_succ]
      simp [show q ≠ n by omega, show n ≤ q by omega, show n + 1 ≤ q by omega]

theorem gatherNonZero_snd (data : List UInt8) : (gatherNonZero data).2 = data.filter (· != 0) := by
  rw [gatherNonZero, foldl_gatherStep_snd, List.nil_append]

theorem msbBit_gatherNonZero (data : List UInt8) (q : Nat) :
    msbBit (gatherNonZero data).1 q = (data.getD q 0 != 0) := by
  rw [gatherNonZero, msbBit_foldl_gatherStep _ _ _ (by simp), msbBit_replicate_zero]
  simp

/-! ## The encoder -/

theorem bitsetEncodeBytes_nil : bitsetEncodeBytes [] = [] := by
  rw [bitsetEncodeBytes]
  rfl

theorem bitsetEncodeBytes_single (b : UInt8) : bitsetEncodeBytes [b] = if b = 0 then [] else [b] := by
  rw [bitsetEncodeBytes]
  simp

theorem bitsetEncodeBytes_long (data : List UInt8) (long : 2 ≤ data.length) :
    bitsetEncodeBytes data =
      if (data.filter (· != 0)).length = 0 then []
      else bitsetEncodeBytes (gatherNonZero data).1 ++ data.filter (· != 0) := by
  rw [bitsetEncodeBytes, if_neg (by omega), if_neg (by omega)]
  simp only [gatherNonZero_snd]

theorem bitsetEncodeBytes_of_zero (data : List UInt8) (zero : ∀ b ∈ data, b = 0) : bitsetEncodeBytes data = [] := by
  match data with
  | [] => exact bitsetEncodeBytes_nil
  | [b] => rw [bitsetEncodeBytes_single, if_pos (zero b (by simp))]
  | a :: b :: more =>
    rw [bitsetEncodeBytes_long _ (by simp), if_pos]
    rw [List.length_eq_zero_iff, List.filter_eq_nil_iff]
    intro x member
    simp [zero x member]

/-! ## The distributing loop -/

theorem decodeStep_bit (bits : List UInt8) (i : Nat) :
    (bits.getD (i / 8) 0 &&& (1 : UInt8) <<< UInt8.ofNat (7 - i % 8) ≠ 0) ↔ msbBit bits i = true := by
  rw [← bne_iff_ne, and_one_shiftLeft_ne_zero _ _ (by omega)]
  rfl

theorem decodeStep_skip (data bits : List UInt8) (st : List UInt8 × Nat) (i : Nat) (unset : msbBit bits i = false) :
    decodeStep data bits st i = .ok st := by
  rw [decodeStep, if_neg (by rw [decodeStep_bit, unset]; simp)]

theorem decodeStep_place (data bits : List UInt8) (st : List UInt8 × Nat) (i : Nat) (set : msbBit bits i = true)
    (room : st.2 < data.length) (slot : i < st.1.length) (live : data.getD st.2 0 ≠ 0) :
    decodeStep data bits st i = .ok (st.1.set i (data.getD st.2 0), st.2 + 1) := by
  rw [decodeStep, if_pos ((decodeStep_bit bits i).mpr set), if_neg (by omega), if_neg (by omega), if_neg live]

theorem decodeStep_refuses (data bits : List UInt8) (st : List UInt8 × Nat) (i : Nat) (set : msbBit bits i = true)
    (bad : ¬ (st.2 < data.length ∧ i < st.1.length ∧ data.getD st.2 0 ≠ 0)) :
    ∃ err, decodeStep data bits st i = .error err := by
  rw [decodeStep, if_pos ((decodeStep_bit bits i).mpr set)]
  by_cases room : st.2 ≥ data.length
  · exact ⟨_, if_pos room⟩
  · by_cases slot : i ≥ st.1.length
    · exact ⟨_, by rw [if_neg room, if_pos slot]⟩
    · have zero : data.getD st.2 0 = 0 := by
        by_contra live
        exact bad ⟨by omega, by omega, live⟩
      exact ⟨_, by rw [if_neg room, if_neg slot, if_pos zero]⟩

/-- What the distributing loop has built after the bits below `k`: slot `i`
of a set bit `i` holds the input byte after `ptr` numbered by the rank of
`i`, and every other slot is zero. -/
def scattered (data bits : List UInt8) (ptr target k : Nat) : List UInt8 :=
  (List.range target).map fun i =>
    if i < k ∧ msbBit bits i = true then data.getD (ptr + Sparse.rank (msbBit bits) i) 0 else 0

/-- Every set bit below `k` finds its input byte, not zero, and its slot
below the target. -/
def Placeable (data bits : List UInt8) (ptr target k : Nat) : Prop :=
  ∀ i < k, msbBit bits i = true →
    ptr + Sparse.rank (msbBit bits) i < data.length ∧ i < target ∧
      data.getD (ptr + Sparse.rank (msbBit bits) i) 0 ≠ 0

section Scattered

variable (data bits : List UInt8) (ptr target : Nat)

@[simp] theorem length_scattered (k : Nat) : (scattered data bits ptr target k).length = target := by
  simp [scattered]

theorem scattered_zero : scattered data bits ptr target 0 = List.replicate target 0 := by
  apply List.ext_getElem <;> simp [scattered]

theorem scattered_succ_unset (k : Nat) (unset : msbBit bits k = false) :
    scattered data bits ptr target (k + 1) = scattered data bits ptr target k := by
  unfold scattered
  apply List.map_congr_left
  intro i _
  by_cases here : i = k
  · subst here
    simp [unset]
  · simp only [show (i < k + 1) ↔ i < k by omega]

theorem scattered_succ_set (k : Nat) (set : msbBit bits k = true) :
    (scattered data bits ptr target k).set k (data.getD (ptr + Sparse.rank (msbBit bits) k) 0) =
      scattered data bits ptr target (k + 1) := by
  apply List.ext_getElem
  · simp
  · intro i inSet _
    rw [List.getElem_set]
    by_cases here : k = i
    · subst here
      simp [scattered, set]
    · simp only [here, if_false, scattered, List.getElem_map, List.getElem_range]
      simp only [show (i < k + 1) ↔ i < k by omega]

end Scattered

theorem decodeLoop_ok (data bits : List UInt8) (ptr target : Nat) :
    ∀ k, Placeable data bits ptr target k →
      (List.range k).foldlM (decodeStep data bits) (List.replicate target 0, ptr) =
        .ok (scattered data bits ptr target k, ptr + Sparse.rank (msbBit bits) k) := by
  intro k
  induction k with
  | zero =>
    intro _
    rw [scattered_zero]
    rfl
  | succ k ih =>
    intro fits
    rw [ExceptRun.foldlM_range_succ, ih (fun i below set => fits i (by omega) set), ExceptRun.ok_bind,
      Sparse.rank_succ]
    cases set : msbBit bits k
    · rw [decodeStep_skip _ _ _ _ set, scattered_succ_unset _ _ _ _ _ set]
      simp
    · obtain ⟨room, slot, live⟩ := fits k (by omega) set
      rw [decodeStep_place _ _ _ _ set room (by simpa using slot) live, scattered_succ_set _ _ _ _ _ set]
      simp [Nat.add_assoc]

theorem decodeLoop_error (data bits : List UInt8) (ptr target : Nat) :
    ∀ k, ¬ Placeable data bits ptr target k →
      ∃ err, (List.range k).foldlM (decodeStep data bits) (List.replicate target 0, ptr) = .error err := by
  intro k
  induction k with
  | zero =>
    intro notFits
    exact absurd (fun i below => absurd below (Nat.not_lt_zero i)) notFits
  | succ k ih =>
    intro notFits
    rw [ExceptRun.foldlM_range_succ]
    by_cases before : Placeable data bits ptr target k
    · -- the first failure is at bit `k`
      rw [decodeLoop_ok data bits ptr target k before, ExceptRun.ok_bind]
      have set : msbBit bits k = true := by
        by_contra unset
        apply notFits
        intro i below setI
        rcases Nat.lt_or_eq_of_le (Nat.le_of_lt_succ below) with earlier | rfl
        · exact before i earlier setI
        · exact absurd setI unset
      apply decodeStep_refuses _ _ _ _ set
      rintro ⟨room, slot, live⟩
      apply notFits
      intro i below setI
      rcases Nat.lt_or_eq_of_le (Nat.le_of_lt_succ below) with earlier | rfl
      · exact before i earlier setI
      · exact ⟨room, by simpa using slot, live⟩
    · obtain ⟨err, failed⟩ := ih before
      exact ⟨err, by rw [failed]; rfl⟩

/-! ## The decoder's cases -/

section Partial

variable (data : List UInt8)

theorem decodePartial_zero : bitsetDecodePartialBytes data 0 = .ok ([], 0) := by
  rw [bitsetDecodePartialBytes, if_pos rfl]

theorem decodePartial_empty (target : Nat) (live : target ≠ 0) :
    bitsetDecodePartialBytes [] target = .ok (List.replicate target 0, 0) := by
  rw [bitsetDecodePartialBytes, if_neg live]
  dsimp only
  rw [if_pos List.length_nil]

theorem decodePartial_one (b : UInt8) (rest : List UInt8) :
    bitsetDecodePartialBytes (b :: rest) 1 = if b ≠ 0 then .ok ([b], 1) else .ok ([b], 0) := by
  rw [bitsetDecodePartialBytes, if_neg (by omega), if_neg (by simp), if_pos rfl]
  rfl

variable (target : Nat) (long : 2 ≤ target) (live : data ≠ [])
include long live

theorem decodePartial_long (bits : List UInt8) (ptr : Nat)
    (bitset : bitsetDecodePartialBytes data ((target + 7) / 8) = .ok (bits, ptr)) :
    bitsetDecodePartialBytes data target =
      (List.range (8 * bits.length)).foldlM (decodeStep data bits) (List.replicate target 0, ptr) := by
  rw [bitsetDecodePartialBytes, if_neg (by omega), if_neg (by simpa using live), if_neg (by omega), bitset]

theorem decodePartial_long_error (err : DecompressError)
    (bitset : bitsetDecodePartialBytes data ((target + 7) / 8) = .error err) :
    bitsetDecodePartialBytes data target = .error err := by
  rw [bitsetDecodePartialBytes, if_neg (by omega), if_neg (by simpa using live), if_neg (by omega), bitset]

end Partial

/-! ## Decompressing a compression -/

section Gathered

variable (d : List UInt8)

theorem mask_gatherNonZero : msbBit (gatherNonZero d).1 = fun j => d.getD j 0 != 0 :=
  funext (msbBit_gatherNonZero d)

theorem rank_gatherNonZero (i : Nat) (inside : i ≤ d.length) :
    Sparse.rank (msbBit (gatherNonZero d).1) i = (d.take i).countP (· != 0) := by
  rw [mask_gatherNonZero]
  exact Sparse.rank_getD (· != 0) 0 d i inside

theorem lt_length_of_gathered (i : Nat) (set : msbBit (gatherNonZero d).1 i = true) :
    i < d.length ∧ d.getD i 0 ≠ 0 := by
  rw [msbBit_gatherNonZero, bne_iff_ne] at set
  refine ⟨?_, set⟩
  by_contra past
  exact set (List.getD_eq_default _ _ (by omega))

theorem placeable_gathered (pre rest : List UInt8) (k : Nat) :
    Placeable (pre ++ d.filter (· != 0) ++ rest) (gatherNonZero d).1 pre.length d.length k := by
  intro i _ set
  obtain ⟨inside, live⟩ := lt_length_of_gathered d i set
  have kept : (d[i] != 0) = true := by
    rw [bne_iff_ne, ← List.getD_eq_getElem _ 0 inside]
    exact live
  have numbered := Sparse.countP_take_lt (· != 0) d i inside kept
  rw [rank_gatherNonZero d i (by omega), List.append_assoc,
    List.getD_append_right _ _ _ _ (by omega), Nat.add_sub_cancel_left,
    List.getD_append _ _ _ _ numbered, Sparse.getD_filter_countP_take (· != 0) 0 d i inside kept]
  refine ⟨?_, inside, ?_⟩
  · simp only [List.length_append]
    omega
  · rw [← List.getD_eq_getElem _ 0 inside]
    exact live

theorem scattered_gathered (pre rest : List UInt8) (k : Nat) (covers : d.length ≤ k) :
    scattered (pre ++ d.filter (· != 0) ++ rest) (gatherNonZero d).1 pre.length d.length k = d := by
  apply List.ext_getElem (by simp)
  intro i inScattered inside
  simp only [scattered, List.getElem_map, List.getElem_range]
  by_cases set : msbBit (gatherNonZero d).1 i = true
  · have placed := placeable_gathered d pre rest (i + 1) i (by omega) set
    have kept : (d[i] != 0) = true := by
      rw [bne_iff_ne, ← List.getD_eq_getElem _ 0 inside]
      exact (lt_length_of_gathered d i set).2
    rw [if_pos ⟨by omega, set⟩, rank_gatherNonZero d i (by omega), List.append_assoc,
      List.getD_append_right _ _ _ _ (by omega), Nat.add_sub_cancel_left,
      List.getD_append _ _ _ _ (Sparse.countP_take_lt (· != 0) d i inside kept),
      Sparse.getD_filter_countP_take (· != 0) 0 d i inside kept]
  · rw [if_neg (fun both => set both.2)]
    rw [msbBit_gatherNonZero, List.getD_eq_getElem _ 0 inside] at set
    simp only [bne_iff_ne, ne_eq, Decidable.not_not] at set
    exact set.symm

theorem rank_gathered_total (k : Nat) (covers : d.length ≤ k) :
    Sparse.rank (msbBit (gatherNonZero d).1) k = (d.filter (· != 0)).length := by
  rw [Sparse.rank_eq_of_dropped _ d.length (fun i past => ?_) k covers,
    rank_gatherNonZero d _ (le_refl _), List.take_length, List.countP_eq_length_filter]
  rw [msbBit_gatherNonZero, List.getD_eq_default _ _ past]
  rfl

theorem gathered_live (live : ∃ b ∈ d, b ≠ 0) : ∃ x ∈ (gatherNonZero d).1, x ≠ 0 := by
  obtain ⟨b, member, nonZero⟩ := live
  obtain ⟨i, inside, rfl⟩ := List.getElem_of_mem member
  have set : msbBit (gatherNonZero d).1 i = true := by
    rw [msbBit_gatherNonZero, List.getD_eq_getElem _ 0 inside]
    simpa using nonZero
  have byte := getD_ne_zero_of_msbBit _ i set
  have within : i / 8 < (gatherNonZero d).1.length := by
    by_contra past
    exact byte (List.getD_eq_default _ _ (by omega))
  exact ⟨_, List.getElem_mem within, by rwa [← List.getD_eq_getElem _ 0 within]⟩

end Gathered

theorem decodePartial_encode (d : List UInt8) (live : ∃ b ∈ d, b ≠ 0) (rest : List UInt8) :
    bitsetDecodePartialBytes (bitsetEncodeBytes d ++ rest) d.length = .ok (d, (bitsetEncodeBytes d).length) := by
  -- induction on the length: the bitset is shorter than the data
  induction size : d.length using Nat.strong_induction_on generalizing d rest with
  | _ n ih =>
  rcases d with _ | ⟨a, _ | ⟨b, more⟩⟩
  · obtain ⟨_, member, _⟩ := live
    simp at member
  · -- a single non-zero byte is itself
    obtain ⟨_, member, nonZero⟩ := live
    rw [List.mem_singleton] at member
    subst member size
    rw [bitsetEncodeBytes_single, if_neg nonZero, List.singleton_append, List.length_singleton,
      decodePartial_one, if_pos nonZero]
  · -- the compressed bitset, then the non-zero bytes
    set d := a :: b :: more with named
    have long : 2 ≤ n := by rw [← size]; simp [named]
    have gatheredLive : (d.filter (· != 0)).length ≠ 0 := by
      obtain ⟨x, member, nonZero⟩ := live
      exact List.length_pos_of_mem (List.mem_filter.mpr ⟨member, by simpa using nonZero⟩) |>.ne'
    have encoded : bitsetEncodeBytes d = bitsetEncodeBytes (gatherNonZero d).1 ++ d.filter (· != 0) := by
      rw [bitsetEncodeBytes_long d (by rw [size]; exact long), if_neg gatheredLive]
    have width : (gatherNonZero d).1.length = (n + 7) / 8 := by rw [gatherNonZero_fst_length, size]
    have bitset := ih _ (by omega) (gatherNonZero d).1 (gathered_live d live) (d.filter (· != 0) ++ rest) width
    have inputLive : bitsetEncodeBytes (gatherNonZero d).1 ++ (d.filter (· != 0) ++ rest) ≠ [] := by
      intro empty
      rw [List.append_eq_nil_iff, List.append_eq_nil_iff] at empty
      exact gatheredLive (by rw [empty.2.1]; rfl)
    rw [encoded, List.append_assoc]
    rw [decodePartial_long _ n long inputLive _ _ bitset, ← List.append_assoc, width, ← size,
      decodeLoop_ok _ _ _ _ _ (placeable_gathered d _ rest _),
      scattered_gathered d _ rest _ (by omega), rank_gathered_total d _ (by omega), List.length_append]

/-! ## Compressing a decompression -/

theorem gatherNonZero_of_zero (d : List UInt8) (zero : ∀ b ∈ d, b = 0) :
    (gatherNonZero d).1 = List.replicate ((d.length + 7) / 8) 0 := by
  apply msbBit_ext _ _ (by rw [gatherNonZero_fst_length, List.length_replicate])
  intro q
  rw [msbBit_gatherNonZero, msbBit_replicate_zero]
  by_cases inside : q < d.length
  · rw [List.getD_eq_getElem _ 0 inside, zero _ (List.getElem_mem inside)]
    rfl
  · rw [List.getD_eq_default _ _ (by omega)]
    rfl

section Scattered

variable (data bits : List UInt8) (ptr target : Nat)

theorem placeable_room (start : ptr ≤ data.length) :
    ∀ k, Placeable data bits ptr target k → ptr + Sparse.rank (msbBit bits) k ≤ data.length := by
  intro k
  induction k with
  | zero => intro _; simpa using start
  | succ k ih =>
    intro fits
    have before := ih (fun i below set => fits i (by omega) set)
    rw [Sparse.rank_succ]
    cases set : msbBit bits k
    · simpa using before
    · have := (fits k (by omega) set).1
      simp only [if_true]
      omega

variable (full : Placeable data bits ptr target (8 * bits.length))
include full

theorem unset_past_target (i : Nat) (past : target ≤ i) : msbBit bits i = false := by
  by_cases inside : i < 8 * bits.length
  · by_contra set
    have := (full i inside (by simpa using set)).2.1
    omega
  · exact msbBit_past_end _ _ (by omega)

theorem getD_scattered_ne_zero (q : Nat) :
    ((scattered data bits ptr target (8 * bits.length)).getD q 0 != 0) = msbBit bits q := by
  by_cases inside : q < target
  · rw [List.getD_eq_getElem _ 0 (by simpa using inside)]
    simp only [scattered, List.getElem_map, List.getElem_range]
    cases set : msbBit bits q
    · simp
    · have within : q < 8 * bits.length := by
        by_contra past
        rw [msbBit_past_end _ _ (by omega)] at set
        exact Bool.false_ne_true set
      rw [if_pos ⟨within, rfl⟩]
      simpa using (full q within set).2.2
  · rw [List.getD_eq_default _ _ (by simp; omega), unset_past_target data bits ptr target full q (by omega)]
    rfl

theorem gatherNonZero_scattered (width : bits.length = (target + 7) / 8) :
    (gatherNonZero (scattered data bits ptr target (8 * bits.length))).1 = bits := by
  apply msbBit_ext _ _ (by rw [gatherNonZero_fst_length, length_scattered, width])
  intro q
  rw [msbBit_gatherNonZero, getD_scattered_ne_zero data bits ptr target full]

theorem filter_scattered (width : bits.length = (target + 7) / 8) (start : ptr ≤ data.length) :
    (scattered data bits ptr target (8 * bits.length)).filter (· != 0) =
      (data.drop ptr).take (Sparse.rank (msbBit bits) (8 * bits.length)) := by
  have total : Sparse.rank (msbBit bits) (8 * bits.length) = Sparse.rank (msbBit bits) target :=
    Sparse.rank_eq_of_dropped _ target (unset_past_target data bits ptr target full) _ (by omega)
  -- the kept slots are those of the set bits
  have kept : ∀ i ∈ List.range target, ((· != 0) ∘ fun i =>
      if i < 8 * bits.length ∧ msbBit bits i = true then data.getD (ptr + Sparse.rank (msbBit bits) i) 0
      else 0) i = msbBit bits i := by
    intro i member
    have inside := List.mem_range.mp member
    have slot := getD_scattered_ne_zero data bits ptr target full i
    rw [List.getD_eq_getElem _ 0 (by simpa using inside)] at slot
    simpa [scattered] using slot
  rw [total, ← Sparse.map_getD_range data 0 ptr _ (total ▸ placeable_room data bits ptr target start _ full),
    ← Sparse.map_rank_filter_range, List.map_map, scattered, List.filter_map, List.filter_congr kept]
  -- and each holds the byte of its rank
  apply List.map_congr_left
  intro i member
  obtain ⟨inside, set⟩ := List.mem_filter.mp member
  rw [List.mem_range] at inside
  simp [show i < 8 * bits.length by omega, set]

theorem encode_scattered (long : 2 ≤ target) (width : bits.length = (target + 7) / 8) (start : ptr ≤ data.length)
    (bitset : bitsetEncodeBytes bits = data.take ptr) :
    bitsetEncodeBytes (scattered data bits ptr target (8 * bits.length)) =
      data.take (ptr + Sparse.rank (msbBit bits) (8 * bits.length)) := by
  have placed := filter_scattered data bits ptr target full width start
  have room := placeable_room data bits ptr target start _ full
  have count : ((scattered data bits ptr target (8 * bits.length)).filter (· != 0)).length =
      Sparse.rank (msbBit bits) (8 * bits.length) := by
    rw [placed, List.length_take, List.length_drop]
    omega
  rw [bitsetEncodeBytes_long _ (by simpa using long)]
  split
  · next none =>
    -- nothing is placed: the bitset is empty, and so is its compression
    have zero : ∀ b ∈ scattered data bits ptr target (8 * bits.length), b = 0 := by
      intro b member
      have := List.filter_eq_nil_iff.mp (List.length_eq_zero_iff.mp none) b member
      simpa using this
    have empty := gatherNonZero_of_zero _ zero
    rw [gatherNonZero_scattered data bits ptr target full width] at empty
    rw [← count, none, Nat.add_zero, ← bitset, empty, bitsetEncodeBytes_of_zero _ (by simp)]
  · rw [gatherNonZero_scattered data bits ptr target full width, placed, bitset, ← List.take_add]

end Scattered

theorem encode_of_decodePartial (data : List UInt8) (target : Nat) (out : List UInt8) (ptr : Nat)
    (decoded : bitsetDecodePartialBytes data target = .ok (out, ptr)) :
    out.length = target ∧ ptr ≤ data.length ∧ bitsetEncodeBytes out = data.take ptr := by
  -- induction on the target: the bitset is read back at a smaller one
  induction target using Nat.strong_induction_on generalizing out ptr with
  | _ t ih =>
  by_cases zero : t = 0
  · subst zero
    rw [decodePartial_zero] at decoded
    cases decoded
    exact ⟨rfl, Nat.zero_le _, bitsetEncodeBytes_nil⟩
  cases data with
  | nil =>
    rw [decodePartial_empty t zero] at decoded
    cases decoded
    exact ⟨by simp, le_refl _, bitsetEncodeBytes_of_zero _ (fun b member => (List.mem_replicate.mp member).2)⟩
  | cons b rest =>
    by_cases one : t = 1
    · subst one
      rw [decodePartial_one] at decoded
      by_cases live : b ≠ 0
      · rw [if_pos live] at decoded
        cases decoded
        exact ⟨rfl, by simp, by rw [bitsetEncodeBytes_single, if_neg live]; rfl⟩
      · rw [if_neg live] at decoded
        cases decoded
        exact ⟨rfl, Nat.zero_le _, by rw [bitsetEncodeBytes_single, if_pos (not_not.mp live)]; rfl⟩
    · have long : 2 ≤ t := by omega
      cases bitset : bitsetDecodePartialBytes (b :: rest) ((t + 7) / 8) with
      | error err =>
        rw [decodePartial_long_error _ t long (by simp) err bitset] at decoded
        cases decoded
      | ok read =>
        obtain ⟨bits, start⟩ := read
        obtain ⟨width, inInput, prefixed⟩ := ih _ (by omega) bits start bitset
        rw [decodePartial_long _ t long (by simp) bits start bitset] at decoded
        by_cases full : Placeable (b :: rest) bits start t (8 * bits.length)
        · rw [decodeLoop_ok _ _ _ _ _ full] at decoded
          cases decoded
          exact ⟨by simp, placeable_room _ _ _ _ inInput _ full,
            encode_scattered _ _ _ _ full long width inInput prefixed⟩
        · obtain ⟨err, failed⟩ := decodeLoop_error _ _ _ _ _ full
          rw [failed] at decoded
          cases decoded

/-! ## Compression is a bijection onto what decompression accepts -/

section Whole

variable (data out : List UInt8) (target : Nat)

theorem bitsetDecodeBytes_of_partial (decoded : bitsetDecodePartialBytes data target = .ok (out, data.length)) :
    bitsetDecodeBytes data target = .ok out := by
  rw [bitsetDecodeBytes, decoded]
  simp

theorem partial_of_bitsetDecodeBytes (decoded : bitsetDecodeBytes data target = .ok out) :
    bitsetDecodePartialBytes data target = .ok (out, data.length) := by
  unfold bitsetDecodeBytes at decoded
  split at decoded
  · cases decoded
  · next size read =>
    split at decoded
    · cases decoded
    · next used =>
      cases decoded
      rw [read, not_not.mp used]

theorem DecompressBytes_shorter (shorter : data.length < target) :
    DecompressBytes data target = bitsetDecodeBytes data target := by
  rw [DecompressBytes, if_neg (by omega), if_neg (by omega)]

end Whole

/-- Decompression inverts compression, and accepts nothing shorter than its
target but the compression of its output. -/
theorem compress_bijective_onto_accepted :
    (∀ d : List UInt8, DecompressBytes (CompressBytes d) d.length = .ok d) ∧
    ∀ (c : List UInt8) (n : Nat), c.length < n → ∀ d : List UInt8, DecompressBytes c n = .ok d →
      d.length = n ∧ bitsetEncodeBytes d = c ∧ CompressBytes d = c := by
  constructor
  · intro d
    by_cases shorter : (bitsetEncodeBytes d).length < d.length
    · rw [CompressBytes, if_pos shorter, DecompressBytes_shorter _ _ shorter]
      apply bitsetDecodeBytes_of_partial
      by_cases live : ∃ b ∈ d, b ≠ 0
      · simpa using decodePartial_encode d live []
      · -- data of zero bytes compresses to nothing and comes back as zeros
        have zero : ∀ b ∈ d, b = 0 := fun b member => by
          by_contra nonZero
          exact live ⟨b, member, nonZero⟩
        rw [bitsetEncodeBytes_of_zero d zero, decodePartial_empty _ (by omega),
          ← List.eq_replicate_iff.mpr ⟨rfl, zero⟩]
        rfl
    · rw [CompressBytes, if_neg shorter, DecompressBytes, if_neg (by omega), if_pos rfl]
  · intro c n shorter d decompressed
    rw [DecompressBytes_shorter _ _ shorter] at decompressed
    obtain ⟨width, -, encoded⟩ := encode_of_decodePartial c n d c.length
      (partial_of_bitsetDecodeBytes c d n decompressed)
    rw [List.take_length] at encoded
    refine ⟨width, encoded, ?_⟩
    rw [CompressBytes, encoded, if_pos (by omega)]

end TurboGeth.Bitutil
