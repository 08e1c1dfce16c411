import TurboGeth.Lib.ByteBits
import TurboGeth.Lib.ExceptRun

/-!
# Blooms and rotated bloom bits

`core/types/bloom9.go`, and `Generator` of `core/bloombits/generator.go` with
`calcBloomIndexes` of `core/bloombits/matcher.go`.

A block's bloom has 2048 bits: `bloom9` hashes a byte string and sets three
bits of a big-endian number, picked by the first six bytes of the hash.  The
bloombits generator turns a section of blooms on its side: column `i` holds
bit `i` of each bloom of the section, one bit per block, the first block in
the top bit of the column's first byte.  The matcher finds the three bits of
a key with its own formula and reads their columns.

The hash is a parameter.  `bloom9` reads six bytes from the sponge and
`calcBloomIndexes` takes the first six of the digest: the same bytes.  A
`big.Int` is a `Nat`, its `Bytes()` the minimal big-endian string.

The main results: a column bit of the generator is the bloom's bit
(`AddBlooms_holds`), so a query of the columns answers `BloomLookup`
exactly; and a bloom built from logs passes the lookup of every address
and topic they mention.
-/

set_option autoImplicit false

namespace TurboGeth.Core

open ByteBits

def BloomByteLength : Nat := 256
def BloomBitLength : Nat := 8 * BloomByteLength

/-- `types.Bloom`, a `[BloomByteLength]byte`. -/
structure Bloom where
  bytes : List UInt8
  length_eq : bytes.length = BloomByteLength

/-- `SetBytes`: the bytes go to the end of the bloom and what is before them
stays; more bytes than the bloom holds panic. -/
def Bloom.SetBytes (b : Bloom) (d : List UInt8) : Option Bloom :=
  if h : b.bytes.length < d.length then none
  else some ⟨b.bytes.take (BloomByteLength - d.length) ++ d, by
    rw [List.length_append, List.length_take, b.length_eq] at *
    omega⟩

def BytesToBloom (b : List UInt8) : Option Bloom :=
  Bloom.SetBytes ⟨List.replicate BloomByteLength 0, List.length_replicate⟩ b

def Bloom.Big (b : Bloom) : Nat := Rlp.bigEndian b.bytes

def bloom9 (keccak : List UInt8 → List UInt8) (b : List UInt8) : Nat :=
  -- `h.Read(buf[:])`: six bytes of the hash
  let buf := keccak b
  [0, 2, 4].foldl (fun r i =>
    let bt := ((buf.getD (i + 1) 0).toNat + ((buf.getD i 0).toNat <<< 8)) &&& 2047
    r ||| 1 <<< bt) 0

def Bloom9 (keccak : List UInt8 → List UInt8) (b : List UInt8) : Nat := bloom9 keccak b

def BloomLookup (keccak : List UInt8 → List UInt8) (bin : Bloom) (topic : List UInt8) : Bool :=
  let bloom := bin.Big
  let cmp := Bloom9 keccak topic
  (bloom &&& cmp) == cmp

/-- `Add` of a `big.Int`: its bloom bits or-ed in, the result written back. -/
def Bloom.Add (keccak : List UInt8 → List UInt8) (b : Bloom) (d : Nat) : Option Bloom :=
  let bin := b.Big ||| Bloom9 keccak (Rlp.natBytes d)
  b.SetBytes (Rlp.natBytes bin)

def Bloom.Test (keccak : List UInt8 → List UInt8) (b : Bloom) (test : Nat) : Bool :=
  BloomLookup keccak b (Rlp.natBytes test)

/-- The fields of `types.Log` a bloom reads. -/
structure Log where
  Address : List UInt8
  Topics : List (List UInt8)

structure Receipt where
  Logs : List Log

def logsBloom (keccak : List UInt8 → List UInt8) (logs : List Log) : Nat :=
  logs.foldl (fun bin log =>
    log.Topics.foldl (fun bin b => bin ||| bloom9 keccak b) (bin ||| bloom9 keccak log.Address)) 0

def CreateBloom (keccak : List UInt8 → List UInt8) (receipts : List Receipt) : Option Bloom :=
  let bin := receipts.foldl (fun bin receipt => bin ||| logsBloom keccak receipt.Logs) 0
  BytesToBloom (Rlp.natBytes bin)

/-! ## Rotated bloom bits -/

def calcBloomIndexes (keccak : List UInt8 → List UInt8) (b : List UInt8) : List Nat :=
  let b := keccak b
  (List.range 3).map fun i => (((b.getD (2 * i) 0).toNat <<< 8) &&& 2047) + (b.getD (2 * i + 1) 0).toNat

/-- `Generator`: one column of `sections / 8` bytes per bloom bit. -/
structure Generator where
  blooms : List (List UInt8)
  sections : Nat
  nextSec : Nat

def NewGenerator (sections : Nat) : Except String Generator :=
  if sections % 8 ≠ 0 then .error "section count not multiple of 8"
  else .ok { blooms := List.replicate BloomBitLength (List.replicate (sections / 8) 0), sections, nextSec := 0 }

/-- One round of `AddBloom`'s loop: bit `i` of the bloom into column `i`. -/
def rotateBit (bloom : Bloom) (byteIndex : Nat) (bitMask : UInt8) (blooms : List (List UInt8)) (i : Nat) :
    List (List UInt8) :=
  let bloomByteIndex := BloomByteLength - 1 - i / 8
  let bloomBitMask : UInt8 := 1 <<< UInt8.ofNat (i % 8)
  if (bloom.bytes.getD bloomByteIndex 0 &&& bloomBitMask) != 0 then
    blooms.modify i fun column => column.modify byteIndex (· ||| bitMask)
  else blooms

def Generator.AddBloom (b : Generator) (index : Nat) (bloom : Bloom) : Except String Generator :=
  if b.nextSec ≥ b.sections then .error "section out of bounds"
  else if b.nextSec ≠ index then .error "bloom filter with unexpected index"
  else
    let byteIndex := b.nextSec / 8
    let bitMask : UInt8 := 1 <<< UInt8.ofNat (7 - b.nextSec % 8)
    let blooms := (List.range BloomBitLength).foldl (rotateBit bloom byteIndex bitMask) b.blooms
    .ok { b with blooms, nextSec := b.nextSec + 1 }

def Generator.Bitset (b : Generator) (idx : Nat) : Except String (List UInt8) :=
  if b.nextSec ≠ b.sections then .error "bloom not fully generated yet"
  else if idx ≥ BloomBitLength then .error "bloom bit out of bounds"
  else .ok (b.blooms.getD idx [])

/-- A section's blooms added in order from `index` on, as the bloom indexer
adds them. -/
def Generator.AddBlooms (g : Generator) (index : Nat) : List Bloom → Except String Generator
  | [] => .ok g
  | bloom :: rest => do
    let g ← g.AddBloom index bloom
    g.AddBlooms (index + 1) rest

/-! ## Bits of a bloom -/

/-- Bit `k` of a bloom, in the numbering of its big-endian number. -/
def Bloom.bit (b : Bloom) (k : Nat) : Bool := (b.bytes.getD (BloomByteLength - 1 - k / 8) 0).toNat.testBit (k % 8)

theorem testBit_Big (b : Bloom) (k : Nat) : b.Big.testBit k = (decide (k < BloomBitLength) && b.bit k) := by
  rw [Bloom.Big, testBit_bigEndian, b.length_eq]
  rfl

theorem Bloom.Big_lt (b : Bloom) : b.Big < 2 ^ BloomBitLength := by
  have bound := Rlp.bigEndian_lt b.bytes
  rw [b.length_eq] at bound
  rw [Bloom.Big, BloomBitLength, Nat.pow_mul]
  exact bound

/-- The three bits of a key as `bloom9` sets them. -/
def bloomIndexes (keccak : List UInt8 → List UInt8) (b : List UInt8) : List Nat :=
  let buf := keccak b
  [0, 2, 4].map fun i => ((buf.getD (i + 1) 0).toNat + ((buf.getD i 0).toNat <<< 8)) &&& 2047

theorem testBit_bloom9 (keccak : List UInt8 → List UInt8) (b : List UInt8) (i : Nat) :
    (bloom9 keccak b).testBit i = decide (i ∈ bloomIndexes keccak b) := by
  simp only [bloom9, bloomIndexes, List.foldl, List.map, Nat.testBit_or, Nat.one_shiftLeft, Nat.testBit_two_pow,
    Nat.zero_testBit, Bool.false_or, List.mem_cons, List.not_mem_nil, or_false]
  simp only [Bool.decide_or, Bool.or_assoc, @eq_comm Nat i]

theorem calcBloomIndexes_eq (keccak : List UInt8 → List UInt8) (b : List UInt8) :
    calcBloomIndexes keccak b = bloomIndexes keccak b := by
  have same : ∀ hi lo : UInt8, ((hi.toNat <<< 8) &&& 2047) + lo.toNat = (lo.toNat + (hi.toNat <<< 8)) &&& 2047 := by
    intro hi lo
    have := lo.toNat_lt
    rw [show (2047 : Nat) = 2 ^ 11 - 1 by rfl, Nat.and_two_pow_sub_one_eq_mod, Nat.and_two_pow_sub_one_eq_mod,
      Nat.shiftLeft_eq]
    omega
  simp only [calcBloomIndexes, bloomIndexes, List.range, List.range.loop, List.map, same]

theorem bloomIndexes_lt (keccak : List UInt8 → List UInt8) (b : List UInt8) : ∀ t ∈ bloomIndexes keccak b, t < BloomBitLength := by
  intro t mem
  simp only [bloomIndexes, List.map, List.mem_cons, List.not_mem_nil, or_false] at mem
  have bound : ∀ x : Nat, x &&& 2047 < BloomBitLength := fun x => Nat.lt_of_le_of_lt (Nat.and_le_right) (by decide)
  rcases mem with rfl | rfl | rfl <;> exact bound _

theorem bloom9_lt (keccak : List UInt8 → List UInt8) (b : List UInt8) : bloom9 keccak b < 2 ^ BloomBitLength := by
  apply Nat.lt_pow_two_of_testBit
  intro i past
  rw [testBit_bloom9, decide_eq_false_iff_not]
  intro mem
  have := bloomIndexes_lt keccak b i mem
  omega

theorem BloomLookup_iff_Big (keccak : List UInt8 → List UInt8) (bin : Bloom) (x : List UInt8) :
    BloomLookup keccak bin x = true ↔ ∀ t ∈ bloomIndexes keccak x, bin.Big.testBit t = true := by
  rw [BloomLookup, beq_iff_eq]
  constructor
  · intro covered t mem
    have bit := congrArg (Nat.testBit · t) covered
    simp only [Nat.testBit_and, Bloom9, testBit_bloom9, decide_eq_true mem, Bool.and_true] at bit
    exact bit
  · intro bits
    apply Nat.eq_of_testBit_eq
    intro t
    rw [Nat.testBit_and, Bloom9, testBit_bloom9]
    by_cases mem : t ∈ bloomIndexes keccak x
    · simp [mem, bits t mem]
    · simp [mem]

theorem BloomLookup_iff (keccak : List UInt8 → List UInt8) (bin : Bloom) (x : List UInt8) :
    BloomLookup keccak bin x = true ↔ ∀ t ∈ bloomIndexes keccak x, bin.bit t = true := by
  rw [BloomLookup_iff_Big]
  refine forall₂_congr fun t mem => ?_
  rw [testBit_Big, decide_eq_true (bloomIndexes_lt keccak x t mem), Bool.true_and]

/-! ## Building blooms -/

theorem SetBytes_Big (b : Bloom) (d : List UInt8) (fits : d.length ≤ BloomByteLength)
    (below : b.Big < 256 ^ d.length) : ∃ b', b.SetBytes d = some b' ∧ b'.Big = Rlp.bigEndian d := by
  refine ⟨_, dif_neg (by rw [b.length_eq]; omega), ?_⟩
  have split := bigEndian_append (b.bytes.take (BloomByteLength - d.length)) (b.bytes.drop (BloomByteLength - d.length))
  rw [List.take_append_drop, List.length_drop, b.length_eq, show BloomByteLength - (BloomByteLength - d.length) = d.length by omega] at split
  have leading : Rlp.bigEndian (b.bytes.take (BloomByteLength - d.length)) = 0 := by
    by_contra live
    have : 256 ^ d.length ≤ Rlp.bigEndian (b.bytes.take (BloomByteLength - d.length)) * 256 ^ d.length :=
      Nat.le_mul_of_pos_left _ (Nat.pos_of_ne_zero live)
    rw [Bloom.Big] at below
    omega
  show Rlp.bigEndian (b.bytes.take (BloomByteLength - d.length) ++ d) = Rlp.bigEndian d
  rw [bigEndian_append, leading, Nat.zero_mul, Nat.zero_add]

theorem SetBytes_natBytes (b : Bloom) (n : Nat) (fits : n < 2 ^ BloomBitLength) (covers : b.Big ≤ n) :
    ∃ b', b.SetBytes (Rlp.natBytes n) = some b' ∧ b'.Big = n := by
  have short : (Rlp.natBytes n).length ≤ BloomByteLength :=
    Rlp.natBytes_length_le n _ (by rw [BloomBitLength, Nat.pow_mul] at fits; simpa using fits)
  have range : n < 256 ^ (Rlp.natBytes n).length := by
    have := Rlp.bigEndian_lt (Rlp.natBytes n)
    rwa [Rlp.bigEndian_natBytes] at this
  obtain ⟨b', set, big⟩ := SetBytes_Big b (Rlp.natBytes n) short (by omega)
  exact ⟨b', set, by rw [big, Rlp.bigEndian_natBytes]⟩

theorem testBit_logsBloom (keccak : List UInt8 → List UInt8) (logs : List Log) (i : Nat) :
    (logsBloom keccak logs).testBit i =
      logs.any fun log => (bloom9 keccak log.Address).testBit i || log.Topics.any fun b => (bloom9 keccak b).testBit i := by
  rw [logsBloom, testBit_foldl_of_step _ (fun log i => (bloom9 keccak log.Address).testBit i ||
      log.Topics.any fun b => (bloom9 keccak b).testBit i) _ logs 0 i, Nat.zero_testBit, Bool.false_or]
  intro acc log i
  rw [testBit_foldl_of_step _ (fun b i => (bloom9 keccak b).testBit i) (fun _ _ _ => Nat.testBit_or _ _ _),
    Nat.testBit_or, Bool.or_assoc]

theorem logsBloom_lt (keccak : List UInt8 → List UInt8) (logs : List Log) : logsBloom keccak logs < 2 ^ BloomBitLength := by
  apply Nat.lt_pow_two_of_testBit
  intro i past
  have high : ∀ b, (bloom9 keccak b).testBit i = false := fun b =>
    Nat.testBit_lt_two_pow (Nat.lt_of_lt_of_le (bloom9_lt keccak b) (Nat.pow_le_pow_right (by decide) past))
  simp [testBit_logsBloom, high]

theorem CreateBloom_Big (keccak : List UInt8 → List UInt8) (receipts : List Receipt) :
    ∃ bloom, CreateBloom keccak receipts = some bloom ∧
      ∀ i, bloom.Big.testBit i = receipts.any fun r => (logsBloom keccak r.Logs).testBit i := by
  have bits : ∀ i, (receipts.foldl (fun bin receipt => bin ||| logsBloom keccak receipt.Logs) 0).testBit i =
      receipts.any fun r => (logsBloom keccak r.Logs).testBit i := by
    intro i
    rw [testBit_foldl_of_step _ (fun r i => (logsBloom keccak r.Logs).testBit i) (fun _ _ _ => Nat.testBit_or _ _ _),
      Nat.zero_testBit, Bool.false_or]
  have fits : receipts.foldl (fun bin receipt => bin ||| logsBloom keccak receipt.Logs) 0 < 2 ^ BloomBitLength := by
    apply Nat.lt_pow_two_of_testBit
    intro i past
    have high : ∀ r : Receipt, (logsBloom keccak r.Logs).testBit i = false := fun r =>
      Nat.testBit_lt_two_pow (Nat.lt_of_lt_of_le (logsBloom_lt keccak r.Logs) (Nat.pow_le_pow_right (by decide) past))
    simp [bits, high]
  obtain ⟨bloom, set, big⟩ := SetBytes_natBytes ⟨List.replicate BloomByteLength 0, List.length_replicate⟩ _ fits
    (by rw [Bloom.Big, bigEndian_replicate_zero]; exact Nat.zero_le _)
  exact ⟨bloom, set, fun i => by rw [big, bits]⟩

theorem Add_Big (keccak : List UInt8 → List UInt8) (b : Bloom) (d : Nat) :
    ∃ b', b.Add keccak d = some b' ∧ b'.Big = b.Big ||| Bloom9 keccak (Rlp.natBytes d) :=
  SetBytes_natBytes b _ (Nat.or_lt_two_pow b.Big_lt (bloom9_lt _ _)) Nat.left_le_or

/-! ## The generator -/

theorem rotateBit_getD (bloom : Bloom) (byteIndex : Nat) (bitMask : UInt8) (blooms : List (List UInt8)) (i k : Nat) :
    (rotateBit bloom byteIndex bitMask blooms i).getD k [] =
      if k = i ∧ bloom.bit i then (blooms.getD k []).modify byteIndex (· ||| bitMask) else blooms.getD k [] := by
  have tested : ((bloom.bytes.getD (BloomByteLength - 1 - i / 8) 0 &&& (1 <<< UInt8.ofNat (i % 8))) != 0) = bloom.bit i :=
    and_one_shiftLeft_ne_zero _ _ (Nat.mod_lt _ (by decide))
  unfold rotateBit
  simp only [tested]
  by_cases set : bloom.bit i
  · rw [if_pos set, getD_modify]
    by_cases same : k = i
    · subst same
      by_cases inside : k < blooms.length
      · simp [set, inside]
      · simp [set, inside, List.getD_eq_getElem?_getD]
    · simp [same, Ne.symm same]
  · simp [set]

theorem foldl_rotateBit_length (bloom : Bloom) (byteIndex : Nat) (bitMask : UInt8) (indices : List Nat) :
    ∀ blooms : List (List UInt8), (indices.foldl (rotateBit bloom byteIndex bitMask) blooms).length = blooms.length := by
  induction indices with
  | nil => intro blooms; rfl
  | cons i rest ih =>
    intro blooms
    rw [List.foldl_cons, ih, rotateBit]
    split <;> simp

theorem foldl_rotateBit_getD (bloom : Bloom) (byteIndex : Nat) (bitMask : UInt8) (n : Nat) (blooms : List (List UInt8))
    (k : Nat) :
    ((List.range n).foldl (rotateBit bloom byteIndex bitMask) blooms).getD k [] =
      if k < n ∧ bloom.bit k then (blooms.getD k []).modify byteIndex (· ||| bitMask) else blooms.getD k [] := by
  induction n with
  | zero => simp
  | succ n ih =>
    rw [List.range_succ, List.foldl_append, List.foldl_cons, List.foldl_nil, rotateBit_getD, ih]
    by_cases same : k = n
    · subst same
      simp
    · by_cases below : k < n
      · simp [same, below, show k < n + 1 by omega]
      · simp [same, below, show ¬ k < n + 1 by omega]

theorem msbBit_setColumn (column : List UInt8) (s : Nat) (inside : s / 8 < column.length) (j : Nat) :
    msbBit (column.modify (s / 8) (· ||| (1 : UInt8) <<< UInt8.ofNat (7 - s % 8))) j = (msbBit column j || decide (j = s)) := by
  rw [msbBit_modify_or column _ _ inside, testBit_one_shiftLeft _ _ (by omega) (by omega)]
  have same : (j / 8 == s / 8 && decide (7 - j % 8 = 7 - s % 8)) = decide (j = s) := by
    rw [Bool.eq_iff_iff]
    simp only [Bool.and_eq_true, beq_iff_eq, decide_eq_true_eq]
    omega
  rw [same]

/-- The shape `NewGenerator` gives and `AddBloom` keeps: a column of
`sections / 8` bytes per bloom bit, and no more blooms than the section holds. -/
structure Generator.Shaped (g : Generator) : Prop where
  aligned : g.sections % 8 = 0
  columns : g.blooms.length = BloomBitLength
  width : ∀ k, k < BloomBitLength → (g.blooms.getD k []).length = g.sections / 8
  filled : g.nextSec ≤ g.sections

/-- The columns hold the blooms added so far: bit `j` of column `k` is bit `k`
of the `j`-th bloom, and clear past the last. -/
structure Generator.Holds (g : Generator) (added : List Bloom) : Prop where
  count : g.nextSec = added.length
  bits : ∀ k, k < BloomBitLength → ∀ j, msbBit (g.blooms.getD k []) j = (added[j]?.map (Bloom.bit · k)).getD false

theorem NewGenerator_ok (sections : Nat) (aligned : sections % 8 = 0) :
    ∃ g, NewGenerator sections = .ok g ∧ g.Shaped ∧ g.Holds [] ∧ g.sections = sections := by
  refine ⟨_, if_neg (not_not.mpr aligned), ⟨aligned, List.length_replicate, fun k inside => ?_, Nat.zero_le _⟩,
    ⟨rfl, fun k inside j => ?_⟩, rfl⟩
  · rw [List.getD_replicate _ inside, List.length_replicate]
  · rw [List.getD_replicate _ inside, msbBit_replicate_zero]
    rfl

theorem AddBloom_holds (g : Generator) (added : List Bloom) (shaped : g.Shaped) (holds : g.Holds added) (bloom : Bloom)
    (room : g.nextSec < g.sections) :
    ∃ g', g.AddBloom g.nextSec bloom = .ok g' ∧ g'.Shaped ∧ g'.Holds (added ++ [bloom]) ∧ g'.sections = g.sections := by
  have column : ∀ k, ((List.range BloomBitLength).foldl
      (rotateBit bloom (g.nextSec / 8) ((1 : UInt8) <<< UInt8.ofNat (7 - g.nextSec % 8))) g.blooms).getD k [] =
      if k < BloomBitLength ∧ bloom.bit k then
        (g.blooms.getD k []).modify (g.nextSec / 8) (· ||| (1 : UInt8) <<< UInt8.ofNat (7 - g.nextSec % 8))
      else g.blooms.getD k [] :=
    foldl_rotateBit_getD _ _ _ _ _
  rw [Generator.AddBloom, if_neg (by omega), if_neg (by omega)]
  refine ⟨_, rfl, ⟨shaped.aligned, ?_, fun k inside => ?_, room⟩,
    ⟨by rw [List.length_append, List.length_singleton, holds.count], fun k inside j => ?_⟩, rfl⟩
  · rw [foldl_rotateBit_length, shaped.columns]
  · rw [column k]
    split
    · rw [List.length_modify, shaped.width k inside]
    · exact shaped.width k inside
  · have inside' : g.nextSec / 8 < (g.blooms.getD k []).length := by
      have := shaped.aligned
      rw [shaped.width k inside]
      omega
    have before := holds.bits k inside j
    rw [column k]
    -- the new bloom lands at position `nextSec`, just past the ones added
    have added' : ((added ++ [bloom])[j]?.map (Bloom.bit · k)).getD false =
        (((added[j]?.map (Bloom.bit · k)).getD false) || (decide (j = g.nextSec) && bloom.bit k)) := by
      rw [holds.count]
      rcases Nat.lt_trichotomy j added.length with earlier | same | later
      · rw [List.getElem?_append_left earlier]
        simp [Nat.ne_of_lt earlier]
      · subst same
        simp
      · rw [List.getElem?_append_right (by omega), List.getElem?_eq_none (by simp; omega)]
        simp [List.getElem?_eq_none (show added.length ≤ j by omega), Nat.ne_of_gt later]
    rw [added', ← before]
    by_cases set : bloom.bit k
    · rw [if_pos ⟨inside, set⟩, msbBit_setColumn _ _ inside', set, Bool.and_true]
    · rw [if_neg (fun h => set h.2)]
      simp [set]

theorem AddBlooms_holds (blooms : List Bloom) :
    ∀ (g : Generator) (added : List Bloom), g.Shaped → g.Holds added → added.length + blooms.length ≤ g.sections →
      ∃ g', g.AddBlooms added.length blooms = .ok g' ∧ g'.Shaped ∧ g'.Holds (added ++ blooms) ∧
        g'.sections = g.sections := by
  induction blooms with
  | nil =>
    intro g added shaped holds _
    exact ⟨g, rfl, shaped, by rw [List.append_nil]; exact holds, rfl⟩
  | cons bloom rest ih =>
    intro g added shaped holds room
    have next : g.nextSec < g.sections := by
      rw [holds.count]
      simp only [List.length_cons] at room
      omega
    obtain ⟨g1, added1, shaped1, holds1, sections1⟩ := AddBloom_holds g added shaped holds bloom next
    have room1 : (added ++ [bloom]).length + rest.length ≤ g1.sections := by
      rw [sections1, List.length_append, List.length_singleton]
      simp only [List.length_cons] at room
      omega
    obtain ⟨g', run, shaped', holds', sections'⟩ := ih g1 (added ++ [bloom]) shaped1 holds1 room1
    refine ⟨g', ?_, shaped', by simpa using holds', sections'.trans sections1⟩
    rw [Generator.AddBlooms, ← holds.count, added1, ExceptRun.ok_bind, holds.count]
    simpa using run

/-! ## Queries of the columns -/

theorem bloombits_answer_lookups (keccak : List UInt8 → List UInt8) (s : Nat) (aligned : s % 8 = 0)
    (blooms : List Bloom) (count : blooms.length = s) :
    (∃ g, (NewGenerator s >>= fun g => g.AddBlooms 0 blooms) = .ok g ∧
      ∀ j bloom, blooms[j]? = some bloom → ∀ x,
        (BloomLookup keccak bloom x = true ↔
          ∀ k ∈ calcBloomIndexes keccak x, ∃ column, g.Bitset k = .ok column ∧ msbBit column j = true)) ∧
    (∀ receipts x, (∃ r ∈ receipts, ∃ log ∈ r.Logs, x = log.Address ∨ x ∈ log.Topics) →
      ∃ bloom, CreateBloom keccak receipts = some bloom ∧ BloomLookup keccak bloom x = true) ∧
    (∀ (b : Bloom) d, ∃ b', b.Add keccak d = some b' ∧ b'.Test keccak d = true) := by
  refine ⟨?_, ?_, ?_⟩
  · obtain ⟨g0, made, shaped0, holds0, sections0⟩ := NewGenerator_ok s aligned
    obtain ⟨g, run, shaped, holds, sections⟩ := AddBlooms_holds blooms g0 [] shaped0 holds0 (by simp [count, sections0])
    refine ⟨g, by rw [made, ExceptRun.ok_bind]; exact run, fun j bloom at_j x => ?_⟩
    -- every column is ready, and its bit `j` is bit `k` of the `j`-th bloom
    have column : ∀ k, k < BloomBitLength → g.Bitset k = .ok (g.blooms.getD k []) := by
      intro k inside
      rw [Generator.Bitset, if_neg (by rw [holds.count, sections, sections0]; simp [count]), if_neg (by omega)]
    rw [BloomLookup_iff, calcBloomIndexes_eq]
    refine forall₂_congr fun k mem => ?_
    have inside := bloomIndexes_lt keccak x k mem
    have bit := holds.bits k inside j
    rw [List.nil_append, at_j, Option.map_some, Option.getD_some] at bit
    rw [column k inside, ← bit]
    exact ⟨fun set => ⟨_, rfl, set⟩, fun ⟨_, same, set⟩ => by cases same; exact set⟩
  · rintro receipts x ⟨r, inReceipts, log, inLogs, mentions⟩
    obtain ⟨bloom, created, bits⟩ := CreateBloom_Big keccak receipts
    refine ⟨bloom, created, (BloomLookup_iff_Big keccak bloom x).mpr fun t mem => ?_⟩
    have hashed : (bloom9 keccak x).testBit t = true := by rw [testBit_bloom9, decide_eq_true mem]
    rw [bits, List.any_eq_true]
    refine ⟨r, inReceipts, ?_⟩
    rw [testBit_logsBloom, List.any_eq_true]
    refine ⟨log, inLogs, ?_⟩
    rcases mentions with rfl | topic
    · rw [hashed, Bool.true_or]
    · rw [List.any_eq_true.mpr ⟨x, topic, hashed⟩, Bool.or_true]
  · intro b d
    obtain ⟨b', added, big⟩ := Add_Big keccak b d
    refine ⟨b', added, (BloomLookup_iff_Big keccak b' _).mpr fun t mem => ?_⟩
    rw [big, Nat.testBit_or, Bloom9, testBit_bloom9, decide_eq_true mem, Bool.or_true]

theorem bloombits_section_of_eight :
    ∃ g, (NewGenerator 8 >>= fun g => g.AddBlooms 0
      (List.replicate 8 ⟨List.replicate BloomByteLength 0, List.length_replicate⟩)) = .ok g :=
  (bloombits_answer_lookups (fun b => b) 8 rfl _ List.length_replicate).1.imp fun _ found => found.1

end TurboGeth.Core
