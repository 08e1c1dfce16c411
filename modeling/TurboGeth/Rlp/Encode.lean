import TurboGeth.Lib.Rlp

/-!
# The RLP encoder

`rlp/encode.go`.  The encoder writes into an `encbuf` the string data of a
value, string headers included, and leaves the list headers out: `list`
records where a list starts and how many header bytes were written before
it, `listEnd` works out the list's payload size once its elements are
written, and `toBytes` splices the headers into the string data at their
offsets.  The value is an item tree whose byte strings are `[]byte` and whose
lists are `[]interface{}`, so the writers are `writeBytes` and the slice
writer of `makeSliceWriter` under `writeInterface`.

The main theorem: on every item whose payloads are shorter than `2 ^ 64`,
`EncodeToBytes` is the RLP encoding of the library.
-/

set_option autoImplicit false

namespace TurboGeth.Rlp

/-- The low `size` bytes of `i`, the most significant first:
`b[0] = byte(i >> 8*(size-1))`, ..., `b[size-1] = byte(i)`. -/
def putBytes : Nat → Nat → List UInt8
  | 0, _ => []
  | size + 1, i => UInt8.ofNat (i >>> (8 * size)) :: putBytes size i

/-- `putint`: the bytes of `i`, as few as hold it, one case per byte count. -/
def putint (i : Nat) : List UInt8 :=
  if i < 2 ^ 8 then putBytes 1 i
  else if i < 2 ^ 16 then putBytes 2 i
  else if i < 2 ^ 24 then putBytes 3 i
  else if i < 2 ^ 32 then putBytes 4 i
  else if i < 2 ^ 40 then putBytes 5 i
  else if i < 2 ^ 48 then putBytes 6 i
  else if i < 2 ^ 56 then putBytes 7 i
  else putBytes 8 i

/-- `intsize`: one byte, and one more for every further shift by eight that
leaves something. -/
def intsize (i : Nat) : Nat :=
  if i >>> 8 = 0 then 1 else intsize (i >>> 8) + 1
termination_by i
decreasing_by
  rw [Nat.shiftRight_eq_div_pow]
  exact Nat.div_lt_self (Nat.pos_of_ne_zero fun zero => by simp_all) (by decide)

def headsize (size : Nat) : Nat :=
  if size < 56 then 1 else 1 + intsize size

def puthead (smalltag largetag : UInt8) (size : Nat) : List UInt8 :=
  if size < 56 then [smalltag + UInt8.ofNat size]
  else
    let sizebytes := putint size
    (largetag + UInt8.ofNat sizebytes.length) :: sizebytes

structure ListHead where
  /-- the index of this header in the string data -/
  offset : Nat
  /-- the payload size, once `listEnd` has run -/
  size : Nat

def ListHead.encode (head : ListHead) : List UInt8 := puthead 0xC0 0xF7 head.size

structure Encbuf where
  str : List UInt8
  lheads : List ListHead
  lhsize : Nat

namespace Encbuf

def size (w : Encbuf) : Nat := w.str.length + w.lhsize

def encodeStringHeader (w : Encbuf) (size : Nat) : Encbuf :=
  if size < 56 then { w with str := w.str ++ [0x80 + UInt8.ofNat size] }
  else
    let sizebuf := putint size
    { w with str := w.str ++ (0xB7 + UInt8.ofNat sizebuf.length) :: sizebuf }

def encodeString (w : Encbuf) (b : List UInt8) : Encbuf :=
  if b.length = 1 ∧ b.headD 0 ≤ 0x7F then { w with str := w.str ++ [b.headD 0] }
  else
    let w := w.encodeStringHeader b.length
    { w with str := w.str ++ b }

/-- `list`: the new header holds the header bytes written so far until
`listEnd`.  Go hands back a pointer to it; here its index in `lheads`. -/
def list (w : Encbuf) : Encbuf × Nat :=
  ({ w with lheads := w.lheads ++ [{ offset := w.str.length, size := w.lhsize }] }, w.lheads.length)

def listEnd (w : Encbuf) (index : Nat) : Encbuf :=
  let lh := w.lheads.getD index ⟨0, 0⟩
  let size := w.size - lh.offset - lh.size
  { w with
    lheads := w.lheads.set index { lh with size := size }
    -- the length is in the kind tag, or after it
    lhsize := if size < 56 then w.lhsize + 1 else w.lhsize + 1 + intsize size }

/-- The loop of `toBytes` from `strpos` on: the string data up to each
header, then the header. -/
def copyHeads (str : List UInt8) (strpos : Nat) : List ListHead → List UInt8
  | [] => str.drop strpos
  | head :: heads =>
    let n := head.offset - strpos
    (str.drop strpos).take n ++ head.encode ++ copyHeads str (strpos + n) heads

def toBytes (w : Encbuf) : List UInt8 := copyHeads w.str 0 w.lheads

mutual

/-- The writer of an item tree: `writeBytes` for a byte string; for a list,
the slice writer, which opens the list, writes the elements through
`writeInterface` and closes the list in its deferred `listEnd`. -/
def writeItem (w : Encbuf) : Rlp.Item → Encbuf
  | .bytes b => w.encodeString b
  | .list items =>
    match w.list with
    | (opened, lh) => (opened.writeItems items).listEnd lh

def writeItems (w : Encbuf) : List Rlp.Item → Encbuf
  | [] => w
  | item :: rest => (w.writeItem item).writeItems rest

end

end Encbuf

/-- `EncodeToBytes`, from a reset buffer. -/
def EncodeToBytes (x : Rlp.Item) : List UInt8 :=
  (Encbuf.writeItem ⟨[], [], 0⟩ x).toBytes

/-! ## The header writers -/

@[simp] theorem putBytes_length (size i : Nat) : (putBytes size i).length = size := by
  induction size with
  | zero => rfl
  | succ size ih => simp [putBytes, ih]

theorem bigEndian_putBytes (size i : Nat) : Rlp.bigEndian (putBytes size i) = i % 256 ^ size := by
  induction size with
  | zero => simp [putBytes, Nat.mod_one]
  | succ size ih =>
    have shifted : i >>> (8 * size) = i / 256 ^ size := by
      rw [Nat.shiftRight_eq_div_pow, Nat.pow_mul]
    have byteBase : (2 : Nat) ^ 8 = 256 := rfl
    rw [putBytes, Rlp.bigEndian_cons, ih, putBytes_length, UInt8.toNat_ofNat', shifted, byteBase,
      Nat.mod_pow_succ]
    ring

theorem putBytes_eq_natBytes (size i : Nat) (big : 256 ^ size ≤ i) (small : i < 256 ^ (size + 1)) :
    putBytes (size + 1) i = Rlp.natBytes i := by
  have top : i >>> (8 * size) = i / 256 ^ size := by
    rw [Nat.shiftRight_eq_div_pow, Nat.pow_mul]
  have topRange : 0 < i / 256 ^ size ∧ i / 256 ^ size < 256 := by
    constructor
    · exact Nat.div_pos big (Nat.pow_pos (by decide))
    · rw [Nat.div_lt_iff_lt_mul (Nat.pow_pos (by decide)), ← Nat.pow_succ']
      exact small
  have canonical : (putBytes (size + 1) i).head? ≠ some 0 := by
    simp only [putBytes, List.head?_cons, ne_eq, Option.some.injEq]
    rw [← UInt8.toNat_inj, UInt8.toNat_ofNat', top]
    simp only [UInt8.toNat_zero]
    omega
  conv_lhs => rw [← Rlp.natBytes_bigEndian _ canonical, bigEndian_putBytes, Nat.mod_eq_of_lt small]

theorem putint_eq_natBytes (i : Nat) (live : 0 < i) (fits : i < 2 ^ 64) : putint i = Rlp.natBytes i := by
  unfold putint
  split_ifs
  · exact putBytes_eq_natBytes 0 i (by simp; omega) (by simpa)
  · exact putBytes_eq_natBytes 1 i (by norm_num; omega) (by norm_num; omega)
  · exact putBytes_eq_natBytes 2 i (by norm_num; omega) (by norm_num; omega)
  · exact putBytes_eq_natBytes 3 i (by norm_num; omega) (by norm_num; omega)
  · exact putBytes_eq_natBytes 4 i (by norm_num; omega) (by norm_num; omega)
  · exact putBytes_eq_natBytes 5 i (by norm_num; omega) (by norm_num; omega)
  · exact putBytes_eq_natBytes 6 i (by norm_num; omega) (by norm_num; omega)
  · exact putBytes_eq_natBytes 7 i (by norm_num; omega) (by norm_num; omega)

theorem intsize_eq (i : Nat) (live : 0 < i) : intsize i = (Rlp.natBytes i).length := by
  induction i using Nat.strong_induction_on with
  | _ i ih =>
    rw [intsize, Nat.shiftRight_eq_div_pow]
    split_ifs with last
    · rw [Rlp.natBytes_one_byte i live (by omega)]
      rfl
    · have higher : 0 < i / 2 ^ 8 := Nat.pos_of_ne_zero last
      rw [ih _ (Nat.div_lt_self live (by decide)) higher, Rlp.natBytes_pos i live]
      simp

theorem puthead_eq_header (offset size : Nat) (fits : size < 2 ^ 64) :
    puthead (UInt8.ofNat offset) (UInt8.ofNat (offset + 55)) size = Rlp.header offset size := by
  unfold puthead Rlp.header
  split_ifs with short
  · rw [UInt8.ofNat_add]
  · by_cases zero : size = 0
    · omega
    rw [putint_eq_natBytes size (Nat.pos_of_ne_zero zero) fits]
    simp only [UInt8.ofNat_add]

theorem headsize_eq (size : Nat) : headsize size = (Rlp.header 192 size).length := by
  unfold headsize Rlp.header
  split_ifs with short
  · rfl
  · rw [intsize_eq size (by omega)]
    simp [Nat.add_comm]

theorem ListHead.encode_eq (head : ListHead) (fits : head.size < 2 ^ 64) :
    head.encode = Rlp.header 192 head.size :=
  puthead_eq_header 192 head.size fits

namespace Encbuf

@[simp] theorem encodeStringHeader_lheads (w : Encbuf) (size : Nat) :
    (w.encodeStringHeader size).lheads = w.lheads := by
  unfold encodeStringHeader
  split_ifs <;> rfl

@[simp] theorem encodeStringHeader_lhsize (w : Encbuf) (size : Nat) :
    (w.encodeStringHeader size).lhsize = w.lhsize := by
  unfold encodeStringHeader
  split_ifs <;> rfl

theorem encodeStringHeader_str (w : Encbuf) (size : Nat) (fits : size < 2 ^ 64) :
    (w.encodeStringHeader size).str = w.str ++ Rlp.header 128 size := by
  rw [← puthead_eq_header 128 size fits]
  unfold encodeStringHeader puthead
  split_ifs <;> rfl

theorem encodeString_eq (w : Encbuf) (b : List UInt8) (fits : b.length < 2 ^ 64) :
    w.encodeString b = { w with str := w.str ++ Rlp.encode (.bytes b) } := by
  have header := encodeStringHeader_str w b.length fits
  unfold encodeString
  match b with
  | [] => simp_all [Rlp.encode]
  | [c] =>
    have small : c ≤ 0x7F ↔ c < 128 := by
      rw [UInt8.le_iff_toNat_le, UInt8.lt_iff_toNat_lt]
      simp only [UInt8.reduceToNat]
      omega
    by_cases low : c < 128
    · simp [small, Rlp.encode, low]
    · have high : ¬ c ≤ 0x7F := fun le => low (small.mp le)
      rw [List.length_singleton] at header
      simp [high, low, Rlp.encode, header]
  | c :: d :: rest => simp_all [Rlp.encode]

end Encbuf

/-! ## What the buffer holds after an item -/

mutual

/-- The string data an item leaves in `str`: its encoding without the list
headers. -/
def strData : Rlp.Item → List UInt8
  | .bytes b => Rlp.encode (.bytes b)
  | .list items => strDataAll items

def strDataAll : List Rlp.Item → List UInt8
  | [] => []
  | item :: rest => strData item ++ strDataAll rest

end

mutual

/-- The list headers an item records, its string data starting at `base`. -/
def headsOf (base : Nat) : Rlp.Item → List ListHead
  | .bytes _ => []
  | .list items => ⟨base, (Rlp.encodeAll items).length⟩ :: headsOfAll base items

def headsOfAll (base : Nat) : List Rlp.Item → List ListHead
  | [] => []
  | item :: rest => headsOf base item ++ headsOfAll (base + (strData item).length) rest

end

namespace Encbuf

@[simp] theorem list_fst_str (w : Encbuf) : w.list.1.str = w.str := rfl

@[simp] theorem list_fst_lheads (w : Encbuf) : w.list.1.lheads = w.lheads ++ [⟨w.str.length, w.lhsize⟩] := rfl

@[simp] theorem list_fst_lhsize (w : Encbuf) : w.list.1.lhsize = w.lhsize := rfl

@[simp] theorem list_snd (w : Encbuf) : w.list.2 = w.lheads.length := rfl

theorem listEnd_opened (w : Encbuf) (front back : List ListHead) (opened : ListHead)
    (at_ : w.lheads = front ++ opened :: back) :
    let size := w.size - opened.offset - opened.size
    w.listEnd front.length =
      { w with lheads := front ++ ⟨opened.offset, size⟩ :: back,
               lhsize := w.lhsize + headsize size } := by
  intro size
  have found : w.lheads.getD front.length ⟨0, 0⟩ = opened := by
    simp [at_]
  unfold listEnd
  simp only [found]
  rw [at_, List.set_append_right _ _ (Nat.le_refl _), Nat.sub_self, List.set_cons_zero]
  unfold headsize
  split_ifs <;> simp [size, Nat.add_assoc]

mutual

theorem writeItem_fields (w : Encbuf) : ∀ x : Rlp.Item, Rlp.Encodable x →
    (w.writeItem x).str = w.str ++ strData x ∧
    (w.writeItem x).lheads = w.lheads ++ headsOf w.str.length x ∧
    (w.writeItem x).lhsize + (strData x).length = w.lhsize + (Rlp.encode x).length
  | .bytes b, fits => by
    simp [writeItem, encodeString_eq w b fits, strData, headsOf]
  | .list items, ⟨payloadFits, itemsFit⟩ => by
    obtain ⟨str, heads, sizes⟩ := writeItems_fields w.list.1 items itemsFit
    simp only [list_fst_str, list_fst_lheads, list_fst_lhsize] at str heads sizes
    have closed := listEnd_opened (w.list.1.writeItems items) w.lheads (headsOfAll w.str.length items)
      ⟨w.str.length, w.lhsize⟩ (by simp [heads])
    have payload : (w.list.1.writeItems items).size - w.str.length - w.lhsize = (Rlp.encodeAll items).length := by
      unfold Encbuf.size
      rw [str, List.length_append]
      omega
    simp only [writeItem, list_snd, closed, payload, headsize_eq]
    refine ⟨str, by simp [headsOf], ?_⟩
    simp only [strData, Rlp.encode_list, List.length_append]
    omega

theorem writeItems_fields (w : Encbuf) : ∀ items : List Rlp.Item, Rlp.EncodableAll items →
    (w.writeItems items).str = w.str ++ strDataAll items ∧
    (w.writeItems items).lheads = w.lheads ++ headsOfAll w.str.length items ∧
    (w.writeItems items).lhsize + (strDataAll items).length = w.lhsize + (Rlp.encodeAll items).length
  | [], _ => by simp [writeItems, strDataAll, headsOfAll]
  | item :: rest, ⟨itemFits, restFit⟩ => by
    obtain ⟨str, heads, sizes⟩ := writeItem_fields w item itemFits
    obtain ⟨str', heads', sizes'⟩ := writeItems_fields (w.writeItem item) rest restFit
    simp only [str, heads, List.length_append] at str' heads' sizes'
    refine ⟨by simp [writeItems, str', strDataAll], by simp [writeItems, heads', headsOfAll], ?_⟩
    simp only [writeItems, strDataAll, Rlp.encodeAll_cons, List.length_append]
    omega

end

/-! ## Splicing the headers in -/

theorem copyHeads_skip (str : List UInt8) (base n : Nat) (later : List ListHead)
    (after : ∀ head ∈ later, base + n ≤ head.offset) :
    copyHeads str base later = (str.drop base).take n ++ copyHeads str (base + n) later := by
  cases later with
  | nil =>
    rw [copyHeads, copyHeads, ← List.drop_drop]
    exact (List.take_append_drop n _).symm
  | cons head heads =>
    have ahead := after head List.mem_cons_self
    have split : head.offset - base = n + (head.offset - (base + n)) := by omega
    have landing : base + (head.offset - base) = base + n + (head.offset - (base + n)) := by omega
    simp only [copyHeads]
    rw [landing, split, List.take_add, List.drop_drop]
    simp only [List.append_assoc]

mutual

theorem headsOf_offset_ge : ∀ (x : Rlp.Item) (base : Nat), ∀ head ∈ headsOf base x, base ≤ head.offset
  | .bytes _, base, head, mem => by simp [headsOf] at mem
  | .list items, base, head, mem => by
    rw [headsOf, List.mem_cons] at mem
    rcases mem with rfl | inner
    · exact Nat.le_refl _
    · exact headsOfAll_offset_ge items base head inner

theorem headsOfAll_offset_ge : ∀ (items : List Rlp.Item) (base : Nat), ∀ head ∈ headsOfAll base items,
    base ≤ head.offset
  | [], base, head, mem => by simp [headsOfAll] at mem
  | item :: rest, base, head, mem => by
    rw [headsOfAll, List.mem_append] at mem
    rcases mem with first | later
    · exact headsOf_offset_ge item base head first
    · exact Nat.le_trans (Nat.le_add_right _ _) (headsOfAll_offset_ge rest _ head later)

end

mutual

theorem copyHeads_headsOf (str : List UInt8) : ∀ (x : Rlp.Item) (base : Nat) (tail : List UInt8)
    (later : List ListHead), Rlp.Encodable x → str.drop base = strData x ++ tail →
    (∀ head ∈ later, base + (strData x).length ≤ head.offset) →
    copyHeads str base (headsOf base x ++ later) = Rlp.encode x ++ copyHeads str (base + (strData x).length) later
  | .bytes b, base, tail, later, _, data, after => by
    rw [headsOf, List.nil_append, copyHeads_skip str base _ later after, data, List.take_left]
    rfl
  | .list items, base, tail, later, ⟨payloadFits, itemsFit⟩, data, after => by
    -- the list's own header comes first, at the start of its string data
    rw [headsOf, List.cons_append, copyHeads]
    simp only [Nat.sub_self, List.take_zero, List.nil_append, Nat.add_zero]
    rw [copyHeads_headsOfAll str items base tail later itemsFit data after, ListHead.encode_eq _ payloadFits]
    simp [strData]

theorem copyHeads_headsOfAll (str : List UInt8) : ∀ (items : List Rlp.Item) (base : Nat) (tail : List UInt8)
    (later : List ListHead), Rlp.EncodableAll items → str.drop base = strDataAll items ++ tail →
    (∀ head ∈ later, base + (strDataAll items).length ≤ head.offset) →
    copyHeads str base (headsOfAll base items ++ later) =
      Rlp.encodeAll items ++ copyHeads str (base + (strDataAll items).length) later
  | [], base, tail, later, _, _, _ => by simp [headsOfAll, strDataAll]
  | item :: rest, base, tail, later, ⟨itemFits, restFit⟩, data, after => by
    have restData : str.drop (base + (strData item).length) = strDataAll rest ++ tail := by
      rw [← List.drop_drop, data, strDataAll, List.append_assoc, List.drop_left]
    have restAfter : ∀ head ∈ later, base + (strData item).length + (strDataAll rest).length ≤ head.offset := by
      intro head mem
      have := after head mem
      simp only [strDataAll, List.length_append] at this
      omega
    have itemAfter : ∀ head ∈ headsOfAll (base + (strData item).length) rest ++ later,
        base + (strData item).length ≤ head.offset := by
      intro head mem
      rcases List.mem_append.mp mem with inner | outer
      · exact headsOfAll_offset_ge rest _ head inner
      · exact Nat.le_trans (Nat.le_add_right _ _) (restAfter head outer)
    rw [headsOfAll, List.append_assoc,
      copyHeads_headsOf str item base (strDataAll rest ++ tail) _ itemFits (by rw [data, strDataAll, List.append_assoc])
        itemAfter,
      copyHeads_headsOfAll str rest _ tail later restFit restData restAfter]
    simp [strDataAll, Nat.add_assoc]

end

end Encbuf

theorem EncodeToBytes_eq_encode (x : Rlp.Item) (fits : Rlp.Encodable x) : EncodeToBytes x = Rlp.encode x := by
  obtain ⟨str, heads, -⟩ := Encbuf.writeItem_fields ⟨[], [], 0⟩ x fits
  simp only [List.nil_append, List.length_nil] at str heads
  have spliced := Encbuf.copyHeads_headsOf (strData x) x 0 [] [] fits (by simp) (by simp)
  rw [List.append_nil] at spliced
  rw [EncodeToBytes, Encbuf.toBytes, str, heads, spliced, Encbuf.copyHeads, Nat.zero_add, List.drop_length,
    List.append_nil]

end TurboGeth.Rlp
