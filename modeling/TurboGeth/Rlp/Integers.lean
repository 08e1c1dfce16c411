import TurboGeth.Rlp.Typed
import TurboGeth.Rlp.Encode

/-!
# Integers on the RLP stream

`writeUint` and `writeBigInt` of `rlp/encode.go`, and the decoders that read
them back off a `Stream`: `Stream.uint` of `rlp/decode.go`, which the
decoders of `uint8` to `uint64` call with their width, and `decodeBigInt`.

An integer is written as the string of its big-endian bytes with no leading
zero: zero as the empty string `0x80`, below `0x80` as its own byte, the
rest with a string header.  The decoders take back exactly these forms:
what names an integer otherwise, with a leading zero byte, as the single
byte `0x00` or as a one-byte string below `0x80`, is refused with
`ErrCanonInt` or `ErrCanonSize`, and a string too long for the width with
`errUintOverflow`.

`Stream.uint` returns Go's errors under the typed decoders' error type of
`Typed`: the stream's own, and `ErrCanonInt` and `errUintOverflow`.  The
type `wrapStreamError` adds to an error is left out.
-/

set_option autoImplicit false

namespace TurboGeth.Rlp

/-- `Stream.uint(maxbits)`. -/
def Stream.uint (maxbits : Nat) : EStateM FieldError Stream Nat := fun s =>
  match Stream.Kind s with
  | .error err s => .error (.stream err) s
  | .ok (.Byte, _) s =>
    if s.byteval = 0 then .error .ErrCanonInt s
    -- rearm Kind
    else .ok s.byteval.toNat { s with kind := none }
  | .ok (.String, size) s =>
    if size > maxbits / 8 then .error .errUintOverflow s
    else
      match Stream.readUint (UInt8.ofNat size) s with
      -- Adjust error because we're not reading a size right now.
      | .error .ErrCanonSize s => .error .ErrCanonInt s
      | .error err s => .error (.stream err) s
      | .ok v s => if size > 0 ∧ v < 128 then .error (.stream .ErrCanonSize) s else .ok v s
  | .ok (.List, _) s => .error (.stream .ErrExpectedString) s

/-- `decodeBigInt`: the bytes of a string, refused with a leading zero.  Go
names the function `decodeBigInt`; `Typed` has that name for its decoder on
items. -/
def Stream.decodeBigInt : EStateM FieldError Stream Nat := fun s =>
  match Stream.Bytes s with
  | .error err s => .error (.stream err) s
  | .ok b s =>
    -- Reject leading zero bytes
    if b.length > 0 ∧ b.headD 0 = 0 then .error .ErrCanonInt s
    else .ok (Rlp.bigEndian b) s

namespace Encbuf

/-- `writeUint` of a `uint64`. -/
def writeUint (i : Nat) (w : Encbuf) : Encbuf :=
  if i = 0 then { w with str := w.str ++ [0x80] }
  -- fits single byte
  else if i < 128 then { w with str := w.str ++ [UInt8.ofNat i] }
  else
    let s := putint i
    { w with str := w.str ++ (0x80 + UInt8.ofNat s.length) :: s }

def writeBigInt (i : Int) (w : Encbuf) : Except String Encbuf :=
  if i < 0 then .error "rlp: cannot encode negative *big.Int"
  else if i = 0 then .ok { w with str := w.str ++ [0x80] }
  else .ok (w.encodeString (Rlp.natBytes i.toNat))

end Encbuf

/-! ## The decoders on one value

What each decoder returns once `Kind` has read a string header or a single
byte, as a function of the contents. -/

theorem NewStream_hasRoom (input : List UInt8) (n : Nat) (within : n ≤ input.length) : (NewStream input).HasRoom n := by
  simp [Stream.HasRoom, NewStream, within]

theorem readUint_content (s : Stream) (b rest : List UInt8) (input : s.r = b ++ rest) (room : s.HasRoom b.length)
    (short : b.length < 256) :
    ∃ s', Stream.readUint (UInt8.ofNat b.length) s =
      if 2 ≤ b.length ∧ b.headD 0 = 0 then .error .ErrCanonSize s' else .ok (Rlp.bigEndian b) s' := by
  match b with
  | [] => exact ⟨_, rfl⟩
  | [c] =>
    have first := (readByte_eq_ok s _ c).mpr ⟨room, rest, input, rfl⟩
    refine ⟨{ s.counted 1 with r := rest }, ?_⟩
    simp [Stream.readUint, first, Rlp.bigEndian]
  | c :: d :: more =>
    have size : (UInt8.ofNat (c :: d :: more).length).toNat = (c :: d :: more).length := tag_toNat _ short
    have first := (readFull_eq_ok _ s _ (c :: d :: more)).mpr ⟨room, rfl, rest, input, rfl⟩
    have notZero : UInt8.ofNat (c :: d :: more).length ≠ 0 := by
      intro zero
      rw [zero] at size
      simp at size
    have notOne : UInt8.ofNat (c :: d :: more).length ≠ 1 := by
      intro one
      rw [one] at size
      simp at size
    refine ⟨{ s.counted (c :: d :: more).length with r := rest }, ?_⟩
    rw [Stream.readUint, if_neg notZero, if_neg notOne, size, first]
    by_cases zero : c = 0 <;> simp [zero]

theorem hasRoom_after_header (s : Stream) (hdr : List UInt8) (n : Nat) (room : s.HasRoom (hdr.length + n))
    (rest : List UInt8) (byteval : UInt8) (kind : Option Kind) (size : Nat) (kinderr : Option RlpError) :
    ({ s.counted hdr.length with r := rest, byteval := byteval, kind := kind, size := size, kinderr := kinderr } : Stream).HasRoom n :=
  ((hasRoom_add s _ _).mp room).2

theorem uint_string (maxbits : Nat) (wide : maxbits ≤ 64) (s : Stream) (fresh : s.kind = none) (b rest : List UInt8)
    (fits : b.length < 2 ^ 64) (input : s.r = Rlp.header 128 b.length ++ (b ++ rest))
    (room : s.HasRoom ((Rlp.header 128 b.length).length + b.length)) :
    ∃ s', s.uint maxbits =
      if maxbits / 8 < b.length then .error .errUintOverflow s'
      else if 2 ≤ b.length ∧ b.headD 0 = 0 then .error .ErrCanonInt s'
      else if 0 < b.length ∧ Rlp.bigEndian b < 128 then .error (.stream .ErrCanonSize) s'
      else .ok (Rlp.bigEndian b) s' := by
  have kind := Kind_header s fresh .String b.length 0 _ (b ++ rest) ⟨rfl, fits, rfl⟩ input room
  unfold Stream.uint
  rw [kind]
  dsimp only
  by_cases wide_contents : maxbits / 8 < b.length
  · exact ⟨_, by rw [if_pos wide_contents, if_pos wide_contents]⟩
  · obtain ⟨s₂, read⟩ := readUint_content _ b rest rfl (hasRoom_after_header s _ _ room _ _ _ _ _) (by omega)
    refine ⟨s₂, ?_⟩
    rw [if_neg wide_contents, if_neg wide_contents, read]
    by_cases zero : 2 ≤ b.length ∧ b.headD 0 = 0
    · rw [if_pos zero, if_pos zero]
    · rw [if_neg zero, if_neg zero]

theorem uint_byte (maxbits : Nat) (s : Stream) (fresh : s.kind = none) (c : UInt8) (low : c < 0x80)
    (rest : List UInt8) (input : s.r = [c] ++ rest) (room : s.HasRoom 1) :
    ∃ s', s.uint maxbits = if c = 0 then .error .ErrCanonInt s' else .ok c.toNat s' := by
  have kind := Kind_header s fresh .Byte 0 c _ rest ⟨rfl, low, rfl⟩ input room
  unfold Stream.uint
  rw [kind]
  dsimp only
  by_cases zero : c = 0
  · exact ⟨_, by rw [if_pos zero, if_pos zero]⟩
  · exact ⟨_, by rw [if_neg zero, if_neg zero]⟩

theorem decodeBigInt_string (s : Stream) (fresh : s.kind = none) (b rest : List UInt8) (fits : b.length < 2 ^ 64)
    (input : s.r = Rlp.header 128 b.length ++ (b ++ rest))
    (room : s.HasRoom ((Rlp.header 128 b.length).length + b.length)) :
    ∃ s', s.decodeBigInt =
      if b.length = 1 ∧ b.headD 0 < 128 then .error (.stream .ErrCanonSize) s'
      else if 0 < b.length ∧ b.headD 0 = 0 then .error .ErrCanonInt s'
      else .ok (Rlp.bigEndian b) s' := by
  have kind := Kind_header s fresh .String b.length 0 _ (b ++ rest) ⟨rfl, fits, rfl⟩ input room
  unfold Stream.decodeBigInt Stream.Bytes
  rw [kind]
  dsimp only
  rw [(readFull_eq_ok b.length _ _ b).mpr ⟨hasRoom_after_header s _ _ room _ _ _ _ _, rfl, rest, rfl, rfl⟩]
  dsimp only
  by_cases small : b.length = 1 ∧ b.headD 0 < 128
  · exact ⟨_, by rw [if_pos small, if_pos small]⟩
  · exact ⟨_, by rw [if_neg small, if_neg small]⟩

theorem decodeBigInt_byte (s : Stream) (fresh : s.kind = none) (c : UInt8) (low : c < 0x80)
    (rest : List UInt8) (input : s.r = [c] ++ rest) (room : s.HasRoom 1) :
    ∃ s', s.decodeBigInt = if c = 0 then .error .ErrCanonInt s' else .ok c.toNat s' := by
  have kind := Kind_header s fresh .Byte 0 c _ rest ⟨rfl, low, rfl⟩ input room
  unfold Stream.decodeBigInt Stream.Bytes
  rw [kind]
  by_cases zero : c = 0
  · exact ⟨_, by simp [zero]; rfl⟩
  · exact ⟨_, by simp [zero, Rlp.bigEndian]; rfl⟩

/-! ## The encoder -/

theorem encode_ofNat_string (v : Nat) (notSmall : v = 0 ∨ 128 ≤ v) :
    Rlp.encode (.ofNat v) = Rlp.header 128 (Rlp.natBytes v).length ++ Rlp.natBytes v := by
  apply Rlp.encode_string
  intro c single low
  rcases notSmall with rfl | big
  · simp [Rlp.natBytes, Rlp.natBytesAux] at single
  · have value := Rlp.bigEndian_natBytes v
    rw [single] at value
    simp only [Rlp.bigEndian, List.foldl_cons, List.foldl_nil, Nat.zero_mul, Nat.zero_add] at value
    rw [UInt8.lt_iff_toNat_lt] at low
    simp only [UInt8.reduceToNat] at low
    omega

theorem encode_ofNat_byte (v : Nat) (live : 0 < v) (low : v < 128) : Rlp.encode (.ofNat v) = [UInt8.ofNat v] := by
  rw [Rlp.Item.ofNat, Rlp.natBytes_one_byte v live (by omega)]
  apply Rlp.encode_byte
  rw [UInt8.lt_iff_toNat_lt, tag_toNat v (by omega)]
  exact low

namespace Encbuf

theorem writeUint_eq (i : Nat) (fits : i < 2 ^ 64) (w : Encbuf) :
    w.writeUint i = { w with str := w.str ++ Rlp.encode (.ofNat i) } := by
  unfold writeUint
  by_cases zero : i = 0
  · subst zero
    rw [if_pos rfl, encode_ofNat_string 0 (.inl rfl)]
    rfl
  by_cases low : i < 128
  · rw [if_neg zero, if_pos low, encode_ofNat_byte i (by omega) low]
  · have short : (Rlp.natBytes i).length < 56 := by
      have := Rlp.natBytes_length_le i 8 (by simpa using fits)
      omega
    rw [if_neg zero, if_neg low, encode_ofNat_string i (.inr (by omega)), putint_eq_natBytes i (by omega) fits,
      Rlp.header_short _ _ short, UInt8.ofNat_add]
    rfl

theorem writeBigInt_eq (n : Nat) (fits : (Rlp.natBytes n).length < 2 ^ 64) (w : Encbuf) :
    w.writeBigInt n = .ok { w with str := w.str ++ Rlp.encode (.ofNat n) } := by
  unfold writeBigInt
  rw [if_neg (by omega)]
  by_cases zero : n = 0
  · subst zero
    rw [if_pos (by rfl), encode_ofNat_string 0 (.inl rfl)]
    rfl
  · rw [if_neg (by omega), Int.toNat_natCast, encodeString_eq w _ fits]
    rfl

end Encbuf

/-! ## Reading back what the encoder writes -/

theorem natBytes_length_of_width (v maxbits : Nat) (whole : maxbits % 8 = 0) (fits : v < 2 ^ maxbits) :
    (Rlp.natBytes v).length ≤ maxbits / 8 := by
  apply Rlp.natBytes_length_le
  have bits : 2 ^ maxbits = 256 ^ (maxbits / 8) := by
    rw [show (256 : Nat) = 2 ^ 8 by rfl, ← Nat.pow_mul]
    congr 1
    omega
  exact bits ▸ fits

theorem small_byte (v : Nat) (small : 0 < v ∧ v < 128) : UInt8.ofNat v < 0x80 ∧ UInt8.ofNat v ≠ 0 := by
  have value := tag_toNat v (by omega)
  constructor
  · rw [UInt8.lt_iff_toNat_lt, value]
    exact small.2
  · intro zero
    rw [zero] at value
    simp at value
    omega

theorem natBytes_headD_ne_zero (v : Nat) (live : 0 < (Rlp.natBytes v).length) : (Rlp.natBytes v).headD 0 ≠ 0 := by
  intro zero
  apply Rlp.natBytes_head v
  cases bytes : Rlp.natBytes v with
  | nil => simp [bytes] at live
  | cons c more => simp_all

theorem string_value (v : Nat) (notSmall : v = 0 ∨ 128 ≤ v) (live : 0 < (Rlp.natBytes v).length) : 128 ≤ v := by
  rcases notSmall with rfl | big
  · simp [Rlp.natBytes, Rlp.natBytesAux] at live
  · exact big

theorem uint_encode (maxbits : Nat) (wide : maxbits ≤ 64) (whole : maxbits % 8 = 0) (v : Nat) (fits : v < 2 ^ maxbits)
    (s : Stream) (fresh : s.kind = none) (rest : List UInt8) (input : s.r = Rlp.encode (.ofNat v) ++ rest)
    (room : s.HasRoom (Rlp.encode (.ofNat v)).length) :
    ∃ s', s.uint maxbits = .ok v s' := by
  by_cases small : 0 < v ∧ v < 128
  · -- a byte below 0x80 stands for itself
    rw [encode_ofNat_byte v small.1 small.2] at input room
    obtain ⟨low, live⟩ := small_byte v small
    obtain ⟨s', read⟩ := uint_byte maxbits s fresh _ low rest input room
    refine ⟨s', ?_⟩
    rw [read, if_neg live, tag_toNat v (by omega)]
  · -- zero and the numbers from 0x80 on are strings of their bytes
    have notSmall : v = 0 ∨ 128 ≤ v := by omega
    have short := natBytes_length_of_width v maxbits whole fits
    rw [encode_ofNat_string v notSmall, List.append_assoc] at input
    rw [encode_ofNat_string v notSmall, List.length_append] at room
    obtain ⟨s', read⟩ := uint_string maxbits wide s fresh _ rest (by omega) input room
    have leading : ¬ (2 ≤ (Rlp.natBytes v).length ∧ (Rlp.natBytes v).headD 0 = 0) :=
      fun ⟨two, zero⟩ => natBytes_headD_ne_zero v (by omega) zero
    have notByte : ¬ (0 < (Rlp.natBytes v).length ∧ Rlp.bigEndian (Rlp.natBytes v) < 128) := by
      rw [Rlp.bigEndian_natBytes]
      rintro ⟨live, low⟩
      have := string_value v notSmall live
      omega
    refine ⟨s', ?_⟩
    rw [read, if_neg (by omega), if_neg leading, if_neg notByte, Rlp.bigEndian_natBytes]

theorem decodeBigInt_encode (v : Nat) (fits : (Rlp.natBytes v).length < 2 ^ 64) (s : Stream) (fresh : s.kind = none)
    (rest : List UInt8) (input : s.r = Rlp.encode (.ofNat v) ++ rest) (room : s.HasRoom (Rlp.encode (.ofNat v)).length) :
    ∃ s', s.decodeBigInt = .ok v s' := by
  by_cases small : 0 < v ∧ v < 128
  · rw [encode_ofNat_byte v small.1 small.2] at input room
    obtain ⟨low, live⟩ := small_byte v small
    obtain ⟨s', read⟩ := decodeBigInt_byte s fresh _ low rest input room
    refine ⟨s', ?_⟩
    rw [read, if_neg live, tag_toNat v (by omega)]
  · have notSmall : v = 0 ∨ 128 ≤ v := by omega
    rw [encode_ofNat_string v notSmall, List.append_assoc] at input
    rw [encode_ofNat_string v notSmall, List.length_append] at room
    obtain ⟨s', read⟩ := decodeBigInt_string s fresh _ rest fits input room
    have notByte : ¬ ((Rlp.natBytes v).length = 1 ∧ (Rlp.natBytes v).headD 0 < 128) := by
      rintro ⟨one, low⟩
      obtain ⟨c, single⟩ := List.length_eq_one_iff.mp one
      have value := Rlp.bigEndian_natBytes v
      rw [single] at value low
      simp only [Rlp.bigEndian, List.foldl_cons, List.foldl_nil, Nat.zero_mul, Nat.zero_add] at value
      have := string_value v notSmall (by omega)
      rw [List.headD_cons, UInt8.lt_iff_toNat_lt] at low
      simp only [UInt8.reduceToNat] at low
      omega
    have leading : ¬ (0 < (Rlp.natBytes v).length ∧ (Rlp.natBytes v).headD 0 = 0) :=
      fun liveZero => natBytes_headD_ne_zero v liveZero.1 liveZero.2
    refine ⟨s', ?_⟩
    rw [read, if_neg notByte, if_neg leading, Rlp.bigEndian_natBytes]

theorem writeUint_toBytes (v : Nat) (fits : v < 2 ^ 64) :
    (Encbuf.writeUint v ⟨[], [], 0⟩).toBytes = Rlp.encode (.ofNat v) := by
  rw [Encbuf.writeUint_eq v fits, List.nil_append]
  rfl

theorem writeBigInt_toBytes (n : Nat) (fits : (Rlp.natBytes n).length < 2 ^ 64) :
    ∃ buf, Encbuf.writeBigInt n ⟨[], [], 0⟩ = .ok buf ∧ buf.toBytes = Rlp.encode (.ofNat n) := by
  refine ⟨_, Encbuf.writeBigInt_eq n fits _, ?_⟩
  rw [List.nil_append]
  rfl

/-! ## Refusals -/

/-- String contents that name an integer other than by its shortest bytes:
with a leading zero byte, or one byte below `0x80`, which stands for itself
without a header. -/
def NonCanonicalInt (b : List UInt8) : Prop :=
  (0 < b.length ∧ b.headD 0 = 0) ∨ (b.length = 1 ∧ b.headD 0 < 0x80)

instance (b : List UInt8) : Decidable (NonCanonicalInt b) :=
  inferInstanceAs (Decidable (_ ∨ _))

theorem bigEndian_single (b : List UInt8) (one : b.length = 1) : Rlp.bigEndian b = (b.headD 0).toNat := by
  obtain ⟨c, rfl⟩ := List.length_eq_one_iff.mp one
  simp [Rlp.bigEndian]

theorem uint_zero_byte (maxbits : Nat) (rest : List UInt8) :
    ∃ s', (NewStream (0 :: rest)).uint maxbits = .error .ErrCanonInt s' := by
  obtain ⟨s', read⟩ := uint_byte maxbits (NewStream (0 :: rest)) rfl 0 (by decide) rest rfl
    (NewStream_hasRoom _ 1 (by simp))
  exact ⟨s', by rw [read, if_pos rfl]⟩

theorem decodeBigInt_zero_byte (rest : List UInt8) :
    ∃ s', (NewStream (0 :: rest)).decodeBigInt = .error .ErrCanonInt s' := by
  obtain ⟨s', read⟩ := decodeBigInt_byte (NewStream (0 :: rest)) rfl 0 (by decide) rest rfl
    (NewStream_hasRoom _ 1 (by simp))
  exact ⟨s', by rw [read, if_pos rfl]⟩

section Contents

variable (b rest : List UInt8) (fits : b.length < 2 ^ 64)

theorem NewStream_string_room :
    (NewStream (Rlp.header 128 b.length ++ b ++ rest)).HasRoom ((Rlp.header 128 b.length).length + b.length) :=
  NewStream_hasRoom _ _ (by simp)

include fits

theorem uint_overflow (maxbits : Nat) (wide : maxbits ≤ 64) (long : maxbits / 8 < b.length) :
    ∃ s', (NewStream (Rlp.header 128 b.length ++ b ++ rest)).uint maxbits = .error .errUintOverflow s' := by
  obtain ⟨s', read⟩ := uint_string maxbits wide _ rfl b rest fits (List.append_assoc _ _ _)
    (NewStream_string_room b rest)
  exact ⟨s', by rw [read, if_pos long]⟩

theorem uint_refuses (maxbits : Nat) (wide : maxbits ≤ 64) (short : b.length ≤ maxbits / 8)
    (noncanonical : NonCanonicalInt b) :
    ∃ s', (NewStream (Rlp.header 128 b.length ++ b ++ rest)).uint maxbits = .error .ErrCanonInt s' ∨
      (NewStream (Rlp.header 128 b.length ++ b ++ rest)).uint maxbits = .error (.stream .ErrCanonSize) s' := by
  obtain ⟨s', read⟩ := uint_string maxbits wide _ rfl b rest fits (List.append_assoc _ _ _)
    (NewStream_string_room b rest)
  refine ⟨s', ?_⟩
  rw [read, if_neg (by omega)]
  by_cases leading : 2 ≤ b.length ∧ b.headD 0 = 0
  · exact .inl (if_pos leading)
  · -- what is left of the non-canonical forms is one byte below 0x80
    have one : b.length = 1 := by
      rcases noncanonical with ⟨live, zero⟩ | ⟨one, _⟩
      · have : ¬ 2 ≤ b.length := fun two => leading ⟨two, zero⟩
        omega
      · exact one
    have low : Rlp.bigEndian b < 128 := by
      rw [bigEndian_single b one]
      rcases noncanonical with ⟨_, zero⟩ | ⟨_, low⟩
      · rw [zero]
        decide
      · simpa [UInt8.lt_iff_toNat_lt] using low
    exact .inr (by rw [if_neg leading, if_pos ⟨by omega, low⟩])

theorem decodeBigInt_refuses (noncanonical : NonCanonicalInt b) :
    ∃ s', (NewStream (Rlp.header 128 b.length ++ b ++ rest)).decodeBigInt = .error .ErrCanonInt s' ∨
      (NewStream (Rlp.header 128 b.length ++ b ++ rest)).decodeBigInt = .error (.stream .ErrCanonSize) s' := by
  obtain ⟨s', read⟩ := decodeBigInt_string _ rfl b rest fits (List.append_assoc _ _ _) (NewStream_string_room b rest)
  refine ⟨s', ?_⟩
  rw [read]
  by_cases single : b.length = 1 ∧ b.headD 0 < 128
  · exact .inr (if_pos single)
  · have leading : 0 < b.length ∧ b.headD 0 = 0 := noncanonical.resolve_right single
    exact .inl (by rw [if_neg single, if_pos leading])

end Contents

/-! ## Integers are written canonically and read back exactly -/

/-- Each Go width reads back what `writeUint` wrote, `decodeBigInt` reads
back what `writeBigInt` wrote, and every other spelling of an integer is
refused: the byte `0x00`, contents with a leading zero or one byte below
`0x80`, and contents wider than the width. -/
theorem rlp_integers_canonical :
    (∀ w ∈ [8, 16, 32, 64], ∀ v < 2 ^ w,
      ∃ s', (NewStream (Encbuf.writeUint v ⟨[], [], 0⟩).toBytes).uint w = .ok v s') ∧
    (∀ n : Int, 0 ≤ n → (Rlp.natBytes n.toNat).length < 2 ^ 64 →
      ∃ buf s', Encbuf.writeBigInt n ⟨[], [], 0⟩ = .ok buf ∧
        (NewStream buf.toBytes).decodeBigInt = .ok n.toNat s') ∧
    (∀ rest : List UInt8,
      (∀ w, ∃ s', (NewStream (0 :: rest)).uint w = .error .ErrCanonInt s') ∧
      ∃ s', (NewStream (0 :: rest)).decodeBigInt = .error .ErrCanonInt s') ∧
    (∀ b rest : List UInt8, NonCanonicalInt b → b.length < 2 ^ 64 →
      (∀ w ∈ [8, 16, 32, 64], b.length ≤ w / 8 →
        ∃ s', (NewStream (Rlp.header 128 b.length ++ b ++ rest)).uint w = .error .ErrCanonInt s' ∨
          (NewStream (Rlp.header 128 b.length ++ b ++ rest)).uint w = .error (.stream .ErrCanonSize) s') ∧
      ∃ s', (NewStream (Rlp.header 128 b.length ++ b ++ rest)).decodeBigInt = .error .ErrCanonInt s' ∨
        (NewStream (Rlp.header 128 b.length ++ b ++ rest)).decodeBigInt = .error (.stream .ErrCanonSize) s') ∧
    (∀ w ∈ [8, 16, 32, 64], ∀ b rest : List UInt8, w / 8 < b.length → b.length < 2 ^ 64 →
      ∃ s', (NewStream (Rlp.header 128 b.length ++ b ++ rest)).uint w = .error .errUintOverflow s') := by
  -- the four Go widths are whole bytes, at most eight
  have widths : ∀ w ∈ [8, 16, 32, 64], w ≤ 64 ∧ w % 8 = 0 := by decide
  refine ⟨?_, ?_, ?_, ?_, ?_⟩
  · intro w width v fits
    obtain ⟨wide, whole⟩ := widths w width
    have fits64 : v < 2 ^ 64 := lt_of_lt_of_le fits (Nat.pow_le_pow_right (by decide) wide)
    rw [writeUint_toBytes v fits64]
    exact uint_encode w wide whole v fits _ rfl [] (List.append_nil _).symm (NewStream_hasRoom _ _ (le_refl _))
  · intro n nonneg fits
    obtain ⟨m, rfl⟩ := Int.eq_ofNat_of_zero_le nonneg
    rw [Int.toNat_natCast] at fits ⊢
    obtain ⟨buf, written, bytes⟩ := writeBigInt_toBytes m fits
    obtain ⟨s', read⟩ := decodeBigInt_encode m fits _ rfl [] (List.append_nil _).symm
      (NewStream_hasRoom _ _ (le_refl _))
    refine ⟨buf, s', written, ?_⟩
    rw [bytes]
    exact read
  · exact fun rest => ⟨fun w => uint_zero_byte w rest, decodeBigInt_zero_byte rest⟩
  · intro b rest noncanonical fits
    refine ⟨fun w width short => ?_, decodeBigInt_refuses b rest fits noncanonical⟩
    exact uint_refuses b rest fits w (widths w width).1 short noncanonical
  · intro w width b rest long fits
    exact uint_overflow b rest fits w (widths w width).1 long

end TurboGeth.Rlp
