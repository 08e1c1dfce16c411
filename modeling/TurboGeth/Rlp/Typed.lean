import TurboGeth.Rlp.Decode

/-!
# Decoding into Go values

`rlp.DecodeBytes` into a typed value, for the field types the state's
accounts have: `uint64` (`Stream.uint`), `*big.Int` (`decodeBigInt`), a byte
array (`decodeByteArray`), a byte slice (`decodeByteSlice`), and a struct
(`makeStructDecoder`), which reads a list of its fields in order and fails on
too few or too many.

Go reads a typed value off the stream field by field; the model decodes the
whole input into an item tree with `DecodeBytes` and converts the tree.  The
two accept the same inputs with the same values: a field Go finds malformed
is malformed as an item, and so is anything after the last field.  For an
input both reject they may name different errors, and the type and field
path Go adds to an error are left out.
-/

set_option autoImplicit false

namespace TurboGeth.Rlp

/-- The typed decoders' errors: the stream's, and those of the integer,
byte-array and struct decoders. -/
inductive FieldError where
  | stream (err : RlpError)
  | ErrCanonInt
  | errUintOverflow
  | tooFewElements
  | tooManyElements
  | stringTooLong
  | stringTooShort
  deriving DecidableEq, Repr

/-- `decodeUint`, through `Stream.uint(64)`: at most eight bytes and no
leading zero, so that the single byte zero is refused. -/
def decodeUint : Rlp.Item → Except FieldError Nat
  | .list _ => .error (.stream .ErrExpectedString)
  | .bytes b =>
    if b.length > 8 then .error .errUintOverflow
    else if b.head? = some 0 then .error .ErrCanonInt
    else .ok (Rlp.bigEndian b)

/-- `decodeBigInt`: the bytes of a string with no leading zero. -/
def decodeBigInt : Rlp.Item → Except FieldError Nat
  | .list _ => .error (.stream .ErrExpectedString)
  | .bytes b => if b.head? = some 0 then .error .ErrCanonInt else .ok (Rlp.bigEndian b)

/-- `decodeByteArray` into an array of `vlen` bytes: a string of exactly that length. -/
def decodeByteArray (vlen : Nat) : Rlp.Item → Except FieldError (List UInt8)
  | .list _ => .error (.stream .ErrExpectedString)
  | .bytes b =>
    if vlen < b.length then .error .stringTooLong
    else if vlen > b.length then .error .stringTooShort
    else .ok b

def decodeByteSlice : Rlp.Item → Except FieldError (List UInt8)
  | .list _ => .error (.stream .ErrExpectedString)
  | .bytes b => .ok b

/-- The fields a struct decoder reads: `s.List()` on the one value of the input. -/
def structFields (b : List UInt8) : Except FieldError (List Rlp.Item) :=
  match DecodeBytes b with
  | .error err => .error (.stream err)
  | .ok (.bytes _) => .error (.stream .ErrExpectedList)
  | .ok (.list items) => .ok items

/-- The decoder of the `i`-th field; a list that ends before it has too few elements. -/
def structField {α : Type} (fields : List Rlp.Item) (i : Nat) (decoder : Rlp.Item → Except FieldError α) :
    Except FieldError α :=
  match fields[i]? with
  | none => .error .tooFewElements
  | some item => decoder item

/-- `s.ListEnd()` after the last of `count` fields. -/
def structEnd (fields : List Rlp.Item) (count : Nat) : Except FieldError Unit :=
  if count < fields.length then .error .tooManyElements else .ok ()

/-! ## Decoding what the encoder writes -/

theorem decodeUint_ofNat (n : Nat) (fits : n < 2 ^ 64) : decodeUint (.ofNat n) = .ok n := by
  have short : (Rlp.natBytes n).length ≤ 8 := Rlp.natBytes_length_le n 8 (by simpa using fits)
  simp [decodeUint, Rlp.Item.ofNat, Rlp.natBytes_head, Nat.not_lt.mpr short]

theorem decodeBigInt_ofNat (n : Nat) : decodeBigInt (.ofNat n) = .ok n := by
  simp [decodeBigInt, Rlp.Item.ofNat, Rlp.natBytes_head]

theorem decodeByteArray_bytes (b : List UInt8) : decodeByteArray b.length (.bytes b) = .ok b := by
  simp [decodeByteArray]

theorem structFields_encode (fields : List Rlp.Item) (fits : Rlp.Encodable (.list fields)) :
    structFields (Rlp.encode (.list fields)) = .ok fields := by
  rw [structFields, DecodeBytes_encode _ fits]

end TurboGeth.Rlp
