import TurboGeth.Trie.Hasher
import TurboGeth.Lib.Rlp

/-!
# The hand-written encoder against RLP

`hashChildren` writes the RLP of a node byte by byte, with its own header
writers for each range of lengths.  Here those writers are compared with the
library encoding `Rlp.encode`.  The list header of `finishRLP` is the
canonical one for every length below `2 ^ 24`.  The two headers that
`generateByteArrayLenDouble` writes for a doubly wrapped value are not
canonical at 55 and 65533, where the inner header grows by a byte that the
code's ranges do not account for: there a short node over a value written
with `encodeToBytes` is not the RLP of its key and its wrapped value.
-/

set_option autoImplicit false

namespace TurboGeth.Trie

theorem byte_and (n : Nat) : UInt8.ofNat (n &&& 255) = UInt8.ofNat n := by
  have low : n &&& 255 = n % 256 := by simpa using Nat.and_two_pow_sub_one_eq_mod n 8
  rw [low, UInt8.ofNat_mod_size']

theorem finishRLP_eq_header (payload : Bytes) (fits : payload.length < 2 ^ 24) :
    finishRLP payload = Rlp.header 192 payload.length ++ payload := by
  rw [Rlp.header_of_lt 192 _ fits, finishRLP]
  simp only [Nat.shiftRight_eq_div_pow, byte_and]

theorem isSelf_of_two_le (b : Bytes) (long : 2 ≤ b.length) : isSelf b = false := by
  match b, long with
  | _ :: _ :: _, _ => rfl

theorem encode_bytes (b : Bytes) : Rlp.encode (.bytes b) = if isSelf b then b else Rlp.header 128 b.length ++ b := by
  match b with
  | [] => simp [Rlp.encode, isSelf]
  | [x] =>
      by_cases self : x < 128
      · simp [Rlp.encode, isSelf, self]
      · simp [Rlp.encode, isSelf, self]
  | x :: y :: rest => simp [Rlp.encode, isSelf]

theorem isSelf_encode (b : Bytes) (notSelf : isSelf b = false) : isSelf (Rlp.encode (.bytes b)) = false := by
  rw [encode_bytes, notSelf, if_neg Bool.false_ne_true]
  cases b with
  | nil => rfl
  | cons x rest =>
      apply isSelf_of_two_le
      have headerLive := List.length_pos_of_ne_nil (Rlp.header_ne_nil 128 (x :: rest).length)
      simp only [List.length_append, List.length_cons] at headerLive ⊢
      omega

theorem encode_bytes_length_le (b : Bytes) (fits : b.length < 2 ^ 24) : (Rlp.encode (.bytes b)).length ≤ b.length + 4 := by
  rw [encode_bytes]
  split
  · omega
  · have headerShort := Rlp.header_length_le 128 b.length fits
    rw [List.length_append]
    omega

theorem shortKey_eq_encode (key : Bytes) (short : key.length < 56) :
    (if isSelf key then key else UInt8.ofNat (128 + key.length) :: key) = Rlp.encode (.bytes key) := by
  rw [encode_bytes, Rlp.header_short 128 _ short]
  rfl

theorem generateByteArrayLenDouble_length_le (l : Nat) : (generateByteArrayLenDouble l).length ≤ 8 := by
  unfold generateByteArrayLenDouble
  split_ifs <;> simp

theorem encode_wrapped_length (value : Bytes) (notSelf : isSelf value = false) :
    (Rlp.encode (.bytes (Rlp.encode (.bytes value)))).length =
      (Rlp.header 128 (value.length + (Rlp.header 128 value.length).length)).length +
        ((Rlp.header 128 value.length).length + value.length) := by
  have inner : Rlp.encode (.bytes value) = Rlp.header 128 value.length ++ value := by
    rw [encode_bytes, notSelf, if_neg Bool.false_ne_true]
  rw [encode_bytes (Rlp.encode _), isSelf_encode value notSelf, if_neg Bool.false_ne_true, inner]
  simp only [List.length_append]
  rw [Nat.add_comm value.length]

section Hasher

variable (keccak : Bytes → Bytes) (encodeToBytes : Bool)

theorem hashChildren_shortNode_valueNode (key value : Bytes) (flags : NodeFlag) :
    hashChildren keccak encodeToBytes (.shortNode key (.valueNode value) flags) =
      finishRLP ((if isSelf key then key else UInt8.ofNat (128 + key.length) :: key) ++
        if isSelf value then value
        else (if encodeToBytes then generateByteArrayLenDouble value.length else generateByteArrayLen value.length) ++
          value) := by
  rw [hashChildren]
  rfl

/-- A short node over a value that is not itself, written with the double
header: the list header over the key's string, the two headers and the
value. -/
theorem hashChildren_shortNode_double_length (key value : Bytes) (flags : NodeFlag) (shortKey : key.length < 56)
    (notSelf : isSelf value = false) (fits : value.length < 2 ^ 20) :
    (hashChildren keccak true (.shortNode key (.valueNode value) flags)).length =
      (Rlp.header 192 ((Rlp.encode (.bytes key)).length +
        ((generateByteArrayLenDouble value.length).length + value.length))).length +
      ((Rlp.encode (.bytes key)).length + ((generateByteArrayLenDouble value.length).length + value.length)) := by
  have keyLength := encode_bytes_length_le key (by omega)
  have headerLength := generateByteArrayLenDouble_length_le value.length
  rw [hashChildren_shortNode_valueNode, shortKey_eq_encode key shortKey, if_neg (by simp [notSelf]), if_pos rfl,
    finishRLP_eq_header _ (by simp only [List.length_append]; omega)]
  simp only [List.length_append]

/-- At a value of 55 or of 65533 bytes the doubly wrapped short node differs
from the generic encoding of its key and its value's string: the code's
value part is a byte longer at 55 and a byte shorter at 65533, and the list
header is as long on both sides. -/
theorem hashChildren_shortNode_double_boundary (key value : Bytes) (flags : NodeFlag) (shortKey : key.length < 56)
    (boundary : value.length = 55 ∨ value.length = 65533) :
    hashChildren keccak true (.shortNode key (.valueNode value) flags) ≠
      Rlp.encode (.list [.bytes key, .bytes (Rlp.encode (.bytes value))]) := by
  intro same
  have notSelf : isSelf value = false := isSelf_of_two_le value (by omega)
  have lengths := congrArg List.length same
  rw [hashChildren_shortNode_double_length keccak key value flags shortKey notSelf (by omega),
    Rlp.encode_pair_length, encode_wrapped_length value notSelf] at lengths
  have keyLength := encode_bytes_length_le key (by omega)
  have keyLive := List.length_pos_of_ne_nil (Rlp.encode_ne_nil (.bytes key))
  rcases boundary with short | long
  · -- code: 0xb8 57 0xb8 55; generic: 0xb8 56 0xb7
    have codeHeaders : (generateByteArrayLenDouble 55).length = 4 := by decide
    have innerHeader : (Rlp.header 128 55).length = 1 := by decide
    have outerHeader : (Rlp.header 128 (55 + 1)).length = 2 := by decide
    rw [short, codeHeaders, innerHeader, outerHeader, Rlp.header_length_of_one_length_byte 192 _ (by omega) (by omega),
      Rlp.header_length_of_one_length_byte 192 _ (by omega) (by omega)] at lengths
    omega
  · -- code: 0xb9 0 0 0xb9 0xff 0xfd; generic: 0xba 1 0 0 0xb9 0xff 0xfd
    have codeHeaders : (generateByteArrayLenDouble 65533).length = 6 := by decide
    have innerHeader : (Rlp.header 128 65533).length = 3 := by decide
    have outerHeader : (Rlp.header 128 (65533 + 3)).length = 4 := by decide
    rw [long, codeHeaders, innerHeader, outerHeader,
      Rlp.header_length_of_three_length_bytes 192 _ (by omega) (by omega),
      Rlp.header_length_of_three_length_bytes 192 _ (by omega) (by omega)] at lengths
    omega

theorem hashChildren_shortNode_double_boundary_at_fiftyFive :
    [(0x20 : UInt8)].length < 56 ∧ ((List.replicate 55 (1 : UInt8)).length = 55 ∨
      (List.replicate 55 (1 : UInt8)).length = 65533) ∧
    hashChildren id true (.shortNode [0x20] (.valueNode (List.replicate 55 1)) {}) ≠
      Rlp.encode (.list [.bytes [0x20], .bytes (Rlp.encode (.bytes (List.replicate 55 1)))]) :=
  ⟨by decide, Or.inl (by simp),
    hashChildren_shortNode_double_boundary id [0x20] (List.replicate 55 1) {} (by decide) (Or.inl (by simp))⟩

end Hasher

end TurboGeth.Trie
