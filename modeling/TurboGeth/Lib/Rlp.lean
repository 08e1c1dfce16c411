import Mathlib.Data.List.Basic
import Mathlib.Data.List.Induction
import Mathlib.Tactic.Ring

/-!
# Recursive length prefix

The serialisation of nested byte strings.  A string of one byte below `0x80`
stands for itself; any other string, and any list, gets a header that carries
the length of the payload: in the header byte itself up to 55, otherwise as
big-endian bytes after a header byte that counts them.

Integers are strings: the big-endian bytes of the number with no leading
zero, so that zero is the empty string.
-/

set_option autoImplicit false

namespace Rlp

inductive Item where
  | bytes (b : List UInt8)
  | list (items : List Item)

/-- Big-endian bytes of `n` with no leading zero, for `n` below `256 ^ fuel`. -/
def natBytesAux : Nat → Nat → List UInt8
  | 0, _ => []
  | fuel + 1, n => if n = 0 then [] else natBytesAux fuel (n / 256) ++ [UInt8.ofNat n]

/-- The big-endian bytes of `n` with no leading zero; zero has none. -/
def natBytes (n : Nat) : List UInt8 := natBytesAux n n

/-- The header of a payload of `len` bytes, `offset` being `0x80` for a
string and `0xc0` for a list. -/
def header (offset len : Nat) : List UInt8 :=
  if len < 56 then [UInt8.ofNat (offset + len)]
  else UInt8.ofNat (offset + 55 + (natBytes len).length) :: natBytes len

mutual

def encode : Item → List UInt8
  | .bytes [b] => if b < 128 then [b] else header 128 1 ++ [b]
  | .bytes b => header 128 b.length ++ b
  | .list items => header 192 (encodeAll items).length ++ encodeAll items

/-- The payload of a list: its items' encodings one after the other. -/
def encodeAll : List Item → List UInt8
  | [] => []
  | item :: rest => encode item ++ encodeAll rest

end

mutual

/-- Every payload is shorter than `2 ^ 64` bytes, so that its length takes
at most eight bytes of a header: the items RLP can encode. -/
def Encodable : Item → Prop
  | .bytes b => b.length < 2 ^ 64
  | .list items => (encodeAll items).length < 2 ^ 64 ∧ EncodableAll items

def EncodableAll : List Item → Prop
  | [] => True
  | item :: rest => Encodable item ∧ EncodableAll rest

end

/-- An unsigned integer is the string of its big-endian bytes. -/
def Item.ofNat (n : Nat) : Item := .bytes (natBytes n)

@[simp] theorem encodeAll_nil : encodeAll [] = [] := by
  simp [encodeAll]

@[simp] theorem encodeAll_cons (item : Item) (rest : List Item) :
    encodeAll (item :: rest) = encode item ++ encodeAll rest := by
  simp [encodeAll]

@[simp] theorem encode_list (items : List Item) :
    encode (.list items) = header 192 (encodeAll items).length ++ encodeAll items := by
  simp [encode]

theorem encode_pair_length (first second : Item) :
    (encode (.list [first, second])).length =
      (header 192 ((encode first).length + (encode second).length)).length +
        ((encode first).length + (encode second).length) := by
  simp

theorem natBytesAux_zero : ∀ fuel : Nat, natBytesAux fuel 0 = []
  | 0 => rfl
  | _ + 1 => by simp [natBytesAux]

theorem natBytesAux_pos (fuel n : Nat) (live : 0 < n) :
    natBytesAux (fuel + 1) n = natBytesAux fuel (n / 256) ++ [UInt8.ofNat n] := by
  simp [natBytesAux, Nat.ne_of_gt live]

theorem natBytes_one_byte (n : Nat) (live : 0 < n) (small : n < 256) : natBytes n = [UInt8.ofNat n] := by
  obtain ⟨fuel, rfl⟩ : ∃ fuel, n = fuel + 1 := ⟨n - 1, by omega⟩
  rw [natBytes, natBytesAux_pos _ _ live, Nat.div_eq_of_lt small, natBytesAux_zero]
  rfl

theorem natBytes_two_bytes (n : Nat) (big : 256 ≤ n) (small : n < 65536) :
    natBytes n = [UInt8.ofNat (n / 256), UInt8.ofNat n] := by
  obtain ⟨fuel, rfl⟩ : ∃ fuel, n = fuel + 1 + 1 := ⟨n - 2, by omega⟩
  have high : 0 < (fuel + 1 + 1) / 256 := Nat.div_pos big (by decide)
  rw [natBytes, natBytesAux_pos _ _ (by omega), natBytesAux_pos _ _ high, Nat.div_div_eq_div_mul,
    Nat.div_eq_of_lt (by omega), natBytesAux_zero]
  rfl

theorem natBytes_three_bytes (n : Nat) (big : 65536 ≤ n) (small : n < 2 ^ 24) :
    natBytes n = [UInt8.ofNat (n / 65536), UInt8.ofNat (n / 256), UInt8.ofNat n] := by
  obtain ⟨fuel, rfl⟩ : ∃ fuel, n = fuel + 1 + 1 + 1 := ⟨n - 3, by omega⟩
  have middle : 0 < (fuel + 1 + 1 + 1) / 256 := Nat.div_pos (by omega) (by decide)
  have high : 0 < (fuel + 1 + 1 + 1) / 256 / 256 := by
    rw [Nat.div_div_eq_div_mul]
    exact Nat.div_pos big (by decide)
  rw [natBytes, natBytesAux_pos _ _ (by omega), natBytesAux_pos _ _ middle, natBytesAux_pos _ _ high,
    Nat.div_div_eq_div_mul, Nat.div_div_eq_div_mul, Nat.div_div_eq_div_mul, Nat.div_eq_of_lt (by omega),
    natBytesAux_zero]
  rfl

theorem header_of_lt (offset len : Nat) (fits : len < 2 ^ 24) :
    header offset len =
      if len < 56 then [UInt8.ofNat (offset + len)]
      else if len < 256 then [UInt8.ofNat (offset + 55 + 1), UInt8.ofNat len]
      else if len < 65536 then [UInt8.ofNat (offset + 55 + 2), UInt8.ofNat (len / 256), UInt8.ofNat len]
      else [UInt8.ofNat (offset + 55 + 3), UInt8.ofNat (len / 65536), UInt8.ofNat (len / 256), UInt8.ofNat len] := by
  unfold header
  by_cases short : len < 56
  · simp [short]
  by_cases one : len < 256
  · rw [natBytes_one_byte len (by omega) one]
    simp [short, one]
  by_cases two : len < 65536
  · rw [natBytes_two_bytes len (by omega) two]
    simp [short, one, two]
  · rw [natBytes_three_bytes len (by omega) fits]
    simp [short, one, two]

theorem header_one_length_byte (offset len : Nat) (big : 56 ≤ len) (small : len < 256) :
    header offset len = [UInt8.ofNat (offset + 55 + 1), UInt8.ofNat len] := by
  rw [header_of_lt offset len (by omega), if_neg (by omega), if_pos small]

theorem header_two_length_bytes (offset len : Nat) (big : 256 ≤ len) (small : len < 65536) :
    header offset len = [UInt8.ofNat (offset + 55 + 2), UInt8.ofNat (len / 256), UInt8.ofNat len] := by
  rw [header_of_lt offset len (by omega), if_neg (by omega), if_neg (by omega), if_pos small]

theorem header_three_length_bytes (offset len : Nat) (big : 65536 ≤ len) (small : len < 2 ^ 24) :
    header offset len =
      [UInt8.ofNat (offset + 55 + 3), UInt8.ofNat (len / 65536), UInt8.ofNat (len / 256), UInt8.ofNat len] := by
  rw [header_of_lt offset len small, if_neg (by omega), if_neg (by omega), if_neg (by omega)]

theorem header_length_of_one_length_byte (offset len : Nat) (big : 56 ≤ len) (small : len < 256) :
    (header offset len).length = 2 := by
  rw [header_one_length_byte offset len big small]
  rfl

theorem header_length_of_three_length_bytes (offset len : Nat) (big : 65536 ≤ len) (small : len < 2 ^ 24) :
    (header offset len).length = 4 := by
  rw [header_three_length_bytes offset len big small]
  rfl

theorem header_length_le (offset len : Nat) (fits : len < 2 ^ 24) : (header offset len).length ≤ 4 := by
  rw [header_of_lt offset len fits]
  split_ifs <;> simp

theorem header_ne_nil (offset len : Nat) : header offset len ≠ [] := by
  unfold header
  split <;> simp

theorem header_short (offset len : Nat) (short : len < 56) :
    header offset len = [UInt8.ofNat (offset + len)] := by
  simp [header, short]

theorem encode_ne_nil (item : Item) : encode item ≠ [] := by
  cases item with
  | bytes b =>
      match b with
      | [] => simp [encode, header_ne_nil]
      | [x] =>
          simp only [encode]
          split <;> simp
      | x :: y :: rest => simp [encode, header_ne_nil]
  | list items => simp [header_ne_nil]

theorem encode_length_pos (item : Item) : 0 < (encode item).length :=
  List.length_pos_of_ne_nil (encode_ne_nil item)

theorem length_le_encodeAll (items : List Item) : items.length ≤ (encodeAll items).length := by
  induction items with
  | nil => simp
  | cons item rest ih =>
    have := encode_length_pos item
    simp only [List.length_cons, encodeAll_cons, List.length_append]
    omega

theorem encode_byte (c : UInt8) (low : c < 128) : encode (.bytes [c]) = [c] := by
  simp [encode, low]

theorem encode_string (b : List UInt8) (notSmall : ∀ c, b = [c] → ¬ c < 128) :
    encode (.bytes b) = header 128 b.length ++ b := by
  match b with
  | [] => simp [encode]
  | [c] => simp [encode, notSmall c rfl]
  | c :: d :: more => simp [encode]

theorem encode_hash (b : List UInt8) (length : b.length = 32) : encode (.bytes b) = 0xA0 :: b := by
  have notSmall : ∀ c, b = [c] → ¬ c < 128 := by
    rintro c rfl
    simp at length
  rw [encode_string b notSmall, length, header_short 128 32 (by omega)]
  rfl

theorem length_le_encode_bytes (b : List UInt8) : b.length ≤ (encode (.bytes b)).length := by
  by_cases small : ∃ c, b = [c] ∧ c < 128
  · obtain ⟨c, rfl, low⟩ := small
    rw [encode_byte c low]
  · have notSmall : ∀ c, b = [c] → ¬ c < 128 := fun c same low => small ⟨c, same, low⟩
    rw [encode_string b notSmall, List.length_append]
    omega

theorem encodable_list_bytes (strings : List (List UInt8))
    (fits : (encodeAll (strings.map .bytes)).length < 2 ^ 64) : Encodable (.list (strings.map .bytes)) := by
  refine ⟨fits, ?_⟩
  induction strings with
  | nil => trivial
  | cons b rest ih =>
    simp only [List.map_cons, encodeAll_cons, List.length_append] at fits
    exact ⟨Nat.lt_of_le_of_lt (length_le_encode_bytes b) (by omega), ih (by omega)⟩

theorem encode_list_ne_empty (items : List Item) (live : items ≠ []) : encode (.list items) ≠ encode (.bytes []) := by
  obtain ⟨item, rest, rfl⟩ := List.exists_cons_of_ne_nil live
  intro same
  have lengths := congrArg List.length same
  have headerLive := List.length_pos_of_ne_nil (header_ne_nil 192 (encodeAll (item :: rest)).length)
  have payloadLive : 0 < (encodeAll (item :: rest)).length := by
    have itemLive := List.length_pos_of_ne_nil (encode_ne_nil item)
    rw [encodeAll_cons, List.length_append]
    omega
  rw [encode_list, List.length_append] at lengths
  have emptyString : (encode (.bytes [])).length = 1 := by simp [encode, header]
  omega

/-! ## Big-endian bytes -/

/-- The number that big-endian bytes stand for. -/
def bigEndian (bytes : List UInt8) : Nat := bytes.foldl (fun acc byte => acc * 256 + byte.toNat) 0

theorem foldl_bigEndian (acc : Nat) (bytes : List UInt8) :
    bytes.foldl (fun acc byte => acc * 256 + byte.toNat) acc = acc * 256 ^ bytes.length + bigEndian bytes := by
  induction bytes generalizing acc with
  | nil => simp [bigEndian]
  | cons byte rest ih =>
    simp only [bigEndian, List.foldl_cons, List.length_cons] at ih ⊢
    rw [ih, ih (0 * 256 + byte.toNat), Nat.pow_succ]
    ring

@[simp] theorem bigEndian_nil : bigEndian [] = 0 := rfl

theorem bigEndian_cons (byte : UInt8) (rest : List UInt8) :
    bigEndian (byte :: rest) = byte.toNat * 256 ^ rest.length + bigEndian rest := by
  rw [bigEndian, List.foldl_cons, foldl_bigEndian]
  simp

theorem bigEndian_append_singleton (bytes : List UInt8) (byte : UInt8) :
    bigEndian (bytes ++ [byte]) = bigEndian bytes * 256 + byte.toNat := by
  simp [bigEndian, List.foldl_append]

theorem bigEndian_lt (bytes : List UInt8) : bigEndian bytes < 256 ^ bytes.length := by
  induction bytes with
  | nil => simp
  | cons byte rest ih =>
    rw [bigEndian_cons, List.length_cons, Nat.pow_succ']
    have byteSmall := byte.toNat_lt
    calc byte.toNat * 256 ^ rest.length + bigEndian rest
        < byte.toNat * 256 ^ rest.length + 256 ^ rest.length := by omega
      _ = (byte.toNat + 1) * 256 ^ rest.length := by ring
      _ ≤ 256 * 256 ^ rest.length := Nat.mul_le_mul_right _ (by omega)

theorem pow_le_bigEndian (byte : UInt8) (rest : List UInt8) (leading : byte ≠ 0) :
    256 ^ rest.length ≤ bigEndian (byte :: rest) := by
  have top : 1 ≤ byte.toNat := by
    have := UInt8.toNat_inj.not.mpr leading
    simp at this
    omega
  rw [bigEndian_cons]
  calc 256 ^ rest.length = 1 * 256 ^ rest.length := (Nat.one_mul _).symm
    _ ≤ byte.toNat * 256 ^ rest.length := Nat.mul_le_mul_right _ top
    _ ≤ _ := Nat.le_add_right _ _

theorem lt_of_bigEndian_lt : ∀ (a b : List UInt8), a.length = b.length → bigEndian a < bigEndian b → a < b
  | [], [], _, lt => by simp at lt
  | [], _ :: _, same, _ => by simp at same
  | _ :: _, [], same, _ => by simp at same
  | x :: a, y :: b, same, lt => by
    have lengths : a.length = b.length := by simpa using same
    have restA := bigEndian_lt a
    rw [bigEndian_cons, bigEndian_cons, lengths] at lt
    rw [lengths] at restA
    rcases Nat.lt_trichotomy x.toNat y.toNat with head | head | head
    · exact List.Lex.rel (UInt8.lt_iff_toNat_lt.mpr head)
    · obtain rfl : x = y := UInt8.toNat_inj.mp head
      exact List.cons_lt_cons_self.mpr (lt_of_bigEndian_lt a b lengths (by omega))
    · -- a larger first byte outweighs all the bytes after it
      have outweighs : (y.toNat + 1) * 256 ^ b.length ≤ x.toNat * 256 ^ b.length := Nat.mul_le_mul_right _ head
      rw [Nat.succ_mul] at outweighs
      have restB := bigEndian_lt b
      omega

theorem bigEndian_natBytesAux (fuel n : Nat) (fits : n < 256 ^ fuel) : bigEndian (natBytesAux fuel n) = n := by
  induction fuel generalizing n with
  | zero => simp at fits; simp [natBytesAux, fits]
  | succ fuel ih =>
    by_cases zero : n = 0
    · simp [natBytesAux, zero]
    have quotientFits : n / 256 < 256 ^ fuel := by
      rw [Nat.div_lt_iff_lt_mul (by decide), ← Nat.pow_succ]
      exact fits
    rw [natBytesAux_pos fuel n (Nat.pos_of_ne_zero zero), bigEndian_append_singleton, ih _ quotientFits,
      UInt8.toNat_ofNat']
    omega

theorem natBytesAux_head (fuel n : Nat) (fits : n < 256 ^ fuel) : (natBytesAux fuel n).head? ≠ some 0 := by
  induction fuel generalizing n with
  | zero => simp [natBytesAux]
  | succ fuel ih =>
    by_cases zero : n = 0
    · simp [natBytesAux, zero]
    have quotientFits : n / 256 < 256 ^ fuel := by
      rw [Nat.div_lt_iff_lt_mul (by decide), ← Nat.pow_succ]
      exact fits
    rw [natBytesAux_pos fuel n (Nat.pos_of_ne_zero zero)]
    cases higher : natBytesAux fuel (n / 256) with
    | nil =>
      -- no higher byte: `n` is its own one byte, and it is not zero
      have small : n / 256 = 0 := by rw [← bigEndian_natBytesAux fuel _ quotientFits, higher]; rfl
      simp only [List.nil_append, List.head?_cons, ne_eq, Option.some.injEq]
      rw [← UInt8.toNat_inj, UInt8.toNat_ofNat']
      simp
      omega
    | cons top rest =>
      have := ih _ quotientFits
      rw [higher] at this
      simpa using this

theorem natBytesAux_bigEndian (fuel : Nat) (bytes : List UInt8) (canonical : bytes.head? ≠ some 0)
    (enough : bytes.length ≤ fuel) : natBytesAux fuel (bigEndian bytes) = bytes := by
  induction bytes using List.reverseRecOn generalizing fuel with
  | nil => simp [natBytesAux_zero]
  | append_singleton init byte ih =>
    obtain ⟨fuel, rfl⟩ : ∃ rest, fuel = rest + 1 := ⟨fuel - 1, by simp at enough; omega⟩
    have initCanonical : init.head? ≠ some 0 := by
      cases init with
      | nil => simp
      | cons top rest => simpa using canonical
    have positive : 0 < bigEndian (init ++ [byte]) := by
      cases split : init ++ [byte] with
      | nil => simp at split
      | cons top rest =>
        rw [split] at canonical
        have leading : top ≠ 0 := by simpa using canonical
        exact lt_of_lt_of_le (Nat.pow_pos (by decide)) (pow_le_bigEndian top rest leading)
    rw [natBytesAux_pos fuel _ positive, bigEndian_append_singleton]
    have quotient : (bigEndian init * 256 + byte.toNat) / 256 = bigEndian init := by
      have := byte.toNat_lt
      omega
    rw [quotient, ih fuel initCanonical (by simp at enough; omega)]
    congr 2
    rw [← UInt8.toNat_inj, UInt8.toNat_ofNat']
    have := byte.toNat_lt
    omega

theorem natBytes_bigEndian (bytes : List UInt8) (canonical : bytes.head? ≠ some 0) :
    natBytes (bigEndian bytes) = bytes := by
  cases bytes with
  | nil => rfl
  | cons top rest =>
    have leading : top ≠ 0 := by simpa using canonical
    have enough : (top :: rest).length ≤ bigEndian (top :: rest) := by
      have := pow_le_bigEndian top rest leading
      have := Nat.lt_pow_self (n := rest.length) (a := 256) (by decide)
      simp only [List.length_cons]
      omega
    exact natBytesAux_bigEndian _ _ canonical enough

theorem natBytesAux_eq_natBytes (fuel n : Nat) (fits : n < 256 ^ fuel) : natBytesAux fuel n = natBytes n := by
  conv_rhs => rw [← bigEndian_natBytesAux fuel n fits]
  rw [natBytes_bigEndian _ (natBytesAux_head fuel n fits)]

@[simp] theorem bigEndian_natBytes (n : Nat) : bigEndian (natBytes n) = n :=
  bigEndian_natBytesAux n n (Nat.lt_pow_self (by decide))

theorem natBytes_head (n : Nat) : (natBytes n).head? ≠ some 0 :=
  natBytesAux_head n n (Nat.lt_pow_self (by decide))

theorem natBytes_pos (n : Nat) (live : 0 < n) : natBytes n = natBytes (n / 256) ++ [UInt8.ofNat n] := by
  obtain ⟨fuel, rfl⟩ : ∃ fuel, n = fuel + 1 := ⟨n - 1, by omega⟩
  rw [natBytes, natBytesAux_pos _ _ live, natBytesAux_eq_natBytes]
  rw [Nat.div_lt_iff_lt_mul (by decide), ← Nat.pow_succ]
  exact Nat.lt_pow_self (by decide)

theorem natBytes_length_le (n k : Nat) (fits : n < 256 ^ k) : (natBytes n).length ≤ k := by
  cases bytes : natBytes n with
  | nil => simp
  | cons top rest =>
    have leading : top ≠ 0 := by simpa [bytes] using natBytes_head n
    have low := pow_le_bigEndian top rest leading
    rw [← bytes, bigEndian_natBytes] at low
    have : rest.length < k := (Nat.pow_lt_pow_iff_right (by decide)).mp (lt_of_le_of_lt low fits)
    simp only [List.length_cons]
    omega

theorem natBytes_ne_nil (n : Nat) (live : 0 < n) : natBytes n ≠ [] := by
  intro empty
  have := bigEndian_natBytes n
  rw [empty] at this
  simp at this
  omega

theorem header_long (offset len : Nat) (big : 56 ≤ len) :
    header offset len = UInt8.ofNat (offset + 55 + (natBytes len).length) :: natBytes len := by
  rw [header, if_neg (Nat.not_lt.mpr big)]

theorem natBytes_length_range (len : Nat) (live : 0 < len) (fits : len < 2 ^ 64) :
    1 ≤ (natBytes len).length ∧ (natBytes len).length ≤ 8 := by
  constructor
  · exact List.length_pos_of_ne_nil (natBytes_ne_nil len live)
  · exact natBytes_length_le len 8 (by simpa using fits)

theorem bigEndian_lt_of_length (bytes : List UInt8) (short : bytes.length ≤ 8) : bigEndian bytes < 2 ^ 64 :=
  calc bigEndian bytes < 256 ^ bytes.length := bigEndian_lt bytes
    _ ≤ 256 ^ 8 := Nat.pow_le_pow_right (by decide) short
    _ = 2 ^ 64 := by norm_num

end Rlp
