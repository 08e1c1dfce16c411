import Mathlib

/-!
# Text codecs of the Go library

The Go functions with which a text format of byte strings and small numbers
is written and read back: `%x` and `hex.DecodeString` (Go 1.11), `%d` and
`strconv.ParseInt` in base 10 for 64 bits, and the delimiter reads of a
`bufio.Reader`.  Text is a list of characters, one per byte of the stream.

Each reader reads back what its writer wrote, and no written digit is one of
the delimiters a format puts around it, so a delimiter read stops where the
writer put the delimiter.
-/

set_option autoImplicit false

namespace HexText

/-! ## Reading up to a delimiter -/

def eof : String := "EOF"

/-- `ReadBytes(delim)` and `ReadString(delim)`: the input up to and including
the first `delim`, and what follows it.  Without a `delim` the read ends at
the end of the input with `io.EOF`. -/
def readUntil (delim : Char) : List Char → Except String (List Char × List Char)
  | [] => throw eof
  | c :: rest =>
      if c = delim then pure ([c], rest)
      else do
        let (read, left) ← readUntil delim rest
        pure (c :: read, left)

/-- `Peek(1)`. -/
def peek : List Char → Except String Char
  | [] => throw eof
  | c :: _ => pure c

/-- `Discard(1)`: whatever the next character is. -/
def discard : List Char → Except String (List Char)
  | [] => throw eof
  | _ :: rest => pure rest

theorem readUntil_append {delim : Char} {text : List Char} (absent : delim ∉ text) (rest : List Char) :
    readUntil delim (text ++ delim :: rest) = .ok (text ++ [delim], rest) := by
  induction text with
  | nil =>
      rw [List.nil_append, readUntil, if_pos rfl]
      rfl
  | cons c text ih =>
      have other : c ≠ delim := fun same => absent (same ▸ List.mem_cons_self)
      rw [List.mem_cons, not_or] at absent
      simp [readUntil, other, ih absent.2]

theorem readUntil_absent {delim : Char} {text : List Char} (absent : delim ∉ text) :
    readUntil delim text = .error eof := by
  induction text with
  | nil => rfl
  | cons c text ih =>
      have other : c ≠ delim := fun same => absent (same ▸ List.mem_cons_self)
      rw [List.mem_cons, not_or] at absent
      simp [readUntil, other, ih absent.2]

/-! ## Hex -/

/-- The digits `%x` writes, `hextable`. -/
def hextable : List Char := ['0', '1', '2', '3', '4', '5', '6', '7', '8', '9', 'a', 'b', 'c', 'd', 'e', 'f']

def hexDigit (d : Nat) : Char := hextable.getD d '0'

/-- `%x` of a byte string: the high half of each byte (`v >> 4`), then the
low half (`v & 0x0f`). -/
def encodeHex (bytes : List UInt8) : List Char :=
  bytes.flatMap fun b => [hexDigit (b.toNat / 16), hexDigit (b.toNat % 16)]

/-- `fromHexChar`: the value of a hex digit of either case. -/
def fromHexChar (c : Char) : Option Nat :=
  if '0' ≤ c ∧ c ≤ '9' then some (c.toNat - '0'.toNat)
  else if 'a' ≤ c ∧ c ≤ 'f' then some (c.toNat - 'a'.toNat + 10)
  else if 'A' ≤ c ∧ c ≤ 'F' then some (c.toNat - 'A'.toNat + 10)
  else none

def errLength : String := "encoding/hex: odd length hex string"

def invalidByteError : String := "encoding/hex: invalid byte"

/-- `hex.DecodeString` of Go 1.11: the pairs from the left, each byte
`a << 4 | b`, which is `16 a + b` for two digits; then a trailing odd
character, refused as an invalid byte before the length is. -/
def decodeHex : List Char → Except String (List UInt8)
  | [] => pure []
  | [c] =>
      match fromHexChar c with
      | none => throw invalidByteError
      | some _ => throw errLength
  | a :: b :: rest =>
      match fromHexChar a, fromHexChar b with
      | some high, some low => do
          let tail ← decodeHex rest
          pure (UInt8.ofNat (high * 16 + low) :: tail)
      | _, _ => throw invalidByteError

theorem fromHexChar_hexDigit : ∀ d : Nat, d < 16 → fromHexChar (hexDigit d) = some d := by
  decide

theorem hexDigit_mem : ∀ d : Nat, d < 16 → hexDigit d ∈ hextable := by
  decide

theorem decodeHex_encodeHex (bytes : List UInt8) : decodeHex (encodeHex bytes) = .ok bytes := by
  induction bytes with
  | nil => rfl
  | cons b bytes ih =>
      have byteLt : b.toNat < 256 := b.toNat_lt
      have high := fromHexChar_hexDigit (b.toNat / 16) (by omega)
      have low := fromHexChar_hexDigit (b.toNat % 16) (by omega)
      have halves : UInt8.ofNat (b.toNat / 16 * 16 + b.toNat % 16) = b := by
        rw [Nat.div_add_mod', UInt8.ofNat_toNat]
      simp only [encodeHex, List.flatMap_cons, List.cons_append, List.nil_append] at ih ⊢
      rw [decodeHex, high, low]
      simp [ih, halves]

theorem mem_encodeHex {c : Char} {bytes : List UInt8} (written : c ∈ encodeHex bytes) : c ∈ hextable := by
  simp only [encodeHex, List.mem_flatMap, List.mem_cons, List.not_mem_nil, or_false] at written
  obtain ⟨b, _, high | low⟩ := written
  · have byteLt : b.toNat < 256 := b.toNat_lt
    rw [high]
    exact hexDigit_mem _ (by omega)
  · rw [low]
    exact hexDigit_mem _ (by omega)

/-! ## Decimal -/

/-- `%d` of a non-negative int. -/
def formatInt (n : Nat) : List Char := Nat.toDigits 10 n

def syntaxError : String := "strconv.ParseInt: invalid syntax"

def rangeError : String := "strconv.ParseInt: value out of range"

def maxUint64 : Nat := 2 ^ 64 - 1

/-- The digit loop of `strconv.ParseUint(s, 10, 64)`: a non-digit is a
syntax error, and the first digit that takes the value past `2^64 - 1` a
range error (first when the value reaches the cutoff `maxUint64 / 10 + 1`,
then on the addition). -/
def parseUintLoop : List Char → Nat → Except String Nat
  | [], n => pure n
  | d :: s, n =>
      if d.isDigit then
        if maxUint64 / 10 + 1 ≤ n then throw rangeError
        else if maxUint64 < n * 10 + (d.toNat - '0'.toNat) then throw rangeError
        else parseUintLoop s (n * 10 + (d.toNat - '0'.toNat))
      else throw syntaxError

/-- `strconv.ParseInt(s, 10, 64)`: an optional sign, at least one digit, and
a value in `[-2^63, 2^63)`. -/
def parseInt (s : List Char) : Except String Int :=
  match s with
  | [] => throw syntaxError
  | c :: rest =>
      let (neg, digits) := if c = '+' then (false, rest) else if c = '-' then (true, rest) else (false, s)
      if digits = [] then throw syntaxError
      else do
        let un ← parseUintLoop digits 0
        if !neg && 2 ^ 63 ≤ un then throw rangeError
        else if neg && 2 ^ 63 < un then throw rangeError
        else pure (if neg then -(un : Int) else un)

theorem parseUintLoop_digits (s : List Char) (digits : ∀ c ∈ s, c.isDigit) (acc : Nat)
    (fits : Nat.ofDigitChars 10 s acc ≤ maxUint64) : parseUintLoop s acc = .ok (Nat.ofDigitChars 10 s acc) := by
  induction s generalizing acc with
  | nil => rfl
  | cons d s ih =>
      have digit : d.isDigit := digits d List.mem_cons_self
      rw [Nat.ofDigitChars_cons] at fits ⊢
      -- the value only grows along the digits, so no prefix overflows
      have grows := @Nat.ofDigitChars_eq_ofDigitChars_zero s (10 * acc + (d.toNat - '0'.toNat))
      have bounded : acc * 10 + (d.toNat - '0'.toNat) ≤ maxUint64 := by
        have : 10 * acc + (d.toNat - '0'.toNat) ≤ 10 ^ s.length * (10 * acc + (d.toNat - '0'.toNat)) :=
          Nat.le_mul_of_pos_left _ (Nat.pow_pos (by omega))
        omega
      have belowCutoff : ¬ maxUint64 / 10 + 1 ≤ acc := by
        unfold maxUint64 at bounded ⊢
        omega
      rw [parseUintLoop, if_pos digit, if_neg belowCutoff, if_neg (by omega), Nat.mul_comm acc 10]
      exact ih (fun c inS => digits c (List.mem_cons_of_mem d inS)) _ fits

theorem parseInt_formatInt {n : Nat} (small : n < 2 ^ 63) : parseInt (formatInt n) = .ok n := by
  have digits : ∀ c ∈ formatInt n, c.isDigit := fun c => Nat.isDigit_of_mem_toDigits (by omega) (by omega)
  have value : parseUintLoop (formatInt n) 0 = .ok n := by
    have loop := parseUintLoop_digits (formatInt n) digits 0 (by
      rw [formatInt, Nat.ofDigitChars_ten_toDigits]
      unfold maxUint64
      omega)
    rwa [formatInt, Nat.ofDigitChars_ten_toDigits] at loop
  obtain ⟨first, rest, split⟩ := List.exists_cons_of_ne_nil (Nat.toDigits_ne_nil (n := n) (b := 10))
  have firstDigit : first.isDigit := digits first (by rw [formatInt, split]; exact List.mem_cons_self)
  have notPlus : first ≠ '+' := fun same => by rw [same] at firstDigit; contradiction
  have notMinus : first ≠ '-' := fun same => by rw [same] at firstDigit; contradiction
  have fits : ¬ 9223372036854775808 ≤ n := by omega
  rw [formatInt, split] at value ⊢
  simp [parseInt, notPlus, notMinus, value, Bind.bind, Except.bind, fits, Pure.pure, Except.pure]

theorem mem_formatInt {c : Char} {n : Nat} (written : c ∈ formatInt n) : c.isDigit :=
  Nat.isDigit_of_mem_toDigits (by omega) (by omega) written

end HexText
