import Mathlib

/-!
# Trie key encodings

Keys reach the trie as KEYBYTES, are walked in memory as HEX nibbles closed
by the terminator `16`, and are kept in short nodes in the COMPACT
(hex-prefix) form of the Yellow Paper.  This module models the conversions of
`trie/encoding.go` over Go's byte values and proves the facts the trie
operations rely on: a hex key built from key bytes carries its terminator
last, and a compact key decodes back to the hex key it was built from.

A HEX element is a `Fin 17`: every hex key the code builds comes out of
`keybytesToHex`, whose elements are `b / 16`, `b % 16` or `16`.
-/

set_option autoImplicit false

namespace TurboGeth.Trie

abbrev Bytes := List UInt8

/-- Membership in a list of byte strings is decided through this instance
by name, rather than through an auxiliary proof made in each module that
tests one. -/
instance bytes_lawfulBEq : LawfulBEq Bytes := inferInstance

/-- One element of a HEX key: a nibble below 16, or the terminator 16. -/
abbrev Nibble := Fin 17

/-- The instance behind every `Fin 17` literal, likewise. -/
instance nibble_neZero : NeZero (17 : Nat) := ⟨by decide⟩

/-- A byte value below 17 read as a hex element (`nibbles[i] = b / 16`). -/
def byteNibble (b : UInt8) : Nibble := Fin.ofNat 17 b.toNat

def nibbleByte (n : Nibble) : UInt8 := n.val.toUInt8

def hasTerm (s : List Nibble) : Bool := s.getLast? == some 16

def keybytesToHex (str : Bytes) : List Nibble :=
  str.flatMap (fun b => [byteNibble (b / 16), byteNibble (b % 16)]) ++ [16]

/-- The pair loop of `decodeNibbles`, writing into the buffer `bytes`.  A
trailing odd nibble fills the high half of the byte it lands on; a buffer too
short for the input would make Go panic, which no caller allows. -/
def decodePairs : List Nibble → Bytes → Bytes
  | a :: b :: rest, _ :: out => (nibbleByte a <<< 4 ||| nibbleByte b) :: decodePairs rest out
  | [a], x :: out => ((x &&& ~~~(0xf0 : UInt8)) ||| nibbleByte a <<< 4) :: out
  | _, out => out

def decodeNibbles (nibbles : List Nibble) (bytes : Bytes) : Bytes :=
  decodePairs (if hasTerm nibbles then nibbles.dropLast else nibbles) bytes

def hexToCompact (hex : List Nibble) : Bytes :=
  let terminator : UInt8 := if hasTerm hex then 1 else 0
  let body := if hasTerm hex then hex.dropLast else hex
  let buf := List.replicate (body.length / 2) (0 : UInt8)
  -- the flag byte holds the terminator in bit 5, oddness in bit 4, and the
  -- first nibble of an odd key in its low half
  match body with
  | first :: rest =>
      if body.length % 2 = 1 then
        (terminator <<< 5 ||| (1 : UInt8) <<< 4 ||| nibbleByte first) :: decodeNibbles rest buf
      else terminator <<< 5 :: decodeNibbles body buf
  | [] => terminator <<< 5 :: decodeNibbles [] buf

/-- `compactToHex`.  Go indexes `base[0]` of a never empty slice; on an empty
compact key its final slice panics, where the model returns `[]`. -/
def compactToHex (compact : Bytes) : List Nibble :=
  let base := keybytesToHex compact
  -- delete terminator flag
  let base := if base.headD 16 < 2 then base.dropLast else base
  -- apply odd flag
  let chop := 2 - (base.headD 16).val % 2
  base.drop chop

/-- `hexToKeybytes`, for hex keys of even length; Go panics on an odd one. -/
def hexToKeybytes (hex : List Nibble) : Except String Bytes :=
  let hex := if hasTerm hex then hex.dropLast else hex
  if hex.length % 2 ≠ 0 then .error "can\x27t convert hex key of odd length"
  else .ok (decodeNibbles hex (List.replicate (hex.length / 2) 0))

/-- `prefixLen`: the length of the common prefix of `a` and `b`. -/
def prefixLen {α : Type} [DecidableEq α] : List α → List α → Nat
  | x :: a, y :: b => if x = y then prefixLen a b + 1 else 0
  | _, _ => 0

/-- The terminator, if present, is the last element: the shape of every key
and key fragment the trie builds. -/
def TermLast (h : List Nibble) : Prop := ∀ x ∈ h.dropLast, x ≠ 16

instance (h : List Nibble) : Decidable (TermLast h) :=
  inferInstanceAs (Decidable (∀ x ∈ h.dropLast, x ≠ 16))

/-! ## Nibbles and bytes -/

theorem byteNibble_val (b : UInt8) (small : b.toNat < 17) : (byteNibble b).val = b.toNat := by
  simp [byteNibble, Nat.mod_eq_of_lt small]

theorem pack_toNat : ∀ a : Nat, a < 16 → ∀ b : Nat, b < 16 →
    ((a.toUInt8 <<< (4 : UInt8)) ||| b.toUInt8 : UInt8).toNat = a * 16 + b := by
  decide

theorem flag_toNat : ∀ t : Nat, t < 2 → ∀ a : Nat, a < 16 →
    ((t.toUInt8 <<< (5 : UInt8)) ||| (1 : UInt8) <<< (4 : UInt8) ||| a.toUInt8 : UInt8).toNat =
      t * 32 + 16 + a := by
  decide

theorem evenFlag_toNat (t : Nat) (small : t < 2) :
    (t.toUInt8 <<< (5 : UInt8) : UInt8).toNat = t * 32 := by
  interval_cases t <;> decide

theorem byteNibble_div (b : UInt8) : (byteNibble (b / 16)).val = b.toNat / 16 := by
  rw [byteNibble_val _ (by rw [UInt8.toNat_div]; have := b.toNat_lt; simp; omega)]
  simp [UInt8.toNat_div]

theorem byteNibble_mod (b : UInt8) : (byteNibble (b % 16)).val = b.toNat % 16 := by
  rw [byteNibble_val _ (by rw [UInt8.toNat_mod]; simp; omega)]
  simp [UInt8.toNat_mod]

/-! ## Keys built from key bytes -/

theorem keybytesToHex_length (str : Bytes) : (keybytesToHex str).length = 2 * str.length + 1 := by
  induction str with
  | nil => rfl
  | cons b rest inductionHypothesis =>
      simp only [keybytesToHex, List.flatMap_cons, List.length_append, List.length_cons,
        List.length_nil] at inductionHypothesis ⊢
      omega

theorem keybytes_nibble_lt (str : Bytes) :
    ∀ x ∈ str.flatMap (fun b => [byteNibble (b / 16), byteNibble (b % 16)]), x ≠ 16 := by
  intro x member
  simp only [List.mem_flatMap, List.mem_cons, List.not_mem_nil, or_false] at member
  obtain ⟨b, -, high | low⟩ := member
  · intro isTerm
    have value := byteNibble_div b
    rw [← high, isTerm] at value
    have := b.toNat_lt
    simp at value
    omega
  · intro isTerm
    have value := byteNibble_mod b
    rw [← low, isTerm] at value
    simp at value
    omega

theorem keybytesToHex_termLast (str : Bytes) : TermLast (keybytesToHex str) := by
  intro x member
  rw [keybytesToHex, List.dropLast_concat] at member
  exact keybytes_nibble_lt str x member

theorem hasTerm_keybytesToHex (str : Bytes) : hasTerm (keybytesToHex str) = true := by
  simp [hasTerm, keybytesToHex]

theorem keybytesToHex_injective : Function.Injective keybytesToHex := by
  intro first second equal
  induction first generalizing second with
  | nil =>
      cases second with
      | nil => rfl
      | cons b rest => simp [keybytesToHex] at equal
  | cons a rest inductionHypothesis =>
      cases second with
      | nil => simp [keybytesToHex] at equal
      | cons b others =>
          simp only [keybytesToHex, List.flatMap_cons, List.cons_append, List.nil_append,
            List.cons.injEq] at equal
          obtain ⟨high, low, tail⟩ := equal
          have highVal := congrArg Fin.val high
          have lowVal := congrArg Fin.val low
          rw [byteNibble_div, byteNibble_div] at highVal
          rw [byteNibble_mod, byteNibble_mod] at lowVal
          have sameByte : a = b := by
            apply UInt8.toNat_inj.mp
            omega
          rw [sameByte, inductionHypothesis (by simpa [keybytesToHex] using tail)]

/-! ## Compact keys decode to the hex keys they were built from -/

def byteNibbles (b : UInt8) : List Nibble := [byteNibble (b / 16), byteNibble (b % 16)]

theorem keybytesToHex_cons (b : UInt8) (rest : Bytes) :
    keybytesToHex (b :: rest) = byteNibbles b ++ keybytesToHex rest := by
  simp [keybytesToHex, byteNibbles]

theorem byteNibbles_pack (a b : Nibble) (aSmall : a ≠ 16) (bSmall : b ≠ 16) :
    byteNibbles (nibbleByte a <<< 4 ||| nibbleByte b) = [a, b] := by
  have aLt : a.val < 16 := by
    have := a.isLt
    have : a.val ≠ 16 := fun isTerm => aSmall (Fin.ext isTerm)
    omega
  have bLt : b.val < 16 := by
    have := b.isLt
    have : b.val ≠ 16 := fun isTerm => bSmall (Fin.ext isTerm)
    omega
  have packed := pack_toNat a.val aLt b.val bLt
  simp only [nibbleByte] at packed ⊢
  simp only [byteNibbles, List.cons.injEq, and_true]
  constructor
  · apply Fin.ext
    rw [byteNibble_div, packed]
    omega
  · apply Fin.ext
    rw [byteNibble_mod, packed]
    omega

theorem decodePairs_unpack : ∀ (pairs : Nat) (body : List Nibble),
    body.length = 2 * pairs → (∀ x ∈ body, x ≠ 16) →
      (decodePairs body (List.replicate pairs 0)).flatMap byteNibbles = body := by
  intro pairs
  induction pairs with
  | zero =>
      intro body lengthZero _
      rw [List.eq_nil_of_length_eq_zero (by omega : body.length = 0)]
      rfl
  | succ pairs inductionHypothesis =>
      intro body lengthExact proper
      match body, lengthExact with
      | a :: b :: rest, lengthExact =>
          have restLength : rest.length = 2 * pairs := by
            simp only [List.length_cons] at lengthExact
            omega
          have restProper : ∀ x ∈ rest, x ≠ 16 := fun x member =>
            proper x (by simp [member])
          rw [List.replicate_succ, decodePairs, List.flatMap_cons,
            byteNibbles_pack a b (proper a (by simp)) (proper b (by simp)),
            inductionHypothesis rest restLength restProper]
          rfl

theorem not_hasTerm_of_proper (body : List Nibble) (proper : ∀ x ∈ body, x ≠ 16) :
    hasTerm body = false := by
  cases last : body.getLast? with
  | none => simp [hasTerm, last]
  | some x =>
      have member : x ∈ body := List.mem_of_getLast? last
      have notTerm := proper x member
      simp [hasTerm, last, notTerm]

theorem termLast_split (hex : List Nibble) (shape : TermLast hex) :
    ∃ body : List Nibble, (∀ x ∈ body, x ≠ 16) ∧
      (hex = body ∧ hasTerm hex = false ∨ hex = body ++ [16] ∧ hasTerm hex = true) := by
  by_cases term : hasTerm hex = true
  · refine ⟨hex.dropLast, shape, Or.inr ⟨?_, term⟩⟩
    have last : hex.getLast? = some 16 := by simpa [hasTerm] using term
    exact (List.dropLast_append_getLast? 16 last).symm
  · have lastProper : ∀ x ∈ hex.getLast?, x ≠ 16 := by
      intro x member isTerm
      apply term
      simp only [Option.mem_def] at member
      simp [hasTerm, member, isTerm]
    refine ⟨hex, ?_, Or.inl ⟨rfl, by simpa using term⟩⟩
    intro x member
    cases last : hex.getLast? with
    | none => simp [List.getLast?_eq_none_iff.mp last] at member
    | some y =>
        rw [← List.dropLast_append_getLast? y last] at member
        rcases List.mem_append.mp member with inBody | isLast
        · exact shape x inBody
        · simp only [List.mem_singleton] at isLast
          subst isLast
          exact lastProper x (by simp [last])

/-- How `compactToHex` reads a flag byte with nibbles `high`, `low` in front
of a body: the terminator flag decides whether the trailing `16` stays, the
odd flag how many leading nibbles go. -/
theorem compactToHex_cons (flag : UInt8) (rest : Bytes) (body : List Nibble)
    (restBody : rest.flatMap byteNibbles = body) :
    compactToHex (flag :: rest) =
      if (byteNibble (flag / 16)).val < 2 then
        ([byteNibble (flag / 16), byteNibble (flag % 16)] ++ body).drop
          (2 - (byteNibble (flag / 16)).val % 2)
      else
        ([byteNibble (flag / 16), byteNibble (flag % 16)] ++ body ++ [16]).drop
          (2 - (byteNibble (flag / 16)).val % 2) := by
  have base : keybytesToHex (flag :: rest) =
      [byteNibble (flag / 16), byteNibble (flag % 16)] ++ body ++ [16] := by
    rw [keybytesToHex_cons, byteNibbles, ← restBody]
    rfl
  simp only [compactToHex, base]
  by_cases flagLow : (byteNibble (flag / 16)).val < 2
  · have headLow : ([byteNibble (flag / 16), byteNibble (flag % 16)] ++ body ++ [16]).headD 16 < 2 := by
      simpa [Fin.lt_def] using flagLow
    simp only [headLow, if_true, flagLow, List.dropLast_concat]
    simp
  · have headHigh : ¬ ([byteNibble (flag / 16), byteNibble (flag % 16)] ++ body ++ [16]).headD 16 < 2 := by
      simpa [Fin.lt_def] using flagLow
    simp only [headHigh, if_false, flagLow]
    simp

theorem oddFlag_nibbles (t : Nat) (tLt : t < 2) (first : Nibble) (firstProper : first ≠ 16) :
    (byteNibble ((t.toUInt8 <<< 5 ||| (1 : UInt8) <<< 4 ||| nibbleByte first) / 16)).val = 2 * t + 1 ∧
      byteNibble ((t.toUInt8 <<< 5 ||| (1 : UInt8) <<< 4 ||| nibbleByte first) % 16) = first := by
  have firstLt : first.val < 16 := by
    have := first.isLt
    have : first.val ≠ 16 := fun isTerm => firstProper (Fin.ext isTerm)
    omega
  have flag := flag_toNat t tLt first.val firstLt
  simp only [nibbleByte] at flag ⊢
  constructor
  · rw [byteNibble_div, flag]
    omega
  · apply Fin.ext
    rw [byteNibble_mod, flag]
    omega

theorem evenFlag_nibbles (t : Nat) (tLt : t < 2) :
    (byteNibble ((t.toUInt8 <<< 5 : UInt8) / 16)).val = 2 * t ∧
      (byteNibble ((t.toUInt8 <<< 5 : UInt8) % 16)).val = 0 := by
  have flag := evenFlag_toNat t tLt
  constructor
  · rw [byteNibble_div, flag]
    omega
  · rw [byteNibble_mod, flag]
    omega

theorem compactToHex_hexToCompact_body (hex body : List Nibble) (proper : ∀ x ∈ body, x ≠ 16)
    (t : Nat) (tLt : t < 2) (terminator : (if hasTerm hex then (1 : UInt8) else 0) = t.toUInt8)
    (strip : (if hasTerm hex then hex.dropLast else hex) = body) :
    compactToHex (hexToCompact hex) = body ++ (if t = 0 then [] else [16]) := by
  simp only [hexToCompact, terminator, strip]
  have bodyPlain := not_hasTerm_of_proper body proper
  cases body with
  | nil =>
      obtain ⟨high, -⟩ := evenFlag_nibbles t tLt
      rw [compactToHex_cons _ _ [] (by rfl), high]
      interval_cases t <;> simp
  | cons first rest =>
      have restProper : ∀ x ∈ rest, x ≠ 16 := fun x member => proper x (by simp [member])
      by_cases odd : (first :: rest).length % 2 = 1
      · have restEven : rest.length = 2 * ((first :: rest).length / 2) := by
          simp only [List.length_cons] at odd ⊢
          omega
        have unpacked := decodePairs_unpack _ rest restEven restProper
        dsimp only
        rw [if_pos odd, decodeNibbles, not_hasTerm_of_proper rest restProper, if_neg (by simp),
          compactToHex_cons _ _ rest unpacked]
        obtain ⟨high, low⟩ := oddFlag_nibbles t tLt first (proper first (by simp))
        rw [high, low]
        interval_cases t <;> simp
      · have bodyEven : (first :: rest).length = 2 * ((first :: rest).length / 2) := by omega
        have unpacked := decodePairs_unpack _ (first :: rest) bodyEven proper
        dsimp only
        rw [if_neg odd, decodeNibbles, bodyPlain, if_neg (by simp),
          compactToHex_cons _ _ (first :: rest) unpacked]
        obtain ⟨high, low⟩ := evenFlag_nibbles t tLt
        have low' : byteNibble ((t.toUInt8 <<< 5 : UInt8) % 16) = 0 := Fin.ext low
        rw [high, low']
        interval_cases t <;> simp

theorem compactToHex_hexToCompact (hex : List Nibble) (shape : TermLast hex) :
    compactToHex (hexToCompact hex) = hex := by
  obtain ⟨body, proper, ⟨plainHex, term⟩ | ⟨closedHex, term⟩⟩ := termLast_split hex shape
  · have roundTrip := compactToHex_hexToCompact_body hex body proper 0 (by omega)
      (by simp [term]) (by rw [term, plainHex]; rfl)
    simpa [plainHex] using roundTrip
  · have roundTrip := compactToHex_hexToCompact_body hex body proper 1 (by omega)
      (by simp [term]) (by rw [term, closedHex]; simp)
    simpa [closedHex] using roundTrip

/-! ## Key bytes back from hex keys -/

theorem decodePairs_length (nibbles : List Nibble) (out : Bytes) : (decodePairs nibbles out).length = out.length := by
  fun_induction decodePairs nibbles out <;> simp_all

theorem decodePairs_keybytes (str : Bytes) :
    decodePairs (str.flatMap byteNibbles) (List.replicate str.length 0) = str := by
  have width : (str.flatMap byteNibbles).length = 2 * str.length := by
    have := keybytesToHex_length str
    rw [keybytesToHex, List.length_append, List.length_singleton] at this
    exact Nat.add_right_cancel this
  have unpacked := decodePairs_unpack str.length _ width (keybytes_nibble_lt str)
  apply keybytesToHex_injective
  rw [keybytesToHex, keybytesToHex]
  exact congrArg (· ++ [16]) unpacked

theorem hexToKeybytes_keybytesToHex (str : Bytes) : hexToKeybytes (keybytesToHex str) = .ok str := by
  have body : (keybytesToHex str).dropLast = str.flatMap byteNibbles := by
    rw [keybytesToHex, List.dropLast_concat]
    rfl
  have width : (str.flatMap byteNibbles).length = 2 * str.length := by
    have := keybytesToHex_length str
    rw [keybytesToHex, List.length_append, List.length_singleton] at this
    exact Nat.add_right_cancel this
  unfold hexToKeybytes
  dsimp only
  rw [if_pos (hasTerm_keybytesToHex str), body, width, if_neg (by omega), decodeNibbles,
    not_hasTerm_of_proper (str.flatMap byteNibbles) (keybytes_nibble_lt str), if_neg (by simp),
    Nat.mul_div_cancel_left _ (by decide),
    decodePairs_keybytes]

/-! ## The length and flag of compact keys -/

theorem hexToCompact_length (hex : List Nibble) :
    (hexToCompact hex).length = (if hasTerm hex then hex.dropLast else hex).length / 2 + 1 := by
  unfold hexToCompact
  dsimp only
  generalize (if hasTerm hex then hex.dropLast else hex) = body
  cases body with
  | nil => simp [decodeNibbles, decodePairs_length]
  | cons first rest =>
    dsimp only
    split
    · simp [decodeNibbles, decodePairs_length]
    · simp [decodeNibbles, decodePairs_length]

theorem hexToCompact_flag (hex : List Nibble) (shape : TermLast hex) :
    ((hexToCompact hex).headD 0).toNat / 16 =
      2 * (if hasTerm hex then 1 else 0) + (if hasTerm hex then hex.dropLast else hex).length % 2 := by
  obtain ⟨body, proper, split⟩ := termLast_split hex shape
  -- the terminator flag as a number
  obtain ⟨t, tLt, terminator, flagT⟩ : ∃ t : Nat, t < 2 ∧
      (if hasTerm hex then (1 : UInt8) else 0) = t.toUInt8 ∧ (if hasTerm hex then 1 else 0) = t := by
    rcases split with ⟨-, term⟩ | ⟨-, term⟩
    · exact ⟨0, by decide, by simp [term], by simp [term]⟩
    · exact ⟨1, by decide, by simp [term], by simp [term]⟩
  have strip : (if hasTerm hex then hex.dropLast else hex) = body := by
    rcases split with ⟨plain, term⟩ | ⟨closed, term⟩
    · rw [term, plain]
      rfl
    · rw [term, closed]
      simp
  rw [flagT, strip]
  simp only [hexToCompact, terminator, strip]
  cases body with
  | nil =>
    rw [List.headD_cons, evenFlag_toNat t tLt]
    simp
    omega
  | cons first rest =>
    have firstLt : first.val < 16 := by
      have := first.isLt
      have : first.val ≠ 16 := fun isTerm => proper first (by simp) (Fin.ext isTerm)
      omega
    dsimp only
    by_cases odd : (first :: rest).length % 2 = 1
    · rw [if_pos odd, List.headD_cons]
      have flag := flag_toNat t tLt first.val firstLt
      simp only [nibbleByte] at flag ⊢
      rw [flag, odd]
      omega
    · rw [if_neg odd, List.headD_cons, evenFlag_toNat t tLt]
      omega

/-! ## Common prefixes -/

section Prefix

variable {α : Type} [DecidableEq α]

theorem prefixLen_le_left : ∀ (a b : List α), prefixLen a b ≤ a.length
  | x :: a, y :: b => by
      simp only [prefixLen, List.length_cons]
      split
      · have := prefixLen_le_left a b
        omega
      · omega
  | [], _ => by simp [prefixLen]
  | _ :: _, [] => by simp [prefixLen]

theorem prefixLen_le_right : ∀ (a b : List α), prefixLen a b ≤ b.length
  | x :: a, y :: b => by
      simp only [prefixLen, List.length_cons]
      split
      · have := prefixLen_le_right a b
        omega
      · omega
  | [], _ => by simp [prefixLen]
  | _ :: _, [] => by simp [prefixLen]

theorem take_prefixLen : ∀ (a b : List α), a.take (prefixLen a b) = b.take (prefixLen a b)
  | x :: a, y :: b => by
      simp only [prefixLen]
      split
      · next same =>
          subst same
          simp [take_prefixLen a b]
      · simp
  | [], _ => by simp [prefixLen]
  | _ :: _, [] => by simp [prefixLen]

theorem getElem_prefixLen_ne : ∀ (a b : List α) (inA : prefixLen a b < a.length)
    (inB : prefixLen a b < b.length), a[prefixLen a b] ≠ b[prefixLen a b]
  | x :: a, y :: b, inA, inB => by
      by_cases same : x = y
      · subst same
        have inA' : prefixLen a b < a.length := by
          simp only [prefixLen, if_true, List.length_cons] at inA
          omega
        have inB' : prefixLen a b < b.length := by
          simp only [prefixLen, if_true, List.length_cons] at inB
          omega
        simpa [prefixLen] using getElem_prefixLen_ne a b inA' inB'
      · simp [prefixLen, same]
  | [], _, inA, _ => by simp [prefixLen] at inA
  | _ :: _, [], _, inB => by simp [prefixLen] at inB

theorem prefixLen_eq_length_right (a b : List α) (full : prefixLen a b = b.length) :
    a = b ++ a.drop b.length := by
  have common := take_prefixLen a b
  rw [full, List.take_length] at common
  conv_lhs => rw [← List.take_append_drop b.length a, common]

theorem le_prefixLen : ∀ (a b : List α) (n : Nat), n ≤ a.length → n ≤ b.length → a.take n = b.take n →
    n ≤ prefixLen a b
  | x :: a, y :: b, n + 1, inA, inB, common => by
      simp only [List.take_succ_cons, List.cons.injEq] at common
      rw [prefixLen, if_pos common.1]
      have := le_prefixLen a b n (by simpa using inA) (by simpa using inB) common.2
      omega
  | _, _, 0, _, _, _ => Nat.zero_le _
  | [], _, _ + 1, inA, _, _ => by simp at inA
  | _ :: _, [], _ + 1, _, inB, _ => by simp at inB

end Prefix

/-! ## Hex keys -/

/-- A key as the trie walks it: closed by the terminator, which appears
nowhere else. -/
def HexKey (key : List Nibble) : Prop := hasTerm key = true ∧ TermLast key

theorem hexKey_keybytesToHex (str : Bytes) : HexKey (keybytesToHex str) :=
  ⟨hasTerm_keybytesToHex str, keybytesToHex_termLast str⟩

theorem termLast_of_sublist {small big : List Nibble} (sub : List.Sublist small.dropLast big.dropLast)
    (shape : TermLast big) : TermLast small :=
  fun x member => shape x (sub.subset member)

theorem hasTerm_iff_getLast (s : List Nibble) : hasTerm s = true ↔ s.getLast? = some 16 := by
  simp [hasTerm]

theorem HexKey.getElem_eq_term {key : List Nibble} (shape : HexKey key) (i : Nat)
    (bound : i < key.length) : key[i] = 16 ↔ i + 1 = key.length := by
  obtain ⟨term, proper⟩ := shape
  have last : key.getLast? = some 16 := (hasTerm_iff_getLast key).mp term
  constructor
  · intro isTerm
    by_contra notLast
    have inBody : i < key.dropLast.length := by
      simp only [List.length_dropLast]
      omega
    have member : key.dropLast[i] ∈ key.dropLast := List.getElem_mem inBody
    rw [List.getElem_dropLast] at member
    exact proper _ member isTerm
  · intro isLast
    have nonEmpty : key ≠ [] := List.ne_nil_of_length_pos (by omega)
    rw [List.getLast?_eq_some_getLast nonEmpty, Option.some.injEq, List.getLast_eq_getElem] at last
    simpa [← isLast] using last

theorem termLast_iff (k : List Nibble) : TermLast k ↔ ∀ (i : Nat) (inBody : i + 1 < k.length), k[i] ≠ 16 := by
  constructor
  · intro shape i inBody
    have inDropLast : i < k.dropLast.length := by
      rw [List.length_dropLast]
      omega
    rw [← List.getElem_dropLast inDropLast]
    exact shape _ (List.getElem_mem inDropLast)
  · intro proper x member
    obtain ⟨i, inDropLast, rfl⟩ := List.mem_iff_getElem.mp member
    rw [List.length_dropLast] at inDropLast
    rw [List.getElem_dropLast]
    exact proper i (by omega)

theorem termLast_drop {k : List Nibble} (shape : TermLast k) (n : Nat) : TermLast (k.drop n) := by
  rw [termLast_iff] at shape ⊢
  intro i inBody
  rw [List.getElem_drop]
  exact shape (n + i) (by simp at inBody; omega)

theorem termLast_take {k : List Nibble} (shape : TermLast k) (n : Nat) : TermLast (k.take n) := by
  rw [termLast_iff] at shape ⊢
  intro i inBody
  rw [List.getElem_take]
  exact shape i (by simp at inBody; omega)

theorem hasTerm_eq_last (k : List Nibble) (i : Nat) (inKey : i < k.length) (last : i + 1 = k.length) :
    hasTerm k = decide (k[i] = 16) := by
  have lastIndex : k.length - 1 = i := by omega
  have lastElem : k.getLast? = some k[i] := by
    rw [List.getLast?_eq_getElem?, lastIndex, List.getElem?_eq_getElem inKey]
  rw [hasTerm, lastElem]
  by_cases isTerm : k[i] = 16 <;> simp [isTerm]

theorem hasTerm_drop (k : List Nibble) (n : Nat) (inKey : n < k.length) :
    hasTerm (k.drop n) = hasTerm k := by
  rw [hasTerm, hasTerm, List.getLast?_drop, if_neg (by omega)]

theorem HexKey.step_term {key : List Nibble} (shape : HexKey key) (pos : Nat) (inKey : pos < key.length) :
    decide (pos + 1 = key.length) = decide (key[pos] = 16) := by
  rw [decide_eq_decide]
  exact (shape.getElem_eq_term pos inKey).symm

theorem HexKey.hasTerm_segment {key : List Nibble} (shape : HexKey key) (pos m : Nat) (segmentLive : 0 < m)
    (inKey : pos + m ≤ key.length) :
    hasTerm ((key.drop pos).take m) = decide (pos + m = key.length) := by
  have segmentLength : ((key.drop pos).take m).length = m := by
    simp only [List.length_take, List.length_drop]
    omega
  rw [hasTerm_eq_last _ (m - 1) (by omega) (by omega), List.getElem_take, List.getElem_drop]
  have atEnd := shape.getElem_eq_term (pos + (m - 1)) (by omega)
  rw [decide_eq_decide, atEnd]
  omega

theorem HexKey.termLast_segment {key : List Nibble} (shape : HexKey key) (pos m : Nat) :
    TermLast ((key.drop pos).take m) :=
  termLast_take (termLast_drop shape.2 pos) m

theorem HexKey.hasTerm_segment_proper {key : List Nibble} (shape : HexKey key) (pos m : Nat)
    (before : pos + m < key.length) : hasTerm ((key.drop pos).take m) = false := by
  apply not_hasTerm_of_proper
  intro x member
  obtain ⟨i, inSegment, rfl⟩ := List.mem_iff_getElem.mp member
  simp only [List.length_take, List.length_drop] at inSegment
  rw [List.getElem_take, List.getElem_drop]
  intro isTerm
  have atEnd := (shape.getElem_eq_term (pos + i) (by omega)).mp isTerm
  omega

theorem HexKey.prefixLen_lt {key : List Nibble} (shape : HexKey key) {segment : List Nibble}
    (segmentShape : TermLast segment) (pos : Nat) (inKey : pos < key.length)
    (parts : prefixLen (key.drop pos) segment < segment.length) :
    pos + prefixLen (key.drop pos) segment < key.length := by
  by_contra atEnd
  have bound := prefixLen_le_left (key.drop pos) segment
  rw [List.length_drop] at bound
  have whole : prefixLen (key.drop pos) segment = key.length - pos := by omega
  have common := take_prefixLen (key.drop pos) segment
  rw [whole, List.take_of_length_le (by simp)] at common
  have lastOfKey : key[key.length - 1] = 16 :=
    (shape.getElem_eq_term (key.length - 1) (by omega)).mpr (by omega)
  -- the key's terminator reappears in the segment before its last nibble
  have atJ : segment[key.length - pos - 1]? = some 16 := by
    have fromCommon := congrArg (fun l => l[key.length - pos - 1]?) common
    simp only [List.getElem?_drop, List.getElem?_take] at fromCommon
    rw [if_pos (by omega)] at fromCommon
    rw [← fromCommon, show pos + (key.length - pos - 1) = key.length - 1 by omega,
      List.getElem?_eq_getElem (by omega), lastOfKey]
  rw [List.getElem?_eq_getElem (by omega), Option.some.injEq] at atJ
  exact (termLast_iff segment).mp segmentShape _ (by omega) atJ

theorem prefixLen_eq_length_of_leading : ∀ (a b : List Nibble), b <+: a → prefixLen a b = b.length
  | _, [], _ => by cases ‹List Nibble› <;> rfl
  | x :: a, y :: b, leading => by
      obtain ⟨same, rest⟩ := List.cons_prefix_cons.mp leading
      rw [prefixLen, if_pos same.symm, prefixLen_eq_length_of_leading a b rest, List.length_cons]
  | [], _ :: _, leading => absurd leading (by simp)

theorem termLast_cons {x : Nibble} {k : List Nibble} (proper : x ≠ 16) (shape : TermLast k) :
    TermLast (x :: k) := by
  rw [termLast_iff] at shape ⊢
  intro i inBody
  cases i with
  | zero => exact proper
  | succ i => exact shape i (by simp at inBody; omega)

theorem termLast_singleton (x : Nibble) : TermLast [x] := by
  simp [TermLast]

theorem hasTerm_singleton (x : Nibble) : hasTerm [x] = decide (x = 16) := by
  by_cases isTerm : x = 16 <;> simp [hasTerm, isTerm]

theorem hasTerm_append (a : List Nibble) {b : List Nibble} (live : b ≠ []) :
    hasTerm (a ++ b) = hasTerm b := by
  rw [hasTerm, hasTerm, List.getLast?_append_of_ne_nil _ live]

theorem hasTerm_cons (x : Nibble) {k : List Nibble} (live : k ≠ []) : hasTerm (x :: k) = hasTerm k :=
  hasTerm_append [x] live

theorem proper_of_not_hasTerm {a : List Nibble} (shape : TermLast a) (noTerm : hasTerm a = false) :
    ∀ x ∈ a, x ≠ 16 := by
  intro x member isTerm
  obtain ⟨i, inA, rfl⟩ := List.mem_iff_getElem.mp member
  by_cases last : i + 1 = a.length
  · rw [hasTerm_eq_last a i inA last, isTerm] at noTerm
    simp at noTerm
  · exact (termLast_iff a).mp shape i (by omega) isTerm

theorem termLast_append {a b : List Nibble} (proper : ∀ x ∈ a, x ≠ 16) (shape : TermLast b) :
    TermLast (a ++ b) := by
  induction a with
  | nil => exact shape
  | cons x rest inductionHypothesis =>
      exact termLast_cons (proper x (by simp))
        (inductionHypothesis fun y member => proper y (by simp [member]))

/-! ## The key encodings round-trip -/

/-- Compact keys decode to the hex keys they encode, with one flag byte and
a byte per pair of nibbles, the flag nibble holding the terminator and the
oddness; key bytes come back from their hex keys; and `prefixLen` is the
length of the longest common prefix. -/
theorem key_encodings_round_trip :
    (∀ h : List Nibble, TermLast h →
      compactToHex (hexToCompact h) = h ∧
      (hexToCompact h).length = (if hasTerm h then h.dropLast else h).length / 2 + 1 ∧
      ((hexToCompact h).headD 0).toNat / 16 =
        2 * (if hasTerm h then 1 else 0) + (if hasTerm h then h.dropLast else h).length % 2) ∧
    (∀ k : Bytes, hexToKeybytes (keybytesToHex k) = .ok k) ∧
    ∀ (α : Type) [DecidableEq α] (a b : List α),
      (prefixLen a b ≤ a.length ∧ prefixLen a b ≤ b.length ∧ a.take (prefixLen a b) = b.take (prefixLen a b)) ∧
      ∀ n, n ≤ a.length → n ≤ b.length → a.take n = b.take n → n ≤ prefixLen a b := by
  refine ⟨fun h shape => ⟨compactToHex_hexToCompact h shape, hexToCompact_length h, hexToCompact_flag h shape⟩,
    hexToKeybytes_keybytesToHex, ?_⟩
  intro α _ a b
  exact ⟨⟨prefixLen_le_left a b, prefixLen_le_right a b, take_prefixLen a b⟩, le_prefixLen a b⟩

end TurboGeth.Trie
