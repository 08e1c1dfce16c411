import TurboGeth.Rlp.Decode

/-!
# Splitting encoded values without a stream

`rlp/raw.go`: `Split` reads the header of the first value of a byte slice with
the unexported `readKind` and `readSize`, and returns its kind, its content and
what follows it; `SplitString` and `SplitList` add a check of the kind, and
`CountValues` counts the values one after the other.  Go returns the input as
the rest beside an error; the model returns the error alone.  The size check
`contentsize > uint64(len(buf)) - tagsize` never wraps, since `readSize`
has already found the `tagsize - 1` length bytes in the input.

Over them, `splitTree` splits an item tree out of its encoding, `Split` applied
to every list's content recursively, as a caller of `Split` does; its recursion
runs on fuel, the loop over a list's content on fuel of its own, as in
`decodeInterface`.  Every encoding splits back into its tree.
-/

set_option autoImplicit false

namespace TurboGeth.Rlp.Raw

/-- `readSize`: a length of `slen` bytes, big-endian, at least 56 and with
no leading zero byte.  Go reads one to eight bytes, as `slen` is for its two
callers, and leaves the size zero for any other `slen`. -/
def readSize (b : List UInt8) (slen : UInt8) : Except RlpError Nat :=
  if slen.toNat > b.length then .error .ErrUnexpectedEOF
  else
    let s := if slen.toNat ≤ 8 then Rlp.bigEndian (b.take slen.toNat) else 0
    if s < 56 ∨ b.headD 0 = 0 then .error .ErrCanonSize else .ok s

/-- The tag's cases of `readKind`: kind, tag size and content size, before
the check against the input's length. -/
def readTag (b : UInt8) (rest : List UInt8) : Except RlpError (Kind × Nat × Nat) :=
  if b < 0x80 then .ok (.Byte, 0, 1)
  else if b < 0xB8 then
    -- reject strings that should've been single bytes
    if (b - 0x80).toNat = 1 ∧ rest.length > 0 ∧ rest.headD 0 < 128 then .error .ErrCanonSize
    else .ok (.String, 1, (b - 0x80).toNat)
  else if b < 0xC0 then
    match readSize rest (b - 0xB7) with
    | .ok size => .ok (.String, (b - 0xB7).toNat + 1, size)
    | .error err => .error err
  else if b < 0xF8 then .ok (.List, 1, (b - 0xC0).toNat)
  else
    match readSize rest (b - 0xF7) with
    | .ok size => .ok (.List, (b - 0xF7).toNat + 1, size)
    | .error err => .error err

def readKind (buf : List UInt8) : Except RlpError (Kind × Nat × Nat) :=
  match buf with
  | [] => .error .ErrUnexpectedEOF
  | b :: rest =>
    match readTag b rest with
    | .error err => .error err
    | .ok (k, tagsize, contentsize) =>
      -- reject values larger than the input slice
      if contentsize > buf.length - tagsize then .error .ErrValueTooLarge
      else .ok (k, tagsize, contentsize)

def Split (b : List UInt8) : Except RlpError (Kind × List UInt8 × List UInt8) :=
  match readKind b with
  | .error err => .error err
  | .ok (k, ts, cs) => .ok (k, (b.drop ts).take cs, b.drop (ts + cs))

def SplitString (b : List UInt8) : Except RlpError (List UInt8 × List UInt8) :=
  match Split b with
  | .error err => .error err
  | .ok (k, content, rest) => if k = .List then .error .ErrExpectedString else .ok (content, rest)

def SplitList (b : List UInt8) : Except RlpError (List UInt8 × List UInt8) :=
  match Split b with
  | .error err => .error err
  | .ok (k, content, rest) => if k ≠ .List then .error .ErrExpectedList else .ok (content, rest)

/-- The loop of `CountValues`, `i` values counted so far; it runs on
`fuel`. -/
def countValuesLoop : Nat → Nat → List UInt8 → Except RlpError Nat
  | 0, _, _ => .error .outOfFuel
  | fuel + 1, i, b =>
    if b.length > 0 then
      match readKind b with
      | .error err => .error err
      | .ok (_, tagsize, size) => countValuesLoop fuel (i + 1) (b.drop (tagsize + size))
    else .ok i

/-- `CountValues`: every value takes at least a byte, so the loop needs one
turn more than the input has bytes. -/
def CountValues (b : List UInt8) : Except RlpError Nat :=
  countValuesLoop (b.length + 1) 0 b

/-- The values of a list's content, split out by `elem` until the content
runs out; the loop runs on `fuel`. -/
def splitItems (elem : List UInt8 → Except RlpError (Rlp.Item × List UInt8)) :
    Nat → List UInt8 → Except RlpError (List Rlp.Item)
  | 0, _ => .error .outOfFuel
  | fuel + 1, b =>
    if b = [] then .ok []
    else
      match elem b with
      | .error err => .error err
      | .ok (x, rest) =>
        match splitItems elem fuel rest with
        | .ok items => .ok (x :: items)
        | .error err => .error err

/-- `Split` applied recursively: an item tree and what follows it. -/
def splitTree : Nat → List UInt8 → Except RlpError (Rlp.Item × List UInt8)
  | 0, _ => .error .outOfFuel
  | fuel + 1, b =>
    match Split b with
    | .error err => .error err
    | .ok (k, content, rest) =>
      if k = .List then
        match splitItems (splitTree fuel) fuel content with
        | .ok items => .ok (.list items, rest)
        | .error err => .error err
      else .ok (.bytes content, rest)

/-! ## Every header reads back -/

theorem readSize_natBytes (size : Nat) (big : 56 ≤ size) (fits : size < 2 ^ 64) (rest : List UInt8)
    (slen : UInt8) (counts : slen.toNat = (Rlp.natBytes size).length) :
    readSize (Rlp.natBytes size ++ rest) slen = .ok size := by
  obtain ⟨one, eight⟩ := Rlp.natBytes_length_range size (by omega) fits
  have leading : (Rlp.natBytes size ++ rest).headD 0 ≠ 0 := by
    have := Rlp.natBytes_head size
    cases bytes : Rlp.natBytes size with
    | nil => simp [bytes] at one
    | cons top more => simpa [bytes] using this
  unfold readSize
  rw [counts, if_neg (by simp only [List.length_append]; omega), if_pos eight, List.take_left' rfl,
    Rlp.bigEndian_natBytes, if_neg (not_or.mpr ⟨by omega, leading⟩)]

theorem readKind_of_readTag (b : UInt8) (rest : List UInt8) (k : Kind) (tagsize contentsize : Nat)
    (tag : readTag b rest = .ok (k, tagsize, contentsize)) (room : tagsize + contentsize ≤ (b :: rest).length) :
    readKind (b :: rest) = .ok (k, tagsize, contentsize) := by
  simp only [readKind, tag]
  rw [if_neg (by omega)]

theorem readTag_byte (c : UInt8) (low : c < 128) (rest : List UInt8) : readTag c rest = .ok (.Byte, 0, 1) := by
  simp [readTag, low]

section Tags

variable (size : Nat) (rest : List UInt8)

theorem readTag_short_string (short : size < 56) (canonical : size = 1 → ∀ c ∈ rest.head?, 128 ≤ c.toNat) :
    readTag (UInt8.ofNat (128 + size)) rest = .ok (.String, 1, size) := by
  have value : (UInt8.ofNat (128 + size)).toNat = 128 + size := tag_toNat _ (by omega)
  have minus : (UInt8.ofNat (128 + size) - 0x80).toNat = size := by
    rw [UInt8.toNat_sub_of_le _ _ (UInt8.le_iff_toNat_le.mpr (by rw [value]; simp)), value]
    simp
  unfold readTag
  simp only [UInt8.lt_iff_toNat_lt, UInt8.reduceToNat, value, minus]
  rw [if_neg (by omega), if_pos (by omega), if_neg]
  rintro ⟨one, live, low⟩
  obtain ⟨c, more, rfl⟩ := List.exists_cons_of_length_pos live
  have := canonical one c rfl
  simp only [List.headD_cons] at low
  omega

theorem readTag_short_list (short : size < 56) : readTag (UInt8.ofNat (192 + size)) rest = .ok (.List, 1, size) := by
  have value : (UInt8.ofNat (192 + size)).toNat = 192 + size := tag_toNat _ (by omega)
  have minus : (UInt8.ofNat (192 + size) - 0xC0).toNat = size := by
    rw [UInt8.toNat_sub_of_le _ _ (UInt8.le_iff_toNat_le.mpr (by rw [value]; simp)), value]
    simp
  unfold readTag
  simp only [UInt8.lt_iff_toNat_lt, UInt8.reduceToNat, value, minus]
  rw [if_neg (by omega), if_neg (by omega), if_neg (by omega), if_pos (by omega)]

theorem readTag_long_string (big : 56 ≤ size) (fits : size < 2 ^ 64) :
    readTag (UInt8.ofNat (128 + 55 + (Rlp.natBytes size).length)) (Rlp.natBytes size ++ rest) =
      .ok (.String, (Rlp.natBytes size).length + 1, size) := by
  obtain ⟨one, eight⟩ := Rlp.natBytes_length_range size (by omega) fits
  have value : (UInt8.ofNat (128 + 55 + (Rlp.natBytes size).length)).toNat = 183 + (Rlp.natBytes size).length :=
    tag_toNat _ (by omega)
  have minus : (UInt8.ofNat (128 + 55 + (Rlp.natBytes size).length) - 0xB7).toNat = (Rlp.natBytes size).length := by
    rw [UInt8.toNat_sub_of_le _ _ (UInt8.le_iff_toNat_le.mpr (by rw [value]; simp)), value]
    simp
  unfold readTag
  simp only [UInt8.lt_iff_toNat_lt, UInt8.reduceToNat, value]
  rw [if_neg (by omega), if_neg (by omega), if_pos (by omega),
    readSize_natBytes size big fits rest _ minus, minus]

theorem readTag_long_list (big : 56 ≤ size) (fits : size < 2 ^ 64) :
    readTag (UInt8.ofNat (192 + 55 + (Rlp.natBytes size).length)) (Rlp.natBytes size ++ rest) =
      .ok (.List, (Rlp.natBytes size).length + 1, size) := by
  obtain ⟨one, eight⟩ := Rlp.natBytes_length_range size (by omega) fits
  have value : (UInt8.ofNat (192 + 55 + (Rlp.natBytes size).length)).toNat = 247 + (Rlp.natBytes size).length :=
    tag_toNat _ (by omega)
  have minus : (UInt8.ofNat (192 + 55 + (Rlp.natBytes size).length) - 0xF7).toNat = (Rlp.natBytes size).length := by
    rw [UInt8.toNat_sub_of_le _ _ (UInt8.le_iff_toNat_le.mpr (by rw [value]; simp)), value]
    simp
  unfold readTag
  simp only [UInt8.lt_iff_toNat_lt, UInt8.reduceToNat, value]
  rw [if_neg (by omega), if_neg (by omega), if_neg (by omega), if_neg (by omega),
    readSize_natBytes size big fits rest _ minus, minus]

end Tags

/-! ## Every encoding splits -/

theorem Split_header (b : UInt8) (lenBytes payload rest : List UInt8) (k : Kind)
    (tag : readTag b (lenBytes ++ (payload ++ rest)) = .ok (k, lenBytes.length + 1, payload.length)) :
    Split (b :: (lenBytes ++ (payload ++ rest))) = .ok (k, payload, rest) := by
  have read := readKind_of_readTag b _ k _ _ tag (by simp; omega)
  have content : (b :: (lenBytes ++ (payload ++ rest))).drop (lenBytes.length + 1) = payload ++ rest := by
    simp
  simp only [Split, read, content, List.take_left' rfl, ← List.drop_drop, List.drop_left' rfl]

theorem Split_byte (c : UInt8) (low : c < 128) (rest : List UInt8) : Split (c :: rest) = .ok (.Byte, [c], rest) := by
  simp [Split, readKind_of_readTag c rest .Byte 0 1 (readTag_byte c low rest) (by simp)]

theorem Split_string (b rest : List UInt8) (fits : b.length < 2 ^ 64) (notSmall : ∀ c, b = [c] → ¬ c < 128) :
    Split (Rlp.header 128 b.length ++ b ++ rest) = .ok (.String, b, rest) := by
  by_cases short : b.length < 56
  · have canonical : b.length = 1 → ∀ c ∈ (b ++ rest).head?, 128 ≤ c.toNat := by
      intro one c first
      obtain ⟨d, rfl⟩ := List.length_eq_one_iff.mp one
      simp only [List.cons_append, List.head?_cons, Option.mem_def, Option.some.injEq] at first
      subst first
      simpa [UInt8.lt_iff_toNat_lt] using notSmall _ rfl
    rw [Rlp.header_short 128 _ short]
    exact Split_header _ [] b rest .String (readTag_short_string b.length (b ++ rest) short canonical)
  · have big := Nat.not_lt.mp short
    rw [Rlp.header_long 128 _ big]
    simp only [List.cons_append, List.append_assoc]
    exact Split_header _ _ b rest .String (readTag_long_string b.length (b ++ rest) big fits)

theorem Split_list (payload rest : List UInt8) (fits : payload.length < 2 ^ 64) :
    Split (Rlp.header 192 payload.length ++ payload ++ rest) = .ok (.List, payload, rest) := by
  by_cases short : payload.length < 56
  · rw [Rlp.header_short 192 _ short]
    exact Split_header _ [] payload rest .List (readTag_short_list payload.length (payload ++ rest) short)
  · have big := Nat.not_lt.mp short
    rw [Rlp.header_long 192 _ big]
    simp only [List.cons_append, List.append_assoc]
    exact Split_header _ _ payload rest .List (readTag_long_list payload.length (payload ++ rest) big fits)

theorem Split_bytes (b rest : List UInt8) (fits : b.length < 2 ^ 64) :
    ∃ k, k ≠ .List ∧ Split (Rlp.encode (.bytes b) ++ rest) = .ok (k, b, rest) := by
  by_cases small : ∃ c, b = [c] ∧ c < 128
  · obtain ⟨c, rfl, low⟩ := small
    exact ⟨.Byte, by decide, by rw [Rlp.encode_byte c low]; exact Split_byte c low rest⟩
  · have notSmall : ∀ c, b = [c] → ¬ c < 128 := fun c single low => small ⟨c, single, low⟩
    refine ⟨.String, by decide, ?_⟩
    rw [Rlp.encode_string b notSmall]
    exact Split_string b rest fits notSmall

theorem SplitString_encode (b rest : List UInt8) (fits : b.length < 2 ^ 64) :
    SplitString (Rlp.encode (.bytes b) ++ rest) = .ok (b, rest) := by
  obtain ⟨k, notList, split⟩ := Split_bytes b rest fits
  simp [SplitString, split, notList]

theorem SplitList_encode (items : List Rlp.Item) (rest : List UInt8) (fits : (Rlp.encodeAll items).length < 2 ^ 64) :
    SplitList (Rlp.encode (.list items) ++ rest) = .ok (Rlp.encodeAll items, rest) := by
  rw [Rlp.encode_list, SplitList, Split_list _ rest fits]
  simp

mutual

theorem splitTree_encode : ∀ (x : Rlp.Item) (fuel : Nat) (rest : List UInt8),
    Rlp.Encodable x → (Rlp.encode x).length < fuel → splitTree fuel (Rlp.encode x ++ rest) = .ok (x, rest)
  | .bytes b, fuel, rest, fits, enough => by
    obtain ⟨f, rfl⟩ : ∃ f, fuel = f + 1 := ⟨fuel - 1, by omega⟩
    obtain ⟨k, notList, split⟩ := Split_bytes b rest fits
    simp [splitTree, split, notList]
  | .list items, fuel, rest, ⟨fits, itemsFit⟩, enough => by
    obtain ⟨f, rfl⟩ : ∃ f, fuel = f + 1 := ⟨fuel - 1, by omega⟩
    have payloadFuel : (Rlp.encodeAll items).length < f := by
      have := List.length_pos_of_ne_nil (Rlp.header_ne_nil 192 (Rlp.encodeAll items).length)
      simp only [Rlp.encode_list, List.length_append] at enough
      omega
    have loopFuel := (Rlp.length_le_encodeAll items).trans_lt payloadFuel
    rw [Rlp.encode_list]
    simp only [splitTree, Split_list _ rest fits, if_true,
      splitItems_encodeAll items f f itemsFit payloadFuel loopFuel]

theorem splitItems_encodeAll : ∀ (items : List Rlp.Item) (fuel loopFuel : Nat),
    Rlp.EncodableAll items → (Rlp.encodeAll items).length < fuel → items.length < loopFuel →
    splitItems (splitTree fuel) loopFuel (Rlp.encodeAll items) = .ok items
  | [], _, loopFuel, _, _, looping => by
    obtain ⟨l, rfl⟩ : ∃ l, loopFuel = l + 1 := ⟨loopFuel - 1, by simp at looping; omega⟩
    simp [splitItems]
  | item :: more, fuel, loopFuel, ⟨itemFits, moreFit⟩, enough, looping => by
    obtain ⟨l, rfl⟩ : ∃ l, loopFuel = l + 1 := ⟨loopFuel - 1, by simp at looping; omega⟩
    simp only [Rlp.encodeAll_cons, List.length_append] at enough
    have first := splitTree_encode item fuel (Rlp.encodeAll more) itemFits (by omega)
    have others := splitItems_encodeAll more fuel l moreFit (by omega) (by simpa using looping)
    simp only [splitItems, Rlp.encodeAll_cons, List.append_eq_nil_iff, Rlp.encode_ne_nil, false_and, if_false,
      first, others]

end

theorem readKind_of_Split (b content rest : List UInt8) (k : Kind) (split : Split b = .ok (k, content, rest)) :
    ∃ tagsize contentsize, readKind b = .ok (k, tagsize, contentsize) ∧ rest = b.drop (tagsize + contentsize) := by
  unfold Split at split
  cases read : readKind b with
  | error err =>
    rw [read] at split
    cases split
  | ok result =>
    obtain ⟨k', tagsize, contentsize⟩ := result
    rw [read] at split
    simp only [Except.ok.injEq, Prod.mk.injEq] at split
    obtain ⟨rfl, -, rfl⟩ := split
    exact ⟨tagsize, contentsize, rfl, rfl⟩

theorem Split_encode (x : Rlp.Item) (fits : Rlp.Encodable x) (rest : List UInt8) :
    ∃ k content, Split (Rlp.encode x ++ rest) = .ok (k, content, rest) := by
  cases x with
  | bytes b =>
    obtain ⟨k, -, split⟩ := Split_bytes b rest fits
    exact ⟨k, b, split⟩
  | list items =>
    refine ⟨.List, Rlp.encodeAll items, ?_⟩
    rw [Rlp.encode_list]
    exact Split_list _ rest fits.1

theorem countValuesLoop_encodeAll (items : List Rlp.Item) (fits : Rlp.EncodableAll items) :
    ∀ (fuel i : Nat), items.length < fuel → countValuesLoop fuel i (Rlp.encodeAll items) = .ok (i + items.length) := by
  induction items with
  | nil =>
    intro fuel i looping
    obtain ⟨l, rfl⟩ : ∃ l, fuel = l + 1 := ⟨fuel - 1, by simp at looping; omega⟩
    simp [countValuesLoop]
  | cons item more ih =>
    intro fuel i looping
    obtain ⟨l, rfl⟩ : ∃ l, fuel = l + 1 := ⟨fuel - 1, by simp at looping; omega⟩
    obtain ⟨k, content, split⟩ := Split_encode item fits.1 (Rlp.encodeAll more)
    obtain ⟨tagsize, contentsize, read, after⟩ := readKind_of_Split _ content _ k split
    have live := Rlp.encode_length_pos item
    have counted := ih fits.2 l (i + 1) (by simpa using looping)
    rw [Rlp.encodeAll_cons, countValuesLoop, if_pos (by simp; omega), read]
    dsimp only
    rw [← after, counted, List.length_cons, Nat.add_assoc, Nat.add_comm 1]

theorem CountValues_encodeAll (items : List Rlp.Item) (fits : Rlp.EncodableAll items) :
    CountValues (Rlp.encodeAll items) = .ok items.length := by
  rw [CountValues, countValuesLoop_encodeAll items fits _ 0 (by have := Rlp.length_le_encodeAll items; omega),
    Nat.zero_add]

/-! ## The encoding is canonical and invertible -/

/-- What `EncodeToBytes` writes, `DecodeBytes` and the recursive splitting
read back whole; what `DecodeBytes` accepts is what `EncodeToBytes` writes for
the result, so no other encoding of an item tree is accepted. -/
theorem rlp_canonical_roundtrip :
    (∀ x : Rlp.Item, Rlp.Encodable x →
      DecodeBytes (EncodeToBytes x) = .ok x ∧
        splitTree ((EncodeToBytes x).length + 1) (EncodeToBytes x) = .ok (x, [])) ∧
    (∀ (b : List UInt8) (y : Rlp.Item), DecodeBytes b = .ok y → EncodeToBytes y = b) := by
  constructor
  · intro x fits
    rw [EncodeToBytes_eq_encode x fits]
    refine ⟨DecodeBytes_encode x fits, ?_⟩
    simpa using splitTree_encode x _ [] fits (Nat.lt_succ_self _)
  · intro b y read
    obtain ⟨fits, encoded⟩ := encode_of_DecodeBytes b y read
    rw [EncodeToBytes_eq_encode y fits, encoded]

theorem rlp_canonical_roundtrip_nested :
    DecodeBytes (EncodeToBytes (.list [.bytes [1], .list [.bytes []]])) = .ok (.list [.bytes [1], .list [.bytes []]]) ∧
      EncodeToBytes (.list [.bytes [1], .list [.bytes []]]) = [0xC3, 0x01, 0xC1, 0x80] :=
  have fits : Rlp.Encodable (.list [.bytes [1], .list [.bytes []]]) := by
    simp [Rlp.Encodable, Rlp.EncodableAll, Rlp.encode, Rlp.header]
  have decoded := (rlp_canonical_roundtrip.1 _ fits).1
  ⟨decoded, (rlp_canonical_roundtrip.2 _ _ decoded).trans (by decide)⟩

end TurboGeth.Rlp.Raw
