import TurboGeth.Lib.Rlp

/-!
# The RLP decoding stream

`rlp/decode.go`, the `Stream` type and the methods the decoding of an item
tree calls: `Kind`, which reads and caches the header of the next value,
`Bytes`, `List` and `ListEnd`, and under them `readKind`, `readUint`,
`readFull`, `readByte` and `willRead`, which counts every byte read against
the innermost open list and the input limit.

A method with a pointer receiver that returns an error is a function in
`EStateM RlpError Stream`: the error comes with the stream as the method
left it.  The reader is the list of unread bytes, a `bytes.Reader` over the
input; the stack of open lists has the innermost first, where Go keeps it
last; `kind` is `none` where Go stores `-1`.  On a short read Go's reader
has taken what was there; here the bytes stay, which no caller can see,
since every caller returns the error.

The spec lemmas say everything a method can do: which headers `readKind`
accepts, what `Kind` caches, where the list positions and the input limit
stand afterwards.  The decoder is proved from them alone.
-/

set_option autoImplicit false

namespace TurboGeth.Rlp

inductive Kind
  | Byte
  | String
  | List
  deriving DecidableEq, Repr

/-- The errors of the stream methods, under Go's names. -/
inductive RlpError
  | EOL
  | ErrExpectedString
  | ErrExpectedList
  | ErrCanonSize
  | ErrElemTooLarge
  | ErrValueTooLarge
  | ErrMoreThanOneValue
  | errNotInList
  | errNotAtEOL
  | EOF
  | ErrUnexpectedEOF
  /-- the model's own: the decoder's recursion runs on fuel, and
  `DecodeBytes` gives it more than the input has bytes -/
  | outOfFuel
  deriving DecidableEq, Repr

structure ListPos where
  pos : Nat
  size : Nat
  deriving DecidableEq, Repr

structure Stream where
  r : List UInt8
  remaining : Nat
  limited : Bool
  kind : Option Kind
  size : Nat
  byteval : UInt8
  kinderr : Option RlpError
  stack : List ListPos

abbrev StreamM := EStateM RlpError Stream

/-- `s.stack[len(s.stack)-1].pos += n`, where there is an open list. -/
def bumpTop : List ListPos → Nat → List ListPos
  | [], _ => []
  | tos :: outer, n => { tos with pos := tos.pos + n } :: outer

def Stream.willRead (n : Nat) : StreamM Unit := fun s =>
  -- rearm Kind
  let s := { s with kind := none }
  -- check list overflow
  let overflow := match s.stack with
    | tos :: _ => decide (n > tos.size - tos.pos)
    | [] => false
  if overflow then .error .ErrElemTooLarge s
  else
    let s := { s with stack := bumpTop s.stack n }
    if s.limited then
      if n > s.remaining then .error .ErrValueTooLarge s
      else .ok () { s with remaining := s.remaining - n }
    else .ok () s

def Stream.readByte : StreamM UInt8 := fun s =>
  match Stream.willRead 1 s with
  | .error err s => .error err s
  | .ok () s =>
    match s.r with
    | b :: rest => .ok b { s with r := rest }
    | [] => .error .ErrUnexpectedEOF s

/-- `readFull` into a buffer of `n` bytes. -/
def Stream.readFull (n : Nat) : StreamM (List UInt8) := fun s =>
  match Stream.willRead n s with
  | .error err s => .error err s
  | .ok () s =>
    if n ≤ s.r.length then .ok (s.r.take n) { s with r := s.r.drop n }
    else .error .ErrUnexpectedEOF s

/-- `readUint`: the `size` bytes of a length, big-endian, no leading zero
among two or more. -/
def Stream.readUint (size : UInt8) : StreamM Nat := fun s =>
  if size = 0 then .ok 0 { s with kind := none }
  else if size = 1 then
    match Stream.readByte s with
    | .ok b s => .ok b.toNat s
    | .error err s => .error err s
  else
    match Stream.readFull size.toNat s with
    | .ok buf s => if buf.headD 0 = 0 then .error .ErrCanonSize s else .ok (Rlp.bigEndian buf) s
    | .error err s => .error err s

/-- The long forms of `readKind`: a length of `sizesize` bytes after the
tag, which must be at least 56. -/
def Stream.readLongSize (kind : Kind) (sizesize : UInt8) : StreamM (Kind × Nat × Option RlpError) := fun s =>
  match Stream.readUint sizesize s with
  | .ok size s => .ok (kind, size, if size < 56 then some .ErrCanonSize else none) s
  | .error err s => .ok (kind, 0, some err) s

/-- `readKind` returns Go's triple, an error included, since `Kind` caches
all three. -/
def Stream.readKind : StreamM (Kind × Nat × Option RlpError) := fun s =>
  match Stream.readByte s with
  | .error err s =>
    -- at toplevel, adjust the error to actual EOF
    let err := if s.stack = [] ∧ (err = .ErrUnexpectedEOF ∨ err = .ErrValueTooLarge) then .EOF else err
    .ok (.Byte, 0, some err) s
  | .ok b s =>
    let s := { s with byteval := 0 }
    if b < 0x80 then .ok (.Byte, 0, none) { s with byteval := b }
    else if b < 0xB8 then .ok (.String, (b - 0x80).toNat, none) s
    else if b < 0xC0 then Stream.readLongSize .String (b - 0xB7) s
    else if b < 0xF8 then .ok (.List, (b - 0xC0).toNat, none) s
    else Stream.readLongSize .List (b - 0xF7) s

/-- The size checks of `Kind` after `readKind`: at toplevel against the
input left, inside a list against the room left in it. -/
def Stream.sizeErr (s : Stream) (size : Nat) : Option RlpError :=
  match s.stack with
  | [] => if s.limited ∧ size > s.remaining then some .ErrValueTooLarge else none
  | tos :: _ => if size > tos.size - tos.pos then some .ErrElemTooLarge else none

/-- `Kind`: the kind and size of the next value, read once and cached. -/
def Stream.Kind : StreamM (Kind × Nat) := fun s =>
  match s.kind with
  | some kind =>
    match s.kinderr with
    | none => .ok (kind, s.size) s
    | some err => .error err s
  | none =>
    let s := { s with kinderr := none }
    -- don't read further if we're at the end of the innermost list
    let atEnd := match s.stack with
      | tos :: _ => decide (tos.pos = tos.size)
      | [] => false
    if atEnd then .error .EOL s
    else
      match Stream.readKind s with
      | .ok (kind, size, kinderr) s =>
        let kinderr := if kinderr = none then s.sizeErr size else kinderr
        let s := { s with kind := some kind, size := size, kinderr := kinderr }
        match kinderr with
        | none => .ok (kind, size) s
        | some err => .error err s
      | .error err s => .error err s

def Stream.Bytes : StreamM (List UInt8) := fun s =>
  match Stream.Kind s with
  | .error err s => .error err s
  | .ok (.Byte, _) s => .ok [s.byteval] { s with kind := none }
  | .ok (.String, size) s =>
    match Stream.readFull size s with
    | .error err s => .error err s
    | .ok b s => if size = 1 ∧ b.headD 0 < 128 then .error .ErrCanonSize s else .ok b s
  | .ok (.List, _) s => .error .ErrExpectedString s

def Stream.List : StreamM Nat := fun s =>
  match Stream.Kind s with
  | .error err s => .error err s
  | .ok (kind, size) s =>
    if kind ≠ .List then .error .ErrExpectedList s
    else .ok size { s with stack := ⟨0, size⟩ :: s.stack, kind := none, size := 0 }

/-- `ListEnd`: the innermost list is read to its end; pop it and count its
size in the list around it. -/
def Stream.ListEnd : StreamM Unit := fun s =>
  match s.stack with
  | [] => .error .errNotInList s
  | tos :: outer =>
    if tos.pos ≠ tos.size then .error .errNotAtEOL s
    else .ok () { s with stack := bumpTop outer tos.size, kind := none, size := 0 }

/-! ## The stream's counters -/

@[simp] theorem bumpTop_nil (n : Nat) : bumpTop [] n = [] := rfl

@[simp] theorem bumpTop_cons (tos : ListPos) (outer : List ListPos) (n : Nat) :
    bumpTop (tos :: outer) n = { tos with pos := tos.pos + n } :: outer := rfl

@[simp] theorem bumpTop_bumpTop (stack : List ListPos) (a b : Nat) :
    bumpTop (bumpTop stack a) b = bumpTop stack (a + b) := by
  cases stack <;> simp [Nat.add_assoc]

@[simp] theorem bumpTop_zero (stack : List ListPos) : bumpTop stack 0 = stack := by
  cases stack <;> simp

/-- The input limit after `n` more bytes. -/
def Stream.spend (s : Stream) (n : Nat) : Nat := if s.limited then s.remaining - n else s.remaining

/-- Room for `n` more bytes, in the innermost open list and in the input
limit. -/
def Stream.HasRoom (s : Stream) (n : Nat) : Prop :=
  (∀ tos ∈ s.stack.head?, n ≤ tos.size - tos.pos) ∧ (s.limited → n ≤ s.remaining)

/-- The stream after `willRead n` let `n` bytes through. -/
def Stream.counted (s : Stream) (n : Nat) : Stream :=
  { s with kind := none, stack := bumpTop s.stack n, remaining := s.spend n }

@[simp] theorem counted_r (s : Stream) (n : Nat) : (s.counted n).r = s.r := rfl
@[simp] theorem counted_stack (s : Stream) (n : Nat) : (s.counted n).stack = bumpTop s.stack n := rfl
@[simp] theorem counted_remaining (s : Stream) (n : Nat) : (s.counted n).remaining = s.spend n := rfl
@[simp] theorem counted_limited (s : Stream) (n : Nat) : (s.counted n).limited = s.limited := rfl
@[simp] theorem counted_kind (s : Stream) (n : Nat) : (s.counted n).kind = none := rfl
@[simp] theorem counted_size (s : Stream) (n : Nat) : (s.counted n).size = s.size := rfl
@[simp] theorem counted_byteval (s : Stream) (n : Nat) : (s.counted n).byteval = s.byteval := rfl
@[simp] theorem counted_kinderr (s : Stream) (n : Nat) : (s.counted n).kinderr = s.kinderr := rfl

theorem spend_spend (s : Stream) (a b : Nat) : (s.counted a).spend b = s.spend (a + b) := by
  simp only [Stream.spend, Stream.counted]
  by_cases limited : s.limited <;> simp [limited, Nat.sub_sub]

theorem counted_counted (s : Stream) (a b : Nat) : (s.counted a).counted b = s.counted (a + b) := by
  simp only [Stream.counted, bumpTop_bumpTop, ← spend_spend]

theorem hasRoom_add (s : Stream) (a b : Nat) : s.HasRoom (a + b) ↔ s.HasRoom a ∧ (s.counted a).HasRoom b := by
  simp only [Stream.HasRoom, counted_stack, counted_limited, counted_remaining, Stream.spend]
  cases stack : s.stack with
  | nil =>
    cases s.limited <;> simp
    omega
  | cons tos outer => cases s.limited <;> simp <;> omega

/-! ## Reading bytes -/

theorem willRead_eq_ok (n : Nat) (s s' : Stream) (u : Unit) :
    Stream.willRead n s = .ok u s' ↔ s.HasRoom n ∧ s' = s.counted n := by
  unfold Stream.willRead Stream.HasRoom Stream.counted Stream.spend
  cases stack : s.stack with
  | nil =>
    cases limited : s.limited
    · simp [eq_comm]
    · by_cases beyond : n > s.remaining
      · simp [beyond]
      · simp [beyond, eq_comm]
        omega
  | cons tos outer =>
    by_cases overflow : n > tos.size - tos.pos
    · simp [overflow]
    cases limited : s.limited
    · simp [overflow, eq_comm]
      omega
    · by_cases beyond : n > s.remaining
      · simp [beyond, overflow]
      · simp [beyond, overflow, eq_comm]
        omega

theorem readByte_eq_ok (s s' : Stream) (b : UInt8) :
    Stream.readByte s = .ok b s' ↔ s.HasRoom 1 ∧ ∃ rest, s.r = b :: rest ∧ s' = { s.counted 1 with r := rest } := by
  unfold Stream.readByte
  cases first : Stream.willRead 1 s with
  | error err s₁ =>
    simp only [reduceCtorEq, false_iff, not_and]
    intro room
    have passes := (willRead_eq_ok 1 s (s.counted 1) ()).mpr ⟨room, rfl⟩
    rw [first] at passes
    cases passes
  | ok u s₁ =>
    obtain ⟨room, rfl⟩ := (willRead_eq_ok 1 s s₁ u).mp first
    cases input : s.r with
    | nil => simp [input]
    | cons c rest => simp [input, room, eq_comm]

theorem readFull_eq_ok (n : Nat) (s s' : Stream) (bytes : List UInt8) :
    Stream.readFull n s = .ok bytes s' ↔
      s.HasRoom n ∧ bytes.length = n ∧ ∃ rest, s.r = bytes ++ rest ∧ s' = { s.counted n with r := rest } := by
  unfold Stream.readFull
  cases first : Stream.willRead n s with
  | error err s₁ =>
    simp only [reduceCtorEq, false_iff, not_and]
    intro room
    have passes := (willRead_eq_ok n s (s.counted n) ()).mpr ⟨room, rfl⟩
    rw [first] at passes
    cases passes
  | ok u s₁ =>
    obtain ⟨room, rfl⟩ := (willRead_eq_ok n s s₁ u).mp first
    dsimp only
    split
    · rename_i enough
      rw [counted_r] at enough
      constructor
      · intro read
        cases read
        exact ⟨room, by simp [enough], s.r.drop n, (List.take_append_drop n s.r).symm, rfl⟩
      · rintro ⟨-, length, rest, input, rfl⟩
        simp only [counted_r, input, ← length, List.take_left, List.drop_left]
    · rename_i short
      simp only [reduceCtorEq, false_iff, not_and, not_exists]
      intro _ length rest input
      simp [input, length] at short

/-! ## Reading a header -/

/-- A length read in the long form is at least 56, so its first byte is not
zero even where `readUint` does not look: it is the length's bytes with no
leading zero. -/
theorem readUint_inv (size : UInt8) (live : size ≠ 0) (s s' : Stream) (v : Nat) (big : 56 ≤ v)
    (read : Stream.readUint size s = .ok v s') :
    s.HasRoom size.toNat ∧ (Rlp.natBytes v).length = size.toNat ∧
      ∃ rest, s.r = Rlp.natBytes v ++ rest ∧ s' = { s.counted size.toNat with r := rest } := by
  unfold Stream.readUint at read
  rw [if_neg live] at read
  split_ifs at read with one
  · cases first : Stream.readByte s with
    | error err s₁ =>
      rw [first] at read
      cases read
    | ok b s₁ =>
      rw [first] at read
      cases read
      obtain ⟨room, rest, input, rfl⟩ := (readByte_eq_ok s _ b).mp first
      have canonical : Rlp.natBytes b.toNat = [b] := by
        have leading : b ≠ 0 := by
          intro zero
          simp [zero] at big
        simpa [Rlp.bigEndian] using Rlp.natBytes_bigEndian [b] (by simpa using leading)
      subst one
      exact ⟨room, by simp [canonical], rest, by simp [canonical, input], rfl⟩
  · cases first : Stream.readFull size.toNat s with
    | error err s₁ =>
      rw [first] at read
      cases read
    | ok buf s₁ =>
      rw [first] at read
      dsimp only at read
      split_ifs at read with zero
      cases read
      obtain ⟨room, length, rest, input, rfl⟩ := (readFull_eq_ok _ s _ buf).mp first
      have canonical : Rlp.natBytes (Rlp.bigEndian buf) = buf := by
        apply Rlp.natBytes_bigEndian
        cases buf with
        | nil => simp
        | cons top more => simpa using zero
      exact ⟨room, by rw [canonical, length], rest, by rw [canonical, input], rfl⟩

theorem readUint_natBytes (v : Nat) (live : 0 < v) (s : Stream) (rest : List UInt8)
    (input : s.r = Rlp.natBytes v ++ rest) (room : s.HasRoom (Rlp.natBytes v).length)
    (short : (Rlp.natBytes v).length < 256) :
    Stream.readUint (UInt8.ofNat (Rlp.natBytes v).length) s =
      .ok v { s.counted (Rlp.natBytes v).length with r := rest } := by
  have sizeIs : (UInt8.ofNat (Rlp.natBytes v).length).toNat = (Rlp.natBytes v).length := by
    rw [UInt8.toNat_ofNat']
    exact Nat.mod_eq_of_lt short
  have nonempty := Rlp.natBytes_ne_nil v live
  have notZero : UInt8.ofNat (Rlp.natBytes v).length ≠ 0 := by
    intro zero
    rw [zero, UInt8.toNat_zero] at sizeIs
    exact nonempty (List.eq_nil_of_length_eq_zero sizeIs.symm)
  unfold Stream.readUint
  rw [if_neg notZero]
  split_ifs with one
  · -- a one-byte length: `readByte`
    rw [one, UInt8.toNat_one] at sizeIs
    obtain ⟨b, single⟩ := List.length_eq_one_iff.mp sizeIs.symm
    rw [single] at input room
    have first := (readByte_eq_ok s _ b).mpr ⟨room, rest, input, rfl⟩
    have value : b.toNat = v := by simpa [single, Rlp.bigEndian] using Rlp.bigEndian_natBytes v
    simp [first, value, single]
  · rw [sizeIs] at ⊢
    have first := (readFull_eq_ok _ s _ (Rlp.natBytes v)).mpr ⟨room, rfl, rest, input, rfl⟩
    have leading : (Rlp.natBytes v).headD 0 ≠ 0 := by
      have := Rlp.natBytes_head v
      cases bytes : Rlp.natBytes v with
      | nil => exact absurd bytes nonempty
      | cons top more => simpa [bytes] using this
    simp only [first]
    simpa using leading

theorem readLongSize_natBytes (kind : Kind) (size : Nat) (big : 56 ≤ size) (fits : size < 2 ^ 64)
    (s : Stream) (rest : List UInt8) (input : s.r = Rlp.natBytes size ++ rest)
    (room : s.HasRoom (Rlp.natBytes size).length) :
    Stream.readLongSize kind (UInt8.ofNat (Rlp.natBytes size).length) s =
      .ok (kind, size, none) { s.counted (Rlp.natBytes size).length with r := rest } := by
  have short : (Rlp.natBytes size).length < 256 := by
    have := Rlp.natBytes_length_le size 8 (by simpa using fits)
    omega
  unfold Stream.readLongSize
  rw [readUint_natBytes size (by omega) s rest input room short]
  simp [Nat.not_lt.mpr big]

theorem readLongSize_inv (kind kind' : Kind) (sizesize : UInt8) (live : sizesize ≠ 0) (s s' : Stream) (size : Nat)
    (read : Stream.readLongSize kind sizesize s = .ok (kind', size, none) s') :
    kind' = kind ∧ 56 ≤ size ∧ s.HasRoom sizesize.toNat ∧ (Rlp.natBytes size).length = sizesize.toNat ∧
      ∃ rest, s.r = Rlp.natBytes size ++ rest ∧ s' = { s.counted sizesize.toNat with r := rest } := by
  unfold Stream.readLongSize at read
  cases first : Stream.readUint sizesize s with
  | error err s₁ =>
    rw [first] at read
    simp at read
  | ok v s₁ =>
    rw [first] at read
    by_cases small : v < 56
    · simp [small] at read
    · simp only [small, if_false, EStateM.Result.ok.injEq, Prod.mk.injEq, and_true] at read
      obtain ⟨⟨rfl, rfl⟩, rfl⟩ := read
      have big : 56 ≤ v := Nat.not_lt.mp small
      exact ⟨rfl, big, readUint_inv sizesize live s s₁ v big first⟩

theorem readKind_of_tag (s s₁ : Stream) (b : UInt8) (first : Stream.readByte s = .ok b s₁) :
    Stream.readKind s =
      if b.toNat < 128 then .ok (.Byte, 0, none) { s₁ with byteval := b }
      else if b.toNat < 184 then .ok (.String, b.toNat - 128, none) { s₁ with byteval := 0 }
      else if b.toNat < 192 then Stream.readLongSize .String (UInt8.ofNat (b.toNat - 183)) { s₁ with byteval := 0 }
      else if b.toNat < 248 then .ok (.List, b.toNat - 192, none) { s₁ with byteval := 0 }
      else Stream.readLongSize .List (UInt8.ofNat (b.toNat - 247)) { s₁ with byteval := 0 } := by
  have below := b.toNat_lt
  have minus : ∀ c : UInt8, c.toNat ≤ b.toNat → b - c = UInt8.ofNat (b.toNat - c.toNat) := by
    intro c le
    rw [← UInt8.toNat_inj, UInt8.toNat_sub_of_le _ _ (UInt8.le_iff_toNat_le.mpr le), UInt8.toNat_ofNat',
      Nat.mod_eq_of_lt (by omega)]
  unfold Stream.readKind
  rw [first]
  simp only [UInt8.lt_iff_toNat_lt, UInt8.reduceToNat]
  split_ifs with byte short long shortList
  · rfl
  · rw [minus 0x80 (by simp; omega), UInt8.toNat_ofNat', Nat.mod_eq_of_lt (by simp; omega)]
    rfl
  · rw [minus 0xB7 (by simp; omega)]
    rfl
  · rw [minus 0xC0 (by simp; omega), UInt8.toNat_ofNat', Nat.mod_eq_of_lt (by simp; omega)]
    rfl
  · rw [minus 0xF7 (by simp; omega)]
    rfl

/-- The header `readKind` takes for a value of `kind` and `size`, its tag
`byteval` kept for a single byte: a byte below `0x80` is its own header, any
other header is the canonical one of the library. -/
def Header : Kind → Nat → UInt8 → List UInt8 → Prop
  | .Byte, size, byteval, hdr => hdr = [byteval] ∧ byteval < 0x80 ∧ size = 0
  | .String, size, byteval, hdr => hdr = Rlp.header 128 size ∧ size < 2 ^ 64 ∧ byteval = 0
  | .List, size, byteval, hdr => hdr = Rlp.header 192 size ∧ size < 2 ^ 64 ∧ byteval = 0

theorem counted_after_tag (s : Stream) (rest : List UInt8) (byteval : UInt8) (n : Nat) :
    ({ { s.counted 1 with r := rest } with byteval := byteval }).counted n =
      { s.counted (n + 1) with r := rest, byteval := byteval } := by
  rw [Nat.add_comm, ← counted_counted]
  rfl

theorem tag_toNat (n : Nat) (small : n < 256) : (UInt8.ofNat n).toNat = n := by
  rw [UInt8.toNat_ofNat']
  exact Nat.mod_eq_of_lt small

theorem readKind_header (s : Stream) (kind : Kind) (size : Nat) (byteval : UInt8) (hdr rest : List UInt8)
    (valid : Header kind size byteval hdr) (input : s.r = hdr ++ rest) (room : s.HasRoom hdr.length) :
    Stream.readKind s = .ok (kind, size, none) { s.counted hdr.length with r := rest, byteval := byteval } := by
  cases kind with
  | Byte =>
    obtain ⟨rfl, low, rfl⟩ := valid
    have first := (readByte_eq_ok s _ byteval).mpr ⟨room, rest, input, rfl⟩
    have value : byteval.toNat < 128 := by simpa [UInt8.lt_iff_toNat_lt] using low
    rw [readKind_of_tag s _ byteval first, if_pos value]
    rfl
  | String =>
    obtain ⟨rfl, fits, rfl⟩ := valid
    by_cases short : size < 56
    · rw [Rlp.header_short 128 size short] at input room ⊢
      have first := (readByte_eq_ok s _ _).mpr ⟨room, rest, input, rfl⟩
      rw [readKind_of_tag s _ _ first, tag_toNat _ (by omega), if_neg (by omega), if_pos (by omega),
        Nat.add_sub_cancel_left]
      rfl
    · have big := Nat.not_lt.mp short
      obtain ⟨one, eight⟩ := Rlp.natBytes_length_range size (by omega) fits
      rw [Rlp.header_long 128 size big] at input room ⊢
      rw [List.length_cons, Nat.add_comm, hasRoom_add] at room
      have first := (readByte_eq_ok s _ _).mpr ⟨room.1, Rlp.natBytes size ++ rest, input, rfl⟩
      rw [readKind_of_tag s _ _ first, tag_toNat _ (by omega), if_neg (by omega), if_neg (by omega),
        if_pos (by omega), show 128 + 55 + (Rlp.natBytes size).length - 183 = (Rlp.natBytes size).length by omega,
        readLongSize_natBytes .String size big fits _ rest ?_ ?_, counted_after_tag]
      · rfl
      · rfl
      · exact room.2
  | List =>
    obtain ⟨rfl, fits, rfl⟩ := valid
    by_cases short : size < 56
    · rw [Rlp.header_short 192 size short] at input room ⊢
      have first := (readByte_eq_ok s _ _).mpr ⟨room, rest, input, rfl⟩
      rw [readKind_of_tag s _ _ first, tag_toNat _ (by omega), if_neg (by omega), if_neg (by omega),
        if_neg (by omega), if_pos (by omega), Nat.add_sub_cancel_left]
      rfl
    · have big := Nat.not_lt.mp short
      obtain ⟨one, eight⟩ := Rlp.natBytes_length_range size (by omega) fits
      rw [Rlp.header_long 192 size big] at input room ⊢
      rw [List.length_cons, Nat.add_comm, hasRoom_add] at room
      have first := (readByte_eq_ok s _ _).mpr ⟨room.1, Rlp.natBytes size ++ rest, input, rfl⟩
      rw [readKind_of_tag s _ _ first, tag_toNat _ (by omega), if_neg (by omega), if_neg (by omega),
        if_neg (by omega), if_neg (by omega),
        show 192 + 55 + (Rlp.natBytes size).length - 247 = (Rlp.natBytes size).length by omega,
        readLongSize_natBytes .List size big fits _ rest ?_ ?_, counted_after_tag]
      · rfl
      · rfl
      · exact room.2

theorem short_header (offset : Nat) (b : UInt8) (above : offset ≤ b.toNat) (short : b.toNat - offset < 56) :
    [b] = Rlp.header offset (b.toNat - offset) := by
  rw [Rlp.header_short offset _ short, Nat.add_sub_cancel' above, UInt8.ofNat_toNat]

theorem long_header (offset : Nat) (b : UInt8) (size : Nat) (big : 56 ≤ size)
    (counts : (Rlp.natBytes size).length = (UInt8.ofNat (b.toNat - (offset + 55))).toNat)
    (above : offset + 55 < b.toNat) :
    b :: Rlp.natBytes size = Rlp.header offset size := by
  have below := b.toNat_lt
  rw [Rlp.header_long offset size big, counts, tag_toNat _ (by omega), Nat.add_sub_cancel' (by omega),
    UInt8.ofNat_toNat]

theorem readKind_inv (s s' : Stream) (kind : Kind) (size : Nat)
    (read : Stream.readKind s = .ok (kind, size, none) s') :
    ∃ hdr rest byteval, Header kind size byteval hdr ∧ s.r = hdr ++ rest ∧ s.HasRoom hdr.length ∧
      s' = { s.counted hdr.length with r := rest, byteval := byteval } := by
  cases first : Stream.readByte s with
  | error err s₁ =>
    unfold Stream.readKind at read
    rw [first] at read
    simp at read
  | ok b s₁ =>
    obtain ⟨room₁, rest₁, input₁, rfl⟩ := (readByte_eq_ok s _ b).mp first
    have below := b.toNat_lt
    have notZero : ∀ c : Nat, c < b.toNat → b.toNat - c < 9 → UInt8.ofNat (b.toNat - c) ≠ 0 := by
      intro c lower upper zero
      have := congrArg UInt8.toNat zero
      rw [tag_toNat _ (by omega)] at this
      simp at this
      omega
    rw [readKind_of_tag s _ b first] at read
    split_ifs at read with byte short long shortList
    · -- a byte below `0x80` stands for itself
      cases read
      exact ⟨[b], rest₁, b, ⟨rfl, by simpa [UInt8.lt_iff_toNat_lt] using byte, rfl⟩, input₁, room₁, rfl⟩
    · simp only [EStateM.Result.ok.injEq, Prod.mk.injEq, and_true] at read
      obtain ⟨⟨rfl, rfl⟩, rfl⟩ := read
      exact ⟨[b], rest₁, 0, ⟨short_header 128 b (by omega) (by omega), by omega, rfl⟩, input₁, room₁, rfl⟩
    · have live := notZero 183 (by omega) (by omega)
      obtain ⟨same, big, room₂, counts, rest, input₂, state⟩ := readLongSize_inv .String kind _ live _ s' size read
      subst same
      have lengthBytes : rest₁ = Rlp.natBytes size ++ rest := input₂
      refine ⟨b :: Rlp.natBytes size, rest, 0, ⟨long_header 128 b size big counts (by omega), ?_, rfl⟩, ?_, ?_, ?_⟩
      · rw [← Rlp.bigEndian_natBytes size]
        exact Rlp.bigEndian_lt_of_length _ (by rw [counts, tag_toNat _ (by omega)]; omega)
      · rw [input₁, lengthBytes]
        rfl
      · rw [List.length_cons, Nat.add_comm, hasRoom_add, counts]
        exact ⟨room₁, room₂⟩
      · rw [state, List.length_cons, counts, counted_after_tag]
    · simp only [EStateM.Result.ok.injEq, Prod.mk.injEq, and_true] at read
      obtain ⟨⟨rfl, rfl⟩, rfl⟩ := read
      exact ⟨[b], rest₁, 0, ⟨short_header 192 b (by omega) (by omega), by omega, rfl⟩, input₁, room₁, rfl⟩
    · have live := notZero 247 (by omega) (by omega)
      obtain ⟨same, big, room₂, counts, rest, input₂, state⟩ := readLongSize_inv .List kind _ live _ s' size read
      subst same
      have lengthBytes : rest₁ = Rlp.natBytes size ++ rest := input₂
      refine ⟨b :: Rlp.natBytes size, rest, 0, ⟨long_header 192 b size big counts (by omega), ?_, rfl⟩, ?_, ?_, ?_⟩
      · rw [← Rlp.bigEndian_natBytes size]
        exact Rlp.bigEndian_lt_of_length _ (by rw [counts, tag_toNat _ (by omega)]; omega)
      · rw [input₁, lengthBytes]
        rfl
      · rw [List.length_cons, Nat.add_comm, hasRoom_add, counts]
        exact ⟨room₁, room₂⟩
      · rw [state, List.length_cons, counts, counted_after_tag]

/-! ## Errors that are not the end of a list -/

theorem willRead_error (n : Nat) (s s' : Stream) (err : RlpError) (read : Stream.willRead n s = .error err s') :
    err ≠ .EOL := by
  unfold Stream.willRead at read
  dsimp only at read
  split_ifs at read <;> cases read <;> simp

theorem readByte_error (s s' : Stream) (err : RlpError) (read : Stream.readByte s = .error err s') :
    err ≠ .EOL := by
  unfold Stream.readByte at read
  cases first : Stream.willRead 1 s with
  | error err₁ s₁ =>
    rw [first] at read
    cases read
    exact willRead_error 1 s _ err first
  | ok u s₁ =>
    rw [first] at read
    dsimp only at read
    split at read <;> cases read
    simp

theorem readFull_error (n : Nat) (s s' : Stream) (err : RlpError) (read : Stream.readFull n s = .error err s') :
    err ≠ .EOL := by
  unfold Stream.readFull at read
  cases first : Stream.willRead n s with
  | error err₁ s₁ =>
    rw [first] at read
    cases read
    exact willRead_error n s _ err first
  | ok u s₁ =>
    rw [first] at read
    dsimp only at read
    split at read <;> cases read
    simp

theorem readUint_error (size : UInt8) (s s' : Stream) (err : RlpError) (read : Stream.readUint size s = .error err s') :
    err ≠ .EOL := by
  unfold Stream.readUint at read
  split_ifs at read
  · cases first : Stream.readByte s with
    | error err₁ s₁ =>
      rw [first] at read
      cases read
      exact readByte_error s _ err first
    | ok b s₁ =>
      rw [first] at read
      cases read
  · cases first : Stream.readFull size.toNat s with
    | error err₁ s₁ =>
      rw [first] at read
      cases read
      exact readFull_error _ s _ err first
    | ok buf s₁ =>
      rw [first] at read
      dsimp only at read
      split_ifs at read
      cases read
      simp

theorem readKind_error (s s' : Stream) (kind : Kind) (size : Nat) (err : RlpError)
    (read : Stream.readKind s = .ok (kind, size, some err) s') : err ≠ .EOL := by
  have longSize : ∀ kind' sizesize s₁, Stream.readLongSize kind' sizesize s₁ = .ok (kind, size, some err) s' →
      err ≠ .EOL := by
    intro kind' sizesize s₁ long
    unfold Stream.readLongSize at long
    cases first : Stream.readUint sizesize s₁ with
    | error err₁ s₂ =>
      rw [first] at long
      simp only [EStateM.Result.ok.injEq, Prod.mk.injEq, Option.some.injEq] at long
      obtain ⟨⟨-, -, rfl⟩, -⟩ := long
      exact readUint_error sizesize s₁ s₂ err₁ first
    | ok v s₂ =>
      rw [first] at long
      dsimp only at long
      split_ifs at long
      · simp only [EStateM.Result.ok.injEq, Prod.mk.injEq, Option.some.injEq] at long
        obtain ⟨⟨-, -, rfl⟩, -⟩ := long
        simp
      · simp at long
  cases first : Stream.readByte s with
  | error err₁ s₁ =>
    unfold Stream.readKind at read
    rw [first] at read
    simp only [EStateM.Result.ok.injEq, Prod.mk.injEq, Option.some.injEq] at read
    obtain ⟨⟨-, -, rfl⟩, -⟩ := read
    split_ifs
    · simp
    · exact readByte_error s s₁ err₁ first
  | ok b s₁ =>
    rw [readKind_of_tag s s₁ b first] at read
    split_ifs at read
    · simp at read
    · simp at read
    · exact longSize _ _ _ read
    · simp at read
    · exact longSize _ _ _ read

/-! ## `Kind` -/

theorem Kind_cached (s : Stream) (kind : Kind) (cached : s.kind = some kind) (clean : s.kinderr = none) :
    Stream.Kind s = .ok (kind, s.size) s := by
  unfold Stream.Kind
  simp [cached, clean]

theorem Kind_at_end (s : Stream) (fresh : s.kind = none) (tos : ListPos) (outer : List ListPos)
    (stack : s.stack = tos :: outer) (atEnd : tos.pos = tos.size) :
    Stream.Kind s = .error .EOL { s with kinderr := none } := by
  unfold Stream.Kind
  simp [fresh, stack, atEnd]

theorem readLongSize_ne_error (kind : Kind) (sizesize : UInt8) (s s' : Stream) (err : RlpError) :
    Stream.readLongSize kind sizesize s ≠ .error err s' := by
  unfold Stream.readLongSize
  cases Stream.readUint sizesize s <;> simp

theorem readKind_ne_error (s s' : Stream) (err : RlpError) : Stream.readKind s ≠ .error err s' := by
  cases first : Stream.readByte s with
  | error err₁ s₁ =>
    unfold Stream.readKind
    rw [first]
    simp
  | ok b s₁ =>
    rw [readKind_of_tag s s₁ b first]
    split_ifs <;> simp [readLongSize_ne_error]

theorem sizeErr_ne_EOL (s : Stream) (size : Nat) : s.sizeErr size ≠ some .EOL := by
  unfold Stream.sizeErr
  split <;> split_ifs <;> simp

theorem Kind_eq_EOL (s s' : Stream) (fresh : s.kind = none) (read : Stream.Kind s = .error .EOL s') :
    s' = { s with kinderr := none } ∧ ∃ tos outer, s.stack = tos :: outer ∧ tos.pos = tos.size := by
  cases s with
  | mk r remaining limited kind size byteval kinderr stack =>
  subst fresh
  unfold Stream.Kind at read
  dsimp only at read
  split_ifs at read with atEnd
  · cases read
    refine ⟨rfl, ?_⟩
    cases stack with
    | nil => simp at atEnd
    | cons tos outer =>
      simp only [decide_eq_true_eq] at atEnd
      exact ⟨tos, outer, rfl, atEnd⟩
  · exfalso
    cases second : Stream.readKind ⟨r, remaining, limited, none, size, byteval, none, stack⟩ with
    | error err s₁ => exact readKind_ne_error _ s₁ err second
    | ok triple s₁ =>
      obtain ⟨kind, size, kinderr⟩ := triple
      rw [second] at read
      dsimp only at read
      cases kinderr with
      | none =>
        have := sizeErr_ne_EOL s₁ size
        cases checked : s₁.sizeErr size with
        | none => simp [checked] at read
        | some err =>
          simp only [checked, if_true, EStateM.Result.error.injEq] at read
          exact this (by rw [checked, read.1])
      | some err =>
        simp only [reduceCtorEq, if_false, EStateM.Result.error.injEq] at read
        exact readKind_error _ s₁ kind size err second read.1

theorem Header.length_pos (kind : Kind) (size : Nat) (byteval : UInt8) (hdr : List UInt8)
    (valid : Header kind size byteval hdr) : 0 < hdr.length := by
  cases kind with
  | Byte =>
    obtain ⟨rfl, -⟩ := valid
    simp
  | String =>
    obtain ⟨rfl, -⟩ := valid
    exact List.length_pos_of_ne_nil (Rlp.header_ne_nil _ _)
  | List =>
    obtain ⟨rfl, -⟩ := valid
    exact List.length_pos_of_ne_nil (Rlp.header_ne_nil _ _)

theorem sizeErr_of_room (s : Stream) (n size : Nat) (room : s.HasRoom (n + size)) :
    (s.counted n).sizeErr size = none := by
  unfold Stream.sizeErr Stream.HasRoom at *
  cases stack : s.stack with
  | nil =>
    simp only [stack, List.head?_nil, Option.mem_def, reduceCtorEq, false_imp_iff, implies_true, true_and] at room
    simp only [counted_stack, stack, bumpTop_nil, counted_limited, counted_remaining, Stream.spend]
    split_ifs <;> simp_all
    omega
  | cons tos outer =>
    simp only [stack, List.head?_cons, Option.mem_def, Option.some.injEq, forall_eq'] at room
    simp only [counted_stack, stack, bumpTop_cons, ite_eq_right_iff, reduceCtorEq, imp_false, not_lt]
    omega

theorem Kind_header (s : Stream) (fresh : s.kind = none) (kind : Kind) (size : Nat) (byteval : UInt8)
    (hdr rest : List UInt8) (valid : Header kind size byteval hdr) (input : s.r = hdr ++ rest)
    (room : s.HasRoom (hdr.length + size)) :
    Stream.Kind s = .ok (kind, size)
      { s.counted hdr.length with r := rest, byteval := byteval, kind := some kind, size := size, kinderr := none } := by
  have headerRoom := ((hasRoom_add s _ _).mp room).1
  have live := valid.length_pos
  have notAtEnd : ∀ tos ∈ s.stack.head?, tos.pos ≠ tos.size := by
    intro tos top
    have := room.1 tos top
    omega
  have read := readKind_header { s with kinderr := none } kind size byteval hdr rest valid input headerRoom
  have checked := sizeErr_of_room s hdr.length size room
  cases s with
  | mk r remaining limited kind₀ size₀ byteval₀ kinderr₀ stack =>
  subst fresh
  unfold Stream.Kind
  dsimp only
  rw [if_neg ?atEnd, read]
  · simp only [if_true]
    split
    · rename_i clean
      rw [clean]
      rfl
    · rename_i err failed
      exact absurd (checked.symm.trans failed) (by simp)
  · cases stack with
    | nil => simp
    | cons tos outer =>
      simpa using notAtEnd tos rfl

theorem Kind_inv (s s' : Stream) (fresh : s.kind = none) (kind : Kind) (size : Nat)
    (read : Stream.Kind s = .ok (kind, size) s') :
    ∃ hdr rest byteval, Header kind size byteval hdr ∧ s.r = hdr ++ rest ∧ s.HasRoom hdr.length ∧
      s' = { s.counted hdr.length with
        r := rest, byteval := byteval, kind := some kind, size := size, kinderr := none } := by
  cases s with
  | mk r remaining limited kind₀ size₀ byteval₀ kinderr₀ stack =>
  subst fresh
  unfold Stream.Kind at read
  dsimp only at read
  split_ifs at read with atEnd
  cases second : Stream.readKind ⟨r, remaining, limited, none, size₀, byteval₀, none, stack⟩ with
  | error err s₁ => exact absurd second (readKind_ne_error _ s₁ err)
  | ok triple s₁ =>
    obtain ⟨kind₁, size₁, kinderr⟩ := triple
    rw [second] at read
    dsimp only at read
    cases kinderr with
    | some err => simp at read
    | none =>
      simp only [if_true] at read
      split at read
      · rename_i clean
        simp only [EStateM.Result.ok.injEq, Prod.mk.injEq] at read
        obtain ⟨⟨rfl, rfl⟩, rfl⟩ := read
        obtain ⟨hdr, rest, byteval, valid, input, room, rfl⟩ := readKind_inv _ s₁ kind₁ size₁ second
        exact ⟨hdr, rest, byteval, valid, input, room, by rw [clean]; rfl⟩
      · simp at read

/-! ## `Bytes`, `List` and `ListEnd` after `Kind` -/

section Cached

variable (s : Stream)

theorem Bytes_byte (clean : s.kinderr = none) (cached : s.kind = some .Byte) :
    Stream.Bytes s = .ok [s.byteval] { s with kind := none } := by
  unfold Stream.Bytes
  rw [Kind_cached s .Byte cached clean]

theorem Bytes_string (clean : s.kinderr = none) (cached : s.kind = some .String) (payload rest : List UInt8) (input : s.r = payload ++ rest)
    (length : payload.length = s.size) (room : s.HasRoom s.size)
    (canonical : s.size = 1 → 128 ≤ (payload.headD 0).toNat) :
    Stream.Bytes s = .ok payload { s.counted s.size with r := rest } := by
  unfold Stream.Bytes
  rw [Kind_cached s .String cached clean]
  dsimp only
  rw [(readFull_eq_ok s.size s _ payload).mpr ⟨room, length, rest, input, rfl⟩]
  dsimp only
  rw [if_neg]
  rintro ⟨one, low⟩
  have := canonical one
  simp only [UInt8.lt_iff_toNat_lt, UInt8.reduceToNat] at low
  omega

theorem Bytes_inv (clean : s.kinderr = none) (kind : Kind) (cached : s.kind = some kind) (s' : Stream) (b : List UInt8)
    (read : Stream.Bytes s = .ok b s') :
    (kind = .Byte ∧ b = [s.byteval] ∧ s' = { s with kind := none }) ∨
      (kind = .String ∧ b.length = s.size ∧ (s.size = 1 → 128 ≤ (b.headD 0).toNat) ∧ s.HasRoom s.size ∧
        ∃ rest, s.r = b ++ rest ∧ s' = { s.counted s.size with r := rest }) := by
  unfold Stream.Bytes at read
  rw [Kind_cached s kind cached clean] at read
  cases kind with
  | Byte =>
    cases read
    exact .inl ⟨rfl, rfl, rfl⟩
  | String =>
    dsimp only at read
    cases first : Stream.readFull s.size s with
    | error err s₁ =>
      rw [first] at read
      cases read
    | ok payload s₁ =>
      rw [first] at read
      dsimp only at read
      split_ifs at read with small
      cases read
      obtain ⟨room, length, rest, input, rfl⟩ := (readFull_eq_ok s.size s _ b).mp first
      refine .inr ⟨rfl, length, ?_, room, rest, input, rfl⟩
      intro one
      have high : ¬ b.headD 0 < 128 := fun low => small ⟨one, low⟩
      simpa only [UInt8.lt_iff_toNat_lt, UInt8.reduceToNat, not_lt] using high
  | List => cases read

theorem Bytes_error (clean : s.kinderr = none) (kind : Kind) (cached : s.kind = some kind) (s' : Stream) (err : RlpError)
    (read : Stream.Bytes s = .error err s') : err ≠ .EOL := by
  unfold Stream.Bytes at read
  rw [Kind_cached s kind cached clean] at read
  cases kind with
  | Byte => cases read
  | String =>
    dsimp only at read
    cases first : Stream.readFull s.size s with
    | error err₁ s₁ =>
      rw [first] at read
      cases read
      exact readFull_error _ s _ err first
    | ok payload s₁ =>
      rw [first] at read
      dsimp only at read
      split_ifs at read
      cases read
      simp
  | List =>
    cases read
    simp

theorem List_cached (clean : s.kinderr = none) (cached : s.kind = some .List) :
    Stream.List s = .ok s.size { s with stack := ⟨0, s.size⟩ :: s.stack, kind := none, size := 0 } := by
  unfold Stream.List
  rw [Kind_cached s .List cached clean]
  rfl

theorem List_inv (clean : s.kinderr = none) (kind : Kind) (cached : s.kind = some kind) (s' : Stream) (size : Nat)
    (read : Stream.List s = .ok size s') :
    kind = .List ∧ size = s.size ∧ s' = { s with stack := ⟨0, s.size⟩ :: s.stack, kind := none, size := 0 } := by
  unfold Stream.List at read
  rw [Kind_cached s kind cached clean] at read
  dsimp only at read
  split_ifs at read with notList
  cases read
  exact ⟨of_not_not notList, rfl, rfl⟩

theorem List_error (clean : s.kinderr = none) (kind : Kind) (cached : s.kind = some kind) (s' : Stream) (err : RlpError)
    (read : Stream.List s = .error err s') : err ≠ .EOL := by
  unfold Stream.List at read
  rw [Kind_cached s kind cached clean] at read
  dsimp only at read
  split_ifs at read
  cases read
  simp

end Cached

theorem ListEnd_at_end (s : Stream) (tos : ListPos) (outer : List ListPos) (stack : s.stack = tos :: outer)
    (atEnd : tos.pos = tos.size) :
    Stream.ListEnd s = .ok () { s with stack := bumpTop outer tos.size, kind := none, size := 0 } := by
  unfold Stream.ListEnd
  simp [stack, atEnd]

theorem ListEnd_inv (s s' : Stream) (u : Unit) (read : Stream.ListEnd s = .ok u s') :
    ∃ tos outer, s.stack = tos :: outer ∧ tos.pos = tos.size ∧
      s' = { s with stack := bumpTop outer tos.size, kind := none, size := 0 } := by
  unfold Stream.ListEnd at read
  split at read
  · cases read
  · rename_i tos outer stack
    split_ifs at read with notAtEnd
    cases read
    exact ⟨tos, outer, stack, of_not_not notAtEnd, rfl⟩

theorem ListEnd_error (s s' : Stream) (err : RlpError) (read : Stream.ListEnd s = .error err s') :
    err ≠ .EOL := by
  unfold Stream.ListEnd at read
  split at read
  · cases read
    simp
  · split_ifs at read
    cases read
    simp

end TurboGeth.Rlp
