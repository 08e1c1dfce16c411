import TurboGeth.Rlp.Encode
import TurboGeth.Rlp.Stream

/-!
# Decoding item trees

`rlp/decode.go`: `DecodeBytes` into an `interface{}`, which runs
`decodeInterface` on a stream limited to the input: a list is decoded by
`decodeListSlice` with `decodeInterface` as the element decoder, anything else
by `Stream.Bytes`.  The element decoder is a parameter, as it is in Go; the
recursion of `decodeInterface` runs on fuel, and `DecodeBytes` gives it one
more than the input has bytes, which is enough since every value takes at
least one.  The context Go adds to a wrapped error is left out: a wrapped error
is never `EOL`, which is all the loop of `decodeSliceElems` asks of it.

The two directions of the round trip: every item decodes from its encoding,
whatever follows it, and whatever decodes was the encoding of what it decoded
to, so the decoder accepts one encoding per item tree.
-/

set_option autoImplicit false

namespace TurboGeth.Rlp

/-- `decodeSliceElems`: elements until the end of the list; the loop runs on
`fuel`. -/
def decodeSliceElems (elemdec : StreamM Rlp.Item) : Nat → List Rlp.Item → StreamM (List Rlp.Item)
  | 0, _ => fun s => .error .outOfFuel s
  | fuel + 1, acc => fun s =>
    match elemdec s with
    | .ok item s => decodeSliceElems elemdec fuel (acc ++ [item]) s
    | .error err s => if err = .EOL then .ok acc s else .error err s

def decodeListSlice (elemdec : StreamM Rlp.Item) (fuel : Nat) : StreamM (List Rlp.Item) := fun s =>
  match Stream.List s with
  | .error err s => .error err s
  | .ok size s =>
    if size = 0 then
      match Stream.ListEnd s with
      | .ok () s => .ok [] s
      | .error err s => .error err s
    else
      match decodeSliceElems elemdec fuel [] s with
      | .error err s => .error err s
      | .ok items s =>
        match Stream.ListEnd s with
        | .ok () s => .ok items s
        | .error err s => .error err s

def decodeInterface : Nat → StreamM Rlp.Item
  | 0 => fun s => .error .outOfFuel s
  | fuel + 1 => fun s =>
    match Stream.Kind s with
    | .error err s => .error err s
    | .ok (kind, _) s =>
      if kind = .List then
        match decodeListSlice (decodeInterface fuel) fuel s with
        | .ok items s => .ok (.list items) s
        | .error err s => .error err s
      else
        match Stream.Bytes s with
        | .ok b s => .ok (.bytes b) s
        | .error err s => .error err s

/-- `NewStream(bytes.NewReader(b), uint64(len(b)))`. -/
def NewStream (b : List UInt8) : Stream :=
  { r := b, remaining := b.length, limited := true, kind := none, size := 0, byteval := 0, kinderr := none,
    stack := [] }

def DecodeBytes (b : List UInt8) : Except RlpError Rlp.Item :=
  match decodeInterface (b.length + 1) (NewStream b) with
  | .ok val s => if s.r.length > 0 then .error .ErrMoreThanOneValue else .ok val
  | .error err _ => .error err

/-! ## What a decoding call consumes -/

/-- `s'` is `s` having read `bytes` to the end of a value: the reader, the
list positions and the input limit have moved on by them, and nothing is
left cached. -/
structure Consumed (s : Stream) (bytes : List UInt8) (s' : Stream) : Prop where
  input : s.r = bytes ++ s'.r
  stack : s'.stack = bumpTop s.stack bytes.length
  remaining : s'.remaining = s.spend bytes.length
  limited : s'.limited = s.limited
  kind : s'.kind = none
  kinderr : s'.kinderr = none

theorem Consumed.trans {s s₁ s₂ : Stream} {a b : List UInt8} (first : Consumed s a s₁) (second : Consumed s₁ b s₂) :
    Consumed s (a ++ b) s₂ where
  input := by rw [first.input, second.input, List.append_assoc]
  stack := by rw [second.stack, first.stack, bumpTop_bumpTop, List.length_append]
  remaining := by
    rw [second.remaining, List.length_append, ← spend_spend]
    simp only [Stream.spend, counted_limited, counted_remaining, first.remaining, first.limited]
    by_cases limited : s.limited <;> simp [limited]
  limited := by rw [second.limited, first.limited]
  kind := second.kind
  kinderr := second.kinderr

theorem Consumed.at_end (s : Stream) (fresh : s.kind = none) : Consumed s [] { s with kinderr := none } where
  input := rfl
  stack := by simp
  remaining := by simp [Stream.spend]
  limited := rfl
  kind := fresh
  kinderr := rfl

/-- The innermost list is read to its end. -/
def AtEnd (s : Stream) : Prop := ∃ tos outer, s.stack = tos :: outer ∧ tos.pos = tos.size

/-! ## Encodings decode -/

theorem decodeInterface_bytes (b : List UInt8) (fuel : Nat) (s : Stream) (rest : List UInt8)
    (fits : b.length < 2 ^ 64) (enough : (Rlp.encode (.bytes b)).length < fuel) (fresh : s.kind = none)
    (input : s.r = Rlp.encode (.bytes b) ++ rest) (room : s.HasRoom (Rlp.encode (.bytes b)).length) :
    ∃ s', decodeInterface fuel s = .ok (.bytes b) s' ∧ Consumed s (Rlp.encode (.bytes b)) s' := by
  obtain ⟨f, rfl⟩ : ∃ f, fuel = f + 1 := ⟨fuel - 1, by omega⟩
  by_cases small : ∃ c, b = [c] ∧ c < 128
  · -- a byte below `0x80` is its own encoding, read as the kind tag
    obtain ⟨c, rfl, low⟩ := small
    rw [Rlp.encode_byte c low] at input room ⊢
    have kind := Kind_header s fresh .Byte 0 c [c] rest ⟨rfl, by simpa [UInt8.lt_iff_toNat_lt] using low, rfl⟩
      input (by simpa using room)
    apply Exists.intro
    constructor
    · simp only [decodeInterface, kind, reduceCtorEq, if_false]
      rw [Bytes_byte _ rfl rfl]
    · constructor <;> simp [input]
  · -- any other string: a header, then the bytes
    have notSmall : ∀ c, b = [c] → ¬ c < 128 := fun c single low => small ⟨c, single, low⟩
    rw [Rlp.encode_string b notSmall] at input room ⊢
    rw [List.append_assoc] at input
    have kind := Kind_header s fresh .String b.length 0 (Rlp.header 128 b.length) (b ++ rest) ⟨rfl, fits, rfl⟩
      input (by simpa using room)
    have payloadRoom := ((hasRoom_add s _ _).mp (by simpa using room)).2
    have canonical : b.length = 1 → 128 ≤ (b.headD 0).toNat := by
      intro one
      obtain ⟨c, rfl⟩ := List.length_eq_one_iff.mp one
      simpa [UInt8.lt_iff_toNat_lt] using notSmall c rfl
    apply Exists.intro
    constructor
    · simp only [decodeInterface, kind, reduceCtorEq, if_false]
      rw [Bytes_string _ ?_ ?_ b rest ?_ ?_ ?_ ?_]
      · rfl
      · rfl
      · rfl
      · rfl
      · exact payloadRoom
      · exact canonical
    · constructor
      · simp [input]
      · simp [Nat.add_comm]
      · rw [List.length_append, ← spend_spend]
        rfl
      · simp
      · simp
      · simp

theorem decodeInterface_list (items : List Rlp.Item) (f : Nat) (s : Stream) (rest : List UInt8)
    (fits : (Rlp.encodeAll items).length < 2 ^ 64) (fresh : s.kind = none)
    (input : s.r = Rlp.encode (.list items) ++ rest) (room : s.HasRoom (Rlp.encode (.list items)).length)
    (elems : ∀ (s₁ : Stream) (tos : ListPos) (outer : List ListPos), s₁.kind = none →
      s₁.r = Rlp.encodeAll items ++ rest → s₁.stack = tos :: outer →
      tos.pos + (Rlp.encodeAll items).length = tos.size →
      (s₁.limited → (Rlp.encodeAll items).length ≤ s₁.remaining) →
      ∃ s₂, decodeSliceElems (decodeInterface f) f [] s₁ = .ok items s₂ ∧ Consumed s₁ (Rlp.encodeAll items) s₂) :
    ∃ s', decodeInterface (f + 1) s = .ok (.list items) s' ∧ Consumed s (Rlp.encode (.list items)) s' := by
  rw [Rlp.encode_list] at input room ⊢
  rw [List.append_assoc] at input
  rw [List.length_append] at room
  have kind := Kind_header s fresh .List _ 0 _ _ ⟨rfl, fits, rfl⟩ input room
  have payloadRoom := ((hasRoom_add s _ _).mp room).2
  by_cases empty : (Rlp.encodeAll items).length = 0
  · -- an empty list: the end of the list comes right after the header
    have none : items = [] := List.eq_nil_of_length_eq_zero (Nat.le_zero.mp (empty ▸ Rlp.length_le_encodeAll items))
    subst none
    apply Exists.intro
    constructor
    · simp only [decodeInterface, kind, if_true, decodeListSlice]
      rw [List_cached _ rfl rfl]
      dsimp only
      rw [if_pos empty, ListEnd_at_end _ _ _ rfl (by simp)]
    · constructor
      · simp [input]
      · simp
      · simp
      · rfl
      · rfl
      · rfl
  · -- the elements, then the end of the list
    obtain ⟨s₂, decoded, consumed⟩ := elems
      { r := Rlp.encodeAll items ++ rest,
        remaining := (s.counted (Rlp.header 192 (Rlp.encodeAll items).length).length).remaining,
        limited := (s.counted (Rlp.header 192 (Rlp.encodeAll items).length).length).limited,
        kind := none, size := 0, byteval := 0, kinderr := none,
        stack := ⟨0, (Rlp.encodeAll items).length⟩ ::
          (s.counted (Rlp.header 192 (Rlp.encodeAll items).length).length).stack }
      _ _ rfl rfl rfl (Nat.zero_add _) payloadRoom.2
    have closed : s₂.stack = ⟨(Rlp.encodeAll items).length, (Rlp.encodeAll items).length⟩ ::
        bumpTop s.stack (Rlp.header 192 (Rlp.encodeAll items).length).length := by
      rw [consumed.stack]
      simp
    have remainder : s₂.r = rest := by
      have := consumed.input
      simp only at this
      exact (List.append_cancel_left this).symm
    apply Exists.intro
    constructor
    · simp only [decodeInterface, kind, if_true, decodeListSlice]
      rw [List_cached _ rfl rfl]
      dsimp only
      rw [if_neg empty, decoded]
      dsimp only
      rw [ListEnd_at_end _ _ _ closed rfl]
    · constructor
      · simp [input, remainder]
      · simp [List.length_append]
      · simp [consumed.remaining, List.length_append, ← spend_spend]
        rfl
      · simp [consumed.limited]
      · rfl
      · exact consumed.kinderr

theorem decodeSliceElems_at_end (f loopFuel : Nat) (acc : List Rlp.Item) (s : Stream) (fresh : s.kind = none)
    (tos : ListPos) (outer : List ListPos) (stack : s.stack = tos :: outer) (atEnd : tos.pos = tos.size) :
    decodeSliceElems (decodeInterface (f + 1)) (loopFuel + 1) acc s = .ok acc { s with kinderr := none } := by
  simp [decodeSliceElems, decodeInterface, Kind_at_end s fresh tos outer stack atEnd]

mutual

theorem decodeInterface_encode : ∀ (x : Rlp.Item) (fuel : Nat) (s : Stream) (rest : List UInt8),
    Rlp.Encodable x → (Rlp.encode x).length < fuel → s.kind = none → s.r = Rlp.encode x ++ rest →
    s.HasRoom (Rlp.encode x).length →
    ∃ s', decodeInterface fuel s = .ok x s' ∧ Consumed s (Rlp.encode x) s'
  | .bytes b, fuel, s, rest, fits, enough, fresh, input, room =>
    decodeInterface_bytes b fuel s rest fits enough fresh input room
  | .list items, fuel, s, rest, ⟨fits, itemsFit⟩, enough, fresh, input, room => by
    obtain ⟨f, rfl⟩ : ∃ f, fuel = f + 1 := ⟨fuel - 1, by omega⟩
    have payloadFuel : (Rlp.encodeAll items).length < f := by
      have := List.length_pos_of_ne_nil (Rlp.header_ne_nil 192 (Rlp.encodeAll items).length)
      simp only [Rlp.encode_list, List.length_append] at enough
      omega
    refine decodeInterface_list items f s rest fits fresh input room ?_
    intro s₁ tos outer fresh₁ input₁ stack₁ fill limit
    have loopFuel := (Rlp.length_le_encodeAll items).trans_lt payloadFuel
    simpa using decodeSliceElems_encodeAll items f f [] s₁ rest tos outer itemsFit payloadFuel loopFuel
      fresh₁ input₁ stack₁ fill limit

theorem decodeSliceElems_encodeAll : ∀ (items : List Rlp.Item) (fuel loopFuel : Nat) (acc : List Rlp.Item)
    (s : Stream) (rest : List UInt8) (tos : ListPos) (outer : List ListPos),
    Rlp.EncodableAll items → (Rlp.encodeAll items).length < fuel → items.length < loopFuel →
    s.kind = none → s.r = Rlp.encodeAll items ++ rest → s.stack = tos :: outer →
    tos.pos + (Rlp.encodeAll items).length = tos.size →
    (s.limited → (Rlp.encodeAll items).length ≤ s.remaining) →
    ∃ s', decodeSliceElems (decodeInterface fuel) loopFuel acc s = .ok (acc ++ items) s' ∧
      Consumed s (Rlp.encodeAll items) s'
  | [], fuel, loopFuel, acc, s, _, tos, outer, _, enough, looping, fresh, _, stack, fill, _ => by
    obtain ⟨f, rfl⟩ : ∃ f, fuel = f + 1 := ⟨fuel - 1, by simp at enough; omega⟩
    obtain ⟨l, rfl⟩ : ∃ l, loopFuel = l + 1 := ⟨loopFuel - 1, by simp at looping; omega⟩
    refine ⟨_, ?_, Consumed.at_end s fresh⟩
    rw [decodeSliceElems_at_end f l acc s fresh tos outer stack (by simpa using fill), List.append_nil]
  | item :: more, fuel, loopFuel, acc, s, rest, tos, outer, ⟨itemFits, moreFit⟩, enough, looping, fresh, input,
      stack, fill, limit => by
    obtain ⟨l, rfl⟩ : ∃ l, loopFuel = l + 1 := ⟨loopFuel - 1, by simp at looping; omega⟩
    simp only [Rlp.encodeAll_cons, List.length_append] at enough fill limit
    have room : s.HasRoom (Rlp.encode item).length := by
      constructor
      · simp only [stack, List.head?_cons, Option.mem_def, Option.some.injEq, forall_eq']
        omega
      · intro limited
        have := limit limited
        omega
    obtain ⟨s₁, first, consumed₁⟩ := decodeInterface_encode item fuel s (Rlp.encodeAll more ++ rest) itemFits
      (by omega) fresh (by rw [input, Rlp.encodeAll_cons, List.append_assoc]) room
    have input₁ : s₁.r = Rlp.encodeAll more ++ rest := by
      have := consumed₁.input
      rw [input, Rlp.encodeAll_cons, List.append_assoc] at this
      exact (List.append_cancel_left this).symm
    have stack₁ : s₁.stack = ⟨tos.pos + (Rlp.encode item).length, tos.size⟩ :: outer := by
      rw [consumed₁.stack, stack, bumpTop_cons]
    have limit₁ : s₁.limited → (Rlp.encodeAll more).length ≤ s₁.remaining := by
      intro limited
      rw [consumed₁.limited] at limited
      have := limit limited
      rw [consumed₁.remaining, Stream.spend, if_pos limited]
      omega
    obtain ⟨s₂, rest_decoded, consumed₂⟩ := decodeSliceElems_encodeAll more fuel l (acc ++ [item]) s₁ rest _ outer
      moreFit (by omega) (by simpa using looping) consumed₁.kind input₁ stack₁ (by dsimp only; omega) limit₁
    refine ⟨s₂, ?_, by simpa using consumed₁.trans consumed₂⟩
    simp only [decodeSliceElems, first, rest_decoded, List.append_assoc, List.singleton_append]

end

/-! ## What decodes is an encoding -/

theorem Bytes_after_header (s s' : Stream) (kind : Kind) (size : Nat) (byteval : UInt8)
    (hdr rest b : List UInt8) (valid : Header kind size byteval hdr) (input : s.r = hdr ++ rest)
    (read : Stream.Bytes { s.counted hdr.length with
      r := rest, byteval := byteval, kind := some kind, size := size, kinderr := none } = .ok b s') :
    Rlp.Encodable (.bytes b) ∧ Consumed s (Rlp.encode (.bytes b)) s' := by
  rcases Bytes_inv _ rfl kind rfl s' b read with ⟨rfl, rfl, rfl⟩ | ⟨rfl, length, canonical, -, rest', payload, rfl⟩
  · -- a byte below `0x80` was its own header
    obtain ⟨rfl, low, rfl⟩ := valid
    refine ⟨by simp [Rlp.Encodable], ?_⟩
    rw [Rlp.encode_byte byteval low]
    constructor <;> simp [input]
  · obtain ⟨rfl, fits, rfl⟩ := valid
    dsimp only at length canonical payload
    subst length
    have notSmall : ∀ c, b = [c] → ¬ c < 128 := by
      rintro c rfl low
      have := canonical rfl
      simp only [List.headD_cons, UInt8.lt_iff_toNat_lt, UInt8.reduceToNat] at this low
      omega
    refine ⟨fits, ?_⟩
    rw [Rlp.encode_string b notSmall]
    constructor
    · simp [input, payload]
    · simp [Nat.add_comm]
    · rw [List.length_append, ← spend_spend]
      rfl
    · rfl
    · rfl
    · rfl

theorem decodeSliceElems_error (elemdec : StreamM Rlp.Item) :
    ∀ (loopFuel : Nat) (acc : List Rlp.Item) (s s' : Stream) (err : RlpError),
      decodeSliceElems elemdec loopFuel acc s = .error err s' → err ≠ .EOL
  | 0, _, _, _, _, read => by
    simp only [decodeSliceElems, EStateM.Result.error.injEq] at read
    rw [← read.1]
    simp
  | l + 1, acc, s, s', err, read => by
    simp only [decodeSliceElems] at read
    split at read
    · exact decodeSliceElems_error elemdec l _ _ s' err read
    · split_ifs at read with atEnd
      simp only [EStateM.Result.error.injEq] at read
      rw [← read.1]
      exact atEnd

/-- The element loop over an element decoder that reads encodings and fails
with `EOL` only at the end of the list: it reads the encodings of the items it
adds, up to the end of the list. -/
theorem decodeSliceElems_canonical (elemdec : StreamM Rlp.Item)
    (decodes : ∀ s y s', s.kind = none → elemdec s = .ok y s' → Rlp.Encodable y ∧ Consumed s (Rlp.encode y) s')
    (ends : ∀ s s', s.kind = none → elemdec s = .error .EOL s' → s' = { s with kinderr := none } ∧ AtEnd s) :
    ∀ (loopFuel : Nat) (acc items : List Rlp.Item) (s s' : Stream), s.kind = none →
      decodeSliceElems elemdec loopFuel acc s = .ok items s' →
      ∃ ys, items = acc ++ ys ∧ Rlp.EncodableAll ys ∧ Consumed s (Rlp.encodeAll ys) s' ∧ AtEnd s'
  | 0, _, _, _, _, _, read => by cases read
  | l + 1, acc, items, s, s', fresh, read => by
    simp only [decodeSliceElems] at read
    cases first : elemdec s with
    | ok y s₁ =>
      rw [first] at read
      obtain ⟨fits, consumed₁⟩ := decodes s y s₁ fresh first
      obtain ⟨ys, rfl, fit, consumed₂, atEnd⟩ :=
        decodeSliceElems_canonical elemdec decodes ends l _ items s₁ s' consumed₁.kind read
      refine ⟨y :: ys, by simp, ⟨fits, fit⟩, by simpa using consumed₁.trans consumed₂, atEnd⟩
    | error err s₁ =>
      rw [first] at read
      dsimp only at read
      split_ifs at read with isEnd
      simp only [EStateM.Result.ok.injEq] at read
      obtain ⟨rfl, rfl⟩ := read
      subst isEnd
      obtain ⟨rfl, atEnd⟩ := ends s s₁ fresh first
      exact ⟨[], by simp, trivial, Consumed.at_end s fresh, atEnd⟩

/-- A list read after the header `Kind` took, by an element decoder as in
`decodeSliceElems_canonical`: its encoding is the header and the encodings of
its items. -/
theorem decodeListSlice_after_header (elemdec : StreamM Rlp.Item)
    (decodes : ∀ s y s', s.kind = none → elemdec s = .ok y s' → Rlp.Encodable y ∧ Consumed s (Rlp.encode y) s')
    (ends : ∀ s s', s.kind = none → elemdec s = .error .EOL s' → s' = { s with kinderr := none } ∧ AtEnd s)
    (fuel : Nat) (s s' : Stream) (size : Nat) (byteval : UInt8) (hdr rest : List UInt8) (items : List Rlp.Item)
    (valid : Header .List size byteval hdr) (input : s.r = hdr ++ rest)
    (read : decodeListSlice elemdec fuel { s.counted hdr.length with
      r := rest, byteval := byteval, kind := some .List, size := size, kinderr := none } = .ok items s') :
    Rlp.Encodable (.list items) ∧ Consumed s (Rlp.encode (.list items)) s' := by
  obtain ⟨rfl, fits, rfl⟩ := valid
  unfold decodeListSlice at read
  rw [List_cached _ rfl rfl] at read
  dsimp only at read
  split_ifs at read with empty
  · -- no payload: the end of the list right after the header
    cases closing : Stream.ListEnd _ with
    | error err s₁ =>
      rw [closing] at read
      cases read
    | ok u s₁ =>
      rw [closing] at read
      simp only [EStateM.Result.ok.injEq] at read
      obtain ⟨rfl, rfl⟩ := read
      obtain ⟨tos, outer, stack, -, rfl⟩ := ListEnd_inv _ s₁ u closing
      simp only [List.cons.injEq] at stack
      obtain ⟨rfl, rfl⟩ := stack
      subst empty
      refine ⟨by simp [Rlp.Encodable, Rlp.EncodableAll], ?_⟩
      constructor
      · simp [input]
      · simp
      · simp
      · rfl
      · rfl
      · rfl
  · -- the elements, then the end of the list
    cases elements : decodeSliceElems elemdec fuel [] _ with
    | error err s₁ =>
      rw [elements] at read
      cases read
    | ok ys s₁ =>
      rw [elements] at read
      dsimp only at read
      cases closing : Stream.ListEnd s₁ with
      | error err s₂ =>
        rw [closing] at read
        cases read
      | ok u s₂ =>
        rw [closing] at read
        simp only [EStateM.Result.ok.injEq] at read
        obtain ⟨rfl, rfl⟩ := read
        obtain ⟨ys, rfl, fit, consumed, -⟩ :=
          decodeSliceElems_canonical elemdec decodes ends fuel [] ys _ s₁ rfl elements
        obtain ⟨tos, outer, stack, full, rfl⟩ := ListEnd_inv s₁ s₂ u closing
        rw [consumed.stack] at stack
        simp only [bumpTop_cons, List.cons.injEq] at stack
        obtain ⟨rfl, rfl⟩ := stack
        dsimp only at full
        rw [Nat.zero_add] at full
        subst full
        have payload : rest = Rlp.encodeAll ys ++ s₁.r := consumed.input
        refine ⟨⟨fits, fit⟩, ?_⟩
        rw [Rlp.encode_list]
        constructor
        · simp [input, payload]
        · simp [List.length_append]
        · rw [List.length_append, ← spend_spend]
          exact consumed.remaining
        · exact consumed.limited
        · rfl
        · exact consumed.kinderr

theorem decodeListSlice_error (elemdec : StreamM Rlp.Item) (fuel : Nat) (s s' : Stream) (err : RlpError)
    (clean : s.kinderr = none) (kind : Kind) (cached : s.kind = some kind)
    (read : decodeListSlice elemdec fuel s = .error err s') : err ≠ .EOL := by
  unfold decodeListSlice at read
  cases listed : Stream.List s with
  | error err₁ s₁ =>
    rw [listed] at read
    simp only [EStateM.Result.error.injEq] at read
    rw [← read.1]
    exact List_error s clean kind cached s₁ err₁ listed
  | ok size s₁ =>
    rw [listed] at read
    dsimp only at read
    have closed : ∀ s₂ s₃ err₂, Stream.ListEnd s₂ = .error err₂ s₃ → err₂ = err → err ≠ .EOL := by
      rintro s₂ s₃ err₂ closing rfl
      exact ListEnd_error s₂ s₃ err₂ closing
    split_ifs at read
    · cases closing : Stream.ListEnd s₁ with
      | ok u s₂ =>
        rw [closing] at read
        cases read
      | error err₂ s₂ =>
        rw [closing] at read
        simp only [EStateM.Result.error.injEq] at read
        exact closed s₁ s₂ err₂ closing read.1
    · cases elements : decodeSliceElems elemdec fuel [] s₁ with
      | error err₂ s₂ =>
        rw [elements] at read
        simp only [EStateM.Result.error.injEq] at read
        rw [← read.1]
        exact decodeSliceElems_error elemdec fuel [] s₁ s₂ err₂ elements
      | ok items s₂ =>
        rw [elements] at read
        dsimp only at read
        cases closing : Stream.ListEnd s₂ with
        | ok u s₃ =>
          rw [closing] at read
          cases read
        | error err₃ s₃ =>
          rw [closing] at read
          simp only [EStateM.Result.error.injEq] at read
          exact closed s₂ s₃ err₃ closing read.1

theorem decodeInterface_EOL (fuel : Nat) (s s' : Stream) (fresh : s.kind = none)
    (read : decodeInterface fuel s = .error .EOL s') : s' = { s with kinderr := none } ∧ AtEnd s := by
  cases fuel with
  | zero => cases read
  | succ f =>
    simp only [decodeInterface] at read
    cases kinded : Stream.Kind s with
    | error err s₁ =>
      rw [kinded] at read
      simp only [EStateM.Result.error.injEq] at read
      obtain ⟨rfl, rfl⟩ := read
      exact Kind_eq_EOL s s₁ fresh kinded
    | ok result s₁ =>
      -- past the header, neither a list nor a string fails with `EOL`
      obtain ⟨kind, size⟩ := result
      obtain ⟨hdr, rest, byteval, -, -, -, rfl⟩ := Kind_inv s s₁ fresh kind size kinded
      rw [kinded] at read
      dsimp only at read
      exfalso
      split_ifs at read
      · cases listed : decodeListSlice (decodeInterface f) f _ with
        | ok items s₂ =>
          rw [listed] at read
          cases read
        | error err s₂ =>
          rw [listed] at read
          simp only [EStateM.Result.error.injEq] at read
          exact decodeListSlice_error _ f _ s₂ err rfl kind rfl listed read.1
      · cases bytes : Stream.Bytes _ with
        | ok b s₂ =>
          rw [bytes] at read
          cases read
        | error err s₂ =>
          rw [bytes] at read
          simp only [EStateM.Result.error.injEq] at read
          exact Bytes_error _ rfl kind rfl s₂ err bytes read.1

theorem decodeInterface_canonical :
    ∀ (fuel : Nat) (s : Stream) (y : Rlp.Item) (s' : Stream), s.kind = none → decodeInterface fuel s = .ok y s' →
      Rlp.Encodable y ∧ Consumed s (Rlp.encode y) s'
  | 0, _, _, _, _, read => by cases read
  | f + 1, s, y, s', fresh, read => by
    simp only [decodeInterface] at read
    cases kinded : Stream.Kind s with
    | error err s₁ =>
      rw [kinded] at read
      cases read
    | ok result s₁ =>
      obtain ⟨kind, size⟩ := result
      obtain ⟨hdr, rest, byteval, valid, input, -, rfl⟩ := Kind_inv s s₁ fresh kind size kinded
      rw [kinded] at read
      dsimp only at read
      split_ifs at read with isList
      · -- a list: its elements by the decoder one fuel lower
        subst isList
        cases listed : decodeListSlice (decodeInterface f) f _ with
        | error err s₂ =>
          rw [listed] at read
          cases read
        | ok items s₂ =>
          rw [listed] at read
          simp only [EStateM.Result.ok.injEq] at read
          obtain ⟨rfl, rfl⟩ := read
          exact decodeListSlice_after_header (decodeInterface f) (decodeInterface_canonical f)
            (decodeInterface_EOL f) f s s₂ size byteval hdr rest items valid input listed
      · cases bytes : Stream.Bytes _ with
        | error err s₂ =>
          rw [bytes] at read
          cases read
        | ok b s₂ =>
          rw [bytes] at read
          simp only [EStateM.Result.ok.injEq] at read
          obtain ⟨rfl, rfl⟩ := read
          exact Bytes_after_header s s₂ kind size byteval hdr rest b valid input bytes

/-! ## The round trip -/

theorem DecodeBytes_encode (x : Rlp.Item) (fits : Rlp.Encodable x) : DecodeBytes (Rlp.encode x) = .ok x := by
  have room : (NewStream (Rlp.encode x)).HasRoom (Rlp.encode x).length :=
    ⟨by simp [NewStream], fun _ => le_refl _⟩
  obtain ⟨s', decoded, consumed⟩ := decodeInterface_encode x _ (NewStream (Rlp.encode x)) [] fits
    (Nat.lt_succ_self _) rfl (List.append_nil _).symm room
  have drained : s'.r = [] := by
    have := consumed.input
    simpa [NewStream] using this
  simp [DecodeBytes, decoded, drained]

theorem encode_of_DecodeBytes (b : List UInt8) (y : Rlp.Item) (read : DecodeBytes b = .ok y) :
    Rlp.Encodable y ∧ Rlp.encode y = b := by
  unfold DecodeBytes at read
  cases decoded : decodeInterface (b.length + 1) (NewStream b) with
  | error err s =>
    rw [decoded] at read
    cases read
  | ok val s =>
    rw [decoded] at read
    dsimp only at read
    split_ifs at read with trailing
    cases read
    obtain ⟨fits, consumed⟩ := decodeInterface_canonical _ _ _ _ rfl decoded
    have drained : s.r = [] := List.eq_nil_of_length_eq_zero (by omega)
    refine ⟨fits, ?_⟩
    simpa [NewStream, drained] using consumed.input.symm

end TurboGeth.Rlp
