import TurboGeth.Ethdb.History

/-!
# Walking the state as of a block

`BoltDatabase.WalkAsOf` of `ethdb/database.go` hands a walker, in key order,
the keys from a start key on that agree with it in their first `fixedbits`
bits, each with its value as of a block.  It runs a cursor over the current
bucket and one over the history bucket side by side.  A history record older
than the block is passed by, with a seek to its key followed by the block's
suffix; a key found in the history is walked with the first record the seek
stops at, and the history cursor then jumps past the key's remaining records
with `EndSuffix`; a key found only in the current bucket is walked with its
current value.

Bolt's cursors are modelled on the sorted pairs of the bucket: `Seek` stands
on the first key at or after the target and `Next` on the first key after the
current one.  `SeekTo` of turbo-geth's bolt searches up from the cursor's page;
the walk only seeks past the cursor, where it lands where `Seek` does.  The
walker is a state transformer that answers whether to go on and the error it
returns.  The loop runs on fuel; each turn moves a cursor forward.

As for `GetAsOf`, a record from block `2 ^ 53` on has a suffix that sorts
before that of every earlier block, so the walk takes it for an old one and
passes it by.
-/

set_option autoImplicit false

namespace TurboGeth.Ethdb

open TurboGeth.Trie

/-- `EndSuffix`: past every timestamp suffix. -/
def EndSuffix : Bytes := List.replicate 8 0xff

/-- `bytesmask`: the number of bytes the first `fixedbits` bits reach into,
and the mask of those bits in the last of them. -/
def bytesmask (fixedbits : Nat) : Nat × UInt8 :=
  let shiftbits := fixedbits &&& 7
  ((fixedbits + 7) / 8, if shiftbits ≠ 0 then (0xff : UInt8) <<< (8 - shiftbits).toUInt8 else 0xff)

/-- `Cursor.Next` from the pair with key `key`: the first pair after it. -/
def Bucket.Next (b : Bucket) (key : Bytes) : Option (Bytes × Bytes) :=
  b.pairs.find? fun pair => ¬ pair.1 ≤ key

/-- How a walk stops without returning: a Go slice panic, or the fuel. -/
inductive WalkStop where
  | panic
  | outOfFuel
  deriving DecidableEq, Repr

/-- The checks both cursors of a walk make on every turn: a key that leaves
the first `fixedbits` bits of the start key becomes `nil`.  Slicing past the
end of a key panics. -/
def inFixed (fixedbits : Nat) (startkey : Bytes) : Option (Bytes × Bytes) → Except WalkStop (Option (Bytes × Bytes))
  | none => .ok none
  | some (k, v) =>
    if fixedbits = 0 then .ok (some (k, v))
    else
      let (fixedbytes, mask) := bytesmask fixedbits
      if k.length < fixedbytes - 1 ∨ startkey.length < fixedbytes - 1 then .error .panic
      else if k.take (fixedbytes - 1) ≠ startkey.take (fixedbytes - 1) then .ok none
      else
        match k[fixedbytes - 1]?, startkey[fixedbytes - 1]? with
        | some a, some s => if a &&& mask ≠ s &&& mask then .ok none else .ok (some (k, v))
        | _, _ => .error .panic

@[simp] theorem inFixed_zero (startkey : Bytes) (kv : Option (Bytes × Bytes)) : inFixed 0 startkey kv = .ok kv := by
  cases kv with
  | none => rfl
  | some kv => simp [inFixed]

section Loop

variable {σ : Type} (b hB : Bucket) (startkey : Bytes) (fixedbits : Nat) (suffix : Bytes)
  (walker : Bytes → Bytes → σ → (Bool × Option String) × σ)

/-- The loop of `WalkAsOf`, the current cursor on `kv` and the history cursor
on `hkv`; `err` is the walker's last error and `st` its state. -/
def walkAsOfLoop : Nat → Option (Bytes × Bytes) → Option (Bytes × Bytes) → Option String → σ →
    Except WalkStop (Option String × σ)
  | 0, _, _, _, _ => .error .outOfFuel
  | fuel + 1, kv, hkv, err, st =>
    match inFixed fixedbits startkey kv, inFixed fixedbits startkey hkv with
    | .error stop, _ => .error stop
    | .ok _, .error stop => .error stop
    | .ok none, .ok none => .ok (err, st)
    | .ok (some (k, v)), .ok none =>
      match walker k v st with
      | ((true, err), st) => walkAsOfLoop fuel (b.Next k) none err st
      | ((false, err), st) => .ok (err, st)
    | .ok kv, .ok (some (hK, hV)) =>
      let l := startkey.length
      if hK.length < l then .error .panic
      -- a record older than the block: seek the key's first record from the block on
      else if hK.drop l < suffix then walkAsOfLoop fuel kv (hB.Seek (hK.take l ++ suffix)) err st
      else
        match kv with
        | some (k, v) =>
          if k < hK.take l then
            match walker k v st with
            | ((true, err), st) => walkAsOfLoop fuel (b.Next k) (some (hK, hV)) err st
            | ((false, err), st) => .ok (err, st)
          else
            -- the key is in the history: its record from the block on, then past its other records
            match walker (hK.take l) hV st with
            | ((true, err), st) =>
              walkAsOfLoop fuel (if k = hK.take l then b.Next k else some (k, v))
                (hB.Seek (hK.take l ++ EndSuffix)) err st
            | ((false, err), st) => .ok (err, st)
        | none =>
          match walker (hK.take l) hV st with
          | ((true, err), st) => walkAsOfLoop fuel none (hB.Seek (hK.take l ++ EndSuffix)) err st
          | ((false, err), st) => .ok (err, st)

end Loop

/-- `WalkAsOf`, allowed `fuel` turns of its loop: the walker's last error and
its state.  A missing bucket ends the walk before it starts. -/
def WalkAsOf {σ : Type} (tx : Tx) (bucket hBucket startkey : Bytes) (fixedbits timestamp : Nat)
    (walker : Bytes → Bytes → σ → (Bool × Option String) × σ) (fuel : Nat) (st : σ) :
    Except WalkStop (Option String × σ) :=
  match tx bucket, tx hBucket with
  | some b, some hB =>
    walkAsOfLoop b hB startkey fixedbits (encodeTimestamp timestamp) walker fuel (b.Seek startkey)
      (hB.Seek startkey) none st
  | _, _ => .ok (none, st)

/-! ## Records from `2 ^ 53` on -/

/-- A key's one history record, from block `2 ^ 53` on, walked as of an
earlier block: the walk takes the record for an older one, seeks past it, and
hands the walker the key's current value, once. -/
theorem WalkAsOf_misses_late_record {σ : Type} (tx : Tx) (bucket hBucket key : Bytes) (hB b : Bucket)
    (v c : Bytes) (ts T : Nat) (big : 2 ^ 53 ≤ ts) (small : T < 2 ^ 53) (history : tx hBucket = some hB)
    (only : hB.pairs = [(key ++ encodeTimestamp ts, v)]) (current : tx bucket = some b)
    (single : b.pairs = [(key, c)]) (walker : Bytes → Bytes → σ → (Bool × Option String) × σ) (st : σ)
    (fuel : Nat) :
    WalkAsOf tx bucket hBucket key 0 T walker (fuel + 3) st = .ok ((walker key c st).1.2, (walker key c st).2) := by
  have older : encodeTimestamp ts < encodeTimestamp T := by
    rcases Nat.eq_zero_or_pos T with rfl | later
    · exact encodeTimestamp_lt_zero ts big
    · exact Std.lt_trans (encodeTimestamp_lt_zero ts big) ((encodeTimestamp_lt_iff 0 T (by omega) small).mpr later)
  have atKey : b.Seek key = some (key, c) := by
    simp [Bucket.Seek, SortedStore.seek, single]
  have atRecord : hB.Seek key = some (key ++ encodeTimestamp ts, v) := by
    simp [Bucket.Seek, SortedStore.seek, only, List.le_append_left]
  -- the seek to the block's suffix lands past the only record
  have passed : hB.Seek (key ++ encodeTimestamp T) = none := by
    have before : key ++ encodeTimestamp ts < key ++ encodeTimestamp T := List.append_left_lt older
    simp [Bucket.Seek, SortedStore.seek, only, List.not_le.mpr before]
  have last : b.Next key = none := by
    simp [Bucket.Next, single]
  have stale : (key ++ encodeTimestamp ts).drop key.length < encodeTimestamp T := by
    rwa [List.drop_left]
  unfold WalkAsOf
  rw [current, history]
  dsimp only
  -- the first turn takes the record for an older one and seeks past it
  rw [atKey, atRecord, walkAsOfLoop]
  simp only [inFixed_zero, List.length_append, List.take_left, stale]
  rw [if_neg (by omega), passed, walkAsOfLoop]
  simp only [inFixed_zero]
  -- the second hands the walker the current value, and a third finds both cursors done
  cases called : walker key c st with
  | mk result st' =>
    obtain ⟨goOn, err⟩ := result
    cases goOn with
    | false => simp
    | true => simp [last, walkAsOfLoop]

theorem WalkAsOf_misses_record_at_2_pow_53 :
    WalkAsOf (fun name => if name = [0x68] then some ⟨[([1] ++ encodeTimestamp (2 ^ 53), [2])], List.pairwise_singleton _ _⟩
        else if name = [0x61] then some ⟨[([1], [3])], List.pairwise_singleton _ _⟩ else none)
      [0x61] [0x68] [1] 0 0 (fun k v calls => ((true, none), calls ++ [(k, v)])) 3 [] = .ok (none, [([1], [3])]) :=
  WalkAsOf_misses_late_record _ [0x61] [0x68] [1] ⟨[([1] ++ encodeTimestamp (2 ^ 53), [2])], List.pairwise_singleton _ _⟩
    ⟨[([1], [3])], List.pairwise_singleton _ _⟩ [2] [3] (2 ^ 53) 0 (le_refl _) (by norm_num) (by simp) rfl (by simp) rfl
    _ [] 0

/-! ## Walking several key ranges -/

/-- How `MultiWalk` ends early: with the error the walker returned, or
with a stop of the walk itself. -/
inductive WalkError (ε : Type) where
  | walker (err : ε)
  | stop (stop : WalkStop)
  deriving DecidableEq, Repr

/-- The comparison `MultiWalk` makes between a key and the current start
key: the first `fixedbytes - 1` bytes, then the masked byte after them.  A
key too short to slice, or no fixed byte at all, panics. -/
def fixedCompare (fixedbits : Nat) (startkey k : Bytes) : Except WalkStop Ordering :=
  let (fixedbytes, mask) := bytesmask fixedbits
  if fixedbytes = 0 ∨ k.length < fixedbytes - 1 ∨ startkey.length < fixedbytes - 1 then .error .panic
  else if k.take (fixedbytes - 1) < startkey.take (fixedbytes - 1) then .ok .lt
  else if k.take (fixedbytes - 1) ≠ startkey.take (fixedbytes - 1) then .ok .gt
  else
    match k[fixedbytes - 1]?, startkey[fixedbytes - 1]? with
    | some a, some s => .ok (compare (a &&& mask) (s &&& mask))
    | _, _ => .error .panic

section MultiWalk

variable {σ ε : Type} (b : Bucket) (startkeys : List Bytes) (fixedbits : List Nat)
  (walker : Nat → Option (Bytes × Bytes) → σ → Except ε (Bool × σ))

/-- The inner loop of `MultiWalk`, which lines the cursor up with the start
key `keyIdx`: below the range it seeks the start key, above it it tells the
walker that the range is done and takes the next one.  It ends on a key in
the range, or with no key when the cursor or the start keys run out. -/
def multiWalkAlign : Nat → Nat → Bytes × Bytes → σ → Except (WalkError ε) (Nat × Option (Bytes × Bytes) × σ)
  | 0, _, _, _ => .error (.stop .outOfFuel)
  | fuel + 1, keyIdx, (k, v), st =>
    match startkeys[keyIdx]?, fixedbits[keyIdx]? with
    | some startkey, some bits =>
      match fixedCompare bits startkey k with
      | .error stop => .error (.stop stop)
      | .ok .eq => .ok (keyIdx, some (k, v), st)
      | .ok .lt =>
        match b.Seek startkey with
        | none => .ok (keyIdx, none, st)
        | some kv => multiWalkAlign fuel keyIdx kv st
      | .ok .gt =>
        match walker (keyIdx + 1) none st with
        | .error err => .error (.walker err)
        | .ok (_, st) =>
          if keyIdx + 1 = startkeys.length then .ok (keyIdx + 1, none, st)
          else multiWalkAlign fuel (keyIdx + 1) (k, v) st
    | _, _ => .error (.stop .panic)

/-- The cursor loop of `MultiWalk`: the walker sees every pair with a
non-empty value, under the index of its range.  It returns the range index
it ended on; a cursor past the last key needs no fuel. -/
def multiWalkLoop : Nat → Nat → Option (Bytes × Bytes) → σ → Except (WalkError ε) (Nat × σ)
  | _, keyIdx, none, st => .ok (keyIdx, st)
  | 0, _, some _, _ => .error (.stop .outOfFuel)
  | fuel + 1, keyIdx, some (k, v), st =>
    match fixedbits[keyIdx]? with
    | none => .error (.stop .panic)
    | some bits =>
      let aligned := if 0 < (bytesmask bits).1 then multiWalkAlign b startkeys fixedbits walker fuel keyIdx (k, v) st
        else .ok (keyIdx, some (k, v), st)
      match aligned with
      | .error err => .error err
      | .ok (keyIdx, none, st) => .ok (keyIdx, st)
      | .ok (keyIdx, some (k, v), st) =>
        if 0 < v.length then
          match walker keyIdx (some (k, v)) st with
          | .error err => .error (.walker err)
          | .ok (_, st) => multiWalkLoop fuel keyIdx (b.Next k) st
        else multiWalkLoop fuel keyIdx (b.Next k) st

end MultiWalk

/-- The loop after the transaction: every range not yet closed is closed
with a call `walker(keyIdx, nil, nil)`, up to the number of start keys. -/
def multiWalkClose {σ ε : Type} (walker : Nat → Option (Bytes × Bytes) → σ → Except ε (Bool × σ)) :
    Nat → Nat → σ → Except ε σ
  | 0, _, st => .ok st
  | left + 1, keyIdx, st =>
    match walker (keyIdx + 1) none st with
    | .error err => .error err
    | .ok (_, st) => multiWalkClose walker left (keyIdx + 1) st

/-- `MultiWalk`, allowed `fuel` cursor steps: the walker's state at the end.
The bool the walker returns is ignored, as in Go.  A missing bucket ends the
transaction at once, and the ranges are still closed after it. -/
def MultiWalk {σ ε : Type} (tx : Tx) (bucket : Bytes) (startkeys : List Bytes) (fixedbits : List Nat)
    (walker : Nat → Option (Bytes × Bytes) → σ → Except ε (Bool × σ)) (fuel : Nat) (st : σ) :
    Except (WalkError ε) σ :=
  match startkeys, fixedbits with
  | [], _ => .ok st
  | _ :: _, [] => .error (.stop .panic)
  | startkey :: _, _ :: _ =>
    let walked : Except (WalkError ε) (Nat × σ) := match tx bucket with
      | none => .ok (0, st)
      | some b => multiWalkLoop b startkeys fixedbits walker fuel 0 (b.Seek startkey) st
    match walked with
    | .error err => .error err
    | .ok (keyIdx, st) =>
      match multiWalkClose walker (startkeys.length - keyIdx) keyIdx st with
      | .error err => .error (.walker err)
      | .ok st => .ok st

@[simp] theorem multiWalkLoop_none {σ ε : Type} (b : Bucket) (startkeys : List Bytes) (fixedbits : List Nat)
    (walker : Nat → Option (Bytes × Bytes) → σ → Except ε (Bool × σ)) (fuel keyIdx : Nat) (st : σ) :
    multiWalkLoop b startkeys fixedbits walker fuel keyIdx none st = .ok (keyIdx, st) := by
  cases fuel <;> rfl

theorem MultiWalk_no_leaves {σ ε : Type} (tx : Tx) (bucket startkey : Bytes) (bits : Nat)
    (walker : Nat → Option (Bytes × Bytes) → σ → Except ε (Bool × σ)) (fuel : Nat) (st : σ)
    (noLeaves : ∀ b, tx bucket = some b → b.Seek startkey = none) :
    MultiWalk tx bucket [startkey] [bits] walker fuel st =
      match walker 1 none st with
      | .error err => .error (.walker err)
      | .ok (_, st) => .ok st := by
  rw [MultiWalk]
  cases found : tx bucket with
  | none =>
    simp only [List.length_singleton, Nat.sub_zero, multiWalkClose]
    cases walker 1 none st <;> rfl
  | some b =>
    -- the cursor starts past the last key
    simp only [noLeaves b found, multiWalkLoop_none, List.length_singleton, Nat.sub_zero, multiWalkClose]
    cases walker 1 none st <;> rfl


theorem Bucket.Next_of_split (b : Bucket) (pre rest : List (Bytes × Bytes)) (k v : Bytes)
    (split : b.pairs = pre ++ (k, v) :: rest) : b.Next k = rest.head? := by
  have sorted := b.sorted
  rw [split, List.pairwise_append] at sorted
  obtain ⟨-, restSorted, across⟩ := sorted
  have skipped : pre.find? (fun pair => decide ¬ pair.1 ≤ k) = none := by
    rw [List.find?_eq_none]
    intro p member
    have below := across p member (k, v) List.mem_cons_self
    simpa using List.le_of_lt below
  unfold Bucket.Next
  rw [split, List.find?_append, skipped, Option.none_or, List.find?_cons]
  simp only [List.le_refl, not_true_eq_false, decide_false]
  cases rest with
  | nil => rfl
  | cons next rest =>
    have above : k < next.1 := (List.pairwise_cons.mp restSorted).1 next List.mem_cons_self
    have found : decide ¬ next.1 ≤ k = true := by simpa using above
    rw [List.find?_cons, found]
    rfl


theorem fixedCompare_fixedbytes_pos {bits : Nat} {startkey k : Bytes} {o : Ordering}
    (compared : fixedCompare bits startkey k = .ok o) : 0 < (bytesmask bits).1 := by
  unfold fixedCompare at compared
  by_contra none
  simp only [Nat.not_lt, Nat.le_zero] at none
  simp [none] at compared

/-- What `MultiWalk` does with the pairs of one range, in key order: each is
handed to the walker under the range's index, and the first error ends it. -/
def walkPairs {σ ε : Type} (walker : Nat → Option (Bytes × Bytes) → σ → Except ε (Bool × σ)) (keyIdx : Nat) :
    List (Bytes × Bytes) → σ → Except ε σ
  | [], st => .ok st
  | (k, v) :: rest, st =>
    match walker keyIdx (some (k, v)) st with
    | .error err => .error err
    | .ok (_, st) => walkPairs walker keyIdx rest st

section OneRange

variable {σ ε : Type} (b : Bucket) (startkey : Bytes) (bits : Nat)
  (walker : Nat → Option (Bytes × Bytes) → σ → Except ε (Bool × σ))

theorem multiWalkAlign_in_range (fuel : Nat) (k v : Bytes) (st : σ)
    (inRange : fixedCompare bits startkey k = .ok .eq) :
    multiWalkAlign b [startkey] [bits] walker (fuel + 1) 0 (k, v) st = .ok (0, some (k, v), st) := by
  rw [multiWalkAlign]
  simp [inRange]

theorem multiWalkLoop_one_range :
    ∀ (ps pre : List (Bytes × Bytes)) (fuel : Nat) (st : σ), b.pairs = pre ++ ps →
      (∀ p ∈ ps, fixedCompare bits startkey p.1 = .ok .eq ∧ 0 < p.2.length) → ps.length < fuel →
      multiWalkLoop b [startkey] [bits] walker fuel 0 ps.head? st =
        match walkPairs walker 0 ps st with
        | .error err => .error (.walker err)
        | .ok st => .ok (0, st)
  | [], _, _, st, _, _, _ => by simp [walkPairs]
  | (k, v) :: rest, pre, fuel, st, split, inRange, enough => by
    obtain ⟨fuel, rfl⟩ : ∃ f, fuel = f + 2 := ⟨fuel - 2, by simp at enough; omega⟩
    obtain ⟨compared, valued⟩ := inRange (k, v) List.mem_cons_self
    have next := Bucket.Next_of_split b pre rest k v split
    have later := multiWalkLoop_one_range rest (pre ++ [(k, v)]) (fuel + 1)
    rw [List.head?_cons, multiWalkLoop]
    simp only [List.getElem?_cons_zero, fixedCompare_fixedbytes_pos compared, if_true,
      multiWalkAlign_in_range b startkey bits walker fuel k v st compared, valued, walkPairs]
    cases walker 0 (some (k, v)) st with
    | error err => rfl
    | ok result =>
      rw [next]
      exact later result.2 (by simpa using split) (fun p member => inRange p (List.mem_cons_of_mem _ member))
        (by simp at enough; omega)

/-- `MultiWalk` over one range whose pairs, from the start key to the end of
the bucket, all lie in the range and have values: the walker sees each of
them, then the range is closed. -/
theorem MultiWalk_one_range (tx : Tx) (bucket : Bytes) (ps pre : List (Bytes × Bytes)) (fuel : Nat) (st : σ)
    (found : tx bucket = some b) (split : b.pairs = pre ++ ps) (first : b.Seek startkey = ps.head?)
    (inRange : ∀ p ∈ ps, fixedCompare bits startkey p.1 = .ok .eq ∧ 0 < p.2.length) (enough : ps.length < fuel) :
    MultiWalk tx bucket [startkey] [bits] walker fuel st =
      match walkPairs walker 0 ps st with
      | .error err => .error (.walker err)
      | .ok st =>
        match walker 1 none st with
        | .error err => .error (.walker err)
        | .ok (_, st) => .ok st := by
  rw [MultiWalk]
  simp only [found, first, multiWalkLoop_one_range b startkey bits walker ps pre fuel st split inRange enough]
  cases walkPairs walker 0 ps st with
  | error err => rfl
  | ok st =>
    simp only [List.length_singleton, Nat.sub_zero, multiWalkClose]
    cases walker 1 none st <;> rfl

end OneRange

end TurboGeth.Ethdb
