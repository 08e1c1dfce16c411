import TurboGeth.Ethdb.Timestamp
import TurboGeth.Lib.SortedStore

/-!
# Reading the state as of a block

`BoltDatabase.GetAsOf` of `ethdb/database.go`, over Bolt as its cursors see
it: a bucket is its pairs in increasing key order, and `Cursor.Seek` stands on
the first pair whose key is at least the target.  The history bucket keeps,
under a key followed by `encodeTimestamp ts`, the value the key had before
block `ts`; `GetAsOf` seeks the key followed by the suffix of the block asked
for, takes what it finds if it starts with the key, and reads the current
bucket otherwise.

For keys of one length and timestamps below `2 ^ 53` this is the value of the
first record at or after the block, or the current value when there is none.
A record from `2 ^ 53` on has a suffix that sorts before every smaller block's,
so the seek passes it by.
-/

set_option autoImplicit false

namespace TurboGeth.Ethdb

open TurboGeth.Trie

/-- A Bolt bucket as its cursor walks it. -/
structure Bucket where
  pairs : List (Bytes × Bytes)
  sorted : pairs.Pairwise fun a b => a.1 < b.1

/-- `Cursor.Seek`: the first pair at or after `seek`, `nil` past the last. -/
def Bucket.Seek (b : Bucket) (seek : Bytes) : Option (Bytes × Bytes) := SortedStore.seek b.pairs seek

/-- The buckets a read transaction sees: `tx.Bucket` is `nil` for a missing one. -/
abbrev Tx := Bytes → Option Bucket

/-- The second block of `GetAsOf`: the key's current value. -/
def getCurrent (tx : Tx) (bucket key : Bytes) : Except String Bytes :=
  match tx bucket with
  | none => .error errKeyNotFound
  | some b =>
    match b.Seek key with
    | some (k, v) => if k = key then .ok v else .error errKeyNotFound
    | none => .error errKeyNotFound

def GetAsOf (tx : Tx) (bucket hBucket key : Bytes) (timestamp : Nat) : Except String Bytes :=
  let composite := (compositeKeySuffix key timestamp).1
  match tx hBucket with
  | none => .error errKeyNotFound
  | some hB =>
    match hB.Seek composite with
    | some (hK, hV) => if key <+: hK then .ok hV else getCurrent tx bucket key
    | none => getCurrent tx bucket key

/-- A record of the history bucket at a block below `2 ^ 53`: `key` held
`v` before block `ts`. -/
def Record (hB : Bucket) (key : Bytes) (ts : Nat) (v : Bytes) : Prop :=
  (key ++ encodeTimestamp ts, v) ∈ hB.pairs ∧ ts < 2 ^ 53

/-- Every pair of a history bucket is a record of a key of length `len` at a
block below `2 ^ 53`. -/
def HistoryOf (hB : Bucket) (len : Nat) : Prop :=
  ∀ pair ∈ hB.pairs, ∃ k ts, pair.1 = k ++ encodeTimestamp ts ∧ k.length = len ∧ ts < 2 ^ 53

/-! ## Composite keys of one key -/

theorem composite_lt_iff (key : Bytes) (t₁ t₂ : Nat) (small₁ : t₁ < 2 ^ 53) (small₂ : t₂ < 2 ^ 53) :
    key ++ encodeTimestamp t₁ < key ++ encodeTimestamp t₂ ↔ t₁ < t₂ := by
  rw [SortedStore.append_lt_append_left_iff, encodeTimestamp_lt_iff t₁ t₂ small₁ small₂]

theorem composite_le_iff (key : Bytes) (t₁ t₂ : Nat) (small₁ : t₁ < 2 ^ 53) (small₂ : t₂ < 2 ^ 53) :
    key ++ encodeTimestamp t₁ ≤ key ++ encodeTimestamp t₂ ↔ t₁ ≤ t₂ := by
  rw [← List.not_lt, composite_lt_iff key t₂ t₁ small₂ small₁, Nat.not_lt]

theorem key_of_above (key k : Bytes) (same : k.length = key.length) (t ts : Nat)
    (above : key ++ encodeTimestamp t ≤ k ++ encodeTimestamp ts) : k = key ∨ key < k := by
  by_cases equal : k = key
  · exact Or.inl equal
  · rcases SortedStore.lt_or_gt_of_ne equal with below | larger
    · exact absurd (SortedStore.append_lt_append_of_lt k key (encodeTimestamp ts) (encodeTimestamp t) same below)
        (List.not_lt.mpr above)
    · exact Or.inr larger

/-! ## What `GetAsOf` reads -/

section Spec

variable (tx : Tx) (bucket hBucket key : Bytes) (hB : Bucket) (T : Nat)

theorem GetAsOf_record (history : tx hBucket = some hB) (keys : HistoryOf hB key.length) (small : T < 2 ^ 53)
    (ts : Nat) (v : Bytes) (record : Record hB key ts v) (later : T ≤ ts)
    (first : ∀ ts' v', Record hB key ts' v' → T ≤ ts' → ts ≤ ts') :
    GetAsOf tx bucket hBucket key T = .ok v := by
  have reach : key ++ encodeTimestamp T ≤ key ++ encodeTimestamp ts :=
    (composite_le_iff key T ts small record.2).mpr later
  unfold GetAsOf
  simp only [compositeKeySuffix, history]
  cases found : hB.Seek (key ++ encodeTimestamp T) with
  | none => exact absurd (SortedStore.seek_none _ _ found _ record.1) (List.not_lt.mpr reach)
  | some pair =>
    obtain ⟨hK, hV⟩ := pair
    obtain ⟨member, above, least⟩ := SortedStore.seek_some hB.pairs hB.sorted _ _ found
    have atMost := least _ record.1 reach
    obtain ⟨k, ts₁, split, same, small₁⟩ := keys _ member
    dsimp only at split above atMost
    rw [split] at above atMost member
    -- the pair found is a record of `key`: a larger key would sort after `key`'s record
    have own : k = key := by
      rcases key_of_above key k same T ts₁ above with own | larger
      · exact own
      · exact absurd (SortedStore.append_lt_append_of_lt key k _ _ same.symm larger) (List.not_lt.mpr atMost)
    subst own
    -- and it is the first one at or after `T`
    have lower := (composite_le_iff k T ts₁ small small₁).mp above
    have upper := (composite_le_iff k ts₁ ts small₁ record.2).mp atMost
    have earliest := first ts₁ hV ⟨member, small₁⟩ lower
    obtain rfl : ts₁ = ts := by omega
    have value : hV = v := SortedStore.value_unique _ hB.sorted _ _ _ member record.1
    dsimp only
    rw [split, if_pos (List.prefix_append _ _), value]

theorem GetAsOf_current (history : tx hBucket = some hB) (keys : HistoryOf hB key.length) (small : T < 2 ^ 53)
    (earlier : ∀ ts v, Record hB key ts v → ts < T) :
    GetAsOf tx bucket hBucket key T = getCurrent tx bucket key := by
  unfold GetAsOf
  simp only [compositeKeySuffix, history]
  cases found : hB.Seek (key ++ encodeTimestamp T) with
  | none => rfl
  | some pair =>
    obtain ⟨hK, hV⟩ := pair
    obtain ⟨member, above, -⟩ := SortedStore.seek_some hB.pairs hB.sorted _ _ found
    obtain ⟨k, ts₁, split, same, small₁⟩ := keys _ member
    dsimp only at split above ⊢
    rw [if_neg]
    -- what the seek found starts with `key` only if it is a record of `key`, and those come before `T`
    intro starts
    rw [split] at starts above member
    obtain rfl := SortedStore.eq_of_prefix_append key k _ same starts
    have before := earlier ts₁ hV ⟨member, small₁⟩
    have := (composite_le_iff key T ts₁ small small₁).mp above
    omega

end Spec

/-! ## The current bucket -/

section Current

variable (tx : Tx) (bucket key : Bytes) (b : Bucket) (current : tx bucket = some b)
include current

theorem getCurrent_present (v : Bytes) (present : (key, v) ∈ b.pairs) : getCurrent tx bucket key = .ok v := by
  unfold getCurrent
  rw [current]
  dsimp only
  cases found : b.Seek key with
  | none => exact absurd (SortedStore.seek_none _ _ found _ present) Std.lt_irrefl
  | some pair =>
    obtain ⟨k, w⟩ := pair
    obtain ⟨member, above, least⟩ := SortedStore.seek_some b.pairs b.sorted _ _ found
    obtain rfl : k = key := List.le_antisymm (least _ present (List.le_refl _)) above
    dsimp only
    rw [if_pos rfl, SortedStore.value_unique _ b.sorted _ _ _ member present]

theorem getCurrent_absent (absent : ∀ v, (key, v) ∉ b.pairs) : getCurrent tx bucket key = .error errKeyNotFound := by
  unfold getCurrent
  rw [current]
  dsimp only
  cases found : b.Seek key with
  | none => rfl
  | some pair =>
    obtain ⟨k, w⟩ := pair
    obtain ⟨member, -, -⟩ := SortedStore.seek_some b.pairs b.sorted _ _ found
    dsimp only
    rw [if_neg]
    rintro rfl
    exact absent w member

end Current

/-! ## Records from `2 ^ 53` on -/

/-- A record from block `2 ^ 53` on sorts before the composite key of block
zero, so `GetAsOf` at block zero passes it by and returns the current value. -/
theorem GetAsOf_misses_late_record (tx : Tx) (bucket hBucket key : Bytes) (hB b : Bucket) (v c : Bytes) (ts : Nat)
    (big : 2 ^ 53 ≤ ts) (history : tx hBucket = some hB) (only : hB.pairs = [(key ++ encodeTimestamp ts, v)])
    (current : tx bucket = some b) (present : (key, c) ∈ b.pairs) :
    GetAsOf tx bucket hBucket key 0 = .ok c := by
  have before : key ++ encodeTimestamp ts < key ++ encodeTimestamp 0 :=
    (SortedStore.append_lt_append_left_iff key _ _).mpr (encodeTimestamp_lt_zero ts big)
  have passed : hB.Seek (key ++ encodeTimestamp 0) = none := by
    rw [Bucket.Seek, SortedStore.seek, only, List.find?_singleton, if_neg (by simpa using before)]
  unfold GetAsOf
  simp only [compositeKeySuffix, history, passed]
  exact getCurrent_present tx bucket key b current c present

theorem GetAsOf_misses_record_at_2_pow_53 :
    GetAsOf (fun name => if name = [0x68] then some ⟨[([1] ++ encodeTimestamp (2 ^ 53), [2])], List.pairwise_singleton _ _⟩
        else if name = [0x61] then some ⟨[([1], [3])], List.pairwise_singleton _ _⟩ else none)
      [0x61] [0x68] [1] 0 = .ok [3] :=
  GetAsOf_misses_late_record _ [0x61] [0x68] [1] ⟨[([1] ++ encodeTimestamp (2 ^ 53), [2])], List.pairwise_singleton _ _⟩
    ⟨[([1], [3])], List.pairwise_singleton _ _⟩ [2] [3] (2 ^ 53) (le_refl _) (by simp) rfl (by simp) (by simp)

end TurboGeth.Ethdb
