import TurboGeth.Ethdb.Database

/-!
# A batch is an overlay

What a `mutation` is for: it reads as the database below with its pending
writes laid over it, and `Commit` leaves the database below reading the same.
`view` is what a database reads back at each bucket and key; `Get` is the
view (`get_eq_view`), every write changes the view as it would change a plain
map, and `MultiPut` of the tuples `Commit` builds writes each pending item
once.

Two places where the code parts from that reading: `Has` on a batch answers
yes for a key whose pending item is a deletion, and the two writers of the
history index put the `SUFFIX` record of a Bolt `PutS` and of a committed
batch `PutS` under different keys.
-/

set_option autoImplicit false

namespace TurboGeth.Ethdb

open TurboGeth.Trie

/-! ## The last write to a key -/

/-- The value the last tuple for `bucket` and `key` writes, `old` if none does. -/
def lastSet (tuples : List (Bytes × Bytes × Option Bytes)) (bucket key : Bytes) (old : Option Bytes) :
    Option Bytes :=
  tuples.foldl (fun found (b, k, value) => if b = bucket ∧ k = key then value else found) old

theorem lastSet_of_not_mem (bucket key : Bytes) : ∀ (tuples : List (Bytes × Bytes × Option Bytes))
    (old : Option Bytes), (∀ t ∈ tuples, ¬(t.1 = bucket ∧ t.2.1 = key)) → lastSet tuples bucket key old = old
  | [], _, _ => rfl
  | ⟨b, k, value⟩ :: rest, old, absent => by
      have here := absent ⟨b, k, value⟩ (by simp)
      simp only [lastSet, List.foldl_cons, if_neg here]
      exact lastSet_of_not_mem bucket key rest old fun t member => absent t (by simp [member])

theorem lastSet_of_mem (bucket key : Bytes) (value : Option Bytes) : ∀ (tuples : List (Bytes × Bytes × Option Bytes))
    (old : Option Bytes), (tuples.map fun t => (t.1, t.2.1)).Nodup → (bucket, key, value) ∈ tuples →
      lastSet tuples bucket key old = value
  | [], _, _, member => by simp at member
  | ⟨b, k, v⟩ :: rest, old, distinct, member => by
      simp only [List.map_cons, List.nodup_cons, List.mem_map] at distinct
      rcases List.mem_cons.mp member with first | later
      · simp only [Prod.mk.injEq] at first
        obtain ⟨rfl, rfl, rfl⟩ := first
        simp only [lastSet, List.foldl_cons, and_self, if_true]
        apply lastSet_of_not_mem
        intro t inRest same
        exact distinct.1 ⟨t, inRest, by rw [same.1, same.2]⟩
      · have apart : ¬(b = bucket ∧ k = key) := by
          rintro ⟨rfl, rfl⟩
          exact distinct.1 ⟨(b, k, value), later, rfl⟩
        simp only [lastSet, List.foldl_cons, if_neg apart]
        exact lastSet_of_mem bucket key value rest old distinct.2 later

namespace Database

/-! ## Pending items -/

@[simp] theorem getMem_replaceOrInsert (puts : AList fun _ : Bytes => Tree) (bucket key : Bytes)
    (value : Option Bytes) : getMem (replaceOrInsert puts bucket key value) bucket key = some value := by
  simp only [getMem, replaceOrInsert, AList.lookup_insert, Option.bind_some]

theorem getMem_replaceOrInsert_of_ne (puts : AList fun _ : Bytes => Tree) {bucket key bucket' key' : Bytes}
    (value : Option Bytes) (other : ¬(bucket' = bucket ∧ key' = key)) :
    getMem (replaceOrInsert puts bucket key value) bucket' key' = getMem puts bucket' key' := by
  by_cases sameBucket : bucket' = bucket
  · subst sameBucket
    have otherKey : key' ≠ key := fun same => other ⟨rfl, same⟩
    simp only [getMem, replaceOrInsert, AList.lookup_insert, Option.bind_some, AList.lookup_insert_ne otherKey]
    cases puts.lookup bucket' <;> rfl
  · simp only [getMem, replaceOrInsert, AList.lookup_insert_ne sameBucket]

@[simp] theorem hasMem_eq (puts : AList fun _ : Bytes => Tree) (bucket key : Bytes) :
    hasMem puts bucket key = (getMem puts bucket key).isSome := by
  unfold hasMem getMem
  cases puts.lookup bucket <;> rfl

theorem getMem_replaceOrInsert_eq (puts : AList fun _ : Bytes => Tree) (b k : Bytes) (value : Option Bytes)
    (bucket key : Bytes) :
    getMem (replaceOrInsert puts b k value) bucket key =
      if b = bucket ∧ k = key then some value else getMem puts bucket key := by
  by_cases here : b = bucket ∧ k = key
  · obtain ⟨rfl, rfl⟩ := here
    simp
  · rw [if_neg here, getMem_replaceOrInsert_of_ne _ _ fun ⟨same1, same2⟩ => here ⟨same1.symm, same2.symm⟩]

/-! ## What a database reads -/

/-- What a database reads back at a bucket and key: the pending item of the
topmost batch that has one, and Bolt's value below them all. -/
def view : Database → Bytes → Bytes → Option Bytes
  | .bolt db, bucket, key => db.get bucket key
  | .mutation puts _ db, bucket, key => (getMem puts bucket key).getD (db.view bucket key)

theorem get_eq_view : ∀ (db : Database) (bucket key : Bytes),
    db.get bucket key = match db.view bucket key with
      | some value => .ok value
      | none => .error errKeyNotFound
  | .bolt db, bucket, key => rfl
  | .mutation puts _ db, bucket, key => by
      simp only [get, view]
      rcases getMem puts bucket key with _ | _ | value
      · exact get_eq_view db bucket key
      · rfl
      · rfl

theorem set_get (db : BoltDatabase) (b k : Bytes) (value : Option Bytes) (bucket key : Bytes) :
    (db.set b k value).get bucket key = if b = bucket ∧ k = key then value else db.get bucket key := by
  by_cases here : b = bucket ∧ k = key
  · obtain ⟨rfl, rfl⟩ := here
    simp [BoltDatabase.set]
  · have there : ¬(bucket = b ∧ key = k) := fun ⟨same1, same2⟩ => here ⟨same1.symm, same2.symm⟩
    simp [BoltDatabase.set, there, if_neg here]

theorem view_put (bucket key : Bytes) : ∀ (db : Database) (b k value : Bytes),
    (db.put b k value).view bucket key = if b = bucket ∧ k = key then some value else db.view bucket key
  | .bolt db, b, k, value => set_get db b k (some value) bucket key
  | .mutation puts _ db, b, k, value => by
      simp only [put, view, getMem_replaceOrInsert_eq]
      split <;> rfl

theorem view_delete (bucket key : Bytes) : ∀ (db : Database) (b k : Bytes),
    (db.delete b k).view bucket key = if b = bucket ∧ k = key then none else db.view bucket key
  | .bolt db, b, k => set_get db b k none bucket key
  | .mutation puts _ db, b, k => by
      simp only [delete, view, getMem_replaceOrInsert_eq]
      split <;> rfl

theorem view_multiPut (bucket key : Bytes) : ∀ (db : Database) (tuples : List (Bytes × Bytes × Option Bytes)),
    (db.multiPut tuples).view bucket key = lastSet tuples bucket key (db.view bucket key)
  | .bolt db, tuples => by
      induction tuples generalizing db with
      | nil => rfl
      | cons tuple rest ih =>
          obtain ⟨b, k, value⟩ := tuple
          have step := ih (db.set b k value)
          simp only [multiPut, view, BoltDatabase.multiPut, List.foldl_cons, lastSet] at step ⊢
          rw [step, set_get]
  | .mutation puts suffixkeys db, tuples => by
      induction tuples generalizing puts with
      | nil => rfl
      | cons tuple rest ih =>
          obtain ⟨b, k, value⟩ := tuple
          have step := ih (replaceOrInsert puts b k value)
          simp only [multiPut, view, List.foldl_cons, lastSet] at step ⊢
          rw [step, getMem_replaceOrInsert_eq]
          split <;> rfl

/-! ## Commit -/

theorem mem_tuples (puts : AList fun _ : Bytes => Tree) (bucket key : Bytes) (value : Option Bytes) :
    (bucket, key, value) ∈ tuples puts ↔ getMem puts bucket key = some value := by
  simp only [tuples, getMem, List.mem_flatMap, List.mem_map, List.mem_insertionSort,
    Option.bind_eq_some_iff]
  constructor
  · rintro ⟨⟨b, t⟩, inPuts, ⟨k, v⟩, inTree, same⟩
    simp only [Prod.mk.injEq] at same
    obtain ⟨rfl, rfl, rfl⟩ := same
    exact ⟨t, AList.mem_lookup_iff.mpr inPuts, AList.mem_lookup_iff.mpr inTree⟩
  · rintro ⟨t, inPuts, inTree⟩
    exact ⟨⟨bucket, t⟩, AList.mem_lookup_iff.mp inPuts, ⟨key, value⟩, AList.mem_lookup_iff.mp inTree, rfl⟩

theorem nodup_tuples (puts : AList fun _ : Bytes => Tree) :
    ((tuples puts).map fun t => (t.1, t.2.1)).Nodup := by
  simp only [tuples, List.map_flatMap, List.map_map]
  rw [List.nodup_flatMap]
  constructor
  · rintro ⟨bucket, t⟩ _
    have keysPerm := (List.perm_insertionSort (fun a b : (Σ _ : Bytes, Option Bytes) => a.1 ≤ b.1) t.entries).map
      Sigma.fst
    have sortedKeys : ((t.entries.insertionSort fun a b => a.1 ≤ b.1).map Sigma.fst).Nodup :=
      keysPerm.nodup_iff.mpr t.keys_nodup
    have pairs := sortedKeys.map (f := fun key => (bucket, key)) (fun _ _ same => (Prod.mk.inj same).2)
    simpa [List.map_map, Function.comp_def] using pairs
  · apply (puts.nodupKeys.pairwise_ne).imp
    rintro ⟨b1, t1⟩ ⟨b2, t2⟩ apart
    simp only [List.disjoint_left, List.mem_map, Function.comp_def]
    rintro _ ⟨_, _, rfl⟩ ⟨_, _, same⟩
    exact apart (Prod.mk.inj same).1.symm

theorem view_multiPut_tuples (db : Database) (puts : AList fun _ : Bytes => Tree) (bucket key : Bytes) :
    (db.multiPut (tuples puts)).view bucket key = (getMem puts bucket key).getD (db.view bucket key) := by
  rw [view_multiPut]
  cases pending : getMem puts bucket key with
  | some value =>
      exact lastSet_of_mem bucket key value _ _ (nodup_tuples puts) ((mem_tuples puts bucket key value).mpr pending)
  | none =>
      apply lastSet_of_not_mem
      rintro ⟨b, k, value⟩ member ⟨rfl, rfl⟩
      rw [(mem_tuples puts b k value).mp member] at pending
      cases pending

theorem view_commit_base (puts : AList fun _ : Bytes => Tree)
    (suffixkeys : AList fun _ : Nat => AList fun _ : Bytes => List Bytes) (db : Database) (bucket key : Bytes) :
    (Database.mutation puts suffixkeys db).commit.base.view bucket key =
      (getMem (commitSuffixes db puts suffixkeys.entries) bucket key).getD (db.view bucket key) :=
  view_multiPut_tuples db _ bucket key

theorem commitSuffixes_nil (db : Database) (puts : AList fun _ : Bytes => Tree) :
    commitSuffixes db puts [] = puts := rfl

/-! ## Writes through a batch -/

@[simp] theorem view_newBatch (db : Database) (bucket key : Bytes) : db.newBatch.view bucket key = db.view bucket key :=
  rfl

theorem view_write {db db' : Database} (alike : ∀ bucket key, db.view bucket key = db'.view bucket key) (w : Write)
    (bucket key : Bytes) : (db.write w).view bucket key = (db'.write w).view bucket key := by
  cases w with
  | put b k value => simp only [write, view_put, alike]
  | delete b k => simp only [write, view_delete, alike]
  | multiPut tuples => simp only [write, view_multiPut, alike]

theorem view_writeAll (writes : List Write) : ∀ {db db' : Database},
    (∀ bucket key, db.view bucket key = db'.view bucket key) →
      ∀ bucket key, (db.writeAll writes).view bucket key = (db'.writeAll writes).view bucket key := by
  induction writes with
  | nil => intro db db' alike; exact alike
  | cons w rest ih =>
      intro db db' alike
      exact ih (view_write alike w)

theorem writeAll_batch (db : Database) (writes : List Write) :
    ∃ puts, db.newBatch.writeAll writes = .mutation puts ∅ db := by
  suffices kept : ∀ puts, ∃ puts', (Database.mutation puts ∅ db).writeAll writes = .mutation puts' ∅ db from
    kept ∅
  induction writes with
  | nil => intro puts; exact ⟨puts, rfl⟩
  | cons w rest ih =>
      intro puts
      cases w with
      | put bucket key value => exact ih _
      | delete bucket key => exact ih _
      | multiPut tuples => exact ih _

theorem get_batch_writeAll (db : Database) (writes : List Write) (bucket key : Bytes) :
    (db.newBatch.writeAll writes).get bucket key = (db.writeAll writes).get bucket key := by
  rw [get_eq_view, get_eq_view, view_writeAll writes (fun _ _ => view_newBatch db _ _)]

theorem commit_batch_writeAll (db : Database) (writes : List Write) :
    (∀ bucket key, (db.newBatch.writeAll writes).commit.base.view bucket key = (db.writeAll writes).view bucket key) ∧
      ∃ db', (db.newBatch.writeAll writes).commit = .mutation ∅ ∅ db' := by
  obtain ⟨puts, shape⟩ := writeAll_batch db writes
  refine ⟨fun bucket key => ?_, _, by rw [shape]; rfl⟩
  have batchView := view_writeAll writes (fun _ _ => view_newBatch db _ _) bucket key
  rw [shape] at batchView ⊢
  rw [view_commit_base, ← batchView]
  rfl

theorem rollback_batch_writeAll (db : Database) (writes : List Write) :
    (db.newBatch.writeAll writes).rollback.base = db := by
  obtain ⟨puts, shape⟩ := writeAll_batch db writes
  rw [shape]
  rfl

/-! ## Has on a deletion -/

/-- A key deleted through a batch: `Get` on the batch reports it missing, but
`Has` still finds its pending item; deleted directly from Bolt, `Has` answers
no. -/
theorem has_after_batch_delete (db : BoltDatabase) (bucket key : Bytes) :
    (((Database.bolt db).newBatch.delete bucket key).has bucket key = true ∧
      ((Database.bolt db).newBatch.delete bucket key).get bucket key = .error errKeyNotFound) ∧
    ((Database.bolt db).delete bucket key).has bucket key = false := by
  refine ⟨⟨?_, ?_⟩, ?_⟩
  · simp [newBatch, delete, has]
  · simp [newBatch, delete, get]
  · simp [delete, has, BoltDatabase.has, BoltDatabase.delete, BoltDatabase.set]

/-! ## The `SUFFIX` record of `PutS` -/

/-- The `SUFFIX` record of one history write under a bucket whose name is not
all zero bytes: written by Bolt's `PutS` it is not where a committed batch
puts it, under the encoded timestamp followed by the bucket's name. -/
theorem putS_suffix_records_differ (db : BoltDatabase) (hBucket key value : Bytes) (timestamp : Nat)
    (named : hBucket ≠ List.replicate hBucket.length 0) (history : hBucket ≠ suffixBucket)
    (fresh : db.get suffixBucket (encodeTimestamp timestamp ++ hBucket) = none) :
    ((Database.bolt db).putS hBucket key value timestamp).view suffixBucket (encodeTimestamp timestamp ++ hBucket) =
        none ∧
      ((Database.bolt db).newBatch.putS hBucket key value timestamp).commit.base.view suffixBucket
        (encodeTimestamp timestamp ++ hBucket) = some (appendSuffixKeys none [key]) := by
  constructor
  · have apart : encodeTimestamp timestamp ++ hBucket ≠ encodeTimestamp timestamp ++ List.replicate hBucket.length 0 :=
      fun same => named (List.append_cancel_left same)
    simp [putS, view, BoltDatabase.putS, BoltDatabase.put, set_get, compositeKeySuffix, Ne.symm named, history,
      fresh]
  · have noSuffixTree : getMem (replaceOrInsert ∅ hBucket (compositeKeySuffix key timestamp).1 (some value))
        suffixBucket (encodeTimestamp timestamp ++ hBucket) = none := by
      rw [getMem_replaceOrInsert_of_ne _ _ fun same => history same.1.symm]
      rfl
    rw [newBatch, putS, view_commit_base]
    simp [commitSuffixes, getNoLock, noSuffixTree, get, fresh, AList.insert_empty, AList.singleton_entries]
    rfl

theorem putS_suffix_records_differ_hAT :
    ([0x68, 0x41, 0x54] ≠ List.replicate 3 (0 : UInt8) ∧ [0x68, 0x41, 0x54] ≠ suffixBucket ∧
      (⟨fun _ _ => none⟩ : BoltDatabase).get suffixBucket (encodeTimestamp 5 ++ [0x68, 0x41, 0x54]) = none) ∧
    ((Database.bolt ⟨fun _ _ => none⟩).putS [0x68, 0x41, 0x54] [1] [2] 5).view suffixBucket
        (encodeTimestamp 5 ++ [0x68, 0x41, 0x54]) = none ∧
      ((Database.bolt ⟨fun _ _ => none⟩).newBatch.putS [0x68, 0x41, 0x54] [1] [2] 5).commit.base.view suffixBucket
        (encodeTimestamp 5 ++ [0x68, 0x41, 0x54]) = some (appendSuffixKeys none [[1]]) :=
  ⟨⟨by decide, by decide, rfl⟩,
    putS_suffix_records_differ ⟨fun _ _ => none⟩ [0x68, 0x41, 0x54] [1] [2] 5 (by decide) (by decide) rfl⟩

end Database

end TurboGeth.Ethdb
