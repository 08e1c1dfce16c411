import TurboGeth.Trie.Encoding
import Mathlib.Data.List.AList
import Mathlib.Data.List.Sort

/-!
# The key-value database and its write batches

`BoltDatabase` and `mutation` of `ethdb/database.go`.  Bolt itself lives
outside the repository; it is taken as what the wrappers read from it: a
value, or nothing, for every bucket and key.  `Bucket.MultiPut` deletes a key
given a nil value and stores it otherwise.

A `mutation` buffers writes in one search tree per bucket; a deletion is an
item whose value is nil.  `NewBatch` may be called on a mutation as well, so a
database is Bolt under a stack of batches, each over the one below.

History writes (`PutS`) put the value under the key followed by the encoded
timestamp in the history bucket, and record the key in the `SUFFIX` bucket
under the encoded timestamp followed by the history bucket's name: a count of
keys in four big-endian bytes, then each key behind a length byte.
-/

set_option autoImplicit false

namespace TurboGeth.Ethdb

open TurboGeth.Trie

def errKeyNotFound : String := "boltdb: key not found in range"

/-- `SuffixBucket`: the bytes of `"SUFFIX"`. -/
def suffixBucket : Bytes := [0x53, 0x55, 0x46, 0x46, 0x49, 0x58]

/-- `encodeTimestamp`: big-endian in as few bytes as leave the three top bits
of the first byte free for the byte count; empty past `2 ^ 61`. -/
def encodeTimestamp (timestamp : Nat) : Bytes :=
  match (List.range 8).find? fun i => timestamp < 32 * 256 ^ i with
  | some i =>
      (UInt8.ofNat (timestamp / 256 ^ i) ||| (UInt8.ofNat (i + 1) <<< 5)) ::
        (List.range i).reverse.map fun j => UInt8.ofNat (timestamp / 256 ^ j)
  | none => []

/-- `compositeKeySuffix`: the history key and the encoded timestamp. -/
def compositeKeySuffix (key : Bytes) (timestamp : Nat) : Bytes × Bytes :=
  (key ++ encodeTimestamp timestamp, encodeTimestamp timestamp)

/-- `binary.BigEndian.Uint32` of the first four bytes. -/
def uint32 (b : Bytes) : Nat :=
  ((b.getD 0 0).toNat * 256 + (b.getD 1 0).toNat) * 65536 + (b.getD 2 0).toNat * 256 + (b.getD 3 0).toNat

/-- `binary.BigEndian.PutUint32` into the first four bytes. -/
def putUint32 (b : Bytes) (v : Nat) : Bytes :=
  [UInt8.ofNat (v / 16777216), UInt8.ofNat (v / 65536), UInt8.ofNat (v / 256), UInt8.ofNat v] ++ b.drop 4

/-- A record of the `SUFFIX` bucket extended by `keys`: the count raised by
their number, and each key appended behind its length byte. -/
def appendSuffixKeys (dat : Option Bytes) (keys : List Bytes) : Bytes :=
  let base := dat.getD [0, 0, 0, 0]
  putUint32 (base ++ keys.flatMap fun key => UInt8.ofNat key.length :: key) ((keys.length + uint32 base) % 2 ^ 32)

/-- The contents of a Bolt database. -/
structure BoltDatabase where
  get : Bytes → Bytes → Option Bytes

namespace BoltDatabase

/-- The store after one write: `some` stores, `none` deletes. -/
def set (db : BoltDatabase) (bucket key : Bytes) (value : Option Bytes) : BoltDatabase :=
  ⟨fun b k => if b = bucket ∧ k = key then value else db.get b k⟩

def put (db : BoltDatabase) (bucket key value : Bytes) : BoltDatabase := db.set bucket key (some value)

def delete (db : BoltDatabase) (bucket key : Bytes) : BoltDatabase := db.set bucket key none

/-- `MultiPut` over `(bucket, key, value)` tuples, nil values deleting. -/
def multiPut (db : BoltDatabase) (tuples : List (Bytes × Bytes × Option Bytes)) : BoltDatabase :=
  tuples.foldl (fun db (bucket, key, value) => db.set bucket key value) db

def has (db : BoltDatabase) (bucket key : Bytes) : Bool := (db.get bucket key).isSome

/-- `PutS`.  The suffix key is allocated with room for the bucket name, but
only the encoded timestamp is copied into it. -/
def putS (db : BoltDatabase) (hBucket key value : Bytes) (timestamp : Nat) : BoltDatabase :=
  let (composite, suffix) := compositeKeySuffix key timestamp
  let suffixkey := suffix ++ List.replicate hBucket.length 0
  let db := db.put hBucket composite value
  db.put suffixBucket suffixkey (appendSuffixKeys (db.get suffixBucket suffixkey) [key])

end BoltDatabase

/-- The pending writes of one bucket, `none` for a deletion. -/
abbrev Tree := AList fun _ : Bytes => Option Bytes

/-- `Database`: Bolt, or a `mutation` (its `puts`, its `suffixkeys` and the
database it was made from). -/
inductive Database where
  | bolt (db : BoltDatabase)
  | mutation (puts : AList fun _ : Bytes => Tree) (suffixkeys : AList fun _ : Nat => AList fun _ : Bytes => List Bytes)
      (db : Database)

namespace Database

def newBatch (db : Database) : Database := .mutation ∅ ∅ db

/-- `ReplaceOrInsert` into the tree of a bucket, creating it if missing. -/
def replaceOrInsert (puts : AList fun _ : Bytes => Tree) (bucket key : Bytes) (value : Option Bytes) :
    AList fun _ : Bytes => Tree :=
  puts.insert bucket (((puts.lookup bucket).getD ∅).insert key value)

/-- `getMem`: the pending item of the key, if any. -/
def getMem (puts : AList fun _ : Bytes => Tree) (bucket key : Bytes) : Option (Option Bytes) :=
  (puts.lookup bucket).bind fun t => t.lookup key

/-- `hasMem`: whether the tree of the bucket holds an item for the key. -/
def hasMem (puts : AList fun _ : Bytes => Tree) (bucket key : Bytes) : Bool :=
  match puts.lookup bucket with
  | some t => (t.lookup key).isSome
  | none => false

def get : Database → Bytes → Bytes → Except String Bytes
  | .bolt db, bucket, key =>
      match db.get bucket key with
      | some v => .ok v
      | none => .error errKeyNotFound
  | .mutation puts _ db, bucket, key =>
      match getMem puts bucket key with
      | some (some value) => .ok value
      | some none => .error errKeyNotFound
      | none => db.get bucket key

def has : Database → Bytes → Bytes → Bool
  | .bolt db, bucket, key => db.has bucket key
  | .mutation puts _ db, bucket, key => hasMem puts bucket key || db.has bucket key

def put : Database → Bytes → Bytes → Bytes → Database
  | .bolt db, bucket, key, value => .bolt (db.put bucket key value)
  | .mutation puts suffixkeys db, bucket, key, value =>
      .mutation (replaceOrInsert puts bucket key (some value)) suffixkeys db

def delete : Database → Bytes → Bytes → Database
  | .bolt db, bucket, key => .bolt (db.delete bucket key)
  | .mutation puts suffixkeys db, bucket, key => .mutation (replaceOrInsert puts bucket key none) suffixkeys db

def multiPut : Database → List (Bytes × Bytes × Option Bytes) → Database
  | .bolt db, tuples => .bolt (db.multiPut tuples)
  | .mutation puts suffixkeys db, tuples =>
      .mutation (tuples.foldl (fun puts (bucket, key, value) => replaceOrInsert puts bucket key value) puts)
        suffixkeys db

/-- `mutation.PutS`: the history write goes to the tree at once, the key is
remembered under its timestamp and bucket for `Commit`. -/
def putS : Database → Bytes → Bytes → Bytes → Nat → Database
  | .bolt db, hBucket, key, value, timestamp => .bolt (db.putS hBucket key value timestamp)
  | .mutation puts suffixkeys db, hBucket, key, value, timestamp =>
      let suffixM := (suffixkeys.lookup timestamp).getD ∅
      let suffixL := (suffixM.lookup hBucket).getD []
      .mutation (replaceOrInsert puts hBucket (compositeKeySuffix key timestamp).1 (some value))
        (suffixkeys.insert timestamp (suffixM.insert hBucket (suffixL ++ [key]))) db

/-- `getNoLock`, as `Commit` reads the `SUFFIX` record: the pending item, or
the database below. -/
def getNoLock (puts : AList fun _ : Bytes => Tree) (db : Database) (bucket key : Bytes) : Option Bytes :=
  match getMem puts bucket key with
  | some value => value
  | none => (db.get bucket key).toOption

/-- The first loop of `Commit`: one `SUFFIX` record per timestamp and bucket,
extended by the keys written there. -/
def commitSuffixes (db : Database) (puts : AList fun _ : Bytes => Tree)
    (suffixkeys : List (Σ _ : Nat, AList fun _ : Bytes => List Bytes)) : AList fun _ : Bytes => Tree :=
  suffixkeys.foldl (fun puts ⟨timestamp, suffixM⟩ =>
    suffixM.entries.foldl (fun puts ⟨hBucket, suffixL⟩ =>
      let suffixkey := encodeTimestamp timestamp ++ hBucket
      replaceOrInsert puts suffixBucket suffixkey
        (some (appendSuffixKeys (getNoLock puts db suffixBucket suffixkey) suffixL))) puts) puts

/-- The tuples `Commit` hands to `MultiPut`: bucket by bucket, each tree in
ascending key order. -/
def tuples (puts : AList fun _ : Bytes => Tree) : List (Bytes × Bytes × Option Bytes) :=
  puts.entries.flatMap fun ⟨bucket, t⟩ =>
    (t.entries.insertionSort fun a b => a.1 ≤ b.1).map fun ⟨key, value⟩ => (bucket, key, value)

/-- `Commit`: write the `SUFFIX` records, hand every pending item to the
database below, and start empty again. -/
def commit : Database → Database
  | .bolt db => .bolt db
  | .mutation puts suffixkeys db =>
      let puts := commitSuffixes db puts suffixkeys.entries
      .mutation ∅ ∅ (db.multiPut (tuples puts))

def rollback : Database → Database
  | .bolt db => .bolt db
  | .mutation _ _ db => .mutation ∅ ∅ db

/-- The database a batch was made from. -/
def base : Database → Database
  | .bolt db => .bolt db
  | .mutation _ _ db => db

end Database

/-- A call of `Put`, `Delete` or `MultiPut`. -/
inductive Write where
  | put (bucket key value : Bytes)
  | delete (bucket key : Bytes)
  | multiPut (tuples : List (Bytes × Bytes × Option Bytes))

namespace Database

def write (db : Database) : Write → Database
  | .put bucket key value => db.put bucket key value
  | .delete bucket key => db.delete bucket key
  | .multiPut tuples => db.multiPut tuples

def writeAll (db : Database) (writes : List Write) : Database := writes.foldl write db

end Database

end TurboGeth.Ethdb
