import TurboGeth.Lib.Rlp

/-!
# The Merkle Patricia root of a finite map

The commitment of the Ethereum Yellow Paper (appendix D) to a set of
byte-string keys and values.  Keys are read as paths of nibbles, and the
structure `c(I, i)` of the entries `I` that share their first `i` nibbles is

* a leaf, the rest of the path in hex-prefix form and the value, when `I` has
  one entry;
* an extension, the shared part of the paths and the structure below it,
  when all paths share more than `i` nibbles;
* a branch otherwise: one child for each next nibble and, in a seventeenth
  slot, the value of the entry whose path ends at `i`.

A child stands in its parent as itself when its encoding is shorter than a
hash, as the hash of its encoding otherwise, and as the empty string when no
entry lies below it.  The root is the hash of the encoding of `c(I, 0)`.

The hash function is a parameter, and the recursion is bounded by a depth
that the longest path provides.
-/

set_option autoImplicit false

namespace MerklePatricia

abbrev Path := List (Fin 16)

/-- The two nibbles of each byte, the high one first. -/
def nibbles (key : List UInt8) : Path :=
  key.flatMap fun b => [Fin.ofNat 16 (b.toNat / 16), Fin.ofNat 16 b.toNat]

/-- Nibbles packed two to a byte. -/
def packNibbles : Path → List UInt8
  | high :: low :: rest => UInt8.ofNat (16 * high.val + low.val) :: packNibbles rest
  | _ => []

/-- `HP(x, t)`: a flag nibble, two for a leaf and one more for an odd path, a
zero nibble after it when the path is even, and the path packed behind. -/
def hexPrefix (x : Path) (leaf : Bool) : List UInt8 :=
  let flag : Fin 16 := if leaf then 2 else 0
  packNibbles ((if x.length % 2 = 0 then [flag, 0] else [flag + 1]) ++ x)

/-- The number of leading nibbles two paths share. -/
def sharedLen : Path → Path → Nat
  | a :: as, b :: bs => if a = b then sharedLen as bs + 1 else 0
  | _, _ => 0

/-- The length of the longest path that starts every one of `paths`. -/
def commonLen : List Path → Nat
  | [] => 0
  | p :: ps => ps.foldl (fun n q => min n (sharedLen p q)) p.length

section Collapse

variable (keccak : List UInt8 → List UInt8)

/-- `n(I, i)` for a non-empty `I`: the structure itself when its encoding is
shorter than a hash, the hash of the encoding otherwise. -/
def reference (c : Rlp.Item) : Rlp.Item :=
  if (Rlp.encode c).length < 32 then c else .bytes (keccak (Rlp.encode c))

/-- The entries whose path continues with nibble `d` at position `i`. -/
def group (items : List (Path × List UInt8)) (i : Nat) (d : Fin 16) : List (Path × List UInt8) :=
  items.filter fun e => e.1[i]? = some d

/-- The value of the entry whose path ends at `i`, empty when there is none. -/
def valueAt (items : List (Path × List UInt8)) (i : Nat) : List UInt8 :=
  ((items.find? fun e => e.1.length = i).map Prod.snd).getD []

/-- One level of `c(I, i)`, the structure standing for a group of entries
below it given by `below`. -/
def level (below : List (Path × List UInt8) → Nat → Rlp.Item) (items : List (Path × List UInt8)) (i : Nat) :
    Rlp.Item :=
  match items with
  | [(path, value)] => .list [.bytes (hexPrefix (path.drop i) true), .bytes value]
  | _ =>
      let j := commonLen (items.map Prod.fst)
      if i < j then
        .list [.bytes (hexPrefix ((((items.head?.map Prod.fst).getD []).drop i).take (j - i)) false), below items j]
      else
        .list ((List.finRange 16).map (fun d => below (group items i d) (i + 1)) ++ [.bytes (valueAt items i)])

/-- `c(I, i)` for the entries `items`, whose paths share their first `i`
nibbles, at most `depth` levels deep. -/
def collapse : Nat → List (Path × List UInt8) → Nat → Rlp.Item
  | 0, _, _ => .bytes []
  | depth + 1, items, i =>
      level (fun group j => if group.isEmpty then .bytes [] else reference keccak (collapse depth group j)) items i

/-- `n(I, j)`: nothing for an empty group, the reference of its structure
otherwise. -/
def child (depth : Nat) (group : List (Path × List UInt8)) (j : Nat) : Rlp.Item :=
  if group.isEmpty then .bytes [] else reference keccak (collapse keccak depth group j)

/-- The length of the longest key path, which bounds the depth of the
structure. -/
def depthOf (items : List (Path × List UInt8)) : Nat :=
  (items.map fun e => e.1.length).foldr max 0 + 1

/-- `TRIE(I)`: the hash of the encoding of `c(I, 0)`, and the hash of the
empty string for the empty map. -/
def root (entries : List (List UInt8 × List UInt8)) : List UInt8 :=
  let items := entries.map fun e => (nibbles e.1, e.2)
  keccak (Rlp.encode (if items.isEmpty then .bytes [] else collapse keccak (depthOf items) items 0))

theorem reference_short (c : Rlp.Item) (short : (Rlp.encode c).length < 32) : reference keccak c = c := by
  simp [reference, short]

theorem collapse_succ (depth : Nat) (items : List (Path × List UInt8)) (i : Nat) :
    collapse keccak (depth + 1) items i = level (child keccak depth) items i := rfl

@[simp] theorem child_nil (depth j : Nat) : child keccak depth [] j = .bytes [] := rfl

theorem child_cons (depth : Nat) (e : Path × List UInt8) (rest : List (Path × List UInt8)) (j : Nat) :
    child keccak depth (e :: rest) j = reference keccak (collapse keccak depth (e :: rest) j) := rfl

theorem level_single (below : List (Path × List UInt8) → Nat → Rlp.Item) (path : Path) (value : List UInt8)
    (i : Nat) : level below [(path, value)] i = .list [.bytes (hexPrefix (path.drop i) true), .bytes value] := rfl

theorem level_shared (below : List (Path × List UInt8) → Nat → Rlp.Item) (a b : Path × List UInt8)
    (rest : List (Path × List UInt8)) (i : Nat) (shared : i < commonLen ((a :: b :: rest).map Prod.fst)) :
    level below (a :: b :: rest) i =
      .list [.bytes (hexPrefix ((a.1.drop i).take (commonLen ((a :: b :: rest).map Prod.fst) - i)) false),
        below (a :: b :: rest) (commonLen ((a :: b :: rest).map Prod.fst))] := by
  simp only [level, if_pos shared]
  rfl

theorem level_branch (below : List (Path × List UInt8) → Nat → Rlp.Item) (a b : Path × List UInt8)
    (rest : List (Path × List UInt8)) (i : Nat) (parted : commonLen ((a :: b :: rest).map Prod.fst) ≤ i) :
    level below (a :: b :: rest) i =
      .list ((List.finRange 16).map (fun d => below (group (a :: b :: rest) i d) (i + 1)) ++
        [.bytes (valueAt (a :: b :: rest) i)]) := by
  simp only [level, if_neg (Nat.not_lt.mpr parted)]

theorem root_of_ne_nil (entries : List (List UInt8 × List UInt8)) (live : entries ≠ []) :
    root keccak entries =
      keccak (Rlp.encode (collapse keccak (depthOf (entries.map fun e => (nibbles e.1, e.2)))
        (entries.map fun e => (nibbles e.1, e.2)) 0)) := by
  simp [root, live]

theorem root_single (key value : List UInt8) :
    root keccak [(key, value)] =
      keccak (Rlp.encode (.list [.bytes (hexPrefix (nibbles key) true), .bytes value])) := by
  rw [root_of_ne_nil keccak _ (List.cons_ne_nil _ _)]
  rfl

end Collapse

end MerklePatricia
