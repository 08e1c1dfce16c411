import TurboGeth.Trie.CachedRuns
import TurboGeth.Lib.HexText

/-!
# Saving a trie as text and loading it back

`Trie.Print` writes a trie as text and `Load` reads the text back through a
`bufio.Reader`.  A full node is `f(`, then `i:` and the child for each live
slot `i`, then `)`; a duo node is `d(i1:…i2:…)`; a short node `s(`, its hex
key in `%x`, `:`, its child and `)`; a hash node `h(…)` and a value `v(…)`,
both in `%x`; and the trie ends with a newline.  `Load` builds every node
with zero flags marked dirty and writes every short key afresh with
`hexToCompact`: what comes back is the printed node's skeleton.  A trie saved
and loaded therefore holds the same contents and has the same root hash.
The empty trie is printed as a bare newline, which `Load` refuses.
-/

set_option autoImplicit false
set_option linter.dupNamespace false

namespace TurboGeth.Trie

open HexText

/-! ## Printing -/

def nilDereference : String := "runtime error: invalid memory address or nil pointer dereference"

/-- The bytes `%x` prints a hex key from: each element in a byte of its own. -/
def nibbleBytes (key : List Nibble) : Bytes := key.map nibbleByte

/-- `node.print`.  A full node skips its nil slots; a nil child of a duo or
short node makes Go call `print` on a nil interface, which panics. -/
def Node.print : Node → Except String (List Char)
  | .fullNode children _ => do
      let slots ← (List.finRange 17).mapM fun i =>
        if (children i).isNil then pure []
        else do
          let child ← (children i).print
          pure (formatInt i.val ++ ':' :: child)
      pure (['f', '('] ++ slots.flatten ++ [')'])
  | .duoNode mask child1 child2 _ => do
      let first ← child1.print
      let second ← child2.print
      pure (['d', '('] ++ formatInt (childrenIdx mask).1.val ++ ':' :: first ++
        formatInt (childrenIdx mask).2.val ++ ':' :: second ++ [')'])
  | .shortNode key val _ => do
      let child ← val.print
      pure (['s', '('] ++ encodeHex (nibbleBytes (compactToHex key)) ++ ':' :: child ++ [')'])
  | .hashNode hash => pure (['h', '('] ++ encodeHex hash ++ [')'])
  | .valueNode value => pure (['v', '('] ++ encodeHex value ++ [')'])
  | .nil => throw nilDereference

/-- What `Trie.Print` writes before the root: the trie's key prefix in `%x`
and a colon, when it has one. -/
def printedPrefix : Option Bytes → List Char
  | some key => encodeHex key ++ [':']
  | none => []

/-- `Trie.Print`: the key prefix, the root, and a newline. -/
def Trie.print (keyPrefix : Option Bytes) (t : Trie) : Except String (List Char) := do
  let root ← if t.root.isNil then pure [] else t.root.print
  pure (printedPrefix keyPrefix ++ root ++ ['\n'])

/-! ## Loading -/

/-- The flags of a node `Load` builds: zero, marked dirty. -/
def loadedFlags : NodeFlag := { dirty := true }

def hasTermBytes (s : Bytes) : Bool := s.getLast? == some 16

/-- The pair loop of `decodeNibbles` on bytes. -/
def decodePairsBytes : Bytes → Bytes → Bytes
  | a :: b :: rest, _ :: out => (a <<< 4 ||| b) :: decodePairsBytes rest out
  | [a], x :: out => ((x &&& ~~~(0xf0 : UInt8)) ||| a <<< 4) :: out
  | _, out => out

def decodeNibblesBytes (nibbles : Bytes) (bytes : Bytes) : Bytes :=
  decodePairsBytes (if hasTermBytes nibbles then nibbles.dropLast else nibbles) bytes

/-- `hexToCompact` on the bytes `hex.DecodeString` returns, which need not
be hex elements; on hex elements it is `hexToCompact` of the trie. -/
def hexToCompactBytes (hex : Bytes) : Bytes :=
  let terminator : UInt8 := if hasTermBytes hex then 1 else 0
  let body := if hasTermBytes hex then hex.dropLast else hex
  let buf := List.replicate (body.length / 2) (0 : UInt8)
  match body with
  | first :: rest =>
      if body.length % 2 = 1 then
        (terminator <<< 5 ||| (1 : UInt8) <<< 4 ||| first) :: decodeNibblesBytes rest buf
      else terminator <<< 5 :: decodeNibblesBytes body buf
  | [] => terminator <<< 5 :: decodeNibblesBytes [] buf

/-- `n.Children[idx]`: an index outside the 17 slots panics. -/
def fullSlot (idx : Int) : Option Nibble :=
  if inSlots : 0 ≤ idx ∧ idx < 17 then some ⟨idx.toNat, by omega⟩ else none

/-- `uint32(1) << uint(idx)`: Go shifts a word past its width to zero, and a
negative index converts to such a shift. -/
def maskBit (idx : Int) : UInt32 :=
  if 0 ≤ idx ∧ idx < 32 then (1 : UInt32) <<< idx.toNat.toUInt32 else 0

def indexOutOfRange : String := "runtime error: index out of range"

def sliceOutOfRange : String := "runtime error: slice bounds out of range"

def unknownNodeType (nodeType : List Char) : String := "unknown node type: " ++ String.ofList nodeType

/-- The model's bound on the rounds of the loaders; every round reads at
least one character, and `load` allows one round per character. -/
def roundsExhausted : String := "rounds exhausted"

/-- `loadHash`: the hash in `%x` up to the closing parenthesis. -/
def loadHash (input : List Char) : Except String (Node × List Char) := do
  let (hashHex, rest) ← readUntil ')' input
  let hash ← decodeHex hashHex.dropLast
  pure (.hashNode hash, rest)

/-- `loadValue`: the value in `%x` up to the closing parenthesis. -/
def loadValue (input : List Char) : Except String (Node × List Char) := do
  let (valHex, rest) ← readUntil ')' input
  let val ← decodeHex valHex.dropLast
  pure (.valueNode val, rest)

mutual

/-- `loadNode`: the node type is the character before the first `(`,
`nodeType[len(nodeType)-2:]`, whatever precedes it. -/
def loadNode : Nat → List Char → Except String (Node × List Char)
  | 0, _ => throw roundsExhausted
  | rounds + 1, input => do
      let (nodeType, rest) ← readUntil '(' input
      match nodeType.reverse with
      | '(' :: kind :: _ =>
          match kind with
          | 'f' => loadFull rounds (fun _ => .nil) rest
          | 'd' => loadDuo rounds rest
          | 's' => loadShort rounds rest
          | 'h' => loadHash rest
          | 'v' => loadValue rest
          | _ => throw (unknownNodeType nodeType)
      | _ => throw sliceOutOfRange

/-- The loop of `loadFull`, with the children read so far: an index, a
colon and a child, until the closing parenthesis. -/
def loadFull : Nat → (Nibble → Node) → List Char → Except String (Node × List Char)
  | 0, _, _ => throw roundsExhausted
  | rounds + 1, children, input => do
      let next ← peek input
      if next = ')' then
        let rest ← discard input
        pure (.fullNode children loadedFlags, rest)
      else
        let (idxStr, rest) ← readUntil ':' input
        let idx ← parseInt idxStr.dropLast
        let (child, rest) ← loadNode rounds rest
        match fullSlot idx with
        | some slot => loadFull rounds (Function.update children slot child) rest
        | none => throw indexOutOfRange

/-- `loadDuo`: two indices with their children; the mask has the two
indices' bits, and the character after the second child is discarded
unread. -/
def loadDuo : Nat → List Char → Except String (Node × List Char)
  | 0, _ => throw roundsExhausted
  | rounds + 1, input => do
      let (idxStr1, rest) ← readUntil ':' input
      let idx1 ← parseInt idxStr1.dropLast
      let (child1, rest) ← loadNode rounds rest
      let (idxStr2, rest) ← readUntil ':' rest
      let idx2 ← parseInt idxStr2.dropLast
      let (child2, rest) ← loadNode rounds rest
      let rest ← discard rest
      pure (.duoNode (maskBit idx1 ||| maskBit idx2) child1 child2 loadedFlags, rest)

/-- `loadShort`: the hex key in `%x`, a colon and the child; the key is
written afresh with `hexToCompact`, and the character after the child is
discarded unread. -/
def loadShort : Nat → List Char → Except String (Node × List Char)
  | 0, _ => throw roundsExhausted
  | rounds + 1, input => do
      let (keyHexHex, rest) ← readUntil ':' input
      let keyHex ← decodeHex keyHexHex.dropLast
      let (val, rest) ← loadNode rounds rest
      let rest ← discard rest
      pure (.shortNode (hexToCompactBytes keyHex) val loadedFlags, rest)

end

/-- `Load`: the root node, read from the text. -/
def load (input : List Char) (encodeToBytes : Bool) : Except String Trie := do
  let (root, _) ← loadNode (input.length + 1) input
  pure { root := root, encodeToBytes := encodeToBytes }

/-! ## Keys -/

theorem hasTermBytes_nibbleBytes (hex : List Nibble) : hasTermBytes (nibbleBytes hex) = hasTerm hex := by
  have sameLast : ∀ n : Nibble, (some (nibbleByte n) == some (16 : UInt8)) = (some n == some (16 : Nibble)) := by
    decide
  unfold hasTermBytes hasTerm nibbleBytes
  rw [List.getLast?_map]
  cases hex.getLast? with
  | none => rfl
  | some n => exact sameLast n

theorem dropLast_nibbleBytes (hex : List Nibble) : (nibbleBytes hex).dropLast = nibbleBytes hex.dropLast := by
  simp [nibbleBytes, List.dropLast_eq_take]

theorem decodePairsBytes_nibbleBytes (nibbles : List Nibble) (out : Bytes) :
    decodePairsBytes (nibbleBytes nibbles) out = decodePairs nibbles out := by
  fun_induction decodePairs nibbles out with
  | case1 a b rest _ out ih => simp [nibbleBytes, decodePairsBytes, ← ih]
  | case2 a x out => simp [nibbleBytes, decodePairsBytes]
  | case3 nibbles out notPair notSingle =>
      cases nibbles with
      | nil => cases out <;> rfl
      | cons a rest =>
          cases rest with
          | nil => cases out with
            | nil => rfl
            | cons x out => exact (notSingle a x out rfl rfl).elim
          | cons b rest => cases out with
            | nil => rfl
            | cons x out => exact (notPair a b rest x out rfl rfl).elim

theorem hexToCompactBytes_nibbleBytes (hex : List Nibble) :
    hexToCompactBytes (nibbleBytes hex) = hexToCompact hex := by
  have body : (if hasTerm hex then nibbleBytes hex.dropLast else nibbleBytes hex) =
      nibbleBytes (if hasTerm hex then hex.dropLast else hex) := by
    split <;> rfl
  have decoded : ∀ (nibbles : List Nibble) (out : Bytes),
      decodeNibblesBytes (nibbleBytes nibbles) out = decodeNibbles nibbles out := by
    intro nibbles out
    unfold decodeNibblesBytes decodeNibbles
    rw [hasTermBytes_nibbleBytes, dropLast_nibbleBytes, ← decodePairsBytes_nibbleBytes]
    split <;> rfl
  unfold hexToCompactBytes hexToCompact
  simp only [hasTermBytes_nibbleBytes, dropLast_nibbleBytes, body]
  generalize (if hasTerm hex = true then hex.dropLast else hex) = rest
  cases rest with
  | nil => simp only [nibbleBytes, List.map_nil, List.length_nil]; rfl
  | cons first rest =>
      simp only [nibbleBytes, List.map_cons, List.length_cons, List.length_map]
      split
      · rw [← nibbleBytes, decoded]
      · rw [← List.map_cons, ← nibbleBytes, decoded]

theorem termLast_compactToHex (compact : Bytes) : TermLast (compactToHex compact) := by
  unfold compactToHex
  dsimp only
  apply termLast_drop
  split
  · exact termLast_of_sublist (List.dropLast_sublist _) (keybytesToHex_termLast compact)
  · exact keybytesToHex_termLast compact

/-! ## Skeletons -/

@[simp] theorem Node.isShort_skeleton (n : Node) : n.skeleton.isShort = n.isShort := by
  cases n <;> rfl

theorem Node.denote_skeleton (n : Node) : n.skeleton.denote = n.denote := by
  induction n with
  | nil | hashNode | valueNode => rfl
  | shortNode key val flags valSame =>
      simp only [Node.skeleton, Node.denote_shortNode, compactToHex_hexToCompact _ (termLast_compactToHex key),
        valSame]
  | duoNode mask child1 child2 flags same1 same2 =>
      simp only [Node.skeleton, Node.denote_duoNode, same1, same2]
  | fullNode children flags childrenSame =>
      simp only [Node.skeleton, Node.denote_fullNode, childrenSame]

theorem Node.Canonical.skeleton {n : Node} {term : Bool} (canonical : n.Canonical term) :
    n.skeleton.Canonical term := by
  induction canonical with
  | nil term => exact .nil term
  | valueNode value => exact .valueNode value
  | shortNode key val flags keyLive keyShape valLive valNotShort valCanonical valSkeleton =>
      have keyIs : compactToHex (hexToCompact (compactToHex key)) = compactToHex key :=
        compactToHex_hexToCompact _ keyShape
      refine .shortNode _ _ _ (by rw [keyIs]; exact keyLive) (by rw [keyIs]; exact keyShape)
        (by rw [Node.isNil_skeleton]; exact valLive) (by rw [Node.isShort_skeleton]; exact valNotShort) ?_
      rw [keyIs]
      exact valSkeleton
  | duoNode lower higher ordered child1 child2 flags live1 live2 canonical1 canonical2 skeleton1 skeleton2 =>
      exact .duoNode lower higher ordered _ _ _ (by rw [Node.isNil_skeleton]; exact live1)
        (by rw [Node.isNil_skeleton]; exact live2) skeleton1 skeleton2
  | fullNode children flags threeLive childrenCanonical childrenSkeleton =>
      refine .fullNode _ _ ?_ childrenSkeleton
      rw [liveList_congr fun i => Node.isNil_skeleton (children i)]
      exact threeLive

theorem Node.Canonical.fresh_skeleton {n : Node} {term : Bool} (canonical : n.Canonical term) : n.skeleton.Fresh := by
  induction canonical with
  | nil => exact .nil
  | valueNode value => exact .valueNode value
  | shortNode key val flags keyLive keyShape _ _ _ valFresh =>
      exact .shortNode _ (compactToHex key) keyShape rfl _ _ rfl valFresh
  | duoNode lower higher ordered child1 child2 flags _ _ _ _ fresh1 fresh2 =>
      exact .duoNode _ _ _ _ rfl fresh1 fresh2
  | fullNode children flags _ _ childrenFresh =>
      exact .fullNode _ _ rfl childrenFresh

/-! ## Printable nodes -/

/-- A node `print` writes out and `loadNode` reads back as printed: no nil
child below a short or a duo node, and the mask of every duo node two
distinct bits. -/
inductive Node.Printable : Node → Prop
  | hashNode (hash : Bytes) : Node.Printable (.hashNode hash)
  | valueNode (value : Bytes) : Node.Printable (.valueNode value)
  | shortNode (key : Bytes) (val : Node) (flags : NodeFlag) (valLive : val.isNil = false)
      (valPrintable : Node.Printable val) : Node.Printable (.shortNode key val flags)
  | duoNode (lower higher : Nibble) (ordered : lower < higher) (child1 child2 : Node) (flags : NodeFlag)
      (live1 : child1.isNil = false) (live2 : child2.isNil = false)
      (printable1 : Node.Printable child1) (printable2 : Node.Printable child2) :
      Node.Printable (.duoNode (bit lower ||| bit higher) child1 child2 flags)
  | fullNode (children : Nibble → Node) (flags : NodeFlag)
      (childrenPrintable : ∀ i, (children i).isNil = false → Node.Printable (children i)) :
      Node.Printable (.fullNode children flags)

theorem Node.Canonical.printable {n : Node} {term : Bool} (canonical : n.Canonical term) (live : n.isNil = false) :
    n.Printable := by
  induction canonical with
  | nil => simp at live
  | valueNode value => exact .valueNode value
  | shortNode key val flags _ _ valLive _ _ valPrintable => exact .shortNode key val flags valLive (valPrintable valLive)
  | duoNode lower higher ordered child1 child2 flags live1 live2 _ _ printable1 printable2 =>
      exact .duoNode lower higher ordered child1 child2 flags live1 live2 (printable1 live1) (printable2 live2)
  | fullNode children flags _ _ childrenPrintable => exact .fullNode children flags childrenPrintable

theorem Node.Printable.live {n : Node} (printable : n.Printable) : n.isNil = false := by
  cases printable <;> rfl

theorem Node.Printable.print_ok {n : Node} (printable : n.Printable) : ∃ text, n.print = .ok text := by
  induction printable with
  | hashNode hash => exact ⟨_, rfl⟩
  | valueNode value => exact ⟨_, rfl⟩
  | shortNode key val flags _ _ valPrinted =>
      obtain ⟨child, printed⟩ := valPrinted
      exact ⟨_, by rw [Node.print, printed]; rfl⟩
  | duoNode lower higher ordered child1 child2 flags _ _ _ _ printed1 printed2 =>
      obtain ⟨first, printed1⟩ := printed1
      obtain ⟨second, printed2⟩ := printed2
      exact ⟨_, by rw [Node.print, printed1, printed2]; rfl⟩
  | fullNode children flags _ childrenPrinted =>
      -- every slot is either skipped or printed
      have slots : ∃ slots, (List.finRange 17).mapM (fun i =>
          if (children i).isNil then (pure [] : Except String (List Char))
          else do
            let child ← (children i).print
            pure (formatInt i.val ++ ':' :: child)) = .ok slots := by
        apply ExceptRun.mapM_eq_ok_of_forall
        intro i _
        by_cases dead : (children i).isNil = true
        · exact ⟨[], by rw [if_pos dead]; rfl⟩
        · obtain ⟨child, printed⟩ := childrenPrinted i (by simpa using dead)
          exact ⟨_, by rw [if_neg dead, printed]; rfl⟩
      obtain ⟨slots, mapped⟩ := slots
      exact ⟨_, by rw [Node.print, mapped]; rfl⟩

/-! ## Loading what was printed -/

theorem not_mem_encodeHex {c : Char} (notHex : c ∉ hextable) (bytes : Bytes) : c ∉ encodeHex bytes :=
  fun written => notHex (mem_encodeHex written)

theorem not_mem_formatInt {c : Char} (notDigit : c.isDigit = false) (n : Nat) : c ∉ formatInt n :=
  fun written => Bool.noConfusion (notDigit.symm.trans (mem_formatInt written))

theorem open_not_mem_printedPrefix (keyPrefix : Option Bytes) : '(' ∉ printedPrefix keyPrefix := by
  cases keyPrefix with
  | none => simp [printedPrefix]
  | some key =>
      simp only [printedPrefix, List.mem_append, List.mem_singleton, not_or]
      exact ⟨not_mem_encodeHex (by decide) key, by decide⟩

theorem loadNode_open {rounds : Nat} {lead : List Char} (absent : '(' ∉ lead) {kind : Char} (notOpen : kind ≠ '(')
    (rest : List Char) :
    loadNode (rounds + 1) (lead ++ kind :: '(' :: rest) =
      match (motive := Char → Except String (Node × List Char)) kind with
      | 'f' => loadFull rounds (fun _ => .nil) rest
      | 'd' => loadDuo rounds rest
      | 's' => loadShort rounds rest
      | 'h' => loadHash rest
      | 'v' => loadValue rest
      | _ => throw (unknownNodeType (lead ++ [kind, '('])) := by
  have read : readUntil '(' ((lead ++ [kind]) ++ '(' :: rest) = .ok ((lead ++ [kind]) ++ ['('], rest) :=
    readUntil_append (by simp [absent, Ne.symm notOpen]) rest
  simp only [List.append_assoc, List.cons_append, List.nil_append] at read
  rw [loadNode, read, ExceptRun.ok_bind]
  simp only [List.reverse_append, List.reverse_cons, List.reverse_nil, List.nil_append, List.cons_append]

theorem loadHash_encodeHex (hash : Bytes) (rest : List Char) :
    loadHash (encodeHex hash ++ ')' :: rest) = .ok (.hashNode hash, rest) := by
  rw [loadHash, readUntil_append (not_mem_encodeHex (by decide) hash) rest]
  simp [decodeHex_encodeHex]

theorem loadValue_encodeHex (value : Bytes) (rest : List Char) :
    loadValue (encodeHex value ++ ')' :: rest) = .ok (.valueNode value, rest) := by
  rw [loadValue, readUntil_append (not_mem_encodeHex (by decide) value) rest]
  simp [decodeHex_encodeHex]

theorem readIndex (i : Nibble) (rest : List Char) :
    readUntil ':' (formatInt i.val ++ ':' :: rest) = .ok (formatInt i.val ++ [':'], rest) ∧
      parseInt (formatInt i.val ++ [':']).dropLast = .ok i.val := by
  refine ⟨readUntil_append (not_mem_formatInt (by decide) i.val) rest, ?_⟩
  rw [List.dropLast_concat]
  exact parseInt_formatInt (by have := i.isLt; omega)

theorem maskBit_nibble (i : Nibble) : maskBit (i.val : Int) = bit i := by
  have small : (i.val : Int) < 32 := by have := i.isLt; omega
  rw [maskBit, if_pos ⟨by omega, small⟩, Int.toNat_natCast]
  rfl

theorem fullSlot_nibble (i : Nibble) : fullSlot (i.val : Int) = some i := by
  rw [fullSlot, dif_pos ⟨by omega, by have := i.isLt; omega⟩]
  congr

theorem loadFull_close (rounds : Nat) (children : Nibble → Node) (rest : List Char) :
    loadFull (rounds + 1) children (')' :: rest) = .ok (.fullNode children loadedFlags, rest) :=
  rfl

theorem loadFull_slot (rounds : Nat) (children : Nibble → Node) (i : Nibble) (rest : List Char) :
    loadFull (rounds + 1) children (formatInt i.val ++ ':' :: rest) =
      loadNode rounds rest >>= fun loaded => loadFull rounds (Function.update children i loaded.1) loaded.2 := by
  obtain ⟨first, digits, written⟩ := List.exists_cons_of_ne_nil (Nat.toDigits_ne_nil (n := i.val) (b := 10))
  have firstDigit : first.isDigit := mem_formatInt (n := i.val) (by rw [formatInt, written]; exact List.mem_cons_self)
  have notClose : first ≠ ')' := fun same => by rw [same] at firstDigit; contradiction
  obtain ⟨read, parsed⟩ := readIndex i rest
  rw [loadFull]
  have peeked : peek (formatInt i.val ++ ':' :: rest) = .ok first := by rw [formatInt, written]; rfl
  rw [peeked, ExceptRun.ok_bind, if_neg notClose, read, ExceptRun.ok_bind]
  dsimp only
  rw [parsed, ExceptRun.ok_bind, fullSlot_nibble]

theorem print_fullNode (children : Nibble → Node) (flags : NodeFlag) :
    (Node.fullNode children flags).print = (do
      let slots ← (List.finRange 17).mapM fun i =>
        if (children i).isNil then (pure [] : Except String (List Char))
        else do
          let child ← (children i).print
          pure (formatInt i.val ++ ':' :: child)
      pure (['f', '('] ++ slots.flatten ++ [')'])) := by
  rw [Node.print]

section Slots

variable {children : Nibble → Node}
  (loads : ∀ i, (children i).isNil = false → ∀ {text : List Char}, (children i).print = .ok text →
    ∀ (rounds : Nat) (rest : List Char), text.length ≤ rounds →
      loadNode (rounds + 1) (text ++ rest) = .ok ((children i).skeleton, rest))
include loads

/-- The loop of `loadFull` over printed slots: the slots still to read are
those of the indices in \`l\`, and the children read so far are the
skeletons of the others.  Induction on \`l\`; each round either skips an
empty slot, which the accumulator already holds as nil, or reads one child. -/
theorem loadFull_slots : ∀ (l : List Nibble), l.Nodup → ∀ {slots : List (List Char)},
    l.mapM (fun i => if (children i).isNil then (pure [] : Except String (List Char))
      else do
        let child ← (children i).print
        pure (formatInt i.val ++ ':' :: child)) = .ok slots →
    ∀ (acc : Nibble → Node), (∀ j, acc j = if j ∈ l then .nil else (children j).skeleton) →
    ∀ (rounds : Nat) (rest : List Char), slots.flatten.length < rounds →
      loadFull rounds acc (slots.flatten ++ ')' :: rest) =
        .ok (.fullNode (fun j => (children j).skeleton) loadedFlags, rest)
  | [], _, slots, printed, acc, accIs, rounds, rest, enough => by
      rw [List.mapM_nil, ExceptRun.pure_eq_ok, Except.ok.injEq] at printed
      subst printed
      obtain ⟨r, rfl⟩ : ∃ r, rounds = r + 1 := ⟨rounds - 1, by simp at enough; omega⟩
      have accDone : acc = fun j => (children j).skeleton := funext fun j => by simpa using accIs j
      rw [List.flatten_nil, List.nil_append, loadFull_close, accDone]
  | i :: l, distinct, slots, printed, acc, accIs, rounds, rest, enough => by
      obtain ⟨fresh, distinct⟩ := List.nodup_cons.mp distinct
      obtain ⟨slot, others, printedSlot, printedOthers, rfl⟩ := ExceptRun.mapM_cons_eq_ok.mp printed
      rw [List.flatten_cons, List.length_append] at enough
      rw [List.flatten_cons, List.append_assoc]
      by_cases dead : (children i).isNil = true
      · -- an empty slot is not printed; the accumulator holds it as nil already
        rw [if_pos dead, ExceptRun.pure_eq_ok, Except.ok.injEq] at printedSlot
        subst printedSlot
        refine loadFull_slots l distinct printedOthers acc (fun j => ?_) rounds rest (by simpa using enough)
        by_cases atI : j = i
        · subst atI
          rw [accIs, if_pos List.mem_cons_self, if_neg fresh, Node.eq_nil_of_isNil dead]
          rfl
        · simp only [accIs, List.mem_cons, atI, false_or]
      · -- a live slot is its index and its child
        rw [if_neg dead] at printedSlot
        obtain ⟨child, printedChild, printedSlot⟩ := ExceptRun.bind_eq_ok.mp printedSlot
        rw [ExceptRun.pure_eq_ok, Except.ok.injEq] at printedSlot
        subst printedSlot
        simp only [List.length_append, List.length_cons] at enough
        obtain ⟨r, rfl⟩ : ∃ r, rounds = r + 2 := ⟨rounds - 2, by omega⟩
        have loaded := loads i (by simpa using dead) printedChild r (others.flatten ++ ')' :: rest) (by omega)
        simp only [List.append_assoc, List.cons_append]
        rw [loadFull_slot, loaded, ExceptRun.ok_bind]
        refine loadFull_slots l distinct printedOthers _ (fun j => ?_) (r + 1) rest (by omega)
        by_cases atI : j = i
        · subst atI
          rw [Function.update_self, if_neg fresh]
        · simp only [Function.update_of_ne atI, accIs, List.mem_cons, atI, false_or]

end Slots

theorem loadDuo_body (rounds : Nat) (lower higher : Nibble) {first second : List Char} {loaded1 loaded2 : Node}
    (rest : List Char)
    (child1 : loadNode rounds (first ++ (formatInt higher.val ++ ':' :: (second ++ ')' :: rest))) =
      .ok (loaded1, formatInt higher.val ++ ':' :: (second ++ ')' :: rest)))
    (child2 : loadNode rounds (second ++ ')' :: rest) = .ok (loaded2, ')' :: rest)) :
    loadDuo (rounds + 1)
        (formatInt lower.val ++ ':' :: (first ++ (formatInt higher.val ++ ':' :: (second ++ ')' :: rest)))) =
      .ok (.duoNode (bit lower ||| bit higher) loaded1 loaded2 loadedFlags, rest) := by
  obtain ⟨readLower, parsedLower⟩ := readIndex lower (first ++ (formatInt higher.val ++ ':' :: (second ++ ')' :: rest)))
  obtain ⟨readHigher, parsedHigher⟩ := readIndex higher (second ++ ')' :: rest)
  rw [loadDuo, readLower, ExceptRun.ok_bind]
  dsimp only
  rw [parsedLower, ExceptRun.ok_bind, child1, ExceptRun.ok_bind]
  dsimp only
  rw [readHigher, ExceptRun.ok_bind]
  dsimp only
  rw [parsedHigher, ExceptRun.ok_bind, child2, ExceptRun.ok_bind]
  simp [HexText.discard, maskBit_nibble]

theorem loadNode_alone {n : Node}
    (loads : ∀ {text : List Char}, n.print = .ok text → ∀ (rounds : Nat) (lead rest : List Char),
      '(' ∉ lead → text.length ≤ rounds → loadNode (rounds + 1) (lead ++ text ++ rest) = .ok (n.skeleton, rest))
    {text : List Char} (printed : n.print = .ok text) (rounds : Nat) (rest : List Char) (enough : text.length ≤ rounds) :
    loadNode (rounds + 1) (text ++ rest) = .ok (n.skeleton, rest) := by
  simpa using loads printed rounds [] rest (by simp) enough

/-- Loading what `print` wrote gives back the node's skeleton: whatever
stands before the node type, as long as it has no parenthesis, and whatever
follows the node, within one round per character.  Induction on
\`Printable\`; the full node goes through its slot loop. -/
theorem Node.Printable.loadNode_print {n : Node} (printable : n.Printable) :
    ∀ {text : List Char}, n.print = .ok text → ∀ (rounds : Nat) (lead rest : List Char),
      '(' ∉ lead → text.length ≤ rounds → loadNode (rounds + 1) (lead ++ text ++ rest) = .ok (n.skeleton, rest) := by
  induction printable with
  | hashNode hash =>
      intro text printed rounds lead rest absent _
      rw [Node.print, ExceptRun.pure_eq_ok, Except.ok.injEq] at printed
      subst printed
      simp only [List.append_assoc, List.cons_append, List.nil_append]
      rw [loadNode_open absent (by decide), loadHash_encodeHex]
      rfl
  | valueNode value =>
      intro text printed rounds lead rest absent _
      rw [Node.print, ExceptRun.pure_eq_ok, Except.ok.injEq] at printed
      subst printed
      simp only [List.append_assoc, List.cons_append, List.nil_append]
      rw [loadNode_open absent (by decide), loadValue_encodeHex]
      rfl
  | shortNode key val flags _ _ valLoads =>
      intro text printed rounds lead rest absent enough
      rw [Node.print] at printed
      obtain ⟨child, printedVal, printed⟩ := ExceptRun.bind_eq_ok.mp printed
      rw [ExceptRun.pure_eq_ok, Except.ok.injEq] at printed
      subst printed
      simp only [List.length_append, List.length_cons, List.length_nil] at enough
      obtain ⟨r, rfl⟩ : ∃ r, rounds = r + 2 := ⟨rounds - 2, by omega⟩
      have loaded := loadNode_alone valLoads printedVal r (')' :: rest) (by omega)
      simp only [List.append_assoc, List.cons_append, List.nil_append]
      rw [loadNode_open absent (by decide)]
      rw [loadShort, readUntil_append (not_mem_encodeHex (by decide) _), ExceptRun.ok_bind]
      simp only [List.dropLast_concat, decodeHex_encodeHex, ExceptRun.ok_bind, loaded]
      simp [HexText.discard, hexToCompactBytes_nibbleBytes, Node.skeleton, loadedFlags]
  | duoNode lower higher ordered child1 child2 flags _ _ _ _ loads1 loads2 =>
      intro text printed rounds lead rest absent enough
      rw [Node.print] at printed
      obtain ⟨first, printed1, printed⟩ := ExceptRun.bind_eq_ok.mp printed
      obtain ⟨second, printed2, printed⟩ := ExceptRun.bind_eq_ok.mp printed
      rw [ExceptRun.pure_eq_ok, Except.ok.injEq, childrenIdx_bits lower higher ordered] at printed
      subst printed
      simp only [List.length_append, List.length_cons, List.length_nil] at enough
      obtain ⟨r, rfl⟩ : ∃ r, rounds = r + 2 := ⟨rounds - 2, by omega⟩
      have loaded1 := loadNode_alone loads1 printed1 r (formatInt higher.val ++ ':' :: second ++ ')' :: rest)
        (by omega)
      have loaded2 := loadNode_alone loads2 printed2 r (')' :: rest) (by omega)
      simp only [List.append_assoc, List.cons_append, List.nil_append] at loaded1 ⊢
      rw [loadNode_open absent (by decide)]
      exact (loadDuo_body (r + 1) lower higher rest loaded1 loaded2).trans (by simp [Node.skeleton, loadedFlags])
  | fullNode children flags _ childLoads =>
      intro text printed rounds lead rest absent enough
      rw [print_fullNode] at printed
      obtain ⟨slots, printedSlots, printed⟩ := ExceptRun.bind_eq_ok.mp printed
      rw [ExceptRun.pure_eq_ok, Except.ok.injEq] at printed
      subst printed
      simp only [List.length_append, List.length_cons, List.length_nil] at enough
      have loads : ∀ i, (children i).isNil = false → ∀ {text : List Char}, (children i).print = .ok text →
          ∀ (rounds : Nat) (rest : List Char), text.length ≤ rounds →
            loadNode (rounds + 1) (text ++ rest) = .ok ((children i).skeleton, rest) :=
        fun i live _ printed rounds rest enough => loadNode_alone (childLoads i live) printed rounds rest enough
      simp only [List.append_assoc, List.cons_append, List.nil_append]
      rw [loadNode_open absent (by decide)]
      exact loadFull_slots loads (List.finRange 17) (List.nodup_finRange 17) printedSlots _
        (fun j => by rw [if_pos (List.mem_finRange j)]) rounds rest (by omega)

/-! ## Saving and loading a trie -/

theorem load_print {t : Trie} (printable : t.root.Printable) (keyPrefix : Option Bytes) (encodeToBytes : Bool) :
    ∃ text, t.print keyPrefix = .ok text ∧
      load text encodeToBytes = .ok { root := t.root.skeleton, encodeToBytes := encodeToBytes } := by
  obtain ⟨rootText, printed⟩ := printable.print_ok
  refine ⟨printedPrefix keyPrefix ++ rootText ++ ['\n'], ?_, ?_⟩
  · rw [Trie.print, if_neg (by rw [printable.live]; decide), printed]
    rfl
  · have loaded := printable.loadNode_print printed (printedPrefix keyPrefix ++ rootText ++ ['\n']).length
      (printedPrefix keyPrefix) ['\n']
      (open_not_mem_printedPrefix keyPrefix) (by simp; omega)
    rw [load, loaded]
    rfl

theorem load_print_nil {t : Trie} (empty : t.root.isNil = true) (keyPrefix : Option Bytes) (encodeToBytes : Bool) :
    ∃ text, t.print keyPrefix = .ok text ∧ load text encodeToBytes = .error eof := by
  refine ⟨printedPrefix keyPrefix ++ ['\n'], ?_, ?_⟩
  · rw [Trie.print, if_pos empty]
    simp
  · have absent : '(' ∉ printedPrefix keyPrefix ++ ['\n'] := by
      simp only [List.mem_append, List.mem_singleton, not_or]
      exact ⟨open_not_mem_printedPrefix keyPrefix, by decide⟩
    rw [load, loadNode, readUntil_absent absent]
    rfl

/-- Saving and loading keeps a trie.  After any run of updates and deletions
on a new trie, \`Print\` writes the trie out; unless the trie is empty,
\`Load\` reads the text back as a trie that holds the same store, in
canonical form, and on which \`Hash\` returns what it returns on the trie
itself.  The empty trie, a bare newline after the prefix, is refused at the
end of the input. -/
theorem load_print_runOps (resolveWithDb : TrieContinuation → Except String TrieContinuation) (fuel : Nat)
    (encodeToBytes : Bool) (keccak : Bytes → Bytes) (keyPrefix : Option Bytes) (ops : List TrieOp) :
    ∃ t text, runOps resolveWithDb (fuel + 1) (Trie.new zeroHash encodeToBytes) ops = .ok t ∧
      t.print keyPrefix = .ok text ∧
      (t.root.isNil = true → load text encodeToBytes = .error eof) ∧
      (t.root.isNil = false → ∃ t', load text encodeToBytes = .ok t' ∧ Stores t' (Store.ofOps ops) ∧
        t'.Hash keccak = t.Hash keccak) := by
  obtain ⟨t, run, stores⟩ := runOps_stores resolveWithDb fuel encodeToBytes ops
  by_cases empty : t.root.isNil = true
  · obtain ⟨text, printed, refused⟩ := load_print_nil empty keyPrefix encodeToBytes
    exact ⟨t, text, run, printed, fun _ => refused, fun live => by simp [empty] at live⟩
  · have live : t.root.isNil = false := by simpa using empty
    obtain ⟨text, printed, loaded⟩ := load_print (stores.canonical.printable live) keyPrefix encodeToBytes
    -- the skeleton holds what the root holds
    have storesLoaded : Stores { root := t.root.skeleton, encodeToBytes := encodeToBytes } (Store.ofOps ops) :=
      ⟨stores.canonical.skeleton, stores.canonical.fresh_skeleton, (Node.denote_skeleton t.root).trans stores.denote⟩
    refine ⟨t, text, run, printed, fun dead => by simp [live] at dead, fun _ => ⟨_, loaded, storesLoaded, ?_⟩⟩
    exact Hash_eq_of_stores keccak storesLoaded stores (runOps_encodeToBytes resolveWithDb (fuel + 1) encodeToBytes ops t run).symm

end TurboGeth.Trie
