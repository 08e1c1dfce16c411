import TurboGeth.Trie.Trie

/-!
# Nodes built in memory

A trie that `New` creates on the empty root and that only `TryUpdate` and
`TryDelete` change holds nodes of a particular kind: there is no hash node,
every loaded node is dirty, since `insert` and `delete` mark every node on the
path they rewrite and build every new node dirty, and every short node's key
is the compact form of a hex key, since those keys are all written with
`hexToCompact`.  `Node.Fresh` is that invariant.  It is what lets the hasher
read a node's shape alone: a dirty node is encoded, never replaced by a cached
hash, and its short keys are determined by the hex keys they stand for.

The induction for `insert` and for `delete` follows the branches of the code,
by functional induction; the continuations of `delete` get a lemma each.
-/

set_option autoImplicit false

namespace TurboGeth.Trie

open PathMap

/-! ## Nodes as insertion and deletion build them -/

/-- A node built in memory: no hash node, every loaded node dirty, and every
short key the compact form of a hex key with the terminator at most at its
end. -/
inductive Node.Fresh : Node → Prop
  | nil : Node.Fresh .nil
  | valueNode (value : Bytes) : Node.Fresh (.valueNode value)
  | shortNode (key : Bytes) (hex : List Nibble) (shape : TermLast hex) (compact : key = hexToCompact hex)
      (val : Node) (flags : NodeFlag) (dirty : flags.dirty = true) (valFresh : Node.Fresh val) :
      Node.Fresh (.shortNode key val flags)
  | duoNode (mask : UInt32) (child1 child2 : Node) (flags : NodeFlag) (dirty : flags.dirty = true)
      (fresh1 : Node.Fresh child1) (fresh2 : Node.Fresh child2) :
      Node.Fresh (.duoNode mask child1 child2 flags)
  | fullNode (children : Nibble → Node) (flags : NodeFlag) (dirty : flags.dirty = true)
      (childrenFresh : ∀ i, Node.Fresh (children i)) :
      Node.Fresh (.fullNode children flags)

namespace Node.Fresh

theorem adjustTod {n : Node} (fresh : n.Fresh) (fallback : Nat) : (n.adjustTod fallback).Fresh := by
  cases fresh with
  | nil => exact .nil
  | valueNode value => exact .valueNode value
  | shortNode key hex shape compact val flags dirty valFresh =>
      exact .shortNode key hex shape compact val _ dirty valFresh
  | duoNode mask child1 child2 flags dirty fresh1 fresh2 => exact .duoNode mask child1 child2 _ dirty fresh1 fresh2
  | fullNode children flags dirty childrenFresh => exact .fullNode children _ dirty childrenFresh

theorem whenAdjust {n : Node} (fresh : n.Fresh) (adjust : Bool) (blockNr : Nat) :
    (TurboGeth.Trie.whenAdjust adjust n blockNr).Fresh := by
  cases adjust
  · exact fresh
  · exact fresh.adjustTod blockNr

theorem shortKey {key : Bytes} {val : Node} {flags : NodeFlag} (fresh : (Node.shortNode key val flags).Fresh) :
    TermLast (compactToHex key) ∧ key = hexToCompact (compactToHex key) := by
  cases fresh with
  | shortNode _ hex shape compact =>
      subst compact
      rw [compactToHex_hexToCompact hex shape]
      exact ⟨shape, rfl⟩

theorem update {children : Nibble → Node} (childrenFresh : ∀ i, (children i).Fresh) {child : Node}
    (fresh : child.Fresh) (slot : Nibble) : ∀ i, (Function.update children slot child i).Fresh := by
  intro i
  by_cases atSlot : i = slot
  · subst atSlot
    simpa using fresh
  · simpa [atSlot] using childrenFresh i

end Node.Fresh

theorem dirty_of_stampT {flags stamped : NodeFlag} {t : Nat} {events : List GenEvent}
    (stamp : stampT flags t = (stamped, events)) : stamped.dirty = flags.dirty := by
  have stampedIs : (stampT flags t).1 = stamped := congrArg Prod.fst stamp
  rw [← stampedIs]
  unfold stampT
  split <;> rfl

theorem dirty_of_updated {flags : NodeFlag} (dirty : flags.dirty = true) (updated : Bool) :
    (if updated = true then { flags with dirty := true } else flags).dirty = true := by
  split <;> simp [dirty]

theorem fresh_newShortNode {key : List Nibble} (shape : TermLast key) {val : Node} (valFresh : val.Fresh)
    (blockNr : Nat) : (newShortNode key val blockNr).Fresh :=
  (Node.Fresh.shortNode _ key shape rfl val _ rfl valFresh).adjustTod blockNr

theorem fresh_leafFor {key : List Nibble} (shape : TermLast key) (pos : Nat) {val : Node} (valFresh : val.Fresh)
    (blockNr : Nat) : (leafFor key pos val blockNr).1.Fresh := by
  unfold leafFor
  split
  · exact valFresh
  · exact fresh_newShortNode (termLast_drop shape _) valFresh blockNr

/-! ## Insertion keeps nodes fresh -/

theorem returned {r result : Bool × TrieContinuation × List GenEvent} (run : (pure r : Outcome) = .ok result) :
    result = r :=
  (Except.ok.inj run).symm

theorem returned_bind {inner : Outcome} {k : Bool × TrieContinuation × List GenEvent → Outcome}
    {result : Bool × TrieContinuation × List GenEvent} (run : (inner >>= k) = .ok result) :
    ∃ done c events, inner = .ok (done, c, events) ∧ k (done, c, events) = .ok result := by
  obtain ⟨⟨done, c, events⟩, ran, rest⟩ := ExceptRun.bind_eq_ok.mp run
  exact ⟨done, c, events, ran, rest⟩

theorem leaf_pair {P : Node → Prop} {first second child1 child2 : Node} (holds1 : P first) (holds2 : P second)
    {lower : Prop} [Decidable lower] (ordered : (if lower then (first, second) else (second, first)) = (child1, child2)) :
    P child1 ∧ P child2 := by
  split at ordered <;> simp only [Prod.mk.injEq] at ordered <;> obtain ⟨rfl, rfl⟩ := ordered
  · exact ⟨holds1, holds2⟩
  · exact ⟨holds2, holds1⟩

section Insert

variable {key : List Nibble} (shape : HexKey key) {value : Node} (valueFresh : value.Fresh) (blockNr : Nat)
include shape valueFresh

/-- Every successful `insert` of a fresh value into a fresh node under a hex
key leaves a fresh node.  The induction follows the branches of `insert`; a
fresh node has no hash node, so the branches that resolve one do not occur. -/
theorem insert_fresh {n : Node} {pos : Nat} {c : TrieContinuation} :
    ∀ {result : Bool × TrieContinuation × List GenEvent}, n.Fresh →
      insert n key pos value c blockNr = .ok result → result.2.1.n.Fresh := by
  fun_induction insert n key pos value c blockNr with
  | case1 c old new valueIs =>
      intro result _ run
      rw [returned run]
      dsimp only
      split
      · exact valueIs ▸ valueFresh
      · exact .valueNode old
  | case3 =>
      intro result _ run
      rw [returned run]
      exact valueFresh
  | case4 pos c notEnd nk nval nflags nKey matchlen whole =>
      rename_i below
      intro result fresh run
      obtain ⟨done, c', events, inner, run⟩ := returned_bind run
      rw [returned run]
      cases fresh with
      | shortNode _ hex hexShape compact _ _ dirty valFresh =>
          exact (Node.Fresh.shortNode _ hex hexShape compact _ _ (dirty_of_updated dirty _)
            (below valFresh inner)).adjustTod blockNr
  | case5 pos c notEnd nk nval nflags nKey matchlen parts keyNibble keyAt nNibble nAt leaf1 events1 leaf1Is
      leaf2 events2 leaf2Is child1 child2 ordered branch =>
      intro result fresh run
      rw [returned run]
      obtain ⟨nkShape, _⟩ := fresh.shortKey
      have fresh1 := fresh_leafFor nkShape matchlen (by cases fresh; assumption) blockNr
      have fresh2 := fresh_leafFor shape.2 (pos + matchlen) valueFresh blockNr
      rw [leaf1Is] at fresh1
      rw [leaf2Is] at fresh2
      obtain ⟨first, second⟩ := leaf_pair fresh1 fresh2 ordered
      exact (Node.Fresh.duoNode _ _ _ _ rfl first second).adjustTod blockNr
  | case6 pos c notEnd nk nval nflags nKey matchlen parts keyNibble keyAt nNibble nAt leaf1 events1 leaf1Is
      leaf2 events2 leaf2Is child1 child2 ordered branch notZero =>
      intro result fresh run
      rw [returned run]
      obtain ⟨nkShape, _⟩ := fresh.shortKey
      have fresh1 := fresh_leafFor nkShape matchlen (by cases fresh; assumption) blockNr
      have fresh2 := fresh_leafFor shape.2 (pos + matchlen) valueFresh blockNr
      rw [leaf1Is] at fresh1
      rw [leaf2Is] at fresh2
      obtain ⟨first, second⟩ := leaf_pair fresh1 fresh2 ordered
      have branchFresh : branch.Fresh := (Node.Fresh.duoNode _ _ _ _ rfl first second).adjustTod blockNr
      exact (Node.Fresh.shortNode _ _ (shape.termLast_segment pos matchlen) rfl _ _ rfl branchFresh).adjustTod
        blockNr
  | case9 pos c notEnd mask child1 child2 oldFlags nflags stamped stampIs i1 i2 idx dead leaf events leafIs =>
      intro result fresh run
      rw [returned run]
      have leafFresh := fresh_leafFor shape.2 pos valueFresh blockNr
      rw [leafIs] at leafFresh
      cases fresh with
      | duoNode _ _ _ _ _ _ fresh2 => exact .duoNode _ _ _ _ rfl leafFresh fresh2
  | case10 pos c notEnd mask child1 child2 oldFlags nflags stamped stampIs i1 i2 idx adjust live atLower =>
      rename_i below
      intro result fresh run
      obtain ⟨done, c', events, inner, run⟩ := returned_bind run
      rw [returned run]
      cases fresh with
      | duoNode _ _ _ _ dirty fresh1 fresh2 =>
          exact (Node.Fresh.duoNode _ _ _ _ (dirty_of_updated ((dirty_of_stampT stampIs).trans dirty) _) (below fresh1 inner)
            fresh2).whenAdjust _ blockNr
  | case11 pos c notEnd mask child1 child2 oldFlags nflags stamped stampIs i1 i2 idx dead leaf events leafIs n
      atHigher =>
      intro result fresh run
      rw [returned run]
      have leafFresh := fresh_leafFor shape.2 pos valueFresh blockNr
      rw [leafIs] at leafFresh
      cases fresh with
      | duoNode _ _ _ _ _ fresh1 _ => exact .duoNode _ _ _ _ rfl fresh1 leafFresh
  | case12 pos c notEnd mask child1 child2 oldFlags nflags stamped stampIs i1 i2 idx adjust live atHigher
      notLower =>
      rename_i below
      intro result fresh run
      obtain ⟨done, c', events, inner, run⟩ := returned_bind run
      rw [returned run]
      cases fresh with
      | duoNode _ _ _ _ dirty fresh1 fresh2 =>
          exact (Node.Fresh.duoNode _ _ _ _ (dirty_of_updated ((dirty_of_stampT stampIs).trans dirty) _) fresh1
            (below fresh2 inner)).whenAdjust _ blockNr
  | case13 pos c notEnd mask child1 child2 oldFlags nibble atNibble nflags stamped stampIs i1 i2 idx notLower
      notHigher leaf events leafIs grown =>
      -- the duo node grows into a full node, stamped, then takes the new leaf
      intro result fresh run
      rw [returned run]
      have leafFresh := fresh_leafFor shape.2 pos valueFresh blockNr
      rw [leafIs] at leafFresh
      cases fresh with
      | duoNode _ _ _ _ _ fresh1 fresh2 =>
          have pair : ∀ i, (Function.update (Function.update (fun _ => Node.nil) i1 child1) i2 child2 i).Fresh :=
            Node.Fresh.update (Node.Fresh.update (fun _ => .nil) fresh1 i1) fresh2 i2
          exact .fullNode _ _ rfl (Node.Fresh.update pair leafFresh nibble)
  | case15 pos c notEnd children oldFlags nibble atNibble nflags stamped stampIs child adjust dead leaf events
      leafIs =>
      intro result fresh run
      rw [returned run]
      have leafFresh := fresh_leafFor shape.2 pos valueFresh blockNr
      rw [leafIs] at leafFresh
      cases fresh with
      | fullNode _ _ _ childrenFresh =>
          exact (Node.Fresh.fullNode _ _ rfl (Node.Fresh.update childrenFresh leafFresh nibble)).whenAdjust _ blockNr
  | case16 pos c notEnd children oldFlags nibble atNibble nflags stamped stampIs child adjust live =>
      rename_i below
      intro result fresh run
      obtain ⟨done, c', events, inner, run⟩ := returned_bind run
      rw [returned run]
      cases fresh with
      | fullNode _ _ dirty childrenFresh =>
          exact (Node.Fresh.fullNode _ _ (dirty_of_updated ((dirty_of_stampT stampIs).trans dirty) _)
            (Node.Fresh.update childrenFresh (below (childrenFresh nibble) inner) nibble)).whenAdjust _ blockNr
  | case18 | case19 =>
      intro result fresh
      cases fresh
  | case2 | case7 | case8 | case14 | case17 | case20 =>
      intro result _ run
      simp at run

end Insert

/-! ## Deletion keeps nodes fresh -/

theorem HexKey.proper_of_passed {key : List Nibble} (shape : HexKey key) {pos : Nat} {segment : List Nibble}
    (whole : prefixLen (key.drop pos) segment = segment.length)
    (past : prefixLen (key.drop pos) segment ≠ key.length - pos) : ∀ x ∈ segment, x ≠ 16 := by
  have fits := prefixLen_le_left (key.drop pos) segment
  rw [List.length_drop] at fits
  have leading : (key.drop pos).take segment.length = segment := by
    have common := take_prefixLen (key.drop pos) segment
    rwa [whole, List.take_length] at common
  rw [← leading]
  exact proper_of_not_hasTerm (shape.termLast_segment pos _) (shape.hasTerm_segment_proper pos _ (by omega))

theorem fresh_convertToShortNode {child : Node} (fresh : child.Fresh) (pos : Nibble) (c : TrieContinuation)
    (blockNr : Nat) (done : Bool) : (convertToShortNode child pos c blockNr done).2.1.n.Fresh := by
  have oneNibble : (convertToShortNode.oneNibble child pos blockNr).Fresh :=
    fresh_newShortNode (termLast_singleton pos) fresh blockNr
  cases fresh with
  | shortNode shortKey hex shape compact val flags dirty valFresh =>
      simp only [convertToShortNode]
      split
      · -- the nibble goes in front of the child's own key
        next notTerm =>
          subst compact
          rw [compactToHex_hexToCompact hex shape]
          exact fresh_newShortNode (termLast_cons notTerm shape) valFresh blockNr
      · exact oneNibble
  | nil | valueNode | duoNode | fullNode => exact oneNibble

theorem fresh_shortAfterDelete {nk : Bytes} {nflags : NodeFlag} (keyShape : TermLast (compactToHex nk))
    (compact : nk = hexToCompact (compactToHex nk)) (proper : ∀ x ∈ compactToHex nk, x ≠ 16)
    (dirty : nflags.dirty = true) {c : TrieContinuation} (childFresh : c.n.Fresh) (blockNr : Nat) (done : Bool)
    (events : List GenEvent) : (shortAfterDelete nk nflags blockNr done c events).2.1.n.Fresh := by
  unfold shortAfterDelete
  split
  · exact .shortNode nk _ keyShape compact _ _ dirty childFresh
  · split
    · exact .nil
    · -- the merged key is the two hex keys one after the other
      next childKey childVal childFlags isShort =>
        rw [isShort] at childFresh
        obtain ⟨childShape, _⟩ := childFresh.shortKey
        cases childFresh with
        | shortNode _ _ _ _ _ _ _ valFresh =>
            exact fresh_newShortNode (termLast_append proper childShape) valFresh blockNr
    · exact (Node.Fresh.shortNode nk _ keyShape compact _ _ rfl childFresh).adjustTod blockNr

section Continuations

variable {blockNr : Nat} {done : Bool} {c : TrieContinuation} (childFresh : c.n.Fresh) (events : List GenEvent)
include childFresh

theorem fresh_duoAfterDelete {rebuild : Node → NodeFlag → Node}
    (rebuildFresh : ∀ nn flags, nn.Fresh → flags.dirty = true → (rebuild nn flags).Fresh)
    {sibling : Node} (siblingFresh : sibling.Fresh) (siblingIdx : Nibble) {nflags : NodeFlag}
    (dirty : nflags.dirty = true) (adjust : Bool) :
    (duoAfterDelete rebuild sibling siblingIdx nflags adjust blockNr done c events).2.1.n.Fresh := by
  have rebuilt : ∀ updated : Bool,
      (whenAdjust adjust (rebuild c.n (if updated then { nflags with dirty := true } else nflags)) blockNr).Fresh :=
    fun updated => (rebuildFresh _ _ childFresh (dirty_of_updated dirty updated)).whenAdjust _ _
  unfold duoAfterDelete
  by_cases unchanged : (!c.updated && !done) = true
  · rw [if_pos unchanged]
    exact (rebuildFresh _ _ childFresh dirty).whenAdjust _ _
  rw [if_neg unchanged]
  dsimp only
  by_cases dead : c.n.isNil = true
  · rw [if_pos dead]
    by_cases siblingDead : sibling.isNil = true
    · rw [if_pos siblingDead]
      exact .nil
    -- the sibling is left alone in the duo node
    rw [if_neg siblingDead]
    have converted := fresh_convertToShortNode siblingFresh siblingIdx c blockNr done
    generalize convertToShortNode sibling siblingIdx c blockNr done = outcome at converted ⊢
    obtain ⟨done', c', calls⟩ := outcome
    dsimp only
    split
    · exact converted
    · exact rebuilt c'.updated
  · rw [if_neg dead]
    exact rebuilt c.updated

theorem fresh_fullAfterDelete {children : Nibble → Node} (childrenFresh : ∀ i, (children i).Fresh) (nibble : Nibble)
    {nflags : NodeFlag} (dirty : nflags.dirty = true) (adjust : Bool) :
    (fullAfterDelete children nibble nflags adjust blockNr done c events).2.1.n.Fresh := by
  have updatedFresh := Node.Fresh.update childrenFresh childFresh nibble
  have kept : ∀ updated : Bool,
      (whenAdjust adjust (.fullNode (Function.update children nibble c.n)
        (if updated then { nflags with dirty := true } else nflags)) blockNr).Fresh :=
    fun updated => (Node.Fresh.fullNode _ _ (dirty_of_updated dirty updated) updatedFresh).whenAdjust _ _
  unfold fullAfterDelete
  by_cases unchanged : (!c.updated && !done) = true
  · rw [if_pos unchanged]
    exact (Node.Fresh.fullNode _ _ dirty updatedFresh).whenAdjust _ _
  rw [if_neg unchanged]
  dsimp only
  generalize liveSlots (Function.update children nibble c.n) = slots
  obtain ⟨count, pos1, pos2⟩ := slots
  dsimp only
  by_cases none : count = 0
  · rw [if_pos none]
    exact .nil
  rw [if_neg none]
  by_cases one : count = 1
  · -- one slot left: a short node in front of it
    rw [if_pos one]
    have converted := fresh_convertToShortNode (updatedFresh pos1) pos1 c blockNr done
    generalize convertToShortNode (Function.update children nibble c.n pos1) pos1 c blockNr done = outcome
      at converted ⊢
    obtain ⟨done', c', calls⟩ := outcome
    dsimp only
    split
    · exact converted
    · exact kept c'.updated
  rw [if_neg one]
  by_cases two : count = 2
  · -- two slots left: a duo node
    rw [if_pos two]
    have picked : ∀ i, (if i = nibble then c.n else Function.update children nibble c.n i).Fresh := by
      intro i
      split
      · exact childFresh
      · exact updatedFresh i
    exact (Node.Fresh.duoNode _ _ _ { dirty := true, t := blockNr } rfl (picked pos1) (picked pos2)).adjustTod blockNr
  · rw [if_neg two]
    exact kept c.updated

end Continuations

section Delete

variable {key : List Nibble} (shape : HexKey key) (blockNr : Nat)
include shape

theorem delete_fresh {n : Node} {pos : Nat} {c : TrieContinuation} :
    ∀ {result : Bool × TrieContinuation × List GenEvent}, n.Fresh →
      delete n key pos c blockNr = .ok result → result.2.1.n.Fresh := by
  fun_induction delete n key pos c blockNr with
  | case1 =>
      intro result fresh run
      rw [returned run]
      exact fresh
  | case2 | case10 | case11 =>
      intro result _ run
      rw [returned run]
      exact .nil
  | case3 pos c nk nval nflags nKey matchlen parts past =>
      rename_i below
      intro result fresh run
      obtain ⟨done, c', events, inner, run⟩ := returned_bind run
      rw [returned run]
      obtain ⟨keyShape, compact⟩ := fresh.shortKey
      have proper := shape.proper_of_passed (le_antisymm (prefixLen_le_right _ _) (not_lt.mp parts)) past
      cases fresh with
      | shortNode _ _ _ _ _ _ dirty valFresh =>
          exact fresh_shortAfterDelete keyShape compact proper dirty (below valFresh inner) blockNr _ _
  | case4 pos c mask child1 child2 oldFlags nflags stamped stampIs i1 i2 idx adjust atLower =>
      rename_i below
      intro result fresh run
      obtain ⟨done, c', events, inner, run⟩ := returned_bind run
      rw [returned run]
      cases fresh with
      | duoNode _ _ _ _ dirty fresh1 fresh2 =>
          exact fresh_duoAfterDelete (below fresh1 inner) _
            (fun _ _ nnFresh flagsDirty => .duoNode _ _ _ _ flagsDirty nnFresh fresh2) fresh2 i2
            ((dirty_of_stampT stampIs).trans dirty) adjust
  | case5 pos c mask child1 child2 oldFlags nflags stamped stampIs i1 i2 idx adjust atHigher =>
      rename_i below
      intro result fresh run
      obtain ⟨done, c', events, inner, run⟩ := returned_bind run
      rw [returned run]
      cases fresh with
      | duoNode _ _ _ _ dirty fresh1 fresh2 =>
          exact fresh_duoAfterDelete (below fresh2 inner) _
            (fun _ _ nnFresh flagsDirty => .duoNode _ _ _ _ flagsDirty fresh1 nnFresh) fresh1 i1
            ((dirty_of_stampT stampIs).trans dirty) adjust
  | case6 pos c mask child1 child2 oldFlags nibble atNibble nflags stamped stampIs =>
      intro result fresh run
      rw [returned run]
      cases fresh with
      | duoNode _ _ _ _ dirty fresh1 fresh2 =>
          exact .duoNode _ _ _ _ ((dirty_of_stampT stampIs).trans dirty) fresh1 fresh2
  | case8 pos c children oldFlags nibble atNibble nflags stamped stampIs =>
      rename_i below
      intro result fresh run
      obtain ⟨done, c', events, inner, run⟩ := returned_bind run
      rw [returned run]
      cases fresh with
      | fullNode _ _ dirty childrenFresh =>
          exact fresh_fullAfterDelete (below (childrenFresh nibble) inner) _ childrenFresh nibble
            ((dirty_of_stampT stampIs).trans dirty) _
  | case12 | case13 =>
      intro result fresh
      cases fresh
  | case7 | case9 =>
      intro result _ run
      simp at run

end Delete

theorem runWithDb_fresh {root : Node} (fresh : root.Fresh) {tc : TrieContinuation} (shape : HexKey tc.key)
    (valueFresh : tc.value.Fresh) (blockNr : Nat) {result : Bool × TrieContinuation × List GenEvent}
    (run : runWithDb tc root blockNr = .ok result) : result.2.1.n.Fresh := by
  unfold runWithDb at run
  dsimp only at run
  cases action : tc.action <;> simp only [action] at run
  · by_cases empty : root.isNil = true
    · -- the first key of an empty trie goes into a new short node
      rw [if_pos empty] at run
      rw [returned run]
      exact fresh_newShortNode shape.2 valueFresh blockNr
    · rw [if_neg empty] at run
      exact insert_fresh shape valueFresh blockNr fresh run
  · exact delete_fresh shape blockNr fresh run

end TurboGeth.Trie
