import TurboGeth.Trie.Canonical
import TurboGeth.Trie.Get

/-!
# Reading from a canonical trie

On a canonical trie `tryGet1` never panics and never reports a missing
subtree: it returns the value the trie maps the key to.  The walk restamps
the branches it passes, so the trie after a read is a different value; it is
canonical again and denotes the same map.
-/

set_option autoImplicit false

namespace TurboGeth.Trie

open PathMap

theorem liveList_update_same (children : Nibble → Node) (i : Nibble) (child : Node)
    (sameKind : child.isNil = (children i).isNil) :
    liveList (Function.update children i child) = liveList children := by
  unfold liveList
  apply List.filter_congr
  intro j _
  by_cases atSlot : j = i
  · subst atSlot
    simp [sameKind]
  · simp [atSlot]

/-- What a read leaves behind: the same kind of node, the same shape, the
same map; only flags and generations changed. -/
structure ReadBack (key : List Nibble) (pos : Nat) (n after : Node) : Prop where
  canonical : after.Canonical (decide (pos = key.length))
  sameNil : after.isNil = n.isNil
  sameShort : after.isShort = n.isShort
  denote : after.denote = n.denote

/-- `tryGet1` answers from memory with the value the node maps the rest of the
key to. -/
def GetSucceeds (key : List Nibble) (pos : Nat) (blockNr : Nat) (n : Node) : Prop :=
  ∃ after events, tryGet1 n key pos blockNr = .ok (n.denote (key.drop pos), true, after, events) ∧
    ReadBack key pos n after

variable {key : List Nibble} {blockNr : Nat}

theorem tryGet1_duoNode (shape : HexKey key) {pos : Nat} (notEnd : key.length ≠ pos) (inKey : pos ≤ key.length)
    {lower higher : Nibble} (ordered : lower < higher) {child1 child2 : Node} {nflags : NodeFlag}
    (live1 : child1.isNil = false) (live2 : child2.isNil = false)
    (canonical1 : child1.Canonical (decide (lower = 16))) (canonical2 : child2.Canonical (decide (higher = 16)))
    (below1 : ∀ pos', decide (lower = 16) = decide (pos' = key.length) → pos' ≤ key.length →
      GetSucceeds key pos' blockNr child1)
    (below2 : ∀ pos', decide (higher = 16) = decide (pos' = key.length) → pos' ≤ key.length →
      GetSucceeds key pos' blockNr child2) :
    GetSucceeds key pos blockNr (.duoNode (bit lower ||| bit higher) child1 child2 nflags) := by
  have inside : pos < key.length := by omega
  have notTerm : decide (pos = key.length) = false := decide_eq_false (fun atEnd => notEnd atEnd.symm)
  have rest : key.drop pos = key[pos] :: key.drop (pos + 1) := List.drop_eq_getElem_cons inside
  have stepTerm := shape.step_term pos inside
  unfold GetSucceeds
  rw [tryGet1]
  simp only [List.getElem?_eq_getElem inside, childrenIdx_bits lower higher ordered]
  have duoDenote := Node.denote_duoNode_bits lower higher ordered child1 child2 nflags
  by_cases atLower : key[pos] = lower
  · obtain ⟨after, events, run, read⟩ := below1 (pos + 1) (by rw [stepTerm, atLower]) (by omega)
    have value : (Node.duoNode (bit lower ||| bit higher) child1 child2 nflags).denote (key.drop pos) =
        child1.denote (key.drop (pos + 1)) := by
      rw [duoDenote, rest, branch_cons, atLower, if_pos rfl]
    simp only [if_pos atLower, live1, run, Bool.false_eq_true, if_false, ExceptRun.ok_bind, ExceptRun.pure_eq_ok,
      value]
    refine ⟨_, _, rfl, ⟨?_, by simp, by simp, ?_⟩⟩
    · rw [notTerm]
      apply Node.Canonical.whenAdjust
      refine .duoNode lower higher ordered _ _ _ (by rw [read.sameNil, live1]) live2 ?_ canonical2
      rw [← atLower, ← stepTerm]
      exact read.canonical
    · rw [denote_whenAdjust, Node.denote_duoNode_bits _ _ ordered, duoDenote, read.denote]
  by_cases atHigher : key[pos] = higher
  · obtain ⟨after, events, run, read⟩ := below2 (pos + 1) (by rw [stepTerm, atHigher]) (by omega)
    have value : (Node.duoNode (bit lower ||| bit higher) child1 child2 nflags).denote (key.drop pos) =
        child2.denote (key.drop (pos + 1)) := by
      rw [duoDenote, rest, branch_cons, atHigher, if_neg ordered.ne', if_pos rfl]
    simp only [if_neg atLower, if_pos atHigher, live2, run, Bool.false_eq_true, if_false, ExceptRun.ok_bind,
      ExceptRun.pure_eq_ok, value]
    refine ⟨_, _, rfl, ⟨?_, by simp, by simp, ?_⟩⟩
    · rw [notTerm]
      apply Node.Canonical.whenAdjust
      refine .duoNode lower higher ordered _ _ _ live1 (by rw [read.sameNil, live2]) canonical1 ?_
      rw [← atHigher, ← stepTerm]
      exact read.canonical
    · rw [denote_whenAdjust, Node.denote_duoNode_bits _ _ ordered, duoDenote, read.denote]
  -- the key leaves the duo node at a dead slot
  have value : (Node.duoNode (bit lower ||| bit higher) child1 child2 nflags).denote (key.drop pos) = none := by
    rw [duoDenote, rest, branch_cons, if_neg atLower, if_neg atHigher, empty_apply]
  simp only [if_neg atLower, if_neg atHigher, ExceptRun.pure_eq_ok, value]
  refine ⟨_, _, rfl, ⟨?_, rfl, rfl, ?_⟩⟩
  · rw [notTerm]
    exact .duoNode lower higher ordered child1 child2 _ live1 live2 canonical1 canonical2
  · rw [Node.denote_duoNode_bits _ _ ordered, duoDenote]

theorem tryGet1_fullNode (shape : HexKey key) {pos : Nat} (notEnd : key.length ≠ pos) (inKey : pos ≤ key.length)
    {children : Nibble → Node} {nflags : NodeFlag} (threeLive : 3 ≤ (liveList children).length)
    (childrenCanonical : ∀ i, (children i).Canonical (decide (i = 16)))
    (below : ∀ i pos', decide (i = 16) = decide (pos' = key.length) → pos' ≤ key.length →
      GetSucceeds key pos' blockNr (children i)) :
    GetSucceeds key pos blockNr (.fullNode children nflags) := by
  have inside : pos < key.length := by omega
  have notTerm : decide (pos = key.length) = false := decide_eq_false (fun atEnd => notEnd atEnd.symm)
  have rest : key.drop pos = key[pos] :: key.drop (pos + 1) := List.drop_eq_getElem_cons inside
  have stepTerm := shape.step_term pos inside
  obtain ⟨after, events, run, read⟩ := below key[pos] (pos + 1) stepTerm.symm (by omega)
  have value : (Node.fullNode children nflags).denote (key.drop pos) =
      (children key[pos]).denote (key.drop (pos + 1)) := by
    rw [Node.denote_fullNode, rest, branch_cons]
  unfold GetSucceeds
  rw [tryGet1]
  simp only [List.getElem?_eq_getElem inside, run, ExceptRun.ok_bind, ExceptRun.pure_eq_ok, value]
  refine ⟨_, _, rfl, ⟨?_, by simp, by simp, ?_⟩⟩
  · rw [notTerm]
    apply Node.Canonical.whenAdjust
    refine .fullNode _ _ (by rwa [liveList_update_same _ _ _ read.sameNil]) fun i => ?_
    by_cases atSlot : i = key[pos]
    · subst atSlot
      simpa [← stepTerm] using read.canonical
    · simpa [atSlot] using childrenCanonical i
  · rw [denote_whenAdjust, Node.denote_fullNode, Node.denote_fullNode]
    congr 1
    funext i
    by_cases atSlot : i = key[pos]
    · subst atSlot
      simp [read.denote]
    · simp [atSlot]

theorem tryGet1_shortNode (shape : HexKey key) {pos : Nat} (notEnd : key.length ≠ pos) (inKey : pos ≤ key.length)
    {nk : Bytes} {nval : Node} (nflags : NodeFlag) (keyLive : compactToHex nk ≠ [])
    (keyShape : TermLast (compactToHex nk)) (valLive : nval.isNil = false) (valNotShort : nval.isShort = false)
    (valCanonical : nval.Canonical (hasTerm (compactToHex nk)))
    (below : ∀ pos', hasTerm (compactToHex nk) = decide (pos' = key.length) → pos' ≤ key.length →
      GetSucceeds key pos' blockNr nval) :
    GetSucceeds key pos blockNr (.shortNode nk nval nflags) := by
  have original : (Node.shortNode nk nval nflags).Canonical false :=
    .shortNode nk nval nflags keyLive keyShape valLive valNotShort valCanonical
  have notTerm : decide (pos = key.length) = false := decide_eq_false (fun atEnd => notEnd atEnd.symm)
  unfold GetSucceeds
  rw [tryGet1]
  dsimp only
  by_cases off : (decide (key.length < pos + (compactToHex nk).length) ||
      compactToHex nk != (key.drop pos).take (compactToHex nk).length) = true
  · -- the key leaves the short node's key: no value
    have value : (Node.shortNode nk nval nflags).denote (key.drop pos) = none := by
      rw [Node.denote_shortNode, prefixed_apply_off_path]
      intro leading
      have longEnough := leading.length_le
      have taken := List.prefix_iff_eq_take.mp leading
      simp only [List.length_drop] at longEnough
      simp [← taken] at off
      omega
    simp only [if_pos off, ExceptRun.pure_eq_ok, value]
    exact ⟨_, _, rfl, ⟨by rw [notTerm]; exact original, rfl, rfl, rfl⟩⟩
  have fits : pos + (compactToHex nk).length ≤ key.length := by
    simp at off
    omega
  have taken : (key.drop pos).take (compactToHex nk).length = compactToHex nk := by
    simp at off
    exact off.2.symm
  have split : key.drop pos = compactToHex nk ++ key.drop (pos + (compactToHex nk).length) := by
    conv_lhs => rw [← List.take_append_drop (compactToHex nk).length (key.drop pos)]
    rw [taken, List.drop_drop]
  have childTerm : hasTerm (compactToHex nk) = decide (pos + (compactToHex nk).length = key.length) := by
    rw [← shape.hasTerm_segment pos _ (List.length_pos_of_ne_nil keyLive) fits, taken]
  simp only [if_neg off]
  cases isValue : nval.asValue with
  | some stored =>
      -- a value right behind the key: the key ends here
      have storedNode : nval = .valueNode stored := by
        cases nval <;> simp_all [Node.asValue]
      subst storedNode
      have atEnd : pos + (compactToHex nk).length = key.length := by
        have valTerm := valCanonical.term_of_value
        rw [childTerm] at valTerm
        simpa using valTerm
      have restEmpty : key.drop (pos + (compactToHex nk).length) = [] := List.drop_eq_nil_of_le (by omega)
      have value : (Node.shortNode nk (.valueNode stored) nflags).denote (key.drop pos) = some stored := by
        rw [Node.denote_shortNode, split, restEmpty, prefixed_apply_append, Node.denote_valueNode, single_nil]
      simp only [ExceptRun.pure_eq_ok, value]
      refine ⟨_, _, rfl, ⟨?_, by simp, by simp, by simp⟩⟩
      rw [notTerm]
      exact original.adjustTod blockNr
  | none =>
      obtain ⟨after, events, run, read⟩ := below (pos + (compactToHex nk).length) childTerm fits
      have value : (Node.shortNode nk nval nflags).denote (key.drop pos) =
          nval.denote (key.drop (pos + (compactToHex nk).length)) := by
        rw [Node.denote_shortNode, split, prefixed_apply_append]
      simp only [run, ExceptRun.ok_bind, ExceptRun.pure_eq_ok, value]
      refine ⟨_, _, rfl, ⟨?_, by simp, by simp, ?_⟩⟩
      · rw [notTerm]
        apply Node.Canonical.adjustTod
        refine .shortNode nk after nflags keyLive keyShape (by rw [read.sameNil, valLive])
          (by rw [read.sameShort, valNotShort]) ?_
        rw [childTerm]
        exact read.canonical
      · rw [Node.denote_adjustTod, Node.denote_shortNode, Node.denote_shortNode, read.denote]

theorem tryGet1_nil (pos : Nat) : GetSucceeds key pos blockNr .nil := by
  unfold GetSucceeds
  rw [tryGet1]
  exact ⟨_, _, rfl, ⟨.nil _, rfl, rfl, rfl⟩⟩

theorem tryGet1_valueNode {pos : Nat} (atEnd : key.length = pos) (stored : Bytes) :
    GetSucceeds key pos blockNr (.valueNode stored) := by
  have restEmpty : key.drop pos = [] := List.drop_eq_nil_of_le (by omega)
  unfold GetSucceeds
  rw [tryGet1, restEmpty, Node.denote_valueNode, single_nil]
  refine ⟨_, _, rfl, ⟨?_, rfl, rfl, rfl⟩⟩
  rw [decide_eq_true atEnd.symm]
  exact .valueNode stored

theorem tryGet1_spec (shape : HexKey key) {n : Node} {term : Bool} (canonical : n.Canonical term) :
    ∀ pos, term = decide (pos = key.length) → pos ≤ key.length → GetSucceeds key pos blockNr n := by
  induction canonical with
  | nil =>
      intro pos _ _
      exact tryGet1_nil pos
  | valueNode stored =>
      intro pos atEnd _
      exact tryGet1_valueNode (of_decide_eq_true atEnd.symm).symm stored
  | shortNode nk nval nflags keyLive keyShape valLive valNotShort valCanonical below =>
      intro pos term inKey
      exact tryGet1_shortNode shape (ne_of_term_false term) inKey nflags keyLive keyShape valLive valNotShort
        valCanonical below
  | duoNode lower higher ordered child1 child2 flags live1 live2 canonical1 canonical2 below1 below2 =>
      intro pos term inKey
      exact tryGet1_duoNode shape (ne_of_term_false term) inKey ordered live1 live2 canonical1 canonical2
        below1 below2
  | fullNode children flags threeLive childrenCanonical below =>
      intro pos term inKey
      exact tryGet1_fullNode shape (ne_of_term_false term) inKey threeLive childrenCanonical below

end TurboGeth.Trie
