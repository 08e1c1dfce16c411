import TurboGeth.Trie.Canonical

/-!
# Insertion keeps the canonical shape and stores the value

On a canonical trie `insert` never reaches a hash node, never panics and
finishes in one pass (`done`).  The node it leaves behind is canonical again
and denotes the old map with the new entry; a branch stays a branch, which is
what lets a short node keep its child in place.  The proof follows the
derivation of the canonical shape, one lemma per node kind.
-/

set_option autoImplicit false

namespace TurboGeth.Trie

open PathMap

/-- What inserting `value` under `key[pos:]` into the node `n` must give. -/
structure Inserted (key : List Nibble) (pos : Nat) (value : Bytes) (n result : Node) : Prop where
  canonical : result.Canonical (decide (pos = key.length))
  live : result.isNil = false
  keepsBranch : n.isShort = false → result.isShort = false
  denote : result.denote = Function.update n.denote (key.drop pos) (some value)

/-- `insert` succeeds in one pass from every continuation and gives an
`Inserted` node. -/
def InsertSucceeds (key : List Nibble) (pos : Nat) (value : Bytes) (blockNr : Nat) (n : Node) : Prop :=
  ∀ c : TrieContinuation, ∃ c' events,
    insert n key pos (.valueNode value) c blockNr = .ok (true, c', events) ∧ Inserted key pos value n c'.n

variable {key : List Nibble} {value : Bytes} {blockNr : Nat}


theorem insert_valueNode_atEnd {pos : Nat} (atEnd : key.length = pos) (old : Bytes) :
    InsertSucceeds key pos value blockNr (.valueNode old) := by
  intro c
  have stored : (if (old != value) = true then Node.valueNode value else .valueNode old) = .valueNode value := by
    by_cases same : old = value <;> simp [same]
  rw [insert, if_pos atEnd]
  refine ⟨_, _, rfl, ?_⟩
  rw [stored]
  have restEmpty : key.drop pos = [] := List.drop_eq_nil_of_le (by omega)
  refine ⟨?_, rfl, fun _ => rfl, ?_⟩
  · rw [decide_eq_true atEnd.symm]
    exact .valueNode value
  · rw [restEmpty, Node.denote_valueNode, Node.denote_valueNode, update_single]

theorem insert_shortNode_whole (shape : HexKey key) {pos : Nat} (notEnd : key.length ≠ pos)
    (inKey : pos ≤ key.length) {nk : Bytes} {nval : Node} (nflags : NodeFlag)
    (keyLive : compactToHex nk ≠ []) (keyShape : TermLast (compactToHex nk))
    (valNotShort : nval.isShort = false)
    (whole : prefixLen (key.drop pos) (compactToHex nk) = (compactToHex nk).length)
    (below : ∀ pos', hasTerm (compactToHex nk) = decide (pos' = key.length) → pos' ≤ key.length →
      InsertSucceeds key pos' value blockNr nval) :
    InsertSucceeds key pos value blockNr (.shortNode nk nval nflags) := by
  intro c
  have fits := prefixLen_le_left (key.drop pos) (compactToHex nk)
  rw [List.length_drop] at fits
  have segment : (key.drop pos).take (compactToHex nk).length = compactToHex nk := by
    have common := take_prefixLen (key.drop pos) (compactToHex nk)
    rwa [whole, List.take_length] at common
  have childTerm : hasTerm (compactToHex nk) = decide (pos + (compactToHex nk).length = key.length) := by
    rw [← shape.hasTerm_segment pos _ (List.length_pos_of_ne_nil keyLive) (by omega), segment]
  obtain ⟨c', events, run, inserted⟩ := below (pos + (compactToHex nk).length) childTerm (by omega) c
  rw [insert, if_neg notEnd]
  simp only [whole, if_true, run]
  refine ⟨_, _, rfl, ?_⟩
  dsimp only
  refine ⟨?_, rfl, fun isShort => absurd isShort (by simp [Node.isShort]), ?_⟩
  · rw [decide_eq_false (fun atEnd => notEnd atEnd.symm)]
    apply Node.Canonical.adjustTod
    refine .shortNode nk _ _ keyLive keyShape inserted.live (inserted.keepsBranch valNotShort) ?_
    rw [childTerm]
    exact inserted.canonical
  · have split := prefixLen_eq_length_right (key.drop pos) (compactToHex nk) whole
    rw [List.drop_drop] at split
    rw [Node.denote_adjustTod, Node.denote_shortNode, Node.denote_shortNode, inserted.denote, split,
      update_prefixed]


theorem insert_shortNode_split (shape : HexKey key) {pos : Nat} (notEnd : key.length ≠ pos)
    (inKey : pos ≤ key.length) {nk : Bytes} {nval : Node} (nflags : NodeFlag)
    (keyShape : TermLast (compactToHex nk)) (valLive : nval.isNil = false) (valNotShort : nval.isShort = false)
    (valCanonical : nval.Canonical (hasTerm (compactToHex nk)))
    (parts : prefixLen (key.drop pos) (compactToHex nk) ≠ (compactToHex nk).length) :
    InsertSucceeds key pos value blockNr (.shortNode nk nval nflags) := by
  intro c
  have before : prefixLen (key.drop pos) (compactToHex nk) < (compactToHex nk).length :=
    lt_of_le_of_ne (prefixLen_le_right _ _) parts
  have keyLeft := shape.prefixLen_lt keyShape pos (by omega) before
  have different : (compactToHex nk)[prefixLen (key.drop pos) (compactToHex nk)] ≠
      key[pos + prefixLen (key.drop pos) (compactToHex nk)] := by
    have parted := getElem_prefixLen_ne (key.drop pos) (compactToHex nk) (by simp; omega) before
    rw [List.getElem_drop] at parted
    exact parted.symm
  have common := take_prefixLen (key.drop pos) (compactToHex nk)
  rw [insert, if_neg notEnd]
  simp only [if_neg parts, List.getElem?_eq_getElem keyLeft, List.getElem?_eq_getElem before]
  generalize prefixLen (key.drop pos) (compactToHex nk) = matchlen at *
  generalize nKeyDef : compactToHex nk = nKey at *
  have notTerm : decide (pos = key.length) = false := decide_eq_false (fun atEnd => notEnd atEnd.symm)
  have leafN := canonical_leafFor keyShape before nval valLive valNotShort valCanonical blockNr
  have leafK := canonical_valueLeaf shape keyLeft value blockNr
  have branchCanonical := canonical_duoNode_sorted different (isNil_leafFor valLive blockNr)
    (isNil_leafFor rfl blockNr) leafN leafK { t := blockNr, dirty := true }
  have splitDenote : Function.update (prefixed nKey nval.denote) (key.drop pos) (some value) =
      prefixed ((key.drop pos).take matchlen) (branch fun next =>
        if next = nKey[matchlen] then prefixed (nKey.drop (matchlen + 1)) nval.denote
        else if next = key[pos + matchlen] then prefixed (key.drop (pos + matchlen + 1)) (single value)
        else empty) := by
    have nKeySplit : (key.drop pos).take matchlen ++ nKey[matchlen] :: nKey.drop (matchlen + 1) = nKey := by
      rw [List.getElem_cons_drop, common, List.take_append_drop]
    have keySplit : (key.drop pos).take matchlen ++ key[pos + matchlen] :: key.drop (pos + matchlen + 1) =
        key.drop pos := by
      rw [List.getElem_cons_drop, ← List.drop_drop, List.take_append_drop]
    have diverged := update_prefixed_diverge ((key.drop pos).take matchlen) (nKey.drop (matchlen + 1))
      (key.drop (pos + matchlen + 1)) nKey[matchlen] key[pos + matchlen] different.symm nval.denote value
    rwa [nKeySplit, keySplit] at diverged
  have branchDenote := denote_duoNode_sorted different (leafFor nKey matchlen nval blockNr).1
    (leafFor key (pos + matchlen) (.valueNode value) blockNr).1 { t := blockNr, dirty := true }
  rw [denote_leafFor keyShape, denote_leafFor shape.2, Node.denote_valueNode] at branchDenote
  by_cases zero : matchlen = 0
  · simp only [if_pos zero]
    refine ⟨_, _, rfl, ?_⟩
    dsimp only
    refine ⟨?_, rfl, fun isShort => absurd isShort (by simp [Node.isShort]), ?_⟩
    · rw [notTerm]
      exact branchCanonical.adjustTod blockNr
    · have commonEmpty : (key.drop pos).take matchlen = [] := by simp [zero]
      rw [Node.denote_adjustTod, branchDenote, Node.denote_shortNode, nKeyDef, splitDenote, commonEmpty,
        prefixed_nil]
  · simp only [if_neg zero]
    refine ⟨_, _, rfl, ?_⟩
    dsimp only
    have segmentShape := shape.termLast_segment pos matchlen
    have decoded := compactToHex_hexToCompact _ segmentShape
    refine ⟨?_, rfl, fun isShort => absurd isShort (by simp [Node.isShort]), ?_⟩
    · rw [notTerm]
      apply Node.Canonical.adjustTod
      refine .shortNode _ _ _ ?_ (by rwa [decoded]) rfl rfl ?_
      · rw [decoded]
        simp only [ne_eq, List.take_eq_nil_iff, List.drop_eq_nil_iff]
        omega
      · rw [decoded, shape.hasTerm_segment_proper pos matchlen keyLeft]
        exact branchCanonical.adjustTod blockNr
    · rw [Node.denote_adjustTod, Node.denote_shortNode, decoded, Node.denote_adjustTod, branchDenote,
        Node.denote_shortNode, nKeyDef, splitDenote]


theorem insert_duoNode (shape : HexKey key) {pos : Nat} (notEnd : key.length ≠ pos) (inKey : pos ≤ key.length)
    {lower higher : Nibble} (ordered : lower < higher) {child1 child2 : Node} {nflags : NodeFlag}
    (live1 : child1.isNil = false) (live2 : child2.isNil = false)
    (canonical1 : child1.Canonical (decide (lower = 16))) (canonical2 : child2.Canonical (decide (higher = 16)))
    (below1 : ∀ pos', decide (lower = 16) = decide (pos' = key.length) → pos' ≤ key.length →
      InsertSucceeds key pos' value blockNr child1)
    (below2 : ∀ pos', decide (higher = 16) = decide (pos' = key.length) → pos' ≤ key.length →
      InsertSucceeds key pos' value blockNr child2) :
    InsertSucceeds key pos value blockNr (.duoNode (bit lower ||| bit higher) child1 child2 nflags) := by
  intro c
  have inside : pos < key.length := by omega
  have notTerm : decide (pos = key.length) = false := decide_eq_false (fun atEnd => notEnd atEnd.symm)
  have rest : key.drop pos = key[pos] :: key.drop (pos + 1) := List.drop_eq_getElem_cons inside
  have stepTerm := shape.step_term pos inside
  rw [insert, if_neg notEnd]
  simp only [List.getElem?_eq_getElem inside, childrenIdx_bits lower higher ordered]
  by_cases atLower : key[pos] = lower
  · obtain ⟨c', events, run, inserted⟩ := below1 (pos + 1) (by rw [stepTerm, atLower]) (by omega) c
    simp only [if_pos atLower, live1, run, Bool.false_eq_true, if_false]
    refine ⟨_, _, rfl, ?_⟩
    dsimp only
    refine ⟨?_, by simp, fun _ => by simp, ?_⟩
    · rw [notTerm]
      apply Node.Canonical.whenAdjust
      refine .duoNode lower higher ordered _ _ _ inserted.live live2 ?_ canonical2
      rw [← atLower, ← stepTerm]
      exact inserted.canonical
    · rw [denote_whenAdjust, rest, atLower]
      exact (update_denote_duoNode_lower child1 child2 _ _ _ _ _ ordered inserted.denote).symm
  by_cases atHigher : key[pos] = higher
  · obtain ⟨c', events, run, inserted⟩ := below2 (pos + 1) (by rw [stepTerm, atHigher]) (by omega) c
    simp only [if_neg atLower, if_pos atHigher, live2, run, Bool.false_eq_true, if_false]
    refine ⟨_, _, rfl, ?_⟩
    dsimp only
    refine ⟨?_, by simp, fun _ => by simp, ?_⟩
    · rw [notTerm]
      apply Node.Canonical.whenAdjust
      refine .duoNode lower higher ordered _ _ _ live1 inserted.live canonical1 ?_
      rw [← atHigher, ← stepTerm]
      exact inserted.canonical
    · rw [denote_whenAdjust, rest, atHigher]
      exact (update_denote_duoNode_higher child1 child2 _ _ _ _ _ ordered inserted.denote).symm
  -- a third nibble: the duo node grows into a full node
  simp only [if_neg atLower, if_neg atHigher, Node.adjustTod]
  refine ⟨_, _, rfl, ?_⟩
  dsimp only
  have leafCanonical := canonical_valueLeaf shape inside value blockNr
  have leafLive : (leafFor key pos (.valueNode value) blockNr).1.isNil = false := isNil_leafFor rfl blockNr
  have leafDenote : (leafFor key pos (.valueNode value) blockNr).1.denote = _ :=
    denote_leafFor shape.2 _ blockNr
  generalize (leafFor key pos (Node.valueNode value) blockNr).1 = leaf at *
  refine ⟨?_, rfl, fun _ => rfl, ?_⟩
  · rw [notTerm]
    refine .fullNode _ _ ?_ ?_
    · apply three_le_liveList ordered.ne (Ne.symm atLower) (Ne.symm atHigher)
      · simp [Function.update_of_ne (Ne.symm atLower), Function.update_of_ne ordered.ne, live1]
      · simp [Function.update_of_ne (Ne.symm atHigher), live2]
      · simp [leafLive]
    · intro i
      by_cases atNew : i = key[pos]
      · subst atNew
        simpa using leafCanonical
      · by_cases atH : i = higher
        · subst atH
          simpa [atNew] using canonical2
        · by_cases atL : i = lower
          · subst atL
            simpa [atNew, atH] using canonical1
          · simpa [atNew, atH, atL] using Node.Canonical.nil _
  · rw [Node.denote_duoNode_bits lower higher ordered, rest, update_branch, Node.denote_fullNode]
    congr 1
    funext i
    by_cases atNew : i = key[pos]
    · subst atNew
      simp [atLower, atHigher, update_empty, leafDenote]
    · by_cases atH : i = higher
      · subst atH
        simp [atNew, ordered.ne']
      · by_cases atL : i = lower
        · subst atL
          simp [atNew, atH]
        · simp [atNew, atH, atL]

theorem insert_fullNode (shape : HexKey key) {pos : Nat} (notEnd : key.length ≠ pos) (inKey : pos ≤ key.length)
    {children : Nibble → Node} {nflags : NodeFlag} (threeLive : 3 ≤ (liveList children).length)
    (childrenCanonical : ∀ i, (children i).Canonical (decide (i = 16)))
    (below : ∀ i pos', decide (i = 16) = decide (pos' = key.length) → pos' ≤ key.length →
      (children i).isNil = false → InsertSucceeds key pos' value blockNr (children i)) :
    InsertSucceeds key pos value blockNr (.fullNode children nflags) := by
  intro c
  have inside : pos < key.length := by omega
  have notTerm : decide (pos = key.length) = false := decide_eq_false (fun atEnd => notEnd atEnd.symm)
  have rest : key.drop pos = key[pos] :: key.drop (pos + 1) := List.drop_eq_getElem_cons inside
  have stepTerm := shape.step_term pos inside
  rw [insert, if_neg notEnd]
  simp only [List.getElem?_eq_getElem inside]
  by_cases dead : (children key[pos]).isNil
  · -- an empty slot takes the new leaf
    have leafCanonical := canonical_valueLeaf shape inside value blockNr
    have leafLive : (leafFor key pos (.valueNode value) blockNr).1.isNil = false := isNil_leafFor rfl blockNr
    have leafDenote : (leafFor key pos (.valueNode value) blockNr).1.denote = _ :=
      denote_leafFor shape.2 _ blockNr
    simp only [dead, if_true]
    refine ⟨_, _, rfl, ?_⟩
    dsimp only
    generalize (leafFor key pos (Node.valueNode value) blockNr).1 = leaf at *
    refine ⟨?_, by simp, fun _ => by simp, ?_⟩
    · rw [notTerm]
      apply Node.Canonical.whenAdjust
      refine .fullNode _ _ (threeLive.trans (liveList_update_of_live _ _ _ leafLive)) fun i => ?_
      by_cases atNew : i = key[pos]
      · subst atNew
        simpa using leafCanonical
      · simpa [atNew] using childrenCanonical i
    · rw [denote_whenAdjust, rest]
      refine (update_denote_fullNode _ _ _ _ _ _ _ ?_).symm
      rw [Node.eq_nil_of_isNil dead, leafDenote, Node.denote_nil, update_empty, Node.denote_valueNode]
  · -- a live slot takes the value below it
    have live : (children key[pos]).isNil = false := by simpa using dead
    obtain ⟨c', events, run, inserted⟩ := below key[pos] (pos + 1) stepTerm.symm (by omega) live c
    simp only [live, run, Bool.false_eq_true, if_false]
    refine ⟨_, _, rfl, ?_⟩
    dsimp only
    refine ⟨?_, by simp, fun _ => by simp, ?_⟩
    · rw [notTerm]
      apply Node.Canonical.whenAdjust
      refine .fullNode _ _ (threeLive.trans (liveList_update_of_live _ _ _ inserted.live)) fun i => ?_
      by_cases atNew : i = key[pos]
      · subst atNew
        simpa [← stepTerm] using inserted.canonical
      · simpa [atNew] using childrenCanonical i
    · rw [denote_whenAdjust, rest]
      exact (update_denote_fullNode _ _ _ _ _ _ _ inserted.denote).symm

theorem insert_spec (shape : HexKey key) {n : Node} {term : Bool} (canonical : n.Canonical term) :
    ∀ pos, term = decide (pos = key.length) → pos ≤ key.length → n.isNil = false →
      InsertSucceeds key pos value blockNr n := by
  induction canonical with
  | nil =>
      intro _ _ _ live
      simp at live
  | valueNode old =>
      intro pos atEnd _ _
      exact insert_valueNode_atEnd (of_decide_eq_true atEnd.symm).symm old
  | shortNode nk nval nflags keyLive keyShape valLive valNotShort valCanonical below =>
      intro pos term inKey _
      by_cases whole : prefixLen (key.drop pos) (compactToHex nk) = (compactToHex nk).length
      · exact insert_shortNode_whole shape (ne_of_term_false term) inKey nflags keyLive keyShape
          valNotShort whole fun pos' childTerm childInKey => below pos' childTerm childInKey valLive
      · exact insert_shortNode_split shape (ne_of_term_false term) inKey nflags keyShape valLive valNotShort
          valCanonical whole
  | duoNode lower higher ordered child1 child2 flags live1 live2 canonical1 canonical2 below1 below2 =>
      intro pos term inKey _
      exact insert_duoNode shape (ne_of_term_false term) inKey ordered live1 live2 canonical1 canonical2
        (fun pos' childTerm childInKey => below1 pos' childTerm childInKey live1)
        (fun pos' childTerm childInKey => below2 pos' childTerm childInKey live2)
  | fullNode children flags threeLive childrenCanonical below =>
      intro pos term inKey _
      exact insert_fullNode shape (ne_of_term_false term) inKey threeLive childrenCanonical below

end TurboGeth.Trie
