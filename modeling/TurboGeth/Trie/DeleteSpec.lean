import TurboGeth.Trie.Canonical

/-!
# Deletion keeps the canonical shape and removes the key

On a canonical trie `delete` never panics and finishes in one pass.  Its
result is canonical again and denotes the old map without the key.  When the
parent is not told to re-point its slot (`updated` is false) the node kept its
kind, which is what the short-node case relies on to keep its child in place.

The reductions on the way up each get their own lemma: `convertToShortNode`,
and the three continuations `shortAfterDelete`, `duoAfterDelete` and
`fullAfterDelete`.  The continuations are stated for any caller that can use
the node they leave behind, so that the case of `delete` that calls one
matches it without restating its arguments.
-/

set_option autoImplicit false

namespace TurboGeth.Trie

open PathMap

theorem convertToShortNode_oneNibble {child : Node} {pos : Nibble} (live : child.isNil = false)
    (notShort : child.isShort = false) (canonical : child.Canonical (decide (pos = 16))) (blockNr : Nat) :
    (convertToShortNode.oneNibble child pos blockNr).Canonical false ∧
      (convertToShortNode.oneNibble child pos blockNr).denote = prefixed [pos] child.denote := by
  have decoded : compactToHex (hexToCompact [pos]) = [pos] :=
    compactToHex_hexToCompact _ (termLast_singleton pos)
  constructor
  · apply Node.Canonical.adjustTod
    refine .shortNode _ _ _ (by simp [decoded]) (by rw [decoded]; exact termLast_singleton pos) live notShort ?_
    rwa [decoded, hasTerm_singleton]
  · simp [convertToShortNode.oneNibble, decoded]

theorem convertToShortNode_result {child : Node} {pos : Nibble} (live : child.isNil = false)
    (canonical : child.Canonical (decide (pos = 16))) (c : TrieContinuation) (blockNr : Nat) (done : Bool) :
    (convertToShortNode child pos c blockNr done).1 = done ∧
      (convertToShortNode child pos c blockNr done).2.1.updated = true ∧
      (convertToShortNode child pos c blockNr done).2.1.n.Canonical false ∧
      (convertToShortNode child pos c blockNr done).2.1.n.denote = prefixed [pos] child.denote := by
  have original := canonical
  generalize termDef : decide (pos = 16) = term at canonical
  cases canonical with
  | nil => simp at live
  | valueNode value =>
      exact ⟨rfl, rfl, convertToShortNode_oneNibble live rfl original blockNr⟩
  | shortNode key val flags keyLive keyShape valLive valNotShort valCanonical =>
      have notTerm : pos ≠ 16 := of_decide_eq_false termDef
      have merged : compactToHex (hexToCompact (pos :: compactToHex key)) = pos :: compactToHex key :=
        compactToHex_hexToCompact _ (termLast_cons notTerm keyShape)
      simp only [convertToShortNode, if_pos notTerm, true_and]
      refine ⟨?_, ?_⟩
      · apply Node.Canonical.adjustTod
        refine .shortNode _ _ _ (by simp [merged]) (by rw [merged]; exact termLast_cons notTerm keyShape)
          valLive valNotShort ?_
        rwa [merged, hasTerm_cons pos keyLive]
      · simp [merged, prefixed_cons]
  | duoNode lower higher ordered child1 child2 flags live1 live2 canonical1 canonical2 =>
      exact ⟨rfl, rfl, convertToShortNode_oneNibble live rfl original blockNr⟩
  | fullNode children flags threeLive childrenCanonical =>
      exact ⟨rfl, rfl, convertToShortNode_oneNibble live rfl original blockNr⟩

/-- What deleting `key[pos:]` from the node `n` must give. -/
structure Deleted (key : List Nibble) (pos : Nat) (n result : Node) (updated : Bool) : Prop where
  canonical : result.Canonical (decide (pos = key.length))
  kept : updated = false → result.isNil = n.isNil ∧ result.isShort = n.isShort
  denote : result.denote = Function.update n.denote (key.drop pos) none

/-- `delete` succeeds in one pass from every continuation and gives a
`Deleted` node. -/
def DeleteSucceeds (key : List Nibble) (pos : Nat) (blockNr : Nat) (n : Node) : Prop :=
  ∀ c : TrieContinuation, ∃ c' events,
    delete n key pos c blockNr = .ok (true, c', events) ∧ Deleted key pos n c'.n c'.updated

variable {key : List Nibble} {blockNr : Nat}

/-- The duo-node side of `delete` after the deletion below: the node loses the
emptied child and turns into a short node in front of the other one, or it
keeps both children. -/
theorem duoAfterDelete_spec (rebuild : Node → NodeFlag → Node)
    (rebuildShape : ∀ nn flags, (rebuild nn flags).isNil = false ∧ (rebuild nn flags).isShort = false)
    {sibling : Node} {siblingIdx : Nibble} (siblingLive : sibling.isNil = false)
    (siblingCanonical : sibling.Canonical (decide (siblingIdx = 16)))
    {nflags : NodeFlag} {adjust : Bool} {c : TrieContinuation} {events : List GenEvent}
    {target : PMap Nibble Bytes}
    (rebuilt : ∀ flags, c.n.isNil = false → (rebuild c.n flags).Canonical false ∧ (rebuild c.n flags).denote = target)
    (collapsed : c.n.isNil = true → prefixed [siblingIdx] sibling.denote = target)
    {motive : TrieContinuation → Prop}
    (conclude : ∀ c' : TrieContinuation, c'.n.Canonical false → c'.n.denote = target →
      (c'.updated = false → c'.n.isNil = false ∧ c'.n.isShort = false) → motive c') :
    ∃ c' events', duoAfterDelete rebuild sibling siblingIdx nflags adjust blockNr true c events =
      (true, c', events') ∧ motive c' := by
  unfold duoAfterDelete
  simp only [Bool.not_true, Bool.and_false, Bool.false_eq_true, if_false]
  by_cases dead : c.n.isNil
  · obtain ⟨same, updated, canonical, denote⟩ :=
      convertToShortNode_result siblingLive siblingCanonical c blockNr true
    simp only [dead, if_true, siblingLive, Bool.false_eq_true, if_false, same]
    refine ⟨_, _, rfl, conclude _ canonical (denote.trans (collapsed dead)) ?_⟩
    intro notUpdated
    rw [updated] at notUpdated
    contradiction
  · have live : c.n.isNil = false := by simpa using dead
    simp only [live, Bool.false_eq_true, if_false]
    obtain ⟨canonical, denote⟩ := rebuilt _ live
    refine ⟨_, _, rfl, conclude _ (canonical.whenAdjust _ _) (by rw [denote_whenAdjust, denote]) ?_⟩
    intro _
    simp [rebuildShape]

theorem delete_duoNode (shape : HexKey key) {pos : Nat} (notEnd : key.length ≠ pos) (inKey : pos ≤ key.length)
    {lower higher : Nibble} (ordered : lower < higher) {child1 child2 : Node} {nflags : NodeFlag}
    (live1 : child1.isNil = false) (live2 : child2.isNil = false)
    (canonical1 : child1.Canonical (decide (lower = 16))) (canonical2 : child2.Canonical (decide (higher = 16)))
    (below1 : ∀ pos', decide (lower = 16) = decide (pos' = key.length) → pos' ≤ key.length →
      DeleteSucceeds key pos' blockNr child1)
    (below2 : ∀ pos', decide (higher = 16) = decide (pos' = key.length) → pos' ≤ key.length →
      DeleteSucceeds key pos' blockNr child2) :
    DeleteSucceeds key pos blockNr (.duoNode (bit lower ||| bit higher) child1 child2 nflags) := by
  intro c
  have inside : pos < key.length := by omega
  have notTerm : decide (pos = key.length) = false := decide_eq_false (fun atEnd => notEnd atEnd.symm)
  have rest : key.drop pos = key[pos] :: key.drop (pos + 1) := List.drop_eq_getElem_cons inside
  have stepTerm := shape.step_term pos inside
  rw [delete]
  simp only [List.getElem?_eq_getElem inside, childrenIdx_bits lower higher ordered]
  by_cases atLower : key[pos] = lower
  · obtain ⟨c', events, run, deleted⟩ := below1 (pos + 1) (by rw [stepTerm, atLower]) (by omega) c
    simp only [if_pos atLower, run, ExceptRun.ok_bind, ExceptRun.pure_eq_ok, Except.ok.injEq]
    have replaced : ∀ flags, Function.update (Node.duoNode (bit lower ||| bit higher) child1 child2 nflags).denote
        (key.drop pos) none = (Node.duoNode (bit lower ||| bit higher) c'.n child2 flags).denote := by
      intro flags
      rw [rest, atLower]
      exact update_denote_duoNode_lower child1 child2 _ _ _ _ _ ordered deleted.denote
    refine duoAfterDelete_spec _ (fun _ _ => ⟨rfl, rfl⟩) live2 canonical2 (fun flags live => ⟨?_, ?_⟩)
      (fun dead => ?_) (fun c'' canonical denote kept => ⟨by rwa [notTerm], fun notUpdated => ?_, denote⟩)
    · refine .duoNode lower higher ordered _ _ _ live live2 ?_ canonical2
      rw [← atLower, ← stepTerm]
      exact deleted.canonical
    · exact (replaced flags).symm
    · rw [replaced nflags, Node.eq_nil_of_isNil dead, Node.denote_duoNode_bits _ _ ordered, prefixed_singleton]
      congr 1
      funext i
      by_cases atHigher : i = higher
      · simp [atHigher, ordered.ne']
      · by_cases atL : i = lower <;> simp [atHigher, atL, ordered.ne]
    · simpa using kept notUpdated
  by_cases atHigher : key[pos] = higher
  · obtain ⟨c', events, run, deleted⟩ := below2 (pos + 1) (by rw [stepTerm, atHigher]) (by omega) c
    simp only [if_neg atLower, if_pos atHigher, run, ExceptRun.ok_bind, ExceptRun.pure_eq_ok, Except.ok.injEq]
    have replaced : ∀ flags, Function.update (Node.duoNode (bit lower ||| bit higher) child1 child2 nflags).denote
        (key.drop pos) none = (Node.duoNode (bit lower ||| bit higher) child1 c'.n flags).denote := by
      intro flags
      rw [rest, atHigher]
      exact update_denote_duoNode_higher child1 child2 _ _ _ _ _ ordered deleted.denote
    refine duoAfterDelete_spec _ (fun _ _ => ⟨rfl, rfl⟩) live1 canonical1 (fun flags live => ⟨?_, ?_⟩)
      (fun dead => ?_) (fun c'' canonical denote kept => ⟨by rwa [notTerm], fun notUpdated => ?_, denote⟩)
    · refine .duoNode lower higher ordered _ _ _ live1 live canonical1 ?_
      rw [← atHigher, ← stepTerm]
      exact deleted.canonical
    · exact (replaced flags).symm
    · rw [replaced nflags, Node.eq_nil_of_isNil dead, Node.denote_duoNode_bits _ _ ordered, prefixed_singleton]
      congr 1
      funext i
      by_cases atL : i = lower
      · simp [atL]
      · by_cases atH : i = higher <;> simp [atH, atL]
    · simpa using kept notUpdated
  -- the key runs past both children: nothing to delete
  simp only [if_neg atLower, if_neg atHigher, ExceptRun.pure_eq_ok, Except.ok.injEq]
  refine ⟨_, _, rfl, ⟨?_, fun _ => ⟨rfl, rfl⟩, ?_⟩⟩
  · rw [notTerm]
    exact .duoNode lower higher ordered child1 child2 _ live1 live2 canonical1 canonical2
  · dsimp only
    rw [Node.denote_duoNode_bits _ _ ordered, Node.denote_duoNode_bits _ _ ordered, eq_comm,
      Function.update_eq_self_iff, rest, branch_cons]
    simp [atLower, atHigher]

/-- The full-node side of `delete` after the deletion in one slot: the live
slots are counted and the node becomes empty, a short node, a duo node, or
stays full. -/
theorem fullAfterDelete_spec (children : Nibble → Node) (nibble : Nibble) {nflags : NodeFlag} {adjust : Bool}
    {c : TrieContinuation} {events : List GenEvent}
    (slotsCanonical : ∀ i, (Function.update children nibble c.n i).Canonical (decide (i = 16)))
    {motive : TrieContinuation → Prop}
    (conclude : ∀ c' : TrieContinuation, c'.n.Canonical false →
      c'.n.denote = (Node.fullNode (Function.update children nibble c.n) nflags).denote →
      (c'.updated = false → c'.n.isNil = false ∧ c'.n.isShort = false) → motive c') :
    ∃ c' events', fullAfterDelete children nibble nflags adjust blockNr true c events =
      (true, c', events') ∧ motive c' := by
  have picked : ∀ x, (if x = nibble then c.n else Function.update children nibble c.n x) =
      Function.update children nibble c.n x := by
    intro x
    by_cases atSlot : x = nibble
    · subst atSlot
      simp
    · simp [atSlot]
  unfold fullAfterDelete
  simp only [Bool.not_true, Bool.and_false, Bool.false_eq_true, if_false, picked]
  generalize Function.update children nibble c.n = slots at *
  have dead : ∀ i, i ∉ liveList slots → slots i = .nil := fun i notLive =>
    Node.eq_nil_of_isNil (by simpa [mem_liveList] using notLive)
  have live : ∀ i, i ∈ liveList slots → (slots i).isNil = false := fun i isLive =>
    (mem_liveList slots i).mp isLive
  have sorted := liveList_sorted slots
  rw [liveSlots_eq]
  match found : liveList slots with
  | [] =>
      refine ⟨_, _, rfl, conclude _ (.nil _) ?_ (fun notUpdated => by simp at notUpdated)⟩
      have allDead : slots = fun _ => .nil := funext fun i => dead i (by simp [found])
      simp [allDead, branch_empty]
  | [x] =>
      obtain ⟨same, updated, canonical, denote⟩ :=
        convertToShortNode_result (live x (by simp [found])) (slotsCanonical x) c blockNr true
      simp only [same, if_true]
      refine ⟨_, _, rfl, conclude _ canonical ?_ (fun notUpdated => by simp [updated] at notUpdated)⟩
      rw [denote, Node.denote_fullNode, prefixed_singleton]
      congr 1
      funext i
      by_cases atX : i = x
      · simp [atX]
      · simp [atX, dead i (by simp [found, atX])]
  | [x, y] =>
      have ordered : x < y := by simpa [found] using sorted
      refine ⟨_, _, rfl, conclude _ ?_ ?_ (fun notUpdated => by simp at notUpdated)⟩
      · exact (Node.Canonical.duoNode x y ordered _ _ _ (live x (by simp [found])) (live y (by simp [found]))
          (slotsCanonical x) (slotsCanonical y)).adjustTod blockNr
      · rw [Node.denote_adjustTod, Node.denote_duoNode_bits _ _ ordered, Node.denote_fullNode]
        congr 1
        funext i
        by_cases atX : i = x
        · simp [atX]
        · by_cases atY : i = y
          · simp [atY, ordered.ne']
          · simp [atX, atY, dead i (by simp [found, atX, atY])]
  | x :: y :: z :: more =>
      have threeLive : 3 ≤ (liveList slots).length := by simp [found]
      refine ⟨_, _, rfl, conclude _ ((Node.Canonical.fullNode slots _ threeLive slotsCanonical).whenAdjust _ _)
        (by simp) (fun _ => by simp)⟩

theorem delete_fullNode (shape : HexKey key) {pos : Nat} (notEnd : key.length ≠ pos) (inKey : pos ≤ key.length)
    {children : Nibble → Node} {nflags : NodeFlag}
    (childrenCanonical : ∀ i, (children i).Canonical (decide (i = 16)))
    (below : ∀ i pos', decide (i = 16) = decide (pos' = key.length) → pos' ≤ key.length →
      DeleteSucceeds key pos' blockNr (children i)) :
    DeleteSucceeds key pos blockNr (.fullNode children nflags) := by
  intro c
  have inside : pos < key.length := by omega
  have notTerm : decide (pos = key.length) = false := decide_eq_false (fun atEnd => notEnd atEnd.symm)
  have rest : key.drop pos = key[pos] :: key.drop (pos + 1) := List.drop_eq_getElem_cons inside
  have stepTerm := shape.step_term pos inside
  obtain ⟨c', events, run, deleted⟩ := below key[pos] (pos + 1) stepTerm.symm (by omega) c
  rw [delete]
  simp only [List.getElem?_eq_getElem inside, run, ExceptRun.ok_bind, ExceptRun.pure_eq_ok, Except.ok.injEq]
  have slotsCanonical : ∀ i, (Function.update children key[pos] c'.n i).Canonical (decide (i = 16)) := by
    intro i
    by_cases atSlot : i = key[pos]
    · subst atSlot
      simpa [← stepTerm] using deleted.canonical
    · simpa [atSlot] using childrenCanonical i
  refine fullAfterDelete_spec children key[pos] slotsCanonical fun c'' canonical denote kept =>
    ⟨by rwa [notTerm], fun notUpdated => by simpa using kept notUpdated, ?_⟩
  rw [denote, rest]
  exact (update_denote_fullNode _ _ _ _ _ _ _ deleted.denote).symm

/-- The short-node side of `delete` after the deletion below it: the node goes
with an emptied child, absorbs a child that shrank to a short node, or keeps
its key in front of the new child. -/
theorem shortAfterDelete_spec {nk : Bytes} (nflags : NodeFlag) (keyLive : compactToHex nk ≠ [])
    (keyShape : TermLast (compactToHex nk)) (keyNoTerm : hasTerm (compactToHex nk) = false)
    {c : TrieContinuation} {events : List GenEvent} (childCanonical : c.n.Canonical false)
    (childKept : c.updated = false → c.n.isNil = false ∧ c.n.isShort = false)
    {motive : TrieContinuation → Prop}
    (conclude : ∀ c' : TrieContinuation, c'.n.Canonical false →
      c'.n.denote = prefixed (compactToHex nk) c.n.denote →
      (c'.updated = false → c'.n.isNil = false ∧ c'.n.isShort = true) → motive c') :
    ∃ c' events', shortAfterDelete nk nflags blockNr true c events = (true, c', events') ∧ motive c' := by
  unfold shortAfterDelete
  cases updated : c.updated
  · obtain ⟨live, notShort⟩ := childKept updated
    simp only [Bool.not_false, if_true]
    exact ⟨_, _, rfl, conclude _ (.shortNode _ _ _ keyLive keyShape live notShort (keyNoTerm ▸ childCanonical))
      rfl (fun _ => ⟨rfl, rfl⟩)⟩
  · simp only [Bool.not_true, Bool.false_eq_true, if_false]
    generalize c.n = child at childCanonical conclude ⊢
    cases childCanonical with
    | nil =>
        exact ⟨_, _, rfl, conclude _ (.nil _) (by simp) (fun notUpdated => by simp at notUpdated)⟩
    | shortNode childKey childVal childFlags childKeyLive childKeyShape childValLive childValNotShort
        childValCanonical =>
        have mergedShape : TermLast (compactToHex nk ++ compactToHex childKey) :=
          termLast_append (proper_of_not_hasTerm keyShape keyNoTerm) childKeyShape
        have decoded := compactToHex_hexToCompact _ mergedShape
        refine ⟨_, _, rfl, conclude _ ?_ ?_ (fun notUpdated => by simp at notUpdated)⟩
        · dsimp only
          apply Node.Canonical.adjustTod
          refine .shortNode _ _ _ (by simp [decoded, keyLive]) (by rwa [decoded]) childValLive childValNotShort ?_
          rwa [decoded, hasTerm_append _ childKeyLive]
        · simp [decoded, prefixed_append]
    | duoNode lower higher ordered child1 child2 flags live1 live2 canonical1 canonical2 =>
        refine ⟨_, _, rfl, conclude _ ?_ (by simp) (fun notUpdated => by simp at notUpdated)⟩
        exact (Node.Canonical.shortNode _ _ _ keyLive keyShape rfl rfl (keyNoTerm ▸
          .duoNode lower higher ordered child1 child2 flags live1 live2 canonical1 canonical2)).adjustTod blockNr
    | fullNode children flags threeLive childrenCanonical =>
        refine ⟨_, _, rfl, conclude _ ?_ (by simp) (fun notUpdated => by simp at notUpdated)⟩
        exact (Node.Canonical.shortNode _ _ _ keyLive keyShape rfl rfl (keyNoTerm ▸
          .fullNode children flags threeLive childrenCanonical)).adjustTod blockNr


theorem delete_nil (pos : Nat) : DeleteSucceeds key pos blockNr .nil := by
  intro c
  rw [delete]
  refine ⟨_, _, rfl, ⟨.nil _, fun _ => ⟨rfl, rfl⟩, ?_⟩⟩
  dsimp only
  rw [Node.denote_nil, eq_comm, Function.update_eq_self_iff]
  rfl

theorem delete_valueNode {pos : Nat} (atEnd : key.length = pos) (old : Bytes) :
    DeleteSucceeds key pos blockNr (.valueNode old) := by
  intro c
  rw [delete]
  refine ⟨_, _, rfl, ⟨.nil _, fun notUpdated => by simp at notUpdated, ?_⟩⟩
  have restEmpty : key.drop pos = [] := List.drop_eq_nil_of_le (by omega)
  dsimp only
  rw [restEmpty, Node.denote_nil, Node.denote_valueNode, erase_single]

theorem delete_shortNode (shape : HexKey key) {pos : Nat} (notEnd : key.length ≠ pos) (inKey : pos ≤ key.length)
    {nk : Bytes} {nval : Node} (nflags : NodeFlag) (keyLive : compactToHex nk ≠ [])
    (keyShape : TermLast (compactToHex nk)) (valLive : nval.isNil = false) (valNotShort : nval.isShort = false)
    (valCanonical : nval.Canonical (hasTerm (compactToHex nk)))
    (below : ∀ pos', hasTerm (compactToHex nk) = decide (pos' = key.length) → pos' ≤ key.length →
      DeleteSucceeds key pos' blockNr nval) :
    DeleteSucceeds key pos blockNr (.shortNode nk nval nflags) := by
  intro c
  have notTerm : decide (pos = key.length) = false := decide_eq_false (fun atEnd => notEnd atEnd.symm)
  rw [delete]
  dsimp only
  by_cases parts : prefixLen (key.drop pos) (compactToHex nk) < (compactToHex nk).length
  · -- the key leaves the short node's key: nothing to delete
    simp only [if_pos parts, ExceptRun.pure_eq_ok, Except.ok.injEq]
    refine ⟨_, _, rfl, ⟨?_, fun _ => ⟨rfl, rfl⟩, ?_⟩⟩
    · rw [notTerm]
      exact .shortNode nk nval nflags keyLive keyShape valLive valNotShort valCanonical
    · dsimp only
      rw [Node.denote_shortNode, erase_prefixed_off_path]
      intro leading
      exact absurd (prefixLen_eq_length_of_leading _ _ leading) (Nat.ne_of_lt parts)
  have whole : prefixLen (key.drop pos) (compactToHex nk) = (compactToHex nk).length :=
    le_antisymm (prefixLen_le_right _ _) (not_lt.mp parts)
  have fits := prefixLen_le_left (key.drop pos) (compactToHex nk)
  rw [List.length_drop] at fits
  have segment : (key.drop pos).take (compactToHex nk).length = compactToHex nk := by
    have common := take_prefixLen (key.drop pos) (compactToHex nk)
    rwa [whole, List.take_length] at common
  have childTerm : hasTerm (compactToHex nk) = decide (pos + (compactToHex nk).length = key.length) := by
    rw [← shape.hasTerm_segment pos _ (List.length_pos_of_ne_nil keyLive) (by omega), segment]
  have split := prefixLen_eq_length_right (key.drop pos) (compactToHex nk) whole
  rw [List.drop_drop] at split
  simp only [if_neg parts]
  by_cases last : prefixLen (key.drop pos) (compactToHex nk) = key.length - pos
  · -- the key ends with the short node: the node goes with its value
    simp only [if_pos last, ExceptRun.pure_eq_ok, Except.ok.injEq]
    have atEnd : pos + (compactToHex nk).length = key.length := by omega
    have valTerm : hasTerm (compactToHex nk) = true := by
      rw [childTerm]
      simpa using atEnd
    obtain ⟨value, rfl⟩ : ∃ value, nval = .valueNode value := by
      rcases (valTerm ▸ valCanonical).of_term with isNil | isValue
      · subst isNil
        simp at valLive
      · exact isValue
    refine ⟨_, _, rfl, ⟨.nil _, fun notUpdated => by simp at notUpdated, ?_⟩⟩
    have restEmpty : key.drop (pos + (compactToHex nk).length) = [] := List.drop_eq_nil_of_le (by omega)
    dsimp only
    rw [Node.denote_nil, Node.denote_shortNode, split, restEmpty, update_prefixed, Node.denote_valueNode,
      erase_single, prefixed_empty]
  · -- the key runs on below the short node
    simp only [if_neg last]
    have before : pos + (compactToHex nk).length < key.length := by omega
    have keyNoTerm : hasTerm (compactToHex nk) = false := by
      rw [childTerm]
      simp only [decide_eq_false_iff_not]
      omega
    obtain ⟨c', events, run, deleted⟩ := below (pos + (compactToHex nk).length) childTerm (by omega) c
    simp only [run, ExceptRun.ok_bind, ExceptRun.pure_eq_ok, Except.ok.injEq]
    have childCanonical := deleted.canonical
    rw [← childTerm, keyNoTerm] at childCanonical
    refine shortAfterDelete_spec nflags keyLive keyShape keyNoTerm childCanonical
      (fun notUpdated => by simpa [valLive, valNotShort] using deleted.kept notUpdated)
      fun c'' canonical denote kept =>
        ⟨by rwa [notTerm], fun notUpdated => by simpa using kept notUpdated, ?_⟩
    rw [denote, deleted.denote, Node.denote_shortNode, split, update_prefixed]

theorem delete_spec (shape : HexKey key) {n : Node} {term : Bool} (canonical : n.Canonical term) :
    ∀ pos, term = decide (pos = key.length) → pos ≤ key.length → DeleteSucceeds key pos blockNr n := by
  induction canonical with
  | nil =>
      intro pos _ _
      exact delete_nil pos
  | valueNode old =>
      intro pos atEnd _
      exact delete_valueNode (of_decide_eq_true atEnd.symm).symm old
  | shortNode nk nval nflags keyLive keyShape valLive valNotShort valCanonical below =>
      intro pos term inKey
      exact delete_shortNode shape (ne_of_term_false term) inKey nflags keyLive keyShape valLive valNotShort
        valCanonical below
  | duoNode lower higher ordered child1 child2 flags live1 live2 canonical1 canonical2 below1 below2 =>
      intro pos term inKey
      exact delete_duoNode shape (ne_of_term_false term) inKey ordered live1 live2 canonical1 canonical2
        below1 below2
  | fullNode children flags threeLive childrenCanonical below =>
      intro pos term inKey
      exact delete_fullNode shape (ne_of_term_false term) inKey childrenCanonical below

end TurboGeth.Trie
