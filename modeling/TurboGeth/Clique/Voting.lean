import TurboGeth.Clique.Snapshot

/-!
# The voting snapshot stays consistent

Every snapshot that `apply` reaches from `newSnapshot` keeps its three
caches in step with each other:

* every vote is a signer's, and a signer has at most one vote per account;
* an account has a tally exactly when some vote is on it, the tally counts
  those votes, they all vote the tally's way, and that way changes the
  account's standing;
* every recent signer signed one of the blocks of the window of
  `len(Signers)/2 + 1` blocks that ends at the snapshot, and no signer is
  recent twice.

The tally is followed account by account: `TallyOf` relates the votes on one
account to its tally, and each step of `apply` is shown to keep it, by
splitting on whether the account is the one the step touches.
-/

set_option autoImplicit false

namespace TurboGeth.Clique

/-- The tally of an account against the votes on it: none without votes;
otherwise their number, all voting the tally's way. -/
def TallyOf (on : List Vote) : Option Tally → Prop
  | none => on = []
  | some t => on ≠ [] ∧ t.votes = on.length ∧ ∀ vote ∈ on, vote.authorize = t.authorize

/-- The votes on `address`. -/
def votesOn (votes : List Vote) (address : Address) : List Vote :=
  votes.filter fun vote => vote.address = address

theorem votesOn_append (front back : List Vote) (address : Address) :
    votesOn (front ++ back) address = votesOn front address ++ votesOn back address := by
  simp [votesOn]

theorem votesOn_cons_self (vote : Vote) (rest : List Vote) :
    votesOn (vote :: rest) vote.address = vote :: votesOn rest vote.address := by
  simp [votesOn]

theorem votesOn_cons_other {vote : Vote} {address : Address} (other : vote.address ≠ address) (rest : List Vote) :
    votesOn (vote :: rest) address = votesOn rest address := by
  simp [votesOn, other]

/-- The tally that `uncast` leaves for a counted vote. -/
def uncounted (t : Tally) : Option Tally :=
  if t.votes > 1 then some { t with votes := t.votes - 1 } else none

/-- The tally that `cast` makes for a vote that makes sense. -/
def counted (old : Option Tally) (authorize : Bool) : Tally :=
  match old with
  | some old => { old with votes := old.votes + 1 }
  | none => ⟨authorize, 1⟩

theorem TallyOf.uncounted {front back : List Vote} {vote : Vote} {t : Tally}
    (tallied : TallyOf (front ++ vote :: back) (some t)) : TallyOf (front ++ back) (uncounted t) := by
  obtain ⟨-, count, agreed⟩ := tallied
  simp only [List.length_append, List.length_cons] at count
  unfold Clique.uncounted
  split
  · rename_i more
    refine ⟨?_, by simp only [List.length_append]; omega, fun other mem => agreed other (by simp at mem ⊢; tauto)⟩
    intro empty
    simp only [List.append_eq_nil_iff] at empty
    simp [empty.1, empty.2] at count
    omega
  · show front ++ back = []
    have short : (front ++ back).length = 0 := by simp only [List.length_append]; omega
    exact List.eq_nil_of_length_eq_zero short

theorem TallyOf.counted {on : List Vote} {old : Option Tally} {vote : Vote}
    (tallied : TallyOf on old) (agrees : ∀ t, old = some t → t.authorize = vote.authorize) :
    TallyOf (on ++ [vote]) (some (Clique.counted old vote.authorize)) := by
  cases old with
  | none =>
    simp only [TallyOf] at tallied
    subst tallied
    exact ⟨by simp, by simp [Clique.counted], by simp [Clique.counted]⟩
  | some t =>
    obtain ⟨-, count, agreed⟩ := tallied
    refine ⟨by simp, by simp [Clique.counted, count], ?_⟩
    intro other mem
    simp only [List.mem_append, List.mem_singleton] at mem
    rcases mem with earlier | rfl
    · exact agreed other earlier
    · exact (agrees t rfl).symm

/-- The tally counts the votes on every account. -/
def Counts (votes : List Vote) (tally : Address → Option Tally) : Prop :=
  ∀ address, TallyOf (votesOn votes address) (tally address)

theorem counts_nil : Counts [] fun _ => none := fun _ => rfl

/-- Every tally of `tally'` is one of `tally`, the way it votes unchanged. -/
def Narrower (tally' tally : Address → Option Tally) : Prop :=
  ∀ address t', tally' address = some t' → ∃ t, tally address = some t ∧ t'.authorize = t.authorize

theorem Narrower.refl (tally : Address → Option Tally) : Narrower tally tally :=
  fun _ t' found => ⟨t', found, rfl⟩

theorem Narrower.trans {tally'' tally' tally : Address → Option Tally} (outer : Narrower tally'' tally')
    (inner : Narrower tally' tally) : Narrower tally'' tally := by
  intro address t'' found
  obtain ⟨t', found', same'⟩ := outer address t'' found
  obtain ⟨t, found, same⟩ := inner address t' found'
  exact ⟨t, found, same'.trans same⟩

theorem Narrower.update_none (tally : Address → Option Tally) (address : Address) :
    Narrower (Function.update tally address none) tally := by
  intro other t' found
  by_cases same : other = address
  · subst same
    simp at found
  · rw [Function.update_of_ne same] at found
    exact ⟨t', found, rfl⟩

namespace Snapshot

theorem uncast_tally {snap : Snapshot} {address : Address} {t : Tally} (tallied : snap.tally address = some t)
    {authorize : Bool} (agrees : t.authorize = authorize) :
    (snap.uncast address authorize).2.tally = Function.update snap.tally address (uncounted t) := by
  unfold uncast Clique.uncounted
  rw [tallied]
  simp only [agrees, bne_self_eq_false, Bool.false_eq_true, if_false]
  split <;> rfl

theorem uncast_narrower (snap : Snapshot) (address : Address) (authorize : Bool) :
    Narrower (snap.uncast address authorize).2.tally snap.tally := by
  unfold uncast
  split
  · exact Narrower.refl _
  · rename_i t tallied
    split
    · exact Narrower.refl _
    · split
      · intro other t' found
        dsimp only at found
        by_cases same : other = address
        · subst same
          simp only [Function.update_self, Option.some.injEq] at found
          exact ⟨t, tallied, by rw [← found]⟩
        · rw [Function.update_of_ne same] at found
          exact ⟨t', found, rfl⟩
      · exact Narrower.update_none _ _

end Snapshot

theorem Counts.uncast {snap : Snapshot} {front back : List Vote} {vote : Vote}
    (counts : Counts (front ++ vote :: back) snap.tally) :
    Counts (front ++ back) (snap.uncast vote.address vote.authorize).2.tally := by
  have here := counts vote.address
  rw [votesOn_append, votesOn_cons_self] at here
  -- the vote is counted, so its account has a tally voting its way
  obtain ⟨t, tallied⟩ : ∃ t, snap.tally vote.address = some t := by
    cases found : snap.tally vote.address with
    | none =>
      rw [found] at here
      simp [TallyOf] at here
    | some t => exact ⟨t, rfl⟩
  rw [tallied] at here
  have agrees : t.authorize = vote.authorize := (here.2.2 vote (by simp)).symm
  rw [Snapshot.uncast_tally tallied agrees]
  intro address
  by_cases same : address = vote.address
  · subst same
    rw [Function.update_self, votesOn_append]
    exact here.uncounted
  · rw [Function.update_of_ne same, votesOn_append]
    have there := counts address
    rwa [votesOn_append, votesOn_cons_other (Ne.symm same)] at there

theorem votesOn_filter_other (votes : List Vote) {address other : Address} (apart : other ≠ address) :
    votesOn (votes.filter fun vote => vote.address ≠ address) other = votesOn votes other := by
  unfold votesOn
  rw [List.filter_filter]
  apply List.filter_congr
  intro vote _
  by_cases on : vote.address = other
  · simp [on, apart]
  · simp [on]

theorem Counts.discardOn {votes : List Vote} {tally : Address → Option Tally} (counts : Counts votes tally)
    (address : Address) :
    Counts (votes.filter fun vote => vote.address ≠ address) (Function.update tally address none) := by
  intro other
  by_cases same : other = address
  · subst same
    rw [Function.update_self]
    show votesOn _ other = []
    simp [votesOn, List.filter_filter]
  · rw [Function.update_of_ne same, votesOn_filter_other votes same]
    exact counts other

namespace Snapshot

theorem validVote_iff (snap : Snapshot) (address : Address) (authorize : Bool) :
    snap.validVote address authorize = true ↔ authorize = decide (address ∉ snap.signers) := by
  unfold validVote
  by_cases member : address ∈ snap.signers <;> cases authorize <;> simp [member]

theorem castVote_of_valid {snap : Snapshot} {signer : Address} {number : Nat} {coinbase : Address}
    {authorize : Bool} (valid : snap.validVote coinbase authorize = true) :
    snap.castVote signer number coinbase authorize =
      { snap with
        votes := snap.votes ++ [⟨signer, number, coinbase, authorize⟩]
        tally := Function.update snap.tally coinbase (some (counted (snap.tally coinbase) authorize)) } := by
  unfold castVote cast Clique.counted
  simp only [valid, Bool.not_true, Bool.false_eq_true, if_false]
  cases snap.tally coinbase <;> rfl

theorem castVote_of_invalid {snap : Snapshot} {signer : Address} {number : Nat} {coinbase : Address}
    {authorize : Bool} (invalid : snap.validVote coinbase authorize = false) :
    snap.castVote signer number coinbase authorize = snap := by
  simp [castVote, cast, invalid]

theorem discardVotesOf_votes (signer : Address) :
    ∀ (snap : Snapshot) (rest : List Vote),
      (discardVotesOf signer snap rest).2 = rest.filter fun vote => vote.signer ≠ signer
  | _, [] => rfl
  | snap, vote :: rest => by
    unfold discardVotesOf
    by_cases cast : vote.signer = signer
    · simp only [cast, if_true, ne_eq, not_true_eq_false, decide_false, List.filter_cons_of_neg,
        Bool.false_eq_true, not_false_eq_true]
      exact discardVotesOf_votes signer _ rest
    · simp only [cast, if_false, List.filter_cons, ne_eq, not_false_eq_true, decide_true, if_true]
      rw [discardVotesOf_votes signer snap rest]

theorem discardVotesOf_fields (signer : Address) :
    ∀ (snap : Snapshot) (rest : List Vote),
      (discardVotesOf signer snap rest).1.signers = snap.signers ∧
        (discardVotesOf signer snap rest).1.recents = snap.recents ∧
        (discardVotesOf signer snap rest).1.number = snap.number ∧
        Narrower (discardVotesOf signer snap rest).1.tally snap.tally
  | snap, [] => ⟨rfl, rfl, rfl, Narrower.refl _⟩
  | snap, vote :: rest => by
    unfold discardVotesOf
    split
    · obtain ⟨signers, recents, number, narrower⟩ :=
        discardVotesOf_fields signer (snap.uncast vote.address vote.authorize).2 rest
      exact ⟨by simp [signers], by simp [recents], by simp [number],
        narrower.trans (uncast_narrower snap vote.address vote.authorize)⟩
    · exact discardVotesOf_fields signer snap rest

@[simp] theorem passVote_number (snap : Snapshot) (number : Nat) (coinbase : Address) :
    (snap.passVote number coinbase).number = snap.number := by
  unfold passVote
  dsimp only
  split
  · split
    · rfl
    · simp [(discardVotesOf_fields coinbase _ _).2.2.1, dropSigner]
  · rfl

end Snapshot

theorem Counts.discardVotesOf (signer : Address) :
    ∀ (rest done : List Vote) (snap : Snapshot), Counts (done ++ rest) snap.tally →
      Counts (done ++ (Snapshot.discardVotesOf signer snap rest).2) (Snapshot.discardVotesOf signer snap rest).1.tally
  | [], done, snap, counts => by simpa [Snapshot.discardVotesOf] using counts
  | vote :: rest, done, snap, counts => by
    unfold Snapshot.discardVotesOf
    split
    · exact Counts.discardVotesOf signer rest done _ counts.uncast
    · have kept := Counts.discardVotesOf signer rest (done ++ [vote]) snap (by simpa using counts)
      simpa using kept

theorem takeVote_some {signer address : Address} :
    ∀ {votes rest : List Vote} {vote : Vote}, takeVote signer address votes = (some vote, rest) →
      ∃ front back, votes = front ++ vote :: back ∧ rest = front ++ back ∧ vote.signer = signer ∧
        vote.address = address
  | [], _, _, taken => by simp [takeVote] at taken
  | first :: others, rest, vote, taken => by
    unfold takeVote at taken
    split at taken
    · rename_i matched
      cases taken
      exact ⟨[], others, rfl, rfl, matched.1, matched.2⟩
    · obtain ⟨found, kept⟩ := Prod.mk.inj taken
      obtain ⟨front, back, split, restEq, sig, addr⟩ :=
        takeVote_some (Prod.ext found rfl : takeVote signer address others = (some vote, _))
      exact ⟨first :: front, back, by simp [split], by rw [← kept]; exact congrArg (first :: ·) restEq, sig, addr⟩

theorem takeVote_none {signer address : Address} :
    ∀ {votes : List Vote}, (takeVote signer address votes).1 = none →
      ∀ vote ∈ votes, ¬(vote.signer = signer ∧ vote.address = address)
  | [], _ => by simp
  | first :: others, missing => by
    unfold takeVote at missing
    split at missing
    · cases missing
    · rename_i unmatched
      intro vote mem
      rcases List.mem_cons.mp mem with rfl | later
      · exact unmatched
      · exact takeVote_none missing vote later

/-- The votes, their tally and the signers agree: (i) every vote is a
signer's and a signer votes at most once on an account, (ii) each tally
counts the votes on its account, and proposes to change its standing. -/
structure VotesConsistent (snap : Snapshot) : Prop where
  signed : ∀ vote ∈ snap.votes, vote.signer ∈ snap.signers
  single : (snap.votes.map fun vote => (vote.signer, vote.address)).Nodup
  counts : Counts snap.votes snap.tally
  proposed : ∀ address t, snap.tally address = some t → t.authorize = decide (address ∉ snap.signers)

theorem VotesConsistent.of_fields {snap snap' : Snapshot} (consistent : VotesConsistent snap)
    (votes : snap'.votes = snap.votes) (tally : snap'.tally = snap.tally) (signers : snap'.signers = snap.signers) :
    VotesConsistent snap' := by
  obtain ⟨signed, single, counts, proposed⟩ := consistent
  exact ⟨by rw [votes, signers]; exact signed, by rw [votes]; exact single, by rw [votes, tally]; exact counts,
    by rw [tally, signers]; exact proposed⟩

theorem VotesConsistent.checkpointReset {snap : Snapshot} (consistent : VotesConsistent snap) (number : Nat) :
    VotesConsistent (snap.checkpointReset number) := by
  unfold Snapshot.checkpointReset
  split
  · exact ⟨by simp, by simp, counts_nil, by simp⟩
  · exact consistent

theorem VotesConsistent.expireRecent {snap : Snapshot} (consistent : VotesConsistent snap) (number : Nat) :
    VotesConsistent (snap.expireRecent number) :=
  consistent.of_fields (by simp) (by simp) (by simp)

theorem VotesConsistent.recordSigner {snap : Snapshot} (consistent : VotesConsistent snap) (number : Nat)
    (signer : Address) : VotesConsistent (snap.recordSigner number signer) :=
  consistent.of_fields rfl rfl rfl

theorem VotesConsistent.discardVote {snap : Snapshot} (consistent : VotesConsistent snap) (signer address : Address) :
    VotesConsistent (snap.discardVote signer address) ∧
      ∀ vote ∈ (snap.discardVote signer address).votes, ¬(vote.signer = signer ∧ vote.address = address) := by
  unfold Snapshot.discardVote
  cases taken : takeVote signer address snap.votes with
  | mk found rest =>
    cases found with
    | none => exact ⟨consistent, takeVote_none (by rw [taken])⟩
    | some vote =>
      obtain ⟨front, back, split, rfl, sig, addr⟩ := takeVote_some taken
      obtain ⟨signed, single, counts, proposed⟩ := consistent
      rw [split] at signed single counts
      -- the pairs of the votes left are those of the votes before, less the one taken
      have pairs : ((front ++ back).map fun vote => (vote.signer, vote.address)).Sublist
          ((front ++ vote :: back).map fun vote => (vote.signer, vote.address)) :=
        List.Sublist.map _ (List.Sublist.append_left (List.sublist_cons_self vote back) front)
      refine ⟨⟨?_, single.sublist pairs, counts.uncast, ?_⟩, ?_⟩
      · intro other mem
        rw [Snapshot.uncast_signers]
        exact signed other (by simp at mem ⊢; tauto)
      · intro other t found
        obtain ⟨t₀, found₀, same⟩ := Snapshot.uncast_narrower snap vote.address vote.authorize other t found
        rw [Snapshot.uncast_signers, same]
        exact proposed other t₀ found₀
      · -- the vote taken was the only one of its pair
        intro other mem matched
        rw [List.map_append, List.map_cons, List.nodup_middle, List.nodup_cons, ← List.map_append] at single
        apply single.1
        rw [List.mem_map]
        exact ⟨other, mem, by rw [matched.1, matched.2, sig, addr]⟩

theorem VotesConsistent.castVote {snap : Snapshot} (consistent : VotesConsistent snap) {signer : Address}
    (member : signer ∈ snap.signers) (number : Nat) (coinbase : Address) (authorize : Bool)
    (fresh : ∀ vote ∈ snap.votes, ¬(vote.signer = signer ∧ vote.address = coinbase)) :
    VotesConsistent (snap.castVote signer number coinbase authorize) := by
  cases valid : snap.validVote coinbase authorize with
  | false => rwa [Snapshot.castVote_of_invalid valid]
  | true =>
    rw [Snapshot.castVote_of_valid valid]
    have proposes := (Snapshot.validVote_iff snap coinbase authorize).mp valid
    obtain ⟨signed, single, counts, proposed⟩ := consistent
    refine ⟨?_, ?_, ?_, ?_⟩
    · intro vote mem
      rcases List.mem_append.mp mem with earlier | latest
      · exact signed vote earlier
      · rw [List.mem_singleton.mp latest]
        exact member
    · rw [List.map_append, List.nodup_append]
      refine ⟨single, by simp, ?_⟩
      intro pair earlier pair' latest same
      simp only [List.map_cons, List.map_nil, List.mem_singleton] at latest
      obtain ⟨vote, mem, rfl⟩ := List.mem_map.mp earlier
      subst latest
      simp only [Prod.mk.injEq] at same
      exact fresh vote mem same
    · intro address
      dsimp only
      by_cases same : address = coinbase
      · subst same
        rw [Function.update_self, votesOn_append]
        have cast : TallyOf (votesOn snap.votes address ++ [⟨signer, number, address, authorize⟩])
            (some (counted (snap.tally address) authorize)) :=
          TallyOf.counted (counts address) (fun t found => by rw [proposed address t found, proposes])
        simpa [votesOn] using cast
      · rw [Function.update_of_ne same, votesOn_append]
        simpa [votesOn, Ne.symm same] using counts address
    · intro address t found
      dsimp only at found ⊢
      by_cases same : address = coinbase
      · subst same
        rw [Function.update_self, Option.some.injEq] at found
        subst found
        cases old : snap.tally address with
        | none => simpa [counted] using proposes
        | some t₀ => simpa [counted] using proposed address t₀ old
      · rw [Function.update_of_ne same] at found
        exact proposed address t found

theorem VotesConsistent.passVote {snap : Snapshot} (consistent : VotesConsistent snap) (number : Nat)
    (coinbase : Address) : VotesConsistent (snap.passVote number coinbase) := by
  unfold Snapshot.passVote
  dsimp only
  split
  · obtain ⟨signed, single, counts, proposed⟩ := consistent
    split
    · -- authorized: the signers grow by the account
      refine ⟨?_, ?_, ?_, ?_⟩
      · intro vote mem
        simp only [Snapshot.addSigner, List.mem_filter] at mem ⊢
        exact List.mem_insert_of_mem (signed vote mem.1)
      · exact single.sublist (List.Sublist.map _ List.filter_sublist)
      · exact counts.discardOn coinbase
      · intro address t found
        dsimp only at found ⊢
        by_cases same : address = coinbase
        · subst same
          simp at found
        · rw [Function.update_of_ne same] at found
          simp only [Snapshot.addSigner, List.mem_insert_iff, same, false_or]
          exact proposed address t found
    · -- dropped: the signers lose the account and its votes
      generalize droppedDef : (snap.dropSigner coinbase).expireRecent number = dropped
      have droppedVotes : dropped.votes = snap.votes := by
        rw [← droppedDef]
        simp [Snapshot.dropSigner]
      have droppedTally : dropped.tally = snap.tally := by
        rw [← droppedDef]
        simp [Snapshot.dropSigner]
      have droppedSigners : dropped.signers = snap.signers.erase coinbase := by
        rw [← droppedDef]
        simp [Snapshot.dropSigner]
      obtain ⟨keptSigners, -, -, narrower⟩ := Snapshot.discardVotesOf_fields coinbase dropped dropped.votes
      have keptVotes := Snapshot.discardVotesOf_votes coinbase dropped dropped.votes
      have keptCounts := Counts.discardVotesOf coinbase dropped.votes [] dropped (by
        rw [List.nil_append, droppedVotes, droppedTally]
        exact counts)
      rw [List.nil_append] at keptCounts
      refine ⟨?_, ?_, ?_, ?_⟩
      · intro vote mem
        dsimp only at mem ⊢
        rw [keptSigners, droppedSigners]
        rw [List.mem_filter, keptVotes, droppedVotes, List.mem_filter] at mem
        exact (List.mem_erase_of_ne (by simpa using mem.1.2)).mpr (signed vote mem.1.1)
      · dsimp only
        rw [keptVotes, droppedVotes]
        exact single.sublist (List.Sublist.map _ (List.filter_sublist.trans List.filter_sublist))
      · exact keptCounts.discardOn coinbase
      · intro address t found
        dsimp only at found ⊢
        by_cases same : address = coinbase
        · subst same
          simp at found
        · rw [Function.update_of_ne same] at found
          obtain ⟨t₀, found₀, agrees⟩ := narrower address t found
          rw [droppedTally] at found₀
          rw [keptSigners, droppedSigners, agrees, proposed address t₀ found₀]
          simp [List.mem_erase_of_ne same]
  · exact consistent

/-- Every recent block lies among the last `width` blocks up to `last`. -/
def InWindow (last width : Nat) (recents : AList fun _ : Nat => Address) : Prop :=
  ∀ block ∈ recents.keys, last < block + width ∧ block ≤ last

theorem InWindow.mono {last width width' : Nat} {recents : AList fun _ : Nat => Address}
    (within : InWindow last width recents) (wider : width ≤ width') : InWindow last width' recents := by
  intro block mem
  obtain ⟨young, seen⟩ := within block mem
  exact ⟨by omega, seen⟩

theorem InWindow.expireRecent {snap : Snapshot} {last width : Nat} (within : InWindow last width snap.recents)
    (number : Nat) (aligned : number + width = last + 1 + (snap.signers.length / 2 + 1)) :
    InWindow last (width - 1) (snap.expireRecent number).recents := by
  unfold Snapshot.expireRecent
  dsimp only
  split
  · intro block mem
    rw [AList.keys_erase] at mem
    have kept : block ≠ number - (snap.signers.length / 2 + 1) := fun gone => by
      rw [gone] at mem
      exact AList.keys_nodup _ |>.not_mem_erase mem
    obtain ⟨young, seen⟩ := within block (List.mem_of_mem_erase mem)
    exact ⟨by omega, seen⟩
  · -- below the limit nothing goes, and the window is wider than the chain
    intro block mem
    obtain ⟨-, seen⟩ := within block mem
    exact ⟨by omega, seen⟩

theorem InWindow.recordSigner {snap : Snapshot} {last width : Nat} (within : InWindow last width snap.recents)
    (signer : Address) : InWindow (last + 1) (width + 1) (snap.recordSigner (last + 1) signer).recents := by
  intro block mem
  rw [Snapshot.recordSigner_recents, AList.keys_insert, List.mem_cons] at mem
  rcases mem with rfl | earlier
  · exact ⟨by omega, le_refl _⟩
  · obtain ⟨young, seen⟩ := within block (List.mem_of_mem_erase earlier)
    exact ⟨by omega, by omega⟩

theorem Snapshot.expireRecent_entries_sublist (snap : Snapshot) (number : Nat) :
    List.Sublist (snap.expireRecent number).recents.entries snap.recents.entries := by
  unfold Snapshot.expireRecent
  dsimp only
  split
  · exact List.kerase_sublist _ _
  · exact List.Sublist.refl _

/-- The recent signers against the block `number` the snapshot stands at:
each signed one of the last `len(Signers)/2 + 1` blocks up to `number`, and
none is recent twice. -/
structure RecentsWithin (number : Nat) (snap : Snapshot) : Prop where
  window : InWindow number (snap.signers.length / 2 + 1) snap.recents
  distinct : (snap.recents.entries.map Sigma.snd).Nodup

theorem RecentsWithin.of_fields {number : Nat} {snap snap' : Snapshot} (within : RecentsWithin number snap)
    (recents : snap'.recents = snap.recents) (signers : snap'.signers = snap.signers) : RecentsWithin number snap' := by
  obtain ⟨window, distinct⟩ := within
  exact ⟨by rw [recents, signers]; exact window, by rw [recents]; exact distinct⟩

theorem RecentsWithin.passVote {number : Nat} {snap : Snapshot} (within : RecentsWithin number snap)
    (coinbase : Address) : RecentsWithin number (snap.passVote number coinbase) := by
  obtain ⟨window, distinct⟩ := within
  unfold Snapshot.passVote
  dsimp only
  split
  · split
    · -- authorized: more signers, a wider window
      refine ⟨window.mono ?_, distinct⟩
      have grown : snap.signers.length ≤ (snap.signers.insert coinbase).length := List.length_le_length_insert
      dsimp only [Snapshot.addSigner]
      omega
    · -- dropped: the signers' count falls by at most one
      obtain ⟨keptSigners, keptRecents, -, -⟩ := Snapshot.discardVotesOf_fields coinbase
        ((snap.dropSigner coinbase).expireRecent number) ((snap.dropSigner coinbase).expireRecent number).votes
      have shrunk : snap.signers.length ≤ (snap.signers.erase coinbase).length + 1 := by
        rw [List.length_erase]
        split <;> omega
      have wide : InWindow number ((snap.signers.erase coinbase).length / 2 + 1 + 1) (snap.dropSigner coinbase).recents :=
        window.mono (by omega)
      have narrowed := wide.expireRecent number (by simp [Snapshot.dropSigner]; omega)
      refine ⟨?_, ?_⟩
      · dsimp only
        rw [keptSigners, keptRecents, Snapshot.expireRecent_signers]
        simpa [Snapshot.dropSigner] using narrowed
      · dsimp only
        rw [keptRecents]
        exact distinct.sublist ((Snapshot.expireRecent_entries_sublist _ number).map _)
  · exact ⟨window, distinct⟩

theorem Snapshot.recordSigner_distinct {snap : Snapshot} {signer : Address}
    (distinct : (snap.recents.entries.map Sigma.snd).Nodup)
    (fresh : snap.recents.entries.any (fun recent => recent.2 = signer) = false) (number : Nat) :
    ((snap.recordSigner number signer).recents.entries.map Sigma.snd).Nodup := by
  rw [Snapshot.recordSigner_recents, AList.entries_insert, List.map_cons, List.nodup_cons]
  have kept := List.kerase_sublist number snap.recents.entries
  refine ⟨fun mem => ?_, distinct.sublist (kept.map _)⟩
  obtain ⟨recent, mem, same⟩ := List.mem_map.mp mem
  have unlike := List.any_eq_false.mp fresh recent (kept.subset mem)
  simp [same] at unlike

/-- The invariants of a snapshot, its window ending at its own block. -/
structure Consistent (snap : Snapshot) : Prop where
  votes : VotesConsistent snap
  recents : RecentsWithin snap.number snap

section Apply

variable (ecrecover : Header → Option Address)

theorem applyHeader_consistent {snap snap' : Snapshot} {header : Header} {last : Nat}
    (votes : VotesConsistent snap) (recents : RecentsWithin last snap) (next : header.number = last + 1)
    (applied : snap.applyHeader ecrecover header = .ok snap') :
    VotesConsistent snap' ∧ RecentsWithin (last + 1) snap' ∧ snap'.number = snap.number := by
  obtain ⟨signer, authorize, -, member, fresh, -, rfl⟩ := Snapshot.applyHeader_eq_ok ecrecover applied
  rw [next] at fresh ⊢
  refine ⟨?_, ?_, by simp⟩
  · -- the vote of the header replaces the signer's earlier vote on the account
    have reset := (votes.checkpointReset (last + 1)).expireRecent (last + 1)
    obtain ⟨discarded, noVote⟩ := (reset.recordSigner (last + 1) signer).discardVote signer header.coinbase
    exact (discarded.castVote (by simpa using member) (last + 1) header.coinbase authorize noVote).passVote _ _
  · -- the oldest block goes, the header's block comes
    have window := recents.window
    rw [← Snapshot.checkpointReset_recents snap (last + 1)] at window
    have expired := window.expireRecent (last + 1) (by simp)
    have reset : RecentsWithin (last + 1)
        (((snap.checkpointReset (last + 1)).expireRecent (last + 1)).recordSigner (last + 1) signer) := by
      refine ⟨by simpa using expired.recordSigner signer, Snapshot.recordSigner_distinct ?_ fresh _⟩
      have entries := Snapshot.expireRecent_entries_sublist (snap.checkpointReset (last + 1)) (last + 1)
      rw [Snapshot.checkpointReset_recents] at entries
      exact recents.distinct.sublist (entries.map _)
    exact (reset.of_fields (by simp) (by simp)).passVote _

theorem applyHeaders_consistent : ∀ (headers : List Header) {snap snap' : Snapshot} {last : Nat},
    VotesConsistent snap → RecentsWithin last snap →
    headers.map Header.number = List.range' (last + 1) headers.length →
    snap.applyHeaders ecrecover headers = .ok snap' →
    VotesConsistent snap' ∧ RecentsWithin (last + headers.length) snap' ∧ snap'.number = snap.number
  | [], _, _, _, votes, recents, _, applied => by
    simp only [Snapshot.applyHeaders, Except.ok.injEq] at applied
    subst applied
    exact ⟨votes, recents, rfl⟩
  | header :: rest, snap, snap', last, votes, recents, numbered, applied => by
    rw [List.map_cons, List.length_cons, List.range'_succ, List.cons.injEq] at numbered
    rw [Snapshot.applyHeaders] at applied
    obtain ⟨mid, stepped, continued⟩ := ExceptRun.bind_eq_ok.mp applied
    obtain ⟨votes', recents', kept⟩ := applyHeader_consistent ecrecover votes recents numbered.1 stepped
    obtain ⟨votes'', recents'', kept'⟩ := applyHeaders_consistent rest votes' recents' numbered.2 continued
    have ends : last + (header :: rest).length = last + 1 + rest.length := by
      rw [List.length_cons]
      omega
    exact ⟨votes'', ends ▸ recents'', kept'.trans kept⟩

theorem chained_numbers : ∀ (first : Header) (rest : List Header), chained (first :: rest) = true →
    (first :: rest).map Header.number = List.range' first.number (rest.length + 1)
  | first, [], _ => rfl
  | first, second :: rest, linked => by
    simp only [chained, Bool.and_eq_true, beq_iff_eq] at linked
    rw [List.map_cons, chained_numbers second rest linked.2, linked.1]
    simp [List.range'_succ]

theorem Consistent.apply {s snap : Snapshot} {headers : List Header} (consistent : Consistent s)
    (applied : s.apply ecrecover headers = .ok snap) : Consistent snap := by
  cases headers with
  | nil =>
    simp only [Snapshot.apply, Except.ok.injEq] at applied
    exact applied ▸ consistent
  | cons first rest =>
    simp only [Snapshot.apply] at applied
    split at applied
    · cases applied
    · split at applied
      · cases applied
      · rename_i linked starts
        obtain ⟨mid, looped, finished⟩ := ExceptRun.bind_eq_ok.mp applied
        simp only [ExceptRun.pure_eq_ok, Except.ok.injEq] at finished
        subst finished
        have numbered := chained_numbers first rest (by simpa using linked)
        rw [not_not.mp starts] at numbered
        obtain ⟨votes, recents, kept⟩ := applyHeaders_consistent ecrecover (first :: rest) consistent.votes
          consistent.recents numbered looped
        refine ⟨votes.of_fields rfl rfl rfl, ?_⟩
        show RecentsWithin (mid.number + (first :: rest).length) _
        rw [kept]
        exact recents.of_fields rfl rfl

/-- The snapshots that `apply` reaches from a `newSnapshot`. -/
inductive Reachable : Snapshot → Prop
  | genesis (config : CliqueConfig) (number : Nat) (signers : List Address) :
      Reachable (newSnapshot config number signers)
  | apply {snap snap' : Snapshot} (headers : List Header) :
      Reachable snap → snap.apply ecrecover headers = .ok snap' → Reachable snap'

theorem newSnapshot_consistent (config : CliqueConfig) (number : Nat) (signers : List Address) :
    Consistent (newSnapshot config number signers) :=
  ⟨⟨by simp [newSnapshot], by simp [newSnapshot], counts_nil, by simp [newSnapshot]⟩,
    ⟨fun block mem => by simp [newSnapshot] at mem, by simp [newSnapshot]⟩⟩

/-- Every snapshot that `apply` reaches from `newSnapshot` keeps its votes,
tally, signers and recent signers consistent. -/
theorem reachable_consistent {snap : Snapshot} (reached : Reachable ecrecover snap) : Consistent snap := by
  induction reached with
  | genesis config number signers => exact newSnapshot_consistent config number signers
  | apply headers _ applied consistent => exact consistent.apply ecrecover applied

end Apply

/-- One block sealed by the first of four signers, recovered from the
header's extra data, is applied to a new snapshot. -/
theorem reachable_consistent_after_one_block :
    ∃ snap, (newSnapshot ⟨0, 30000, by decide⟩ 0 [[1], [2], [3], [4]]).apply (fun header => some header.extra)
        [{ number := 1, coinbase := [], nonce := nonceDropVote, difficulty := diffNoTurn, extra := [1] }] = .ok snap ∧
      Reachable (fun header => some header.extra) snap ∧ Consistent snap := by
  obtain ⟨snap, applied⟩ : ∃ snap, (newSnapshot ⟨0, 30000, by decide⟩ 0 [[1], [2], [3], [4]]).apply
      (fun header => some header.extra)
      [{ number := 1, coinbase := [], nonce := nonceDropVote, difficulty := diffNoTurn, extra := [1] }] = .ok snap :=
    ⟨_, rfl⟩
  have reached : Reachable (fun header => some header.extra) snap := .apply _ (.genesis _ _ _) applied
  exact ⟨snap, applied, reached, reachable_consistent _ reached⟩

end TurboGeth.Clique
