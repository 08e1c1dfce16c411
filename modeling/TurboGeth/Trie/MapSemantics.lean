import TurboGeth.Trie.Trie
import TurboGeth.Trie.InsertSpec
import TurboGeth.Trie.DeleteSpec
import TurboGeth.Trie.GetSpec
import TurboGeth.Lib.Simulation

/-!
# The in-memory trie is a key-value store

What `TryUpdate`, `TryDelete` and `TryGet` are for, stated without tries: a
map from keys to non-empty values, where an update with an empty value
deletes.  A trie created by `New` on the empty root holds every node in
memory; from there each operation succeeds in one round of its resolution
loop, keeps the canonical shape, and changes the map the trie denotes exactly
as the abstract operation changes the abstract map.  A read returns the
abstract value and needs no database.
-/

set_option autoImplicit false

namespace TurboGeth.Trie

open PathMap

/-! ## The abstract store -/

def TrieOp.key : TrieOp → Bytes
  | .update key _ _ => key
  | .delete key _ => key

/-- What an operation leaves at its key: an update's value, unless it is empty. -/
def TrieOp.written : TrieOp → Option Bytes
  | .update _ value _ => if value.length ≠ 0 then some value else none
  | .delete _ _ => none

theorem TrieOp.written_ne_nil (op : TrieOp) (value : Bytes) (written : op.written = some value) : value ≠ [] := by
  cases op with
  | update key stored blockNr =>
      simp only [TrieOp.written] at written
      split at written
      · next nonEmpty =>
          cases written
          exact List.ne_nil_of_length_pos (Nat.pos_of_ne_zero nonEmpty)
      · contradiction
  | delete key blockNr => simp [TrieOp.written] at written

/-- A key-value store whose values are never empty. -/
structure Store where
  get : Bytes → Option Bytes
  nonEmpty : ∀ key value, get key = some value → value ≠ []

def Store.empty : Store :=
  ⟨fun _ => none, fun _ _ absent => by simp at absent⟩

def Store.apply (s : Store) (op : TrieOp) : Store where
  get := Function.update s.get op.key op.written
  nonEmpty := by
    intro key value stored
    by_cases atKey : key = op.key
    · subst atKey
      exact op.written_ne_nil value (by simpa using stored)
    · exact s.nonEmpty key value (by simpa [atKey] using stored)

def Store.ofOps (ops : List TrieOp) : Store := ops.foldl Store.apply Store.empty

/-- The value the last operation on `key` left there, `none` if there was none. -/
def lastWrite (ops : List TrieOp) (key : Bytes) : Option Bytes :=
  ops.foldl (fun found op => if op.key = key then op.written else found) none

theorem Store.foldl_apply_get (key : Bytes) :
    ∀ (ops : List TrieOp) (s : Store), (ops.foldl Store.apply s).get key =
      ops.foldl (fun found op => if op.key = key then op.written else found) (s.get key)
  | [], _ => rfl
  | op :: rest, s => by
      rw [List.foldl_cons, List.foldl_cons, Store.foldl_apply_get key rest (s.apply op)]
      congr 1
      by_cases atKey : op.key = key
      · subst atKey
        simp [Store.apply]
      · simp [Store.apply, atKey, Ne.symm atKey]

theorem Store.ofOps_get (ops : List TrieOp) (key : Bytes) : (Store.ofOps ops).get key = lastWrite ops key :=
  Store.foldl_apply_get key ops Store.empty

/-! ## The trie stands for a store -/

/-- The trie `t` is canonical and maps every key as the store `s` does. -/
structure Represents (t : Trie) (s : Store) : Prop where
  canonical : t.root.Canonical false
  contents : ∀ key, t.root.denote (keybytesToHex key) = s.get key

theorem represents_new (encodeToBytes : Bool) : Represents (Trie.new zeroHash encodeToBytes) Store.empty := by
  have emptyRoot : Trie.new zeroHash encodeToBytes = { root := .nil, encodeToBytes := encodeToBytes } := by
    simp [Trie.new]
  rw [emptyRoot]
  exact ⟨.nil _, fun _ => rfl⟩

theorem contents_update {root root' : Node} {s : Store} (contents : ∀ key, root.denote (keybytesToHex key) = s.get key)
    (op : TrieOp) (updated : root'.denote = Function.update root.denote (keybytesToHex op.key) op.written) :
    ∀ key, root'.denote (keybytesToHex key) = (s.apply op).get key := by
  intro key
  rw [updated, Store.apply]
  by_cases atKey : key = op.key
  · subst atKey
    simp
  · have apart : keybytesToHex key ≠ keybytesToHex op.key := fun same => atKey (keybytesToHex_injective same)
    simp [Function.update_of_ne apart, Function.update_of_ne atKey, contents key]

theorem hexKey_not_end (key : Bytes) : false = decide (0 = (keybytesToHex key).length) := by
  simp [keybytesToHex_length]

/-! ## One operation -/

section Run

variable (resolveWithDb : TrieContinuation → Except String TrieContinuation) (fuel : Nat)

theorem runWithDb_insert {root : Node} (canonical : root.Canonical false) (tc : TrieContinuation) (key value : Bytes)
    (action : tc.action = .insert) (hexKey : tc.key = keybytesToHex key) (stored : tc.value = .valueNode value)
    (blockNr : Nat) :
    ∃ tc' events, runWithDb tc root blockNr = .ok (true, tc', events) ∧ tc'.n.Canonical false ∧
      tc'.n.denote = Function.update root.denote (keybytesToHex key) (some value) := by
  have shape := hexKey_keybytesToHex key
  unfold runWithDb
  simp only [action, hexKey, stored]
  by_cases empty : root.isNil
  · have isNil := Node.eq_nil_of_isNil empty
    subst isNil
    simp only [Node.isNil_nil, if_true, ExceptRun.pure_eq_ok]
    refine ⟨_, _, rfl, ?_, ?_⟩
    · refine canonical_newShortNode ?_ shape.2 rfl rfl ?_ blockNr
      · simp [← List.length_pos_iff, keybytesToHex_length]
      · rw [shape.1]
        exact .valueNode value
    · rw [denote_newShortNode shape.2, Node.denote_nil, update_empty, Node.denote_valueNode]
  · have live : root.isNil = false := by simpa using empty
    simp only [live, Bool.false_eq_true, if_false]
    have spec : InsertSucceeds (keybytesToHex key) 0 value blockNr root :=
      insert_spec shape canonical 0 (hexKey_not_end key) (Nat.zero_le _) live
    obtain ⟨c', events, run, inserted⟩ :=
      spec { tc with action := .insert, key := keybytesToHex key, value := .valueNode value, updated := false }
    refine ⟨c', events, run, ?_, ?_⟩
    · simpa [← hexKey_not_end key] using inserted.canonical
    · simpa using inserted.denote

theorem runWithDb_delete {root : Node} (canonical : root.Canonical false) (tc : TrieContinuation) (key : Bytes)
    (action : tc.action = .delete) (hexKey : tc.key = keybytesToHex key) (blockNr : Nat) :
    ∃ tc' events, runWithDb tc root blockNr = .ok (true, tc', events) ∧ tc'.n.Canonical false ∧
      tc'.n.denote = Function.update root.denote (keybytesToHex key) none := by
  have shape := hexKey_keybytesToHex key
  unfold runWithDb
  simp only [action, hexKey]
  have spec : DeleteSucceeds (keybytesToHex key) 0 blockNr root :=
    delete_spec shape canonical 0 (hexKey_not_end key) (Nat.zero_le _)
  obtain ⟨c', events, run, deleted⟩ := spec { tc with action := .delete, key := keybytesToHex key, updated := false }
  refine ⟨c', events, run, ?_, ?_⟩
  · simpa [← hexKey_not_end key] using deleted.canonical
  · simpa using deleted.denote

theorem resolveLoop_done {tc tc' : TrieContinuation} {t : Trie} {blockNr : Nat} {events : List GenEvent}
    (done : runWithDb tc t.root blockNr = .ok (true, tc', events)) :
    resolveLoop resolveWithDb (fuel + 1) tc t blockNr = .ok ({ t with root := tc'.n }, events) := by
  rw [resolveLoop, done]
  rfl

theorem applyOp_spec {t : Trie} (canonical : t.root.Canonical false) (op : TrieOp) :
    ∃ t', applyOp resolveWithDb (fuel + 1) t op = .ok t' ∧ t'.root.Canonical false ∧
      t'.root.denote = Function.update t.root.denote (keybytesToHex op.key) op.written := by
  cases op with
  | update key value blockNr =>
      by_cases nonEmpty : value.length ≠ 0
      · obtain ⟨tc', events, done, shape, denote⟩ := runWithDb_insert canonical (updateAction key value) key
          value (by simp [updateAction, nonEmpty]) (by simp [updateAction, nonEmpty])
          (by simp [updateAction, nonEmpty]) blockNr
        refine ⟨_, by simp [applyOp, tryUpdate, resolveLoop_done resolveWithDb fuel done]; rfl, shape, ?_⟩
        simpa [TrieOp.key, TrieOp.written, nonEmpty] using denote
      · obtain ⟨tc', events, done, shape, denote⟩ := runWithDb_delete canonical (updateAction key value) key
          (by simp [updateAction, nonEmpty]) (by simp [updateAction, nonEmpty]) blockNr
        refine ⟨_, by simp [applyOp, tryUpdate, resolveLoop_done resolveWithDb fuel done]; rfl, shape, ?_⟩
        simpa [TrieOp.key, TrieOp.written, nonEmpty] using denote
  | delete key blockNr =>
      obtain ⟨tc', events, done, shape, denote⟩ := runWithDb_delete canonical (deleteAction key) key rfl rfl
        blockNr
      refine ⟨_, by simp [applyOp, tryDelete, resolveLoop_done resolveWithDb fuel done]; rfl, shape, ?_⟩
      simpa [TrieOp.key, TrieOp.written] using denote

theorem applyOp_refines : Simulation.Refines Represents (applyOp resolveWithDb (fuel + 1)) Store.apply := by
  intro t s op represents
  obtain ⟨t', applied, canonical, denote⟩ := applyOp_spec resolveWithDb fuel represents.canonical op
  exact ⟨t', applied, canonical, contents_update represents.contents op denote⟩

theorem runOps_refines (encodeToBytes : Bool) (ops : List TrieOp) :
    ∃ t, runOps resolveWithDb (fuel + 1) (Trie.new zeroHash encodeToBytes) ops = .ok t ∧
      Represents t (Store.ofOps ops) :=
  Simulation.foldlM_refines (applyOp_refines resolveWithDb fuel) ops _ _ (represents_new encodeToBytes)

theorem tryGet_represents (dbGet : Bytes → Option Bytes) {t : Trie} {s : Store} (represents : Represents t s)
    (key : Bytes) (blockNr : Nat) :
    ∃ t' events, tryGet dbGet t key blockNr = .ok (s.get key, t', events) ∧ Represents t' s := by
  have spec : GetSucceeds (keybytesToHex key) 0 blockNr t.root :=
    tryGet1_spec (hexKey_keybytesToHex key) represents.canonical 0 (hexKey_not_end key) (Nat.zero_le _)
  obtain ⟨after, events, run, read⟩ := spec
  rw [List.drop_zero, represents.contents key] at run
  refine ⟨{ t with root := after }, events, by simp [tryGet, run], ?_, ?_⟩
  · simpa [← hexKey_not_end key] using read.canonical
  · intro other
    rw [← represents.contents other]
    exact congrFun read.denote _

theorem applyOp_no_fuel (t : Trie) (op : TrieOp) : ∀ t', applyOp resolveWithDb 0 t op ≠ .ok t' := by
  intro t' ran
  cases op with
  | update key value blockNr => simp [applyOp, tryUpdate, resolveLoop] at ran
  | delete key blockNr => simp [applyOp, tryDelete, resolveLoop] at ran

theorem applyOp_canonical (rounds : Nat) {t t' : Trie} (canonical : t.root.Canonical false) (op : TrieOp)
    (applied : applyOp resolveWithDb rounds t op = .ok t') : t'.root.Canonical false := by
  cases rounds with
  | zero => exact absurd applied (applyOp_no_fuel resolveWithDb t op t')
  | succ rounds =>
      obtain ⟨t'', applied', shape, _⟩ := applyOp_spec resolveWithDb rounds canonical op
      rw [applied'] at applied
      cases applied
      exact shape

end Run

/-! ## Results -/

theorem tryGet_lastWrite (resolveWithDb : TrieContinuation → Except String TrieContinuation) (fuel : Nat)
    (encodeToBytes : Bool) (ops : List TrieOp) (dbGet : Bytes → Option Bytes) (blockNr : Nat) :
    ∃ t, runOps resolveWithDb (fuel + 1) (Trie.new zeroHash encodeToBytes) ops = .ok t ∧
      ∀ key, ∃ t' events, tryGet dbGet t key blockNr = .ok (lastWrite ops key, t', events) := by
  obtain ⟨t, run, represents⟩ := runOps_refines resolveWithDb fuel encodeToBytes ops
  refine ⟨t, run, fun key => ?_⟩
  obtain ⟨t', events, read, _⟩ := tryGet_represents dbGet represents key blockNr
  exact ⟨t', events, by rw [read, Store.ofOps_get]⟩

theorem insert_canonical {key : List Nibble} (shape : HexKey key) {n : Node} {pos : Nat} {value : Bytes}
    {c : TrieContinuation} {blockNr : Nat} {result : Bool × TrieContinuation × List GenEvent}
    (canonical : n.Canonical (decide (pos = key.length))) (inKey : pos ≤ key.length)
    (inserted : insert n key pos (.valueNode value) c blockNr = .ok result) :
    result.2.1.n.Canonical (decide (pos = key.length)) := by
  by_cases empty : n.isNil
  · -- an empty node only takes the value where the key ends
    have isNil := Node.eq_nil_of_isNil empty
    subst isNil
    unfold insert at inserted
    by_cases atEnd : key.length = pos
    · simp only [if_pos atEnd, ExceptRun.pure_eq_ok, Except.ok.injEq] at inserted
      subst inserted
      rw [decide_eq_true atEnd.symm]
      exact .valueNode value
    · simp [if_neg atEnd] at inserted
  · have spec : InsertSucceeds key pos value blockNr n :=
      insert_spec shape canonical pos rfl inKey (by simpa using empty)
    obtain ⟨c', events, run, done⟩ := spec c
    rw [run, Except.ok.injEq] at inserted
    subst inserted
    exact done.canonical

theorem canonical_shape_invariant :
    (∀ (resolveWithDb : TrieContinuation → Except String TrieContinuation) (fuel : Nat) (encodeToBytes : Bool)
        (ops : List TrieOp) (t : Trie),
        runOps resolveWithDb fuel (Trie.new zeroHash encodeToBytes) ops = .ok t → t.root.Canonical false) ∧
    (∀ (key : List Nibble), HexKey key → ∀ (n : Node) (pos : Nat) (value : Bytes) (c : TrieContinuation)
        (blockNr : Nat) (result : Bool × TrieContinuation × List GenEvent),
        n.Canonical (decide (pos = key.length)) → pos ≤ key.length →
        insert n key pos (.valueNode value) c blockNr = .ok result →
        result.2.1.n.Canonical (decide (pos = key.length))) ∧
    (∀ (key : List Nibble), HexKey key → ∀ (n : Node) (pos : Nat) (c : TrieContinuation) (blockNr : Nat)
        (result : Bool × TrieContinuation × List GenEvent),
        n.Canonical (decide (pos = key.length)) → pos ≤ key.length →
        delete n key pos c blockNr = .ok result → result.2.1.n.Canonical (decide (pos = key.length))) ∧
    (∀ (child : Node) (pos : Nibble) (c : TrieContinuation) (blockNr : Nat) (done : Bool),
        child.isNil = false → child.Canonical (decide (pos = 16)) →
        (convertToShortNode child pos c blockNr done).2.1.n.Canonical false) := by
  refine ⟨?reachable, ?inserting, ?deleting, ?converting⟩
  case reachable =>
    intro resolveWithDb fuel encodeToBytes ops t run
    exact Simulation.foldlM_preserves (fun t : Trie => t.root.Canonical false)
      (fun t op t' canonical applied => applyOp_canonical resolveWithDb fuel canonical op applied)
      ops _ t (represents_new encodeToBytes).canonical run
  case inserting =>
    intro key shape n pos value c blockNr result canonical inKey inserted
    exact insert_canonical shape canonical inKey inserted
  case deleting =>
    intro key shape n pos c blockNr result canonical inKey deleted
    have spec : DeleteSucceeds key pos blockNr n := delete_spec shape canonical pos rfl inKey
    obtain ⟨c', events, run, done⟩ := spec c
    rw [run, Except.ok.injEq] at deleted
    subst deleted
    exact done.canonical
  case converting =>
    intro child pos c blockNr done live canonical
    exact (convertToShortNode_result live canonical c blockNr done).2.2.1

end TurboGeth.Trie
