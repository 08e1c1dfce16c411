import Mathlib.Data.List.Basic

/-!
# Seeking in a sorted store

A store whose cursor walks its pairs in increasing key order, as a B+tree's
does.  `seek` puts the cursor on the first pair whose key is at least the
target: the least such key, or nothing when every key is smaller.

Composite keys are a key followed by a suffix.  For keys of one length the
order of composite keys is the order of the keys first and of the suffixes
next, and a composite key starts with a key of that length only if it was
built from it.
-/

set_option autoImplicit false

namespace SortedStore

section Seek

variable {κ ν : Type} [LT κ] [LE κ] [Std.IsLinearOrder κ] [Std.LawfulOrderLT κ] [DecidableLE κ]

/-- The first pair whose key is at least `target`. -/
def seek (pairs : List (κ × ν)) (target : κ) : Option (κ × ν) :=
  pairs.find? fun pair => target ≤ pair.1

theorem seek_some (pairs : List (κ × ν)) (sorted : pairs.Pairwise fun a b => a.1 < b.1) (target : κ)
    (p : κ × ν) (found : seek pairs target = some p) :
    p ∈ pairs ∧ target ≤ p.1 ∧ ∀ q ∈ pairs, target ≤ q.1 → p.1 ≤ q.1 := by
  induction pairs with
  | nil => cases found
  | cons head rest ih =>
    rw [List.pairwise_cons] at sorted
    unfold seek at found
    rw [List.find?_cons] at found
    by_cases here : target ≤ head.1
    · -- the head is the least key of a sorted store
      simp only [here, decide_true, Option.some.injEq] at found
      subst found
      refine ⟨List.mem_cons_self, here, fun q member _ => ?_⟩
      rcases List.mem_cons.mp member with rfl | later
      · exact Std.le_refl _
      · exact Std.le_of_lt (sorted.1 q later)
    · simp only [here, decide_false] at found
      obtain ⟨member, above, least⟩ := ih sorted.2 found
      refine ⟨List.mem_cons_of_mem _ member, above, fun q member' atLeast => ?_⟩
      rcases List.mem_cons.mp member' with rfl | later
      · exact absurd atLeast here
      · exact least q later atLeast

theorem seek_none (pairs : List (κ × ν)) (target : κ) (missing : seek pairs target = none) :
    ∀ q ∈ pairs, q.1 < target := by
  intro q member
  unfold seek at missing
  rw [List.find?_eq_none] at missing
  exact Std.not_le.mp (by simpa using missing q member)

omit [Std.IsLinearOrder κ] [DecidableLE κ] in
theorem value_unique (pairs : List (κ × ν)) (sorted : pairs.Pairwise fun a b => a.1 < b.1) (key : κ)
    (a b : ν) (first : (key, a) ∈ pairs) (second : (key, b) ∈ pairs) : a = b := by
  induction pairs with
  | nil => cases first
  | cons head rest ih =>
    rw [List.pairwise_cons] at sorted
    rcases List.mem_cons.mp first with same₁ | later₁ <;> rcases List.mem_cons.mp second with same₂ | later₂
    · rw [← same₁] at same₂
      exact (Prod.mk.inj same₂).2.symm
    · have := sorted.1 _ later₂
      rw [← same₁] at this
      exact absurd this (Std.lt_irrefl)
    · have := sorted.1 _ later₁
      rw [← same₂] at this
      exact absurd this (Std.lt_irrefl)
    · exact ih sorted.2 later₁ later₂

end Seek

/-! ## Composite keys -/

section Composite

variable {α : Type} [LT α]

theorem append_lt_append_of_lt : ∀ (k k' x y : List α), k.length = k'.length → k < k' → k ++ x < k' ++ y
  | [], [], _, _, _, lt => by cases lt
  | [], _ :: _, _, _, same, _ => by simp at same
  | _ :: _, [], _, _, same, _ => by simp at same
  | a :: k, b :: k', x, y, same, lt => by
    cases lt with
    | rel first => exact List.Lex.rel first
    | cons rest => exact List.Lex.cons (append_lt_append_of_lt k k' x y (by simpa using same) rest)

theorem append_lt_append_left_iff [Std.Irrefl (fun a b : α => a < b)] (k x y : List α) : k ++ x < k ++ y ↔ x < y := by
  induction k with
  | nil => rfl
  | cons c k ih => rw [List.cons_append, List.cons_append, List.cons_lt_cons_self, ih]

theorem lt_or_gt_of_ne [Std.Trichotomous (fun a b : α => a < b)] {a b : List α} (ne : a ≠ b) : a < b ∨ b < a := by
  by_contra neither
  rw [not_or] at neither
  exact ne (List.le_antisymm (List.not_lt.mp neither.2) (List.not_lt.mp neither.1))

omit [LT α] in
theorem eq_of_prefix_append [DecidableEq α] (key k x : List α) (same : k.length = key.length)
    (starts : key <+: k ++ x) : key = k := by
  rw [List.prefix_iff_eq_take, ← same, List.take_left' rfl] at starts
  exact starts

end Composite

end SortedStore
