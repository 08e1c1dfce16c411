import Mathlib.Data.List.Basic
import Mathlib.Data.List.GetD

/-!
# Sparse lists

A list is kept sparsely as a mask of the positions whose elements are kept
and the kept elements in order.  The element at a kept position `i` is the
kept element numbered by the RANK of `i`: how many kept positions come
before it (`rank`).  Reading a list back from its mask scatters the kept
elements to their positions by rank; gathering a list is filtering it.
-/

set_option autoImplicit false

namespace Sparse

/-- The number of positions below `i` that the mask keeps. -/
def rank (mask : Nat → Bool) (i : Nat) : Nat := (List.range i).countP mask

@[simp] theorem rank_zero (mask : Nat → Bool) : rank mask 0 = 0 := rfl

theorem rank_succ (mask : Nat → Bool) (i : Nat) :
    rank mask (i + 1) = rank mask i + if mask i then 1 else 0 := by
  simp [rank, List.range_succ, List.countP_append]

theorem rank_eq_of_dropped (mask : Nat → Bool) (t : Nat) (dropped : ∀ i, t ≤ i → mask i = false) :
    ∀ k, t ≤ k → rank mask k = rank mask t := by
  intro k above
  induction k with
  | zero => rw [Nat.le_zero.mp above]
  | succ k ih =>
    rcases Nat.lt_or_eq_of_le above with below | rfl
    · rw [rank_succ, if_neg (by simp [dropped k (by omega)]), ih (by omega)]
      rfl
    · rfl

theorem map_rank_filter_range (mask : Nat → Bool) (t : Nat) :
    ((List.range t).filter mask).map (rank mask) = List.range (rank mask t) := by
  induction t with
  | zero => rfl
  | succ t ih =>
    rw [List.range_succ, List.filter_append, List.map_append, ih, rank_succ]
    cases kept : mask t
    · simp [kept]
    · simp [kept, List.range_succ]

theorem map_getD_range {α : Type} (l : List α) (d : α) (start r : Nat) (inside : start + r ≤ l.length) :
    (List.range r).map (fun j => l.getD (start + j) d) = (l.drop start).take r := by
  apply List.ext_getElem
  · simp
    omega
  · intro j inMap inTake
    simp only [List.length_map, List.length_range] at inMap
    simp [List.getD_eq_getElem?_getD, List.getElem?_eq_getElem (show start + j < l.length by omega)]

section OfList

variable {α : Type} (p : α → Bool) (d : α)

theorem rank_getD (l : List α) (i : Nat) (inside : i ≤ l.length) :
    rank (fun j => p (l.getD j d)) i = (l.take i).countP p := by
  induction i with
  | zero => simp
  | succ i ih =>
    rw [rank_succ, ih (by omega), List.take_add_one, List.countP_append,
      List.getElem?_eq_getElem (show i < l.length by omega)]
    simp [List.getD_eq_getElem?_getD, List.getElem?_eq_getElem (show i < l.length by omega)]

theorem countP_take_lt (l : List α) (i : Nat) (inside : i < l.length) (kept : p l[i] = true) :
    (l.take i).countP p < (l.filter p).length := by
  rw [← List.countP_eq_length_filter]
  conv_rhs => rw [← List.take_append_drop i l, List.drop_eq_getElem_cons inside]
  rw [List.countP_append, List.countP_cons, if_pos kept]
  omega

theorem getD_filter_countP_take (l : List α) (i : Nat) (inside : i < l.length) (kept : p l[i] = true) :
    (l.filter p).getD ((l.take i).countP p) d = l[i] := by
  have split : l.filter p = (l.take i).filter p ++ l[i] :: (l.drop (i + 1)).filter p := by
    conv_lhs => rw [← List.take_append_drop i l, List.drop_eq_getElem_cons inside]
    rw [List.filter_append, List.filter_cons, if_pos kept]
  rw [split, List.countP_eq_length_filter, List.getD_append_right _ _ _ _ (Nat.le_refl _), Nat.sub_self]
  rfl

end OfList

end Sparse
