import Mathlib

/-!
# Running computations in `Except`

A model whose failures are Go panics or returned errors runs in
`Except ε`.  Its proofs evaluate such runs step by step: a successful step
feeds its value to the rest, a failed one stops the run, and a successful
run of a bind is a successful first step followed by a successful rest.
-/

set_option autoImplicit false

namespace ExceptRun

universe u v

variable {ε : Type u} {α β : Type v}

@[simp] theorem ok_bind (a : α) (f : α → Except ε β) : (Except.ok a >>= f) = f a := rfl

@[simp] theorem error_bind (e : ε) (f : α → Except ε β) : (Except.error e >>= f) = Except.error e := rfl

@[simp] theorem pure_eq_ok (a : α) : (pure a : Except ε α) = Except.ok a := rfl

@[simp] theorem map_ok (f : α → β) (a : α) : (f <$> (Except.ok a : Except ε α)) = Except.ok (f a) := rfl

@[simp] theorem throw_eq_error (e : ε) : (throw e : Except ε α) = Except.error e := rfl

theorem bind_eq_ok {x : Except ε α} {f : α → Except ε β} {b : β} :
    x >>= f = Except.ok b ↔ ∃ a, x = Except.ok a ∧ f a = Except.ok b := by
  cases x with
  | error e => simp
  | ok a => simp

theorem map_eq_ok {x : Except ε α} {f : α → β} {b : β} :
    f <$> x = Except.ok b ↔ ∃ a, x = Except.ok a ∧ f a = b := by
  cases x with
  | error e => simp [Functor.map, Except.map]
  | ok a => simp [Functor.map, Except.map]

theorem foldlM_range_succ {ε σ : Type} (f : σ → Nat → Except ε σ) (init : σ) (k : Nat) :
    (List.range (k + 1)).foldlM f init = (List.range k).foldlM f init >>= fun s => f s k := by
  rw [List.range_succ, List.foldlM_append]
  congr
  funext s
  rw [List.foldlM_cons]
  cases f s k <;> rfl

theorem mapM_cons_eq_ok {f : α → Except ε β} {a : α} {l : List α} {bs : List β} :
    (a :: l).mapM f = Except.ok bs ↔ ∃ b rest, f a = Except.ok b ∧ l.mapM f = Except.ok rest ∧ bs = b :: rest := by
  rw [List.mapM_cons, bind_eq_ok]
  constructor
  · rintro ⟨b, first, later⟩
    obtain ⟨rest, mapped, done⟩ := bind_eq_ok.mp later
    exact ⟨b, rest, first, mapped, (Except.ok.inj done).symm⟩
  · rintro ⟨b, rest, first, mapped, rfl⟩
    exact ⟨b, first, by rw [mapped]; rfl⟩

theorem mapM_eq_ok_of_forall {f : α → Except ε β} :
    ∀ {l : List α}, (∀ a ∈ l, ∃ b, f a = Except.ok b) → ∃ bs, l.mapM f = Except.ok bs
  | [], _ => ⟨[], rfl⟩
  | a :: l, each => by
      obtain ⟨b, first⟩ := each a List.mem_cons_self
      obtain ⟨rest, mapped⟩ := mapM_eq_ok_of_forall fun x inTail => each x (List.mem_cons_of_mem a inTail)
      exact ⟨b :: rest, mapM_cons_eq_ok.mpr ⟨b, rest, first, mapped, rfl⟩⟩

end ExceptRun
