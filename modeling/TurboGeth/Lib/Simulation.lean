import TurboGeth.Lib.ExceptRun

/-!
# Runs of a step function in `Except`

A system that processes a list of inputs one at a time, and may fail on one,
is the monadic fold `inputs.foldlM step s`.  Two facts about such runs are
proved here once.  An invariant that every successful step keeps holds after
every successful run.  And when the step refines an abstract step `spec`
under a relation `R` (from related states it succeeds and the results are
related again), the whole run succeeds and ends related to the abstract fold.
-/

set_option autoImplicit false

namespace Simulation

universe u v w

variable {σ : Type u} {τ : Type v} {ι : Type w} {ε : Type u}

/-- `step` refines `spec` under `R`. -/
def Refines (R : σ → τ → Prop) (step : σ → ι → Except ε σ) (spec : τ → ι → τ) : Prop :=
  ∀ s t input, R s t → ∃ s', step s input = .ok s' ∧ R s' (spec t input)

theorem foldlM_refines {R : σ → τ → Prop} {step : σ → ι → Except ε σ} {spec : τ → ι → τ}
    (refines : Refines R step spec) :
    ∀ (inputs : List ι) (s : σ) (t : τ), R s t →
      ∃ s', inputs.foldlM step s = .ok s' ∧ R s' (inputs.foldl spec t)
  | [], s, _, related => ⟨s, rfl, related⟩
  | input :: rest, s, t, related => by
      obtain ⟨next, stepped, relatedNext⟩ := refines s t input related
      obtain ⟨final, run, relatedFinal⟩ := foldlM_refines refines rest next (spec t input) relatedNext
      refine ⟨final, ?_, relatedFinal⟩
      rw [List.foldlM_cons, stepped, ExceptRun.ok_bind, run]

theorem foldlM_preserves (P : σ → Prop) {step : σ → ι → Except ε σ}
    (preserved : ∀ s input s', P s → step s input = .ok s' → P s') :
    ∀ (inputs : List ι) (s s' : σ), P s → inputs.foldlM step s = .ok s' → P s'
  | [], s, s', holds, run => by
      simp only [List.foldlM_nil, ExceptRun.pure_eq_ok, Except.ok.injEq] at run
      exact run ▸ holds
  | input :: rest, s, s', holds, run => by
      rw [List.foldlM_cons, ExceptRun.bind_eq_ok] at run
      obtain ⟨next, stepped, runRest⟩ := run
      exact foldlM_preserves P preserved rest next s' (preserved s input next holds stepped) runRest

end Simulation
