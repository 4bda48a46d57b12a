-- SUMMARY: The invariant rule of counted loops that may fail.
import Mathlib.Algebra.BigOperators.Intervals
import Mathlib.Data.List.Range

/-!
# Counted loops

A loop over a counter is a fold over a range of numbers. Its invariant speaks of the counter too.
-/

namespace Loops

variable {σ : Type*} {f : σ → ℕ → Option σ} {P : ℕ → σ → Prop}

/-- The loop `for (i = a; i < a + n; i++)`. -/
theorem exists_foldlM (a n : ℕ)
    (hstep : ∀ i s, a ≤ i → i < a + n → P i s → ∃ s', f s i = some s' ∧ P (i + 1) s')
    {s : σ} (hs : P a s) : ∃ s', (List.range' a n).foldlM f s = some s' ∧ P (a + n) s' := by
  induction n generalizing a s with
  | zero => exact ⟨s, rfl, hs⟩
  | succ n ih =>
      obtain ⟨t, ht, hinv⟩ := hstep a s le_rfl (by omega) hs
      obtain ⟨s', hrest, hend⟩ :=
        ih (a + 1) (fun i u hle hlt => hstep i u (by omega) (by omega)) hinv
      refine ⟨s', ?_, by rwa [show a + (n + 1) = a + 1 + n by omega]⟩
      rw [List.range'_succ, List.foldlM_cons, ht]
      exact hrest

/-- A loop that adds up. -/
theorem foldlM_add {M : Type*} [AddCommMonoid M] {f : M → ℕ → Option M} {t : ℕ → M} (a n : ℕ)
    (hstep : ∀ i s, a ≤ i → i < a + n → f s i = some (s + t i)) (s : M) :
    (List.range' a n).foldlM f s = some (s + ∑ i ∈ Finset.Ico a (a + n), t i) := by
  have hadd : ∀ i s', a ≤ i → i < a + n → s' = s + ∑ k ∈ Finset.Ico a i, t k →
      ∃ s'', f s' i = some s'' ∧ s'' = s + ∑ k ∈ Finset.Ico a (i + 1), t k := by
    rintro i _ hle hlt rfl
    exact ⟨_, hstep i _ hle hlt, by rw [Finset.sum_Ico_succ_top hle, add_assoc]⟩
  obtain ⟨s', hloop, hend⟩ := exists_foldlM a n hadd
    (by rw [Finset.Ico_self, Finset.sum_empty, add_zero] : s = _)
  exact hloop.trans (congrArg some hend)

end Loops
