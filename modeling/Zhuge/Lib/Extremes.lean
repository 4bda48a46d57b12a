-- SUMMARY: The least and the greatest element of a list, as folds from a bound compute them.
import Mathlib.Order.Bounds.Basic
import Mathlib.Order.MinMax

/-!
# Extremes

A loop that keeps a running minimum starts from a bound. Its result is the least element as
soon as one element is within the bound.
-/

namespace Extremes

variable {α : Type*} [LinearOrder α]

theorem foldl_min_le (l : List α) (a : α) :
    l.foldl min a ≤ a ∧ ∀ x ∈ l, l.foldl min a ≤ x := by
  induction l generalizing a with
  | nil => exact ⟨le_rfl, fun _ h => absurd h List.not_mem_nil⟩
  | cons b l ih =>
    obtain ⟨hmin, hrest⟩ := ih (min a b)
    refine ⟨hmin.trans (min_le_left _ _), fun x hx => ?_⟩
    rcases List.mem_cons.mp hx with rfl | hx
    · exact hmin.trans (min_le_right _ _)
    · exact hrest x hx

theorem foldl_min_mem (l : List α) (a : α) : l.foldl min a = a ∨ l.foldl min a ∈ l := by
  induction l generalizing a with
  | nil => exact .inl rfl
  | cons b l ih =>
    rcases ih (min a b) with heq | hmem
    · rw [List.foldl_cons, heq]
      rcases min_choice a b with h | h
      · exact .inl h
      · rw [h]
        exact .inr List.mem_cons_self
    · exact .inr (List.mem_cons_of_mem _ hmem)

theorem isLeast_foldl_min {l : List α} {a : α} (h : ∃ x ∈ l, x ≤ a) :
    IsLeast {x | x ∈ l} (l.foldl min a) := by
  obtain ⟨x, hx, hle⟩ := h
  obtain ⟨-, hlow⟩ := foldl_min_le l a
  refine ⟨?_, hlow⟩
  rcases foldl_min_mem l a with heq | hmem
  · have hxa : x = a := le_antisymm hle (heq ▸ hlow x hx)
    exact (heq.trans hxa.symm) ▸ hx
  · exact hmem

theorem isGreatest_foldl_max {l : List α} {a : α} (h : ∃ x ∈ l, a ≤ x) :
    IsGreatest {x | x ∈ l} (l.foldl max a) :=
  isLeast_foldl_min (α := αᵒᵈ) h

end Extremes
