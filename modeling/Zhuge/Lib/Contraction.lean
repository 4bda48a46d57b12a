-- SUMMARY: Iterated maps that keep the order of points, or bring them together.
import Mathlib.Algebra.BigOperators.Group.List.Basic
import Mathlib.Algebra.Order.BigOperators.Ring.List
import Mathlib.Algebra.Order.Group.MinMax
import Mathlib.Tactic

/-!
# Contractions

One map after the other is applied to two points. Where each map brings them together by a factor of
its own, the factors multiply.
-/

namespace Contraction

variable {α ι : Type*} {f : α → ι → α} {is : List ι}

theorem foldl_fixed {p : α} (hp : ∀ i ∈ is, f p i = p) : is.foldl f p = p := by
  induction is with
  | nil => rfl
  | cons i is ih =>
      rw [List.foldl_cons, hp i List.mem_cons_self]
      exact ih fun j hj => hp j (List.mem_cons_of_mem i hj)

theorem foldl_mono [Preorder α] (hmono : ∀ i ∈ is, ∀ a b, a ≤ b → f a i ≤ f b i) {a b : α}
    (h : a ≤ b) : is.foldl f a ≤ is.foldl f b := by
  induction is generalizing a b with
  | nil => exact h
  | cons i is ih =>
      exact ih (fun j hj => hmono j (List.mem_cons_of_mem i hj))
        (hmono i List.mem_cons_self a b h)

section Factors

variable {K : Type*} [Field K] [LinearOrder K] [IsStrictOrderedRing K] {k : ι → K}

theorem prod_map_nonneg (hpos : ∀ i ∈ is, 0 ≤ k i) : 0 ≤ (is.map k).prod := by
  refine List.prod_nonneg fun x hx => ?_
  obtain ⟨j, hj, rfl⟩ := List.mem_map.mp hx
  exact hpos j hj

theorem prod_map_le_pow {r : K} (hpos : ∀ i ∈ is, 0 ≤ k i) (hle : ∀ i ∈ is, k i ≤ r) :
    (is.map k).prod ≤ r ^ is.length := by
  induction is with
  | nil => simp
  | cons i is ih =>
      have hi := hpos i List.mem_cons_self
      have hle' := hle i List.mem_cons_self
      have hpos' : ∀ j ∈ is, 0 ≤ k j := fun j hj => hpos j (List.mem_cons_of_mem i hj)
      rw [List.map_cons, List.prod_cons, List.length_cons, pow_succ']
      exact mul_le_mul hle' (ih hpos' fun j hj => hle j (List.mem_cons_of_mem i hj))
        (prod_map_nonneg hpos') (hi.trans hle')

/-- Clipping does not take points apart. -/
theorem abs_clip_sub_clip_le (lo hi a b : K) :
    |max (min hi a) lo - max (min hi b) lo| ≤ |a - b| :=
  calc |max (min hi a) lo - max (min hi b) lo| ≤ |min hi a - min hi b| :=
        abs_max_sub_max_le_abs _ _ _
    _ ≤ max |hi - hi| |a - b| := abs_min_sub_min_le_max _ _ _ _
    _ = |a - b| := by rw [sub_self, abs_zero, max_eq_right (abs_nonneg _)]

variable {g : K → ι → K}

/-- The factors multiply. -/
theorem abs_foldl_sub_foldl_le (hpos : ∀ i ∈ is, 0 ≤ k i)
    (hg : ∀ i ∈ is, ∀ a b, |g a i - g b i| ≤ k i * |a - b|) (a b : K) :
    |is.foldl g a - is.foldl g b| ≤ (is.map k).prod * |a - b| := by
  induction is generalizing a b with
  | nil => simp
  | cons i is ih =>
      have hpos' : ∀ j ∈ is, 0 ≤ k j := fun j hj => hpos j (List.mem_cons_of_mem i hj)
      have hrest := ih hpos' (fun j hj => hg j (List.mem_cons_of_mem i hj)) (g a i) (g b i)
      calc |(i :: is).foldl g a - (i :: is).foldl g b| ≤ (is.map k).prod * |g a i - g b i| := hrest
        _ ≤ (is.map k).prod * (k i * |a - b|) :=
            mul_le_mul_of_nonneg_left (hg i List.mem_cons_self a b) (prod_map_nonneg hpos')
        _ = ((i :: is).map k).prod * |a - b| := by
            rw [List.map_cons, List.prod_cons]
            ring

end Factors

end Contraction
