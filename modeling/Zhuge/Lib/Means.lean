-- SUMMARY: The mean and the variance of a list of numbers, and what one more number does to them.
import Mathlib.Algebra.Order.BigOperators.Group.List
import Mathlib.Tactic

/-!
# Means

The mean of a list can be kept up without the list, from the count alone. Smoothing keeps
a number between the smallest and the largest of those it is made from.
-/

namespace Means

variable {K : Type*} [Field K]

def mean (xs : List K) : K := xs.sum / xs.length

/-- The mean with weights, one for each number. -/
def weighted (ws xs : List K) : K := (List.zipWith (· * ·) ws xs).sum / ws.sum

/-- The mean of the squared deviations from the mean. -/
def variance (xs : List K) : K := mean (xs.map fun x => (x - mean xs) ^ 2)

/-- A loop that adds up. -/
theorem foldl_add_eq {α : Type*} (g : α → K) (start : K) (xs : List α) :
    xs.foldl (fun sum x => sum + g x) start = start + (xs.map g).sum := by
  induction xs generalizing start with
  | nil => simp
  | cons x xs ih => rw [List.foldl_cons, ih, List.map_cons, List.sum_cons, add_assoc]

@[simp] theorem mean_nil : mean ([] : List K) = 0 := by simp [mean]

theorem sum_sq_sub (m : K) (xs : List K) :
    (xs.map fun x => (x - m) ^ 2).sum =
      (xs.map (· ^ 2)).sum - 2 * m * xs.sum + m ^ 2 * xs.length := by
  induction xs with
  | nil => simp
  | cons x xs ih =>
    simp only [List.map_cons, List.sum_cons, ih, List.length_cons, Nat.cast_succ]
    ring

theorem weighted_replicate {ws : List K} (hne : ws.sum ≠ 0) (m : K) :
    weighted ws (List.replicate ws.length m) = m := by
  have hsum : (List.zipWith (· * ·) ws (List.replicate ws.length m)).sum = ws.sum * m := by
    clear hne
    induction ws with
    | nil => simp
    | cons w ws ih =>
        rw [List.length_cons, List.replicate_succ, List.zipWith_cons_cons, List.sum_cons, ih,
          List.sum_cons, add_mul]
  rw [weighted, hsum, mul_div_cancel_left₀ _ hne]

/-- Every number compared with the same one. -/
theorem forall₂_const {α : Type*} {R : α → α → Prop} {xs : List α} {m : α}
    (h : ∀ x ∈ xs, R x m) : List.Forall₂ R xs (xs.map fun _ => m) :=
  List.forall₂_map_right_iff.mpr (List.forall₂_same.mpr h)

section Order

variable [LinearOrder K] [IsStrictOrderedRing K]

theorem mean_mul_length (xs : List K) : mean xs * xs.length = xs.sum := by
  cases xs with
  | nil => simp
  | cons x xs =>
    have hlength : ((x :: xs).length : K) ≠ 0 := by
      exact_mod_cast (by simp : (x :: xs).length ≠ 0)
    exact div_mul_cancel₀ _ hlength

/-- One more number enters the mean with the weight of one. -/
theorem mean_concat (xs : List K) (x : K) :
    mean (xs ++ [x]) = (mean xs * xs.length + x) / (xs.length + 1) := by
  rw [mean_mul_length]
  simp [mean]

/-- The variance is what the mean of the squares has over the square of the mean. -/
theorem mean_sq_sub_sq_mean (xs : List K) :
    mean (xs.map (· ^ 2)) - mean xs ^ 2 = variance xs := by
  cases xs with
  | nil => simp [variance]
  | cons y ys =>
    generalize hxs : y :: ys = xs
    have hlength : (xs.length : K) ≠ 0 := by
      rw [← hxs]
      exact_mod_cast (by simp : (y :: ys).length ≠ 0)
    have hdeviations : variance xs * xs.length =
        (xs.map (· ^ 2)).sum - mean xs ^ 2 * xs.length := by
      have h := mean_mul_length (xs.map fun x => (x - mean xs) ^ 2)
      rw [List.length_map, sum_sq_sub, ← mean_mul_length xs] at h
      rw [variance, h]
      ring
    have hsquares : mean (xs.map (· ^ 2)) * (xs.length : K) = (xs.map (· ^ 2)).sum := by
      have h := mean_mul_length (xs.map (· ^ 2))
      rwa [List.length_map] at h
    apply mul_right_cancel₀ hlength
    rw [hdeviations, sub_mul, hsquares]

theorem variance_nonneg (xs : List K) : 0 ≤ variance xs := by
  apply div_nonneg
  · apply List.sum_nonneg
    intro d hd
    obtain ⟨x, -, rfl⟩ := List.mem_map.mp hd
    exact sq_nonneg _
  · exact Nat.cast_nonneg _

/-- A weighted mean of two numbers is not below what both are not below. -/
theorem le_smoothed {lo x y w : K} (hw : 0 ≤ w) (hw' : w ≤ 1) (hx : lo ≤ x) (hy : lo ≤ y) :
    lo ≤ w * x + (1 - w) * y :=
  calc lo = w * lo + (1 - w) * lo := by ring
    _ ≤ w * x + (1 - w) * y := add_le_add (mul_le_mul_of_nonneg_left hx hw)
        (mul_le_mul_of_nonneg_left hy (sub_nonneg.mpr hw'))

theorem smoothed_le {hi x y w : K} (hw : 0 ≤ w) (hw' : w ≤ 1) (hx : x ≤ hi) (hy : y ≤ hi) :
    w * x + (1 - w) * y ≤ hi :=
  calc w * x + (1 - w) * y ≤ w * hi + (1 - w) * hi := add_le_add
        (mul_le_mul_of_nonneg_left hx hw) (mul_le_mul_of_nonneg_left hy (sub_nonneg.mpr hw'))
    _ = hi := by ring

variable {ws xs ys : List K}

theorem weighted_mono (hw : ∀ w ∈ ws, 0 ≤ w) (h : List.Forall₂ (· ≤ ·) xs ys) :
    weighted ws xs ≤ weighted ws ys := by
  have hsum : (List.zipWith (· * ·) ws xs).sum ≤ (List.zipWith (· * ·) ws ys).sum := by
    induction h generalizing ws with
    | nil => exact le_rfl
    | cons hxy _ ih =>
        cases ws with
        | nil => exact le_rfl
        | cons w ws =>
            obtain ⟨hfirst, hrest⟩ := List.forall_mem_cons.mp hw
            rw [List.zipWith_cons_cons, List.zipWith_cons_cons, List.sum_cons, List.sum_cons]
            exact add_le_add (mul_le_mul_of_nonneg_left hxy hfirst) (ih hrest)
  exact div_le_div_of_nonneg_right hsum (List.sum_nonneg hw)

theorem weighted_le {hi : K} (hlength : ws.length = xs.length) (hw : ∀ w ∈ ws, 0 ≤ w)
    (hpos : 0 < ws.sum) (h : ∀ x ∈ xs, x ≤ hi) : weighted ws xs ≤ hi := by
  have hmono := weighted_mono hw (forall₂_const h)
  rwa [List.map_const', ← hlength, weighted_replicate hpos.ne'] at hmono

theorem le_weighted {lo : K} (hlength : ws.length = xs.length) (hw : ∀ w ∈ ws, 0 ≤ w)
    (hpos : 0 < ws.sum) (h : ∀ x ∈ xs, lo ≤ x) : lo ≤ weighted ws xs := by
  have hmono := weighted_mono hw (forall₂_const (R := fun x y => y ≤ x) h).flip
  rwa [List.map_const', ← hlength, weighted_replicate hpos.ne'] at hmono

end Order

end Means
