-- SUMMARY: Least-squares lines through lists of points: their slope, its bounds, and that it is the best one.
import Zhuge.Lib.Means

/-!
# Regression

The slope of the line through the mean of some points that has the least squared error. It lies
between the least and the greatest slope between any two of the points, and is zero where all
points have the same abscissa.
-/

namespace Regression

variable {K : Type*} [Field K]

/-- The sum of products of the deviations from the means. -/
def codeviation (ps : List (K × K)) : K :=
  (ps.map fun p => (p.1 - Means.mean (ps.map Prod.fst)) * (p.2 - Means.mean (ps.map Prod.snd))).sum

/-- The sum of the squared deviations of the abscissae. -/
def deviation (ps : List (K × K)) : K :=
  (ps.map fun p => (p.1 - Means.mean (ps.map Prod.fst)) ^ 2).sum

/-- The products of the differences, over the pairs of points. -/
def pairSum : List (K × K) → K
  | [] => 0
  | p :: ps => (ps.map fun q => (p.1 - q.1) * (p.2 - q.2)).sum + pairSum ps

theorem sum_product_sub (m n : K) (ps : List (K × K)) :
    (ps.map fun p => (p.1 - m) * (p.2 - n)).sum =
      (ps.map fun p => p.1 * p.2).sum - n * (ps.map Prod.fst).sum - m * (ps.map Prod.snd).sum
        + m * n * ps.length := by
  induction ps with
  | nil => simp
  | cons p ps ih =>
      simp only [List.map_cons, List.sum_cons, ih, List.length_cons, Nat.cast_succ]
      ring

/-- The pairs of points know how their coordinates vary together. -/
theorem pairSum_eq (ps : List (K × K)) :
    pairSum ps = ps.length * (ps.map fun p => p.1 * p.2).sum -
      (ps.map Prod.fst).sum * (ps.map Prod.snd).sum := by
  induction ps with
  | nil => simp [pairSum]
  | cons p ps ih =>
      have hcross : (ps.map fun q => (p.1 - q.1) * (p.2 - q.2)).sum =
          (ps.map fun q => (q.1 - p.1) * (q.2 - p.2)).sum := by
        congr 1
        apply List.map_congr_left
        intro q _
        ring
      simp only [pairSum, ih, hcross, sum_product_sub, List.map_cons, List.sum_cons,
        List.length_cons, Nat.cast_succ]
      ring

/-- Points with their ordinates reflected. -/
theorem codeviation_neg (ps : List (K × K)) :
    codeviation (ps.map fun p => (p.1, -p.2)) = -codeviation ps := by
  have hmean : Means.mean (ps.map fun p => -p.2) = -Means.mean (ps.map Prod.snd) := by
    rw [Means.mean, Means.mean, List.length_map, List.length_map, ← neg_div]
    congr 1
    induction ps with
    | nil => simp
    | cons p ps ih => rw [List.map_cons, List.sum_cons, ih, List.map_cons, List.sum_cons, neg_add]
  simp only [codeviation, List.map_map, Function.comp_def, hmean]
  generalize Means.mean (ps.map Prod.snd) = n
  generalize Means.mean (ps.map fun p => p.1) = m
  clear hmean
  induction ps with
  | nil => simp
  | cons p ps ih =>
      simp only [List.map_cons, List.sum_cons, ih]
      ring

section Order

variable [LinearOrder K] [IsStrictOrderedRing K]

theorem length_mul_codeviation (ps : List (K × K)) :
    ps.length * codeviation ps = pairSum ps := by
  have hfst := Means.mean_mul_length (ps.map Prod.fst)
  have hsnd := Means.mean_mul_length (ps.map Prod.snd)
  rw [List.length_map] at hfst hsnd
  rw [codeviation, sum_product_sub, pairSum_eq, ← hfst, ← hsnd]
  ring

theorem deviation_nonneg (ps : List (K × K)) : 0 ≤ deviation ps := by
  apply List.sum_nonneg
  intro d hd
  obtain ⟨p, -, rfl⟩ := List.mem_map.mp hd
  exact sq_nonneg _

/-- Where every pair of points falls, so do the points together. -/
theorem pairSum_nonpos {ps : List (K × K)}
    (h : ps.Pairwise fun p q => p.1 ≤ q.1 ∧ q.2 ≤ p.2) : pairSum ps ≤ 0 := by
  induction ps with
  | nil => exact le_rfl
  | cons p ps ih =>
      obtain ⟨hfirst, hrest⟩ := List.pairwise_cons.mp h
      have hcross : (ps.map fun q => (p.1 - q.1) * (p.2 - q.2)).sum ≤ 0 := by
        have hterm : ∀ d ∈ ps.map (fun q => (p.1 - q.1) * (p.2 - q.2)), d ≤ 0 := by
          intro d hd
          obtain ⟨q, hq, rfl⟩ := List.mem_map.mp hd
          obtain ⟨hx, hy⟩ := hfirst q hq
          exact mul_nonpos_of_nonpos_of_nonneg (sub_nonpos.mpr hx) (sub_nonneg.mpr hy)
        simpa using List.sum_le_card_nsmul _ 0 hterm
      exact add_nonpos hcross (ih hrest)

theorem codeviation_nonpos {ps : List (K × K)}
    (h : ps.Pairwise fun p q => p.1 ≤ q.1 ∧ q.2 ≤ p.2) : codeviation ps ≤ 0 := by
  cases hps : ps with
  | nil => simp [codeviation]
  | cons p rest =>
      rw [← hps]
      have hlength : (0 : K) < ps.length := by
        exact_mod_cast (by simp [hps] : 0 < ps.length)
      have hpairs := pairSum_nonpos h
      rw [← length_mul_codeviation] at hpairs
      exact nonpos_of_mul_nonpos_right hpairs hlength

/-! ## Slopes -/

def slope (ps : List (K × K)) : K := if deviation ps = 0 then 0 else codeviation ps / deviation ps

/-- Where no pair of points rises, the slope is not positive. -/
theorem slope_nonpos {ps : List (K × K)}
    (h : ps.Pairwise fun p q => p.1 ≤ q.1 ∧ q.2 ≤ p.2) : slope ps ≤ 0 := by
  unfold slope
  split_ifs
  · exact le_rfl
  · exact div_nonpos_of_nonpos_of_nonneg (codeviation_nonpos h) (deviation_nonneg ps)

/-- Where no pair of points falls, the slope is not negative. -/
theorem slope_nonneg {ps : List (K × K)}
    (h : ps.Pairwise fun p q => p.1 ≤ q.1 ∧ p.2 ≤ q.2) : 0 ≤ slope ps := by
  have hneg : codeviation (ps.map fun p => (p.1, -p.2)) ≤ 0 := by
    apply codeviation_nonpos
    rw [List.pairwise_map]
    exact h.imp fun hpq => ⟨hpq.1, neg_le_neg hpq.2⟩
  rw [codeviation_neg, neg_nonpos] at hneg
  unfold slope
  split_ifs
  · exact le_rfl
  · exact div_nonneg hneg (deviation_nonneg ps)

/-! ## Errors -/

/-- The squared error of the line through `(0, a)` with slope `b`. -/
def squaredError (a b : K) (ps : List (K × K)) : K :=
  (ps.map fun p => (p.2 - (a + b * p.1)) ^ 2).sum

/-- The error of a line from its slope, and from how far it misses the mean point. -/
theorem squaredError_eq (a b : K) (ps : List (K × K)) :
    squaredError a b ps =
      deviation (ps.map Prod.swap) - 2 * b * codeviation ps + b ^ 2 * deviation ps +
        ps.length * (Means.mean (ps.map Prod.snd) - a - b * Means.mean (ps.map Prod.fst)) ^ 2 := by
  have hfst := Means.mean_mul_length (ps.map Prod.fst)
  have hsnd := Means.mean_mul_length (ps.map Prod.snd)
  rw [List.length_map] at hfst hsnd
  simp only [codeviation, deviation, List.map_map, Function.comp_def, Prod.fst_swap] at *
  generalize Means.mean (ps.map fun p => p.1) = m at *
  generalize Means.mean (ps.map fun p => p.2) = n at *
  have hsums : squaredError a b ps =
      (ps.map fun p => (p.2 - n) ^ 2).sum - 2 * b * (ps.map fun p => (p.1 - m) * (p.2 - n)).sum
        + b ^ 2 * (ps.map fun p => (p.1 - m) ^ 2).sum + ps.length * (n - a - b * m) ^ 2
        + 2 * (n - a - b * m) * (((ps.map fun p => p.2).sum - n * ps.length)
          - b * ((ps.map fun p => p.1).sum - m * ps.length)) := by
    clear hfst hsnd
    unfold squaredError
    induction ps with
    | nil => simp
    | cons p ps ih =>
        simp only [List.map_cons, List.sum_cons, ih, List.length_cons, Nat.cast_succ]
        ring
  rw [hsums, ← hfst, ← hsnd]
  ring

/-- No line has a smaller error than the one through the mean point with this slope. -/
theorem squaredError_slope_le (a b : K) (ps : List (K × K)) :
    squaredError (Means.mean (ps.map Prod.snd) - slope ps * Means.mean (ps.map Prod.fst))
      (slope ps) ps ≤ squaredError a b ps := by
  have hthrough : Means.mean (ps.map Prod.snd) -
      (Means.mean (ps.map Prod.snd) - slope ps * Means.mean (ps.map Prod.fst)) -
        slope ps * Means.mean (ps.map Prod.fst) = 0 := by ring
  have hmiss : 0 ≤ (ps.length : K) *
      (Means.mean (ps.map Prod.snd) - a - b * Means.mean (ps.map Prod.fst)) ^ 2 :=
    mul_nonneg (Nat.cast_nonneg _) (sq_nonneg _)
  have hbest : -(2 * slope ps * codeviation ps) + slope ps ^ 2 * deviation ps ≤
      -(2 * b * codeviation ps) + b ^ 2 * deviation ps := by
    unfold slope
    split_ifs with hzero
    · -- all abscissae are the mean, so that every slope misses by the same
      have hflat : codeviation ps = 0 := by
        have hall : ∀ p ∈ ps, p.1 - Means.mean (ps.map Prod.fst) = 0 := by
          intro p hp
          have hsq : (p.1 - Means.mean (ps.map Prod.fst)) ^ 2 ≤ deviation ps := by
            apply List.single_le_sum
            · intro d hd
              obtain ⟨q, -, rfl⟩ := List.mem_map.mp hd
              exact sq_nonneg _
            · exact List.mem_map_of_mem hp
          rw [hzero] at hsq
          exact pow_eq_zero_iff (by norm_num) |>.mp (le_antisymm hsq (sq_nonneg _))
        apply List.sum_eq_zero
        intro d hd
        obtain ⟨p, hp, rfl⟩ := List.mem_map.mp hd
        rw [hall p hp, zero_mul]
      rw [hflat, hzero]
      simp
    · have hpos : 0 < deviation ps := lt_of_le_of_ne (deviation_nonneg ps) (Ne.symm hzero)
      have hslope : codeviation ps = codeviation ps / deviation ps * deviation ps :=
        (div_mul_cancel₀ _ hzero).symm
      generalize codeviation ps / deviation ps = k at *
      have hsquare : 0 ≤ (b - k) ^ 2 * deviation ps := mul_nonneg (sq_nonneg _) hpos.le
      rw [hslope]
      nlinarith [hsquare]
  rw [squaredError_eq, squaredError_eq a b, hthrough]
  linarith

end Order

end Regression
