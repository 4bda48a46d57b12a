-- SUMMARY: Binomial thinning of weighted group sizes, and what it does to their generating function.
import Mathlib.RingTheory.Polynomial.Bernstein
import Mathlib.Tactic

/-!
# Thinning

A group of `n` items loses each of them independently, and `q` is the weight of an item that
stays. Thinning a weighting of the sizes of a group twice is thinning it once with the product.
-/

namespace Thinning

open Finset

variable {K : Type*} [CommRing K]

/-- The weight of `k` items that stay out of `n`. -/
def binomial (q : K) (n k : ℕ) : K := n.choose k * q ^ k * (1 - q) ^ (n - k)

/-- The weights of the sizes after one round. -/
def thin (N : ℕ) (q : K) (w : ℕ → K) (k : ℕ) : K := ∑ n ∈ range (N + 1), w n * binomial q n k

/-- The generating function. -/
def gen (N : ℕ) (w : ℕ → K) (s : K) : K := ∑ n ∈ range (N + 1), w n * s ^ n

/-- The sum of the sizes by their weights. -/
def mean (N : ℕ) (w : ℕ → K) : K := ∑ n ∈ range (N + 1), n * w n

theorem binomial_of_lt (q : K) {n k : ℕ} (h : n < k) : binomial q n k = 0 := by
  rw [binomial, Nat.choose_eq_zero_of_lt h, Nat.cast_zero, zero_mul, zero_mul]

@[simp] theorem binomial_zero_zero (q : K) : binomial q 0 0 = 1 := by simp [binomial]

theorem eval_bernsteinPolynomial (q : K) (n k : ℕ) :
    (bernsteinPolynomial K n k).eval q = binomial q n k := by
  simp [bernsteinPolynomial, binomial]

/-- No group grows. -/
theorem sum_binomial_mul (q : K) (f : ℕ → K) {n N : ℕ} (h : n ≤ N) :
    ∑ k ∈ range (N + 1), binomial q n k * f k = ∑ k ∈ range (n + 1), binomial q n k * f k := by
  refine (sum_subset (range_subset_range.mpr (by omega)) fun k _ hk => ?_).symm
  rw [mem_range, not_lt] at hk
  rw [binomial_of_lt q (by omega), zero_mul]

theorem gen_binomial (q s : K) {n N : ℕ} (h : n ≤ N) :
    gen N (binomial q n) s = (1 - q + q * s) ^ n := by
  rw [gen, sum_binomial_mul q _ h, add_comm (1 - q), add_pow]
  refine sum_congr rfl fun k _ => ?_
  rw [binomial, mul_pow]
  ring

theorem mean_binomial (q : K) {n N : ℕ} (h : n ≤ N) : mean N (binomial q n) = n * q := by
  have hsum := congrArg (Polynomial.eval q) (bernsteinPolynomial.sum_smul K n)
  simp only [nsmul_eq_mul, Polynomial.eval_finsetSum, Polynomial.eval_mul,
    Polynomial.eval_natCast, Polynomial.eval_X, eval_bernsteinPolynomial] at hsum
  rw [← hsum, mean]
  simp only [mul_comm _ (binomial q n _)]
  exact sum_binomial_mul q _ h

/-- Sums over the thinned weights are sums over the weights. -/
theorem sum_thin_mul (N : ℕ) (q : K) (w f : ℕ → K) :
    ∑ k ∈ range (N + 1), thin N q w k * f k =
      ∑ n ∈ range (N + 1), w n * ∑ k ∈ range (N + 1), binomial q n k * f k := by
  simp only [thin, sum_mul, mul_sum]
  rw [sum_comm]
  simp only [mul_assoc]

theorem gen_thin (N : ℕ) (q : K) (w : ℕ → K) (s : K) :
    gen N (thin N q w) s = gen N w (1 - q + q * s) := by
  rw [gen, sum_thin_mul, gen]
  refine sum_congr rfl fun n hn => ?_
  rw [← gen_binomial q s (Nat.lt_succ_iff.mp (mem_range.mp hn)), gen]

theorem mean_thin (N : ℕ) (q : K) (w : ℕ → K) : mean N (thin N q w) = q * mean N w := by
  have hthin := sum_thin_mul N q w fun k => (k : K)
  simp only [mul_comm (thin N q w _), mul_comm (binomial q _ _)] at hthin
  rw [mean, hthin, mean, mul_sum]
  refine sum_congr rfl fun n hn => ?_
  have hmean := mean_binomial q (Nat.lt_succ_iff.mp (mem_range.mp hn))
  rw [mean] at hmean
  rw [hmean]
  ring

/-- Several rounds are one. -/
theorem gen_thin_iterate (N m : ℕ) (q : K) (w : ℕ → K) (s : K) :
    gen N ((thin N q)^[m] w) s = gen N w (1 - q ^ m + q ^ m * s) := by
  induction m generalizing s with
  | zero => simp
  | succ m ih =>
      rw [Function.iterate_succ_apply', gen_thin, ih]
      congr 1
      ring

theorem mean_thin_iterate (N m : ℕ) (q : K) (w : ℕ → K) :
    mean N ((thin N q)^[m] w) = q ^ m * mean N w := by
  induction m with
  | zero => simp
  | succ m ih => rw [Function.iterate_succ_apply', mean_thin, ih, pow_succ', mul_assoc]

@[simp] theorem gen_zero (N : ℕ) (w : ℕ → K) : gen N w 0 = w 0 := by
  rw [gen, sum_eq_single 0 (fun n _ hn => by rw [zero_pow hn, mul_zero])
    (fun h => absurd (mem_range.mpr (Nat.succ_pos N)) h), pow_zero, mul_one]

/-- How likely it is that nothing is left. -/
theorem thin_iterate_zero (N m : ℕ) (q : K) (w : ℕ → K) :
    (thin N q)^[m] w 0 = gen N w (1 - q ^ m) := by
  rw [← gen_zero N ((thin N q)^[m] w), gen_thin_iterate, mul_zero, add_zero]

theorem gen_one (N : ℕ) (w : ℕ → K) : gen N w 1 = ∑ n ∈ range (N + 1), w n := by
  simp only [gen, one_pow, mul_one]

theorem sum_thin_iterate (N m : ℕ) (q : K) (w : ℕ → K) :
    ∑ n ∈ range (N + 1), (thin N q)^[m] w n = ∑ n ∈ range (N + 1), w n := by
  rw [← gen_one, gen_thin_iterate, mul_one, sub_add_cancel, gen_one]

/-! ## Order -/

section Order

variable {R : Type*} [CommRing R] [PartialOrder R] [IsOrderedRing R]

theorem gen_mono {N : ℕ} {w : ℕ → R} (hw : ∀ n ≤ N, 0 ≤ w n) {s t : R} (hs : 0 ≤ s) (h : s ≤ t) :
    gen N w s ≤ gen N w t := by
  refine sum_le_sum fun n hn => ?_
  exact mul_le_mul_of_nonneg_left (pow_le_pow_left₀ hs h n)
    (hw n (Nat.lt_succ_iff.mp (mem_range.mp hn)))

theorem mean_nonneg {N : ℕ} {w : ℕ → R} (hw : ∀ n ≤ N, 0 ≤ w n) : 0 ≤ mean N w :=
  sum_nonneg fun n hn => mul_nonneg n.cast_nonneg (hw n (Nat.lt_succ_iff.mp (mem_range.mp hn)))

end Order

/-! ## Nothing left -/

/-- The weights of the groups that something is left of. -/
def nonempty (w : ℕ → K) (n : ℕ) : K := if n = 0 then 0 else w n

theorem sum_nonempty (N : ℕ) (w : ℕ → K) :
    ∑ n ∈ range (N + 1), nonempty w n = ∑ n ∈ range (N + 1), w n - w 0 := by
  rw [sum_range_succ', sum_range_succ' w, nonempty, if_pos rfl, add_zero, add_sub_cancel_right]
  exact sum_congr rfl fun n _ => if_neg (Nat.succ_ne_zero n)

/-- What is thinned from the groups that something is left of. -/
theorem thin_nonempty (N : ℕ) (q : K) (w : ℕ → K) (k : ℕ) :
    thin N q (nonempty w) k = thin N q w k - if k = 0 then w 0 else 0 := by
  rw [thin, thin, sum_range_succ', sum_range_succ', nonempty, if_pos rfl, zero_mul, add_zero]
  have hrest : ∀ n ∈ range N, nonempty w (n + 1) * binomial q (n + 1) k =
      w (n + 1) * binomial q (n + 1) k := fun n _ => by
    rw [nonempty, if_neg (Nat.succ_ne_zero n)]
  rw [sum_congr rfl hrest]
  split
  case isTrue hk => rw [hk, binomial_zero_zero, mul_one, add_sub_cancel_right]
  case isFalse hk =>
    rw [binomial_of_lt q (Nat.pos_of_ne_zero hk), mul_zero, add_zero, sub_zero]

end Thinning
