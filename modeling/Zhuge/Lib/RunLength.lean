-- SUMMARY: Signed run lengths: what they spell, and what their sums count.
import Mathlib.Algebra.BigOperators.Group.List.Basic
import Mathlib.Data.List.Range
import Mathlib.Tactic

/-!
# Signed run lengths

A pattern of bits is written as a list of integers: a positive one is a run of `true`, a
negative one a run of `false`. The sums over the list count the bits.
-/

namespace RunLength

/-- The bits of one run. -/
def bits (run : ℤ) : List Bool := List.replicate run.natAbs (decide (0 < run))

/-- The pattern that the runs spell. -/
def expand (runs : List ℤ) : List Bool := runs.flatMap bits

/-- No run is empty, and the signs alternate. `positive` is the sign of the first run. -/
def Alternating : Bool → List ℤ → Prop
  | _, [] => True
  | positive, run :: runs => (if positive then 0 < run else run < 0) ∧ Alternating (!positive) runs

instance decidableAlternating : (positive : Bool) → (runs : List ℤ) →
    Decidable (Alternating positive runs)
  | _, [] => .isTrue trivial
  | positive, _ :: runs =>
    have := decidableAlternating (!positive) runs
    inferInstanceAs (Decidable (_ ∧ _))

@[simp] theorem expand_nil : expand [] = [] := rfl

@[simp] theorem expand_cons (run : ℤ) (runs : List ℤ) :
    expand (run :: runs) = bits run ++ expand runs := rfl

/-- Runs are the same in both directions. -/
theorem expand_reverse (runs : List ℤ) : expand runs.reverse = (expand runs).reverse := by
  induction runs with
  | nil => rfl
  | cons run runs ih =>
      rw [List.reverse_cons, expand, List.flatMap_append, ← expand, ih, expand_cons,
        List.reverse_append, List.flatMap_singleton, bits, List.reverse_replicate]

theorem bits_natCast {n : ℕ} (hn : 0 < n) : bits n = List.replicate n true := by
  simp [bits, hn]

theorem bits_neg_natCast (n : ℕ) : bits (-n) = List.replicate n false := by
  simp [bits]

/-- The sum of the absolute values counts the bits. -/
theorem length_expand (runs : List ℤ) : (expand runs).length = (runs.map Int.natAbs).sum := by
  induction runs with
  | nil => rfl
  | cons run runs ih => simp [bits, ih]

/-- The sum of the positive runs counts the `true` bits. -/
theorem count_true_expand (runs : List ℤ) :
    ((expand runs).count true : ℤ) = (runs.filter (0 < ·)).sum := by
  induction runs with
  | nil => rfl
  | cons run runs ih =>
      rw [expand_cons, List.count_append, Nat.cast_add, ih]
      by_cases hpos : 0 < run
      · rw [List.filter_cons_of_pos (by simpa using hpos), List.sum_cons]
        simp [bits, hpos, abs_of_pos hpos]
      · rw [List.filter_cons_of_neg (by simpa using hpos)]
        simp [bits, hpos, List.count_replicate]

/-- The sum of the negative runs counts the `false` bits. -/
theorem count_false_expand (runs : List ℤ) :
    ((expand runs).count false : ℤ) = -(runs.filter (· < 0)).sum := by
  induction runs with
  | nil => rfl
  | cons run runs ih =>
      rw [expand_cons, List.count_append, Nat.cast_add, ih]
      by_cases hneg : run < 0
      · rw [List.filter_cons_of_pos (by simpa using hneg), List.sum_cons]
        simp [bits, hneg.le, List.count_replicate, abs_of_neg hneg, add_comm]
      · rw [List.filter_cons_of_neg (by simpa using hneg)]
        rcases (not_lt.mp hneg).eq_or_lt with rfl | hpos
        · simp [bits]
        · simp [bits, hpos, List.count_replicate]

/-! ## Patterns of increasing numbers -/

/-- The pattern of the numbers behind `last`, up to the last one of `ns`. -/
def patternFrom (last : ℕ) : List ℕ → List Bool
  | [] => []
  | n :: ns => List.replicate (n - last - 1) false ++ true :: patternFrom n ns

/-- How many numbers are missing. -/
def missingFrom (last : ℕ) : List ℕ → ℕ
  | [] => 0
  | n :: ns => (n - last - 1) + missingFrom n ns

theorem count_true_patternFrom (last : ℕ) (ns : List ℕ) :
    (patternFrom last ns).count true = ns.length := by
  induction ns generalizing last with
  | nil => rfl
  | cons n ns ih => simp [patternFrom, ih, List.count_replicate]

theorem count_false_patternFrom (last : ℕ) (ns : List ℕ) :
    (patternFrom last ns).count false = missingFrom last ns := by
  induction ns generalizing last with
  | nil => rfl
  | cons n ns ih => simp [patternFrom, missingFrom, ih]

/-- The numbers up to the last one are there or missing. -/
theorem missingFrom_add_length {last : ℕ} {ns : List ℕ} (h : (last :: ns).Pairwise (· < ·)) :
    last + (missingFrom last ns + ns.length) = ns.getLastD last := by
  induction ns generalizing last with
  | nil => rfl
  | cons n ns ih =>
      obtain ⟨hlast, hns⟩ := List.pairwise_cons.mp h
      have hlt := hlast n List.mem_cons_self
      have hrest := ih hns
      rw [List.getLastD_cons, missingFrom, List.length_cons]
      omega

/-- The pattern tells which numbers are there. -/
theorem patternFrom_eq {last : ℕ} {ns : List ℕ} (h : (last :: ns).Pairwise (· < ·)) :
    patternFrom last ns
      = (List.range' (last + 1) (missingFrom last ns + ns.length)).map
        fun k => decide (k ∈ ns) := by
  induction ns generalizing last with
  | nil => rfl
  | cons n ns ih =>
      obtain ⟨hlast, hns⟩ := List.pairwise_cons.mp h
      obtain ⟨hn, -⟩ := List.pairwise_cons.mp hns
      have hlt := hlast n List.mem_cons_self
      have hlength : missingFrom last (n :: ns) + (n :: ns).length
          = (n - last - 1) + (1 + (missingFrom n ns + ns.length)) := by
        rw [missingFrom, List.length_cons]
        omega
      have hmid : last + 1 + (n - last - 1) = n := by omega
      rw [patternFrom, hlength, ← List.range'_append_1, List.map_append, hmid, Nat.add_comm 1,
        List.range'_succ, List.map_cons, ih hns]
      congr 1
      · -- the numbers between `last` and `n` are missing
        refine (List.eq_replicate_iff.mpr ⟨by simp, fun b hb => ?_⟩).symm
        obtain ⟨k, hk, rfl⟩ := List.mem_map.mp hb
        obtain ⟨-, hkn⟩ := List.mem_range'_1.mp hk
        apply decide_eq_false
        intro hmem
        rcases List.mem_cons.mp hmem with rfl | hmem
        · omega
        · have := hn k hmem
          omega
      · congr 1
        · simp
        · apply List.map_congr_left
          intro k hk
          obtain ⟨hnk, -⟩ := List.mem_range'_1.mp hk
          have hne : k ≠ n := by omega
          simp [hne]

end RunLength
