-- SUMMARY: Simulation time as a signed count of nanoseconds, with the conversions the code uses.
import Mathlib.Tactic

namespace Zhuge

/-- `ns3::Time` at its default resolution: a signed count of nanoseconds. -/
abbrev Time := Int

namespace Time

/-- `MilliSeconds (ms)`. -/
def milliSeconds (ms : Int) : Time := ms * 1000000

/-- `MicroSeconds (us)`. -/
def microSeconds (us : Int) : Time := us * 1000

/-- `GetMilliSeconds`: the division truncates towards zero. -/
def getMilliSeconds (t : Time) : Int := t.tdiv 1000000

/-- `GetMicroSeconds`: the division truncates towards zero. -/
def getMicroSeconds (t : Time) : Int := t.tdiv 1000

/-- The range of the 64-bit counter inside a `Time`. -/
def InRange (t : Time) : Prop := -2 ^ 63 ≤ t ∧ t < 2 ^ 63

instance (t : Time) : Decidable (InRange t) := inferInstanceAs (Decidable (_ ∧ _))

/-- `t` without its fraction of a millisecond. -/
def truncMilli (t : Time) : Time := milliSeconds (getMilliSeconds t)

/-- `t` without its fraction of a microsecond. -/
def truncMicro (t : Time) : Time := microSeconds (getMicroSeconds t)

/-- Truncation moves a time towards zero. -/
theorem tdiv_mul_mem {t unit : Int} (hunit : 0 < unit) :
    (0 ≤ t → 0 ≤ t.tdiv unit * unit ∧ t.tdiv unit * unit ≤ t) ∧
      (t ≤ 0 → t ≤ t.tdiv unit * unit ∧ t.tdiv unit * unit ≤ 0) := by
  have hpos : ∀ s : Int, 0 ≤ s → 0 ≤ s.tdiv unit * unit ∧ s.tdiv unit * unit ≤ s := by
    intro s hs
    rw [Int.tdiv_eq_ediv_of_nonneg hs]
    exact ⟨mul_nonneg (Int.ediv_nonneg hs hunit.le) hunit.le, Int.ediv_mul_le s hunit.ne'⟩
  refine ⟨hpos t, fun ht => ?_⟩
  obtain ⟨hnonneg, hle⟩ := hpos (-t) (by omega)
  rw [Int.neg_tdiv, Int.neg_mul] at hnonneg hle
  omega

theorem InRange.tdiv_mul {t unit : Int} (hunit : 0 < unit) (h : InRange t) :
    InRange (t.tdiv unit * unit) := by
  obtain ⟨hlo, hhi⟩ := h
  obtain ⟨hpos, hneg⟩ := tdiv_mul_mem (t := t) hunit
  rcases le_total 0 t with ht | ht
  · obtain ⟨hlo', hhi'⟩ := hpos ht
    exact ⟨le_trans (by norm_num) hlo', hhi'.trans_lt hhi⟩
  · obtain ⟨hlo', hhi'⟩ := hneg ht
    exact ⟨hlo.trans hlo', hhi'.trans_lt (by norm_num)⟩

@[simp] theorem getMilliSeconds_truncMilli (t : Time) :
    getMilliSeconds (truncMilli t) = getMilliSeconds t := by
  simp [truncMilli, milliSeconds, getMilliSeconds, Int.mul_tdiv_cancel]

@[simp] theorem getMicroSeconds_truncMicro (t : Time) :
    getMicroSeconds (truncMicro t) = getMicroSeconds t := by
  simp [truncMicro, microSeconds, getMicroSeconds, Int.mul_tdiv_cancel]

end Time

end Zhuge
