-- SUMMARY: The comparisons that support wrapping, as the order of the numbers before they wrap.
import Mathlib.Data.UInt
import Zhuge.ReceiveWindow

/-!
# The order of wrapped numbers

`lessThan` is a template of the base controller, `lessThan_simple` belongs to the receiver
and `lessThan_64` to the utilities. All three compare on a circle of their own width.
-/

namespace Zhuge

/-- `lessThan_64`. -/
def lessThan64 (id1 id2 : UInt64) : Prop := id2 - id1 < id1 - id2

instance (id1 id2 : UInt64) : Decidable (lessThan64 id1 id2) :=
  inferInstanceAs (Decidable (_ < _))

variable {w : Nat}

theorem lessThan_bitVec {a b : BitVec w} : lessThan a b ↔ Serial.Before a b := Iff.rfl

theorem lessThanSimple_iff {a b : UInt16} :
    lessThanSimple a b ↔ lessThan a.toBitVec b.toBitVec := by
  simp [lessThanSimple, lessThan, UInt16.lt_iff_toBitVec_lt]

theorem lessThan64_iff {a b : UInt64} : lessThan64 a b ↔ lessThan a.toBitVec b.toBitVec := by
  simp [lessThan64, lessThan, UInt64.lt_iff_toBitVec_lt]

/-- One relation at all widths, and the order of the numbers as far as they lie close. -/
theorem lessThan_is_unwrapped_order :
    (∀ w ≥ 1, ∀ a b : ℤ, |a - b| < 2 ^ (w - 1) →
      (lessThan (BitVec.ofInt w a) (BitVec.ofInt w b) ↔ a < b)) ∧
    (∀ a b : UInt16, (lessThan a b ↔ lessThan a.toBitVec b.toBitVec) ∧
      (lessThanSimple a b ↔ lessThan a.toBitVec b.toBitVec)) ∧
    (∀ a b : UInt64, (lessThan a b ↔ lessThan a.toBitVec b.toBitVec) ∧
      (lessThan64 a b ↔ lessThan a.toBitVec b.toBitVec)) ∧
    ∀ w ≥ 1, ∀ s : Set ℤ, (∀ a ∈ s, ∀ b ∈ s, |a - b| < 2 ^ (w - 1)) →
      IsStrictTotalOrder (BitVec.ofInt w '' s) fun a b => lessThan a.1 b.1 := by
  refine ⟨?_, ?_, ?_, ?_⟩
  · intro w hw a b hclose
    rw [lessThan_bitVec]
    exact Serial.before_ofInt_iff hw hclose
  · intro a b
    exact ⟨lessThanSimple_iff, lessThanSimple_iff⟩
  · intro a b
    exact ⟨lessThan64_iff, lessThan64_iff⟩
  · intro w hw s hs
    exact Serial.isStrictTotalOrder_of_near hw hs

/-- 65535 is before 65536 at 16 bits, and 2⁶⁴ − 1 before 2⁶⁴ + 1 at 64 bits. -/
theorem lessThan_across_wrap :
    lessThan (BitVec.ofInt 16 65535) (BitVec.ofInt 16 65536) ∧
    lessThan (BitVec.ofInt 64 (2 ^ 64 - 1)) (BitVec.ofInt 64 (2 ^ 64 + 1)) := by
  constructor
  · exact (lessThan_is_unwrapped_order.1 16 (by decide) _ _ (by norm_num)).mpr (by norm_num)
  · exact (lessThan_is_unwrapped_order.1 64 (by decide) _ _ (by norm_num)).mpr (by norm_num)

end Zhuge
