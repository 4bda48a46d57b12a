-- SUMMARY: Numbers on a circle: the order in which the shorter way round decides.
import Mathlib.Tactic

/-!
# Serial numbers

`a` is before `b` when the way forward from `a` to `b` is shorter than the way back.
The order is that of the numbers themselves as long as they lie within half the circle.
-/

namespace Serial

variable {w : Nat}

/-- The way forward from `a` to `b` is the shorter one. -/
def Before (a b : BitVec w) : Prop := b - a < a - b

instance (a b : BitVec w) : Decidable (Before a b) := inferInstanceAs (Decidable (_ < _))

/-- The two ways round make up the circle. -/
theorem toNat_sub_add_toNat_sub {a b : BitVec w} (h : a ≠ b) :
    (b - a).toNat + (a - b).toNat = 2 ^ w := by
  have hne : a.toNat ≠ b.toNat := fun heq => h (BitVec.eq_of_toNat_eq heq)
  have ha := a.isLt
  have hb := b.isLt
  rw [BitVec.toNat_sub, BitVec.toNat_sub]
  rcases Nat.lt_or_gt_of_ne hne with hlt | hlt
  · rw [show 2 ^ w - a.toNat + b.toNat = (b.toNat - a.toNat) + 2 ^ w by omega,
      Nat.add_mod_right, Nat.mod_eq_of_lt (by omega), Nat.mod_eq_of_lt (by omega)]
    omega
  · rw [show 2 ^ w - b.toNat + a.toNat = (a.toNat - b.toNat) + 2 ^ w by omega,
      Nat.add_mod_right, Nat.mod_eq_of_lt (by omega), Nat.mod_eq_of_lt (by omega)]
    omega

/-- `b` is after `a` when it lies within half the circle ahead of it. -/
theorem before_iff {a b : BitVec w} :
    Before a b ↔ 0 < (b - a).toNat ∧ 2 * (b - a).toNat < 2 ^ w := by
  unfold Before
  rw [BitVec.lt_def]
  by_cases heq : a = b
  · simp [heq]
  · have hsum := toNat_sub_add_toNat_sub heq
    have hpos : (b - a).toNat ≠ 0 := by
      intro hzero
      have hdiff : b - a = 0#w := BitVec.eq_of_toNat_eq (by simpa using hzero)
      exact heq (BitVec.sub_eq_iff_eq_add.mp hdiff |>.trans (BitVec.zero_add a)).symm
    omega

/-! ## Numbers before they wrap -/

theorem ofInt_sub (a b : ℤ) : BitVec.ofInt w (b - a) = BitVec.ofInt w b - BitVec.ofInt w a := by
  rw [Int.sub_eq_add_neg, BitVec.ofInt_add, BitVec.ofInt_neg, BitVec.sub_eq_add_neg]

/-- The order on the circle is that of the numbers, within half the circle. -/
theorem before_ofInt_iff (hw : 1 ≤ w) {a b : ℤ} (hclose : |a - b| < 2 ^ (w - 1)) :
    Before (BitVec.ofInt w a) (BitVec.ofInt w b) ↔ a < b := by
  have hhalf : (2 : ℤ) ^ w = 2 * 2 ^ (w - 1) := by
    rw [← pow_succ', Nat.sub_add_cancel hw]
  obtain ⟨hlow, hhigh⟩ := abs_lt.mp hclose
  rw [before_iff, ← ofInt_sub, BitVec.toNat_ofInt]
  have hcast : ((2 ^ w : ℕ) : ℤ) = 2 ^ w := by push_cast; rfl
  rw [hcast]
  rcases le_or_gt a b with hle | hgt
  · -- the way forward is the difference itself
    rw [Int.emod_eq_of_lt (by omega) (by omega)]
    omega
  · -- the way forward goes round, past half the circle
    have hround : (b - a) % 2 ^ w = b - a + 2 ^ w := by
      rw [← Int.add_emod_right, Int.emod_eq_of_lt (by omega) (by omega)]
    rw [hround]
    omega

/-- No two of the numbers are half the circle apart. -/
def Near (w : Nat) (s : Set ℤ) : Prop := ∀ a ∈ s, ∀ b ∈ s, |a - b| < 2 ^ (w - 1)

/-- Numbers within half the circle are in strict total order after they have wrapped. -/
theorem isStrictTotalOrder_of_near (hw : 1 ≤ w) {s : Set ℤ} (hs : Near w s) :
    IsStrictTotalOrder (BitVec.ofInt w '' s) fun a b => Before a.1 b.1 where
  irrefl := by
    rintro ⟨_, a, ha, rfl⟩ hlt
    exact lt_irrefl a ((before_ofInt_iff hw (hs a ha a ha)).mp hlt)
  trans := by
    rintro ⟨_, a, ha, rfl⟩ ⟨_, b, hb, rfl⟩ ⟨_, c, hc, rfl⟩ hab hbc
    have hab' : a < b := (before_ofInt_iff hw (hs a ha b hb)).mp hab
    have hbc' : b < c := (before_ofInt_iff hw (hs b hb c hc)).mp hbc
    exact (before_ofInt_iff hw (hs a ha c hc)).mpr (hab'.trans hbc')
  trichotomous := by
    rintro ⟨_, a, ha, rfl⟩ ⟨_, b, hb, rfl⟩ hab hba
    have hle : b ≤ a := not_lt.mp fun h => hab ((before_ofInt_iff hw (hs a ha b hb)).mpr h)
    have hge : a ≤ b := not_lt.mp fun h => hba ((before_ofInt_iff hw (hs b hb a ha)).mpr h)
    exact Subtype.ext (congrArg (BitVec.ofInt w) (le_antisymm hge hle))

end Serial
