-- SUMMARY: Round-to-nearest-even onto the finite binary64 numbers, as a function on the rationals.
import Mathlib

/-!
# Binary64 rounding

The finite binary64 numbers are the rationals `m * 2 ^ e` with `|m| ≤ 2 ^ 53` and
`-1074 ≤ e`. `Binary64.round` takes a rational to the nearest of them, ties to an
even last bit. Overflow to infinity is not modelled: no operation that uses this
file leaves the range.
-/

namespace Binary64

/-! ## Nearest integer, ties to even -/

/-- The nearest integer; a tie goes to the even neighbour. -/
def roundHalfEven (x : ℚ) : ℤ :=
  if Int.fract x < 1 / 2 then ⌊x⌋
  else if 1 / 2 < Int.fract x then ⌊x⌋ + 1
  else if ⌊x⌋ % 2 = 0 then ⌊x⌋ else ⌊x⌋ + 1

theorem roundHalfEven_floor_or (x : ℚ) :
    roundHalfEven x = ⌊x⌋ ∧ Int.fract x ≤ 1 / 2 ∨
      roundHalfEven x = ⌊x⌋ + 1 ∧ 1 / 2 ≤ Int.fract x := by
  unfold roundHalfEven
  split_ifs with h₁ h₂ h₃
  · exact .inl ⟨rfl, h₁.le⟩
  · exact .inr ⟨rfl, h₂.le⟩
  · exact .inl ⟨rfl, not_lt.mp h₂⟩
  · exact .inr ⟨rfl, not_lt.mp h₁⟩

theorem abs_roundHalfEven_sub_le (x : ℚ) : |(roundHalfEven x : ℚ) - x| ≤ 1 / 2 := by
  have hfloor : (⌊x⌋ : ℚ) = x - Int.fract x := by simp
  obtain ⟨h, hle⟩ | ⟨h, hle⟩ := roundHalfEven_floor_or x
  · rw [h, hfloor, abs_le]
    constructor <;> linarith [Int.fract_nonneg x]
  · rw [h, Int.cast_add, hfloor, Int.cast_one, abs_le]
    constructor <;> linarith [Int.fract_lt_one x]

@[simp] theorem roundHalfEven_intCast (n : ℤ) : roundHalfEven (n : ℚ) = n := by
  simp [roundHalfEven]

@[simp] theorem roundHalfEven_zero : roundHalfEven 0 = 0 := by
  exact_mod_cast roundHalfEven_intCast 0

theorem roundHalfEven_le {x : ℚ} {n : ℤ} (h : x ≤ n) : roundHalfEven x ≤ n := by
  obtain ⟨hr, -⟩ | ⟨hr, hfract⟩ := roundHalfEven_floor_or x
  · rw [hr]
    exact Int.floor_le_iff.mpr (lt_of_le_of_lt h (lt_add_one _))
  · rw [hr]
    by_contra hlt
    have hfloor : n ≤ ⌊x⌋ := by omega
    have hx : x = n := le_antisymm h (le_trans (by exact_mod_cast hfloor) (Int.floor_le x))
    rw [hx, Int.fract_intCast] at hfract
    norm_num at hfract

theorem le_roundHalfEven {x : ℚ} {n : ℤ} (h : (n : ℚ) ≤ x) : n ≤ roundHalfEven x := by
  have hfloor : n ≤ ⌊x⌋ := Int.le_floor.mpr h
  obtain ⟨hr, -⟩ | ⟨hr, -⟩ := roundHalfEven_floor_or x <;> omega

theorem roundHalfEven_mono {x y : ℚ} (h : x ≤ y) : roundHalfEven x ≤ roundHalfEven y := by
  by_contra hlt
  have hgap : (roundHalfEven y : ℚ) + 1 ≤ roundHalfEven x := by exact_mod_cast not_le.mp hlt
  have hx := abs_le.mp (abs_roundHalfEven_sub_le x)
  have hy := abs_le.mp (abs_roundHalfEven_sub_le y)
  -- both errors are at most a half, so the arguments would have to be equal
  have heq : x = y := by linarith
  exact hlt (heq ▸ le_rfl)

theorem roundHalfEven_eq {x : ℚ} {n : ℤ} (h : |x - n| < 1 / 2) : roundHalfEven x = n := by
  have hdist : |(roundHalfEven x : ℚ) - n| < 1 := by
    calc |(roundHalfEven x : ℚ) - n|
        ≤ |(roundHalfEven x : ℚ) - x| + |x - n| := abs_sub_le _ _ _
      _ < 1 / 2 + 1 / 2 := add_lt_add_of_le_of_lt (abs_roundHalfEven_sub_le x) h
      _ = 1 := by norm_num
  have hint : |roundHalfEven x - n| < 1 := by exact_mod_cast hdist
  have := Int.abs_lt_one_iff.mp hint
  omega

/-! ## The last place of a number -/

/-- The exponent of the last place of `x`: 53 significant bits, bounded below by
the subnormal spacing. -/
def ulpExp (x : ℚ) : ℤ := if x = 0 then -1074 else max (Int.log 2 |x| - 52) (-1074)

/-- The spacing of the binary64 numbers around `x`. -/
def ulp (x : ℚ) : ℚ := 2 ^ ulpExp x

theorem ulp_pos (x : ℚ) : 0 < ulp x := by unfold ulp; positivity

theorem ulpExp_le {x : ℚ} {e : ℤ} (he : -1074 ≤ e) (hx : |x| < 2 ^ (e + 53)) : ulpExp x ≤ e := by
  unfold ulpExp
  split_ifs with hzero
  · exact he
  · apply max_le _ he
    have hlog : Int.log 2 |x| < e + 53 :=
      (Int.lt_zpow_iff_log_lt Nat.one_lt_two (abs_pos.mpr hzero)).mp (by exact_mod_cast hx)
    omega

theorem ulpExp_eq {x : ℚ} {e : ℤ} (he : -1074 ≤ e) (hlo : 2 ^ (e + 52) ≤ |x|)
    (hhi : |x| < 2 ^ (e + 53)) : ulpExp x = e := by
  have hpos : 0 < |x| := lt_of_lt_of_le (by positivity) hlo
  have hne : x ≠ 0 := abs_pos.mp hpos
  apply le_antisymm (ulpExp_le he hhi)
  have hlog : e + 52 ≤ Int.log 2 |x| :=
    (Int.zpow_le_iff_le_log Nat.one_lt_two hpos).mp (by exact_mod_cast hlo)
  simp only [ulpExp, if_neg hne]
  omega

theorem ulp_le {x : ℚ} {e : ℤ} (he : -1074 ≤ e) (hx : |x| < 2 ^ (e + 53)) : ulp x ≤ 2 ^ e :=
  zpow_le_zpow_right₀ one_le_two (ulpExp_le he hx)

/-! ## Rounding -/

/-- The binary64 number nearest to `x`. -/
def round (x : ℚ) : ℚ := roundHalfEven (x / ulp x) * ulp x

@[simp] theorem round_zero : round 0 = 0 := by simp [round]

/-- The rounding error is at most half a unit in the last place. -/
theorem abs_round_sub_le (x : ℚ) : |round x - x| ≤ ulp x / 2 := by
  have hu := ulp_pos x
  have hsplit : round x - x = (roundHalfEven (x / ulp x) - x / ulp x) * ulp x := by
    rw [sub_mul, div_mul_cancel₀ x hu.ne', round]
  rw [hsplit, abs_mul, abs_of_pos hu]
  calc |(roundHalfEven (x / ulp x) : ℚ) - x / ulp x| * ulp x
      ≤ 1 / 2 * ulp x := mul_le_mul_of_nonneg_right (abs_roundHalfEven_sub_le _) hu.le
    _ = ulp x / 2 := by ring

theorem round_nonneg {x : ℚ} (h : 0 ≤ x) : 0 ≤ round x := by
  have hquot : ((0 : ℤ) : ℚ) ≤ x / ulp x := by
    simpa using div_nonneg h (ulp_pos x).le
  have hint : (0 : ℚ) ≤ roundHalfEven (x / ulp x) := by exact_mod_cast le_roundHalfEven hquot
  exact mul_nonneg hint (ulp_pos x).le

/-- A multiple of the last place of `x` that bounds `x` bounds its rounding. -/
theorem round_le_mul {x : ℚ} {n : ℤ} (h : x ≤ n * ulp x) : round x ≤ n * ulp x := by
  have hu := ulp_pos x
  have hquot : x / ulp x ≤ n := (div_le_iff₀ hu).mpr h
  exact mul_le_mul_of_nonneg_right (by exact_mod_cast roundHalfEven_le hquot) hu.le

theorem mul_le_round {x : ℚ} {n : ℤ} (h : n * ulp x ≤ x) : n * ulp x ≤ round x := by
  have hu := ulp_pos x
  have hquot : (n : ℚ) ≤ x / ulp x := (le_div_iff₀ hu).mpr h
  exact mul_le_mul_of_nonneg_right (by exact_mod_cast le_roundHalfEven hquot) hu.le

theorem zpow_eq_mul_ulp {x : ℚ} {k : ℤ} (hk : ulpExp x ≤ k) :
    (2 : ℚ) ^ k = ((2 ^ (k - ulpExp x).toNat : ℤ) : ℚ) * ulp x := by
  rw [ulp, Int.cast_pow, ← zpow_natCast, Int.toNat_of_nonneg (by omega), Int.cast_ofNat,
    ← zpow_add₀ two_ne_zero, sub_add_cancel]

theorem round_mono_of_nonneg {x y : ℚ} (h₀ : 0 ≤ x) (h : x ≤ y) : round x ≤ round y := by
  rcases eq_or_ne (ulpExp x) (ulpExp y) with heq | hne
  · have hulp : ulp x = ulp y := by rw [ulp, ulp, heq]
    rw [round, round, hulp]
    apply mul_le_mul_of_nonneg_right _ (ulp_pos y).le
    exact_mod_cast roundHalfEven_mono (div_le_div_of_nonneg_right h (ulp_pos y).le)
  · rcases eq_or_lt_of_le h₀ with rfl | hx
    · rw [round_zero]; exact round_nonneg h
    -- the power of two at the bottom of the binade of `y` separates the two
    have hy : 0 < y := lt_of_lt_of_le hx h
    have hlog : Int.log 2 x ≤ Int.log 2 y := Int.log_mono_right hx h
    have hexpx : ulpExp x = max (Int.log 2 x - 52) (-1074) := by
      simp [ulpExp, hx.ne', abs_of_pos hx]
    have hexpy : ulpExp y = max (Int.log 2 y - 52) (-1074) := by
      simp [ulpExp, hy.ne', abs_of_pos hy]
    have hxb : x ≤ 2 ^ Int.log 2 y :=
      calc x ≤ 2 ^ (Int.log 2 x + 1) := by
            exact_mod_cast (Int.lt_zpow_succ_log_self Nat.one_lt_two x).le
        _ ≤ 2 ^ Int.log 2 y := zpow_le_zpow_right₀ one_le_two (by omega)
    have hby : (2 : ℚ) ^ Int.log 2 y ≤ y := by
      exact_mod_cast Int.zpow_log_le_self Nat.one_lt_two hy
    rw [zpow_eq_mul_ulp (x := x) (by omega)] at hxb
    rw [zpow_eq_mul_ulp (x := y) (by omega)] at hby
    calc round x ≤ _ := round_le_mul hxb
      _ = 2 ^ Int.log 2 y := (zpow_eq_mul_ulp (by omega)).symm
      _ = _ := zpow_eq_mul_ulp (by omega)
      _ ≤ round y := mul_le_round hby

theorem round_le_one {x : ℚ} (h₀ : 0 ≤ x) (h : x ≤ 1) : round x ≤ 1 := by
  have habs : |x| < 2 ^ (0 + 53 : ℤ) := by
    rw [abs_of_nonneg h₀]; exact lt_of_le_of_lt h (by norm_num)
  have hexp : ulpExp x ≤ 0 := ulpExp_le (by norm_num) habs
  rw [← zpow_zero (2 : ℚ), zpow_eq_mul_ulp hexp] at h ⊢
  exact round_le_mul h

/-- Close enough to `n` last places of `2 ^ e`, `x` rounds to exactly that. -/
theorem round_eq {x : ℚ} {n e : ℤ} (he : -1074 ≤ e) (hlo : 2 ^ (e + 52) ≤ |x|)
    (hhi : |x| < 2 ^ (e + 53)) (hnear : |x - n * 2 ^ e| < 2 ^ e / 2) : round x = n * 2 ^ e := by
  have hpow : (0 : ℚ) < 2 ^ e := by positivity
  have hulp : ulp x = 2 ^ e := by rw [ulp, ulpExp_eq he hlo hhi]
  have hquot : |x / 2 ^ e - n| < 1 / 2 := by
    have hsplit : x / 2 ^ e - n = (x - n * 2 ^ e) / 2 ^ e := by field_simp
    rw [hsplit, abs_div, abs_of_pos hpow, div_lt_iff₀ hpow]
    linarith
  rw [round, hulp, roundHalfEven_eq hquot]

/-- The numbers with at most 53 significant bits are fixed. -/
theorem round_mul_zpow {n e : ℤ} (he : -1074 ≤ e) (hn : |n| ≤ 2 ^ 53) :
    round (n * 2 ^ e) = n * 2 ^ e := by
  -- a number that is a whole number of its own last places is fixed
  have hfix : ∀ k : ℤ, (n * 2 ^ e : ℚ) = k * ulp (n * 2 ^ e) → round (n * 2 ^ e) = n * 2 ^ e := by
    intro k hk
    have hquot : (n * 2 ^ e : ℚ) / ulp (n * 2 ^ e) = k := by
      rw [div_eq_iff (ulp_pos _).ne']; exact hk
    rw [round, hquot, roundHalfEven_intCast, ← hk]
  have habs : |(n * 2 ^ e : ℚ)| = |(n : ℚ)| * 2 ^ e := by
    rw [abs_mul, abs_of_pos (by positivity : (0 : ℚ) < 2 ^ e)]
  rcases lt_or_eq_of_le hn with hlt | heq
  · have hexp : ulpExp (n * 2 ^ e) ≤ e := by
      apply ulpExp_le he
      have hcast : |(n : ℚ)| < 2 ^ 53 := by exact_mod_cast hlt
      rw [habs, zpow_add₀ two_ne_zero, mul_comm ((2 : ℚ) ^ e)]
      exact mul_lt_mul_of_pos_right (by exact_mod_cast hcast) (by positivity)
    apply hfix (n * 2 ^ (e - ulpExp (n * 2 ^ e)).toNat)
    rw [Int.cast_mul, mul_assoc, ← zpow_eq_mul_ulp hexp]
  · have hcast : |(n : ℚ)| = 2 ^ 53 := by exact_mod_cast congrArg (Int.cast (R := ℚ)) heq
    have hexp : ulpExp (n * 2 ^ e) = e + 1 := by
      apply ulpExp_eq (by omega) <;>
        rw [habs, hcast, ← zpow_natCast, ← zpow_add₀ two_ne_zero]
      · exact zpow_le_zpow_right₀ one_le_two (by omega)
      · exact zpow_lt_zpow_right₀ one_lt_two (by omega)
    obtain ⟨k, hk⟩ : (2 : ℤ) ∣ n := by
      rw [← dvd_abs, heq]; exact dvd_pow_self 2 (by norm_num)
    apply hfix k
    rw [ulp, hexp, hk, zpow_add₀ two_ne_zero]
    push_cast
    ring

/-- Every rounding has at most 53 significant bits. -/
theorem exists_round_eq (x : ℚ) :
    ∃ n e : ℤ, -1074 ≤ e ∧ |n| ≤ 2 ^ 53 ∧ round x = n * 2 ^ e := by
  refine ⟨roundHalfEven (x / ulp x), ulpExp x, ?_, ?_, rfl⟩
  · unfold ulpExp; split_ifs <;> omega
  · have hu := ulp_pos x
    have hbound : |x / ulp x| ≤ 2 ^ 53 := by
      rw [abs_div, abs_of_pos hu, div_le_iff₀ hu]
      rcases eq_or_ne x 0 with rfl | hne
      · simp only [abs_zero]; positivity
      · have hexp : Int.log 2 |x| + 1 ≤ 53 + ulpExp x := by
          simp only [ulpExp, if_neg hne]; omega
        calc |x| ≤ 2 ^ (Int.log 2 |x| + 1) := by
              exact_mod_cast (Int.lt_zpow_succ_log_self Nat.one_lt_two |x|).le
          _ ≤ 2 ^ (53 + ulpExp x) := zpow_le_zpow_right₀ one_le_two hexp
          _ = 2 ^ 53 * ulp x := by rw [zpow_add₀ two_ne_zero, ulp]; norm_cast
    obtain ⟨hlo, hhi⟩ := abs_le.mp hbound
    have hle : roundHalfEven (x / ulp x) ≤ 2 ^ 53 := roundHalfEven_le (by exact_mod_cast hhi)
    have hge : -2 ^ 53 ≤ roundHalfEven (x / ulp x) := le_roundHalfEven (by exact_mod_cast hlo)
    exact abs_le.mpr ⟨hge, hle⟩

/-- In the range of normal numbers, doubling commutes with rounding. -/
theorem round_two_mul {x : ℚ} (hx : 2 ^ (-1022 : ℤ) ≤ x) : round (2 * x) = 2 * round x := by
  have hpos : 0 < x := lt_of_lt_of_le (by positivity) hx
  obtain ⟨e, he⟩ : ∃ e : ℤ, e = Int.log 2 x - 52 := ⟨_, rfl⟩
  have hlog : -1022 ≤ Int.log 2 x :=
    (Int.zpow_le_iff_le_log Nat.one_lt_two hpos).mp (by exact_mod_cast hx)
  have hlo : (2 : ℚ) ^ (e + 52) ≤ x := by
    rw [he, sub_add_cancel]
    exact_mod_cast Int.zpow_log_le_self Nat.one_lt_two hpos
  have hhi : x < (2 : ℚ) ^ (e + 53) := by
    rw [show e + 53 = Int.log 2 x + 1 by omega]
    exact_mod_cast Int.lt_zpow_succ_log_self Nat.one_lt_two x
  have hulp : ulp x = 2 ^ e := by
    rw [ulp, ulpExp_eq (e := e) (by omega) (by rwa [abs_of_pos hpos]) (by rwa [abs_of_pos hpos])]
  have hdouble : ∀ k : ℤ, (2 : ℚ) ^ (e + 1 + k) = 2 * 2 ^ (e + k) := by
    intro k
    rw [show e + 1 + k = (e + k) + 1 by ring, zpow_add_one₀ two_ne_zero, mul_comm]
  have hulp' : ulp (2 * x) = 2 * 2 ^ e := by
    rw [ulp, ulpExp_eq (e := e + 1) (by omega) _ _, zpow_add_one₀ two_ne_zero, mul_comm]
    · rw [abs_of_pos (by linarith), hdouble]
      linarith
    · rw [abs_of_pos (by linarith), hdouble]
      linarith
  rw [round, round, hulp, hulp', mul_div_mul_left _ _ two_ne_zero]
  ring

theorem round_nonpos {x : ℚ} (h : x ≤ 0) : round x ≤ 0 := by
  simpa using round_le_mul (x := x) (n := 0) (by simpa using h)

theorem roundHalfEven_neg (x : ℚ) : roundHalfEven (-x) = -roundHalfEven x := by
  rcases eq_or_ne (Int.fract x) 0 with hint | hfract
  · obtain ⟨n, rfl⟩ : ∃ n : ℤ, x = n := ⟨⌊x⌋, by linarith [Int.self_sub_floor x]⟩
    rw [← Int.cast_neg, roundHalfEven_intCast, roundHalfEven_intCast]
  · have hfrac : Int.fract (-x) = 1 - Int.fract x := Int.fract_neg hfract
    have hfloor : ⌊-x⌋ = -⌊x⌋ - 1 := by
      have hsum : (⌊-x⌋ : ℚ) = ((-⌊x⌋ - 1 : ℤ) : ℚ) := by
        push_cast
        linarith [Int.self_sub_floor x, Int.self_sub_floor (-x)]
      exact_mod_cast hsum
    rw [roundHalfEven, roundHalfEven, hfrac, hfloor]
    split_ifs <;> first | linarith | omega

theorem round_neg (x : ℚ) : round (-x) = -round x := by
  have hulp : ulp (-x) = ulp x := by simp only [ulp, ulpExp, neg_eq_zero, abs_neg]
  rw [round, round, hulp, neg_div, roundHalfEven_neg, Int.cast_neg, neg_mul]

theorem round_mono {x y : ℚ} (h : x ≤ y) : round x ≤ round y := by
  rcases le_total 0 x with hx | hx
  · exact round_mono_of_nonneg hx h
  rcases le_total 0 y with hy | hy
  · exact (round_nonpos hx).trans (round_nonneg hy)
  · have hneg := round_mono_of_nonneg (neg_nonneg.mpr hy) (neg_le_neg h)
    rwa [round_neg, round_neg, neg_le_neg_iff] at hneg

/-- What rounds to at least one is more than a half. -/
theorem half_lt_of_one_le_round {x : ℚ} (h : 1 ≤ round x) : 1 / 2 < x := by
  by_contra hle
  have hhalf : round (1 / 2) = 1 / 2 := by
    simpa using round_mul_zpow (n := 1) (e := -1) (by norm_num) (by norm_num)
  rcases le_total x 0 with hneg | hnonneg
  · linarith [round_nonpos hneg]
  · linarith [round_mono_of_nonneg hnonneg (not_lt.mp hle)]

theorem round_round (x : ℚ) : round (round x) = round x := by
  obtain ⟨n, e, he, hn, hx⟩ := exists_round_eq x
  rw [hx, round_mul_zpow he hn]

/-! ## Nearest integer, ties away from zero -/

/-- The nearest integer; a tie goes away from zero, as in `round` of the C library. -/
def roundHalfAway (x : ℚ) : ℤ := if 0 ≤ x then ⌊x + 1 / 2⌋ else ⌈x - 1 / 2⌉

@[simp] theorem roundHalfAway_natCast (n : ℕ) : roundHalfAway (n : ℚ) = n := by
  rw [roundHalfAway, if_pos (Nat.cast_nonneg n), Int.floor_eq_iff]
  constructor
  · push_cast; linarith
  · push_cast; linarith

end Binary64

/-! ## The type of binary64 numbers -/

/-- A finite binary64 number: a rational that rounding leaves alone. -/
structure Binary64 where
  val : ℚ
  round_val : Binary64.round val = val

namespace Binary64

@[ext] theorem ext {x y : Binary64} (h : x.val = y.val) : x = y := by
  cases x; cases y; cases h; rfl

instance : DecidableEq Binary64 := fun _ _ => decidable_of_iff _ Binary64.ext_iff.symm

/-- The binary64 number nearest to a rational. -/
def ofRat (x : ℚ) : Binary64 := ⟨round x, round_round x⟩

@[simp] theorem ofRat_val (x : ℚ) : (ofRat x).val = round x := rfl

/-- Rounded product. -/
def mul (x y : Binary64) : Binary64 := ofRat (x.val * y.val)

/-- Rounded quotient. -/
def div (x y : Binary64) : Binary64 := ofRat (x.val / y.val)

/-- Rounded sum. -/
def add (x y : Binary64) : Binary64 := ofRat (x.val + y.val)

/-- Rounded difference. -/
def sub (x y : Binary64) : Binary64 := ofRat (x.val - y.val)

@[simp] theorem mul_val (x y : Binary64) : (mul x y).val = round (x.val * y.val) := rfl
@[simp] theorem div_val (x y : Binary64) : (div x y).val = round (x.val / y.val) := rfl

/-- The conversion of a natural number, exact up to `2 ^ 53`. -/
def ofNat (n : ℕ) : Binary64 := ofRat n

theorem ofNat_nonneg (n : ℕ) : 0 ≤ (ofNat n).val := round_nonneg (Nat.cast_nonneg n)

/-- The quotient of two natural numbers, the smaller over the larger, is a fraction
after both conversions and the division have rounded. -/
theorem div_ofNat_mem_unit {m n : ℕ} (h : m ≤ n) :
    0 ≤ (div (ofNat m) (ofNat n)).val ∧ (div (ofNat m) (ofNat n)).val ≤ 1 := by
  have hmn : (ofNat m).val ≤ (ofNat n).val :=
    round_mono_of_nonneg (Nat.cast_nonneg m) (by exact_mod_cast h)
  have hquot : 0 ≤ (ofNat m).val / (ofNat n).val := div_nonneg (ofNat_nonneg m) (ofNat_nonneg n)
  exact ⟨round_nonneg hquot, round_le_one hquot (div_le_one_of_le₀ hmn (ofNat_nonneg n))⟩

theorem ofNat_val {n : ℕ} (h : n ≤ 2 ^ 53) : (ofNat n).val = n := by
  have hn : |(n : ℤ)| ≤ 2 ^ 53 := by rw [Nat.abs_cast]; exact_mod_cast h
  simpa [ofNat] using round_mul_zpow (n := n) (e := 0) (by norm_num) hn

theorem sub_ofNat {m n : ℕ} (h : n ≤ m) (hm : m ≤ 2 ^ 53) :
    sub (ofNat m) (ofNat n) = ofNat (m - n) := by
  rw [sub, ofNat_val hm, ofNat_val (h.trans hm), ← Nat.cast_sub h]
  rfl

theorem div_ofNat_zero (x : Binary64) : div (ofNat 0) x = ofNat 0 := by
  rw [div, ofNat_val (Nat.zero_le _), Nat.cast_zero, zero_div, ofNat, Nat.cast_zero]

end Binary64
