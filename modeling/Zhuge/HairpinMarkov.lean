-- SUMMARY: The Markov chain of the Hairpin policy: its predictions in closed form, and what time buys.
import Zhuge.Lib.Loops
import Zhuge.Lib.Thinning

/-!
# The Markov chain of the Hairpin policy

The states are the numbers of data packets of a group that are still missing, and each layer is a
round of retransmissions. A `double` is a rational number here. A function that can overflow an
`int`, fail an assertion or count past an 8-bit counter returns an `Option`.
-/

namespace Zhuge.HairpinPolicy

/-! ## Probabilities -/

/-- `Comb`. `none` is a product that overflows its `int`. -/
def comb (n k : UInt8) : Option UInt32 :=
  if n < k then some 0
  else
    let k := if n.toNat < k.toNat * 2 then n - k else k
    if k = 0 then some 1
    else
      ((List.range' 2 (k.toNat - 1)).foldlM (fun result i =>
        let product := result * (n.toNat - i + 1)
        if product < 2 ^ 31 then some (product / i) else none) n.toNat).map .ofNat

/-- `TransPbl`. -/
def transPbl (n0 n1 : UInt8) (lossRate : ℚ) (fecRate : UInt8) : Option ℚ :=
  if fecRate = 1 then
    if n1 = 0 then
      (List.range' 0 n0.toNat).foldlM (fun p01 i => do
        let ways ← comb (n0 * 2) (.ofNat i)
        some (p01 + ways.toNat * lossRate ^ i * (1 - lossRate) ^ (n0.toNat * 2 - i : ℤ))) 0
    -- the 8-bit counter does not get to the end
    else if 255 < n1.toNat + n0.toNat + 1 then none
    else
      let minLossCount := max (n0.toNat + 1) n1.toNat
      (List.range' minLossCount (n1.toNat + n0.toNat + 1 - minLossCount)).foldlM (fun p01 i => do
        let fecWays ← comb n0 (.ofNat (i - n1.toNat))
        let dataWays ← comb n0 n1
        some (p01 + lossRate ^ i * (1 - lossRate) ^ (n0.toNat * 2 - i : ℤ) *
          fecWays.toNat * dataWays.toNat)) 0
  else do
    let ways ← comb n0 n1
    some (ways.toNat * (lossRate ^ (fecRate.toNat + 1)) ^ n1.toNat *
      (1 - lossRate ^ (fecRate.toNat + 1)) ^ (n0.toNat - n1.toNat : ℤ))

/-- `StatePbl`. -/
def statePbl (columnVector : List ℚ) (n : UInt8) (lossRate : ℚ) (fecRate : UInt8) : Option ℚ :=
  if 255 < columnVector.length then none
  else
    let first := max n.toNat 1
    (List.range' first (columnVector.length - first)).foldlM (fun statePbl i => do
      let p ← transPbl (.ofNat i) n lossRate fecRate
      some (statePbl + columnVector.getD i 0 * p)) 0

/-! ## The chain -/

/-- The variables of `GetResult`. -/
structure Chain where
  lossDis : List ℚ
  onTimeRate : ℚ := 0
  extraPkts : ℚ := 0
  ddlMissRate : ℚ := 0
  pblSum : ℚ := 0

/-- The number of layers. -/
def layers (rtt ddl : ℚ) : UInt8 :=
  let layer : UInt8 := .ofNat (⌊ddl / rtt⌋ + 1).toNat
  if rtt / 2 < ddl - rtt * (layer.toNat - 1 : ℤ) then layer + 1 else layer

/-- The column after the write of a state. -/
def refill (beta1 : UInt8) (lossRate : ℚ) (i : ℕ) (lossDis : List ℚ) (j : ℕ) : Option (List ℚ) :=
  if 0 < i then (statePbl lossDis (.ofNat j) lossRate beta1).map (lossDis.set j)
  else some lossDis

/-- The body of the loop over the states. -/
def visit (beta1 : UInt8) (lossRate : ℚ) (layer : ℕ) (i : ℕ) (c : Chain) (j : ℕ) :
    Option Chain := do
  let lossDis ← refill beta1 lossRate i c.lossDis j
  let pbl := lossDis.getD j 0
  if j = 0 then some { c with lossDis, onTimeRate := c.onTimeRate + pbl }
  else
    some { c with
      lossDis
      pblSum := c.pblSum + pbl
      ddlMissRate := if i = layer - 1 then c.ddlMissRate + pbl else c.ddlMissRate
      extraPkts :=
        if i = layer - 1 then c.extraPkts
        else c.extraPkts + ⌊((j + j * beta1.toNat : ℕ) : ℚ)⌋ * pbl }

/-- The normalisation at the end of a layer. -/
def normalise (c : Chain) : Chain :=
  let onTimeRate := c.onTimeRate / (c.onTimeRate + c.pblSum)
  { c with
    onTimeRate
    lossDis := c.lossDis.mapIdx fun j p => if j = 0 then p else p / (onTimeRate + c.pblSum)
    pblSum := 0 }

/-- One layer. -/
def visitLayer (groupSize beta1 : UInt8) (lossRate : ℚ) (layer : ℕ) (c : Chain) (i : ℕ) :
    Option Chain :=
  ((List.range' 0 (groupSize.toNat + 1)).foldlM (visit beta1 lossRate layer i)
    { c with pblSum := 0 }).map normalise

/-- `GetResult`: `ddl_miss_rate` and `bw_loss_rate`. -/
def getResult (groupSize beta1 : UInt8) (lossDis : List ℚ) (lossRate rtt ddl : ℚ) :
    Option (ℚ × ℚ) :=
  if lossDis.length ≠ groupSize.toNat + 1 ∨ groupSize = 255 then none
  else if ¬ |lossDis.sum - 1| < 1e-10 then none
  else
    ((List.range' 0 (layers rtt ddl).toNat).foldlM
      (visitLayer groupSize beta1 lossRate (layers rtt ddl).toNat) { lossDis }).map fun c =>
        (c.ddlMissRate, c.extraPkts / (groupSize.toNat + c.extraPkts))

/-! ## Binomial coefficients -/

/-- The largest product of the loop, for up to 29 packets. -/
theorem mul_choose_lt {n i : ℕ} (hn : n ≤ 29) (hi : i ≤ 14) : i * n.choose i < 2 ^ 31 := by
  have hmiddle : n.choose i ≤ 77558760 :=
    calc n.choose i ≤ Nat.choose 29 i := Nat.choose_le_choose i hn
      _ ≤ Nat.choose 29 14 := Nat.choose_le_middle i 29
      _ = 77558760 := by rw [Nat.choose_eq_descFactorial_div_factorial]; rfl
  calc i * n.choose i ≤ 14 * 77558760 := Nat.mul_le_mul hi hmiddle
    _ < 2 ^ 31 := by norm_num

/-- The loop of `Comb` goes from one coefficient to the next. -/
theorem combLoop_eq {n k : ℕ} (hn : n ≤ 29) (hk : 0 < k) (hk' : k * 2 ≤ n) :
    (List.range' 2 (k - 1)).foldlM (fun result i =>
      let product := result * (n - i + 1)
      if product < 2 ^ 31 then some (product / i) else none) n = some (n.choose k) := by
  have hstep : ∀ i result, 2 ≤ i → i < 2 + (k - 1) → result = n.choose (i - 1) →
      ∃ result', (let product := result * (n - i + 1)
        if product < 2 ^ 31 then some (product / i) else none) = some result' ∧
          result' = n.choose (i + 1 - 1) := by
    rintro i _ hi hik rfl
    have hproduct : n.choose (i - 1) * (n - i + 1) = i * n.choose i := by
      have h := Nat.choose_succ_right_eq n (i - 1)
      rw [Nat.sub_add_cancel (by omega)] at h
      rw [show n - i + 1 = n - (i - 1) by omega, ← h, mul_comm]
    refine ⟨n.choose i, ?_, rfl⟩
    rw [hproduct, if_pos (mul_choose_lt hn (by omega)), Nat.mul_div_cancel_left _ (by omega)]
  obtain ⟨result, hloop, hend⟩ := Loops.exists_foldlM 2 (k - 1) hstep (Nat.choose_one_right n).symm
  rw [hloop, hend]
  congr 2
  omega

theorem comb_eq {n k : UInt8} (hn : n.toNat ≤ 29) :
    comb n k = some (.ofNat (n.toNat.choose k.toNat)) := by
  unfold comb
  split
  case isTrue hlt =>
    rw [Nat.choose_eq_zero_of_lt (UInt8.lt_iff_toNat_lt.mp hlt)]
    rfl
  case isFalse hle =>
    have hkn : k.toNat ≤ n.toNat := by
      rw [UInt8.not_lt, UInt8.le_iff_toNat_le] at hle
      exact hle
    -- the smaller one of the two sides of the triangle
    have hside : ∃ k' : UInt8, (if n.toNat < k.toNat * 2 then n - k else k) = k' ∧
        k'.toNat * 2 ≤ n.toNat ∧ n.toNat.choose k'.toNat = n.toNat.choose k.toNat := by
      split
      case isTrue hfar =>
        have hsub : (n - k).toNat = n.toNat - k.toNat :=
          UInt8.toNat_sub_of_le _ _ (UInt8.le_iff_toNat_le.mpr hkn)
        exact ⟨n - k, rfl, by omega, by rw [hsub, Nat.choose_symm hkn]⟩
      case isFalse hnear => exact ⟨k, rfl, by omega, rfl⟩
    obtain ⟨k', heq, hnear, hchoose⟩ := hside
    simp only [heq, ← hchoose]
    split
    case isTrue hzero =>
      rw [hzero, UInt8.toNat_zero, Nat.choose_zero_right]
      rfl
    case isFalse hpos =>
      have hk' : 0 < k'.toNat := Nat.pos_of_ne_zero fun h => hpos (UInt8.toNat_inj.mp h)
      rw [combLoop_eq hn hk' hnear, Option.map_some]

/-- The coefficient fits. -/
theorem toNat_choose {n k : ℕ} (hn : n ≤ 29) :
    (UInt32.ofNat (n.choose k)).toNat = n.choose k := by
  rw [UInt32.toNat_ofNat']
  refine Nat.mod_eq_of_lt ?_
  calc n.choose k ≤ 2 ^ n := Nat.choose_le_two_pow n k
    _ ≤ 2 ^ 29 := Nat.pow_le_pow_right (by norm_num) hn
    _ < 2 ^ 32 := by norm_num

/-! ## Rounds are thinnings -/

/-- A data packet stays missing if it and all its copies are lost. -/
def stays (lossRate : ℚ) (beta1 : UInt8) : ℚ := lossRate ^ (beta1.toNat + 1)

theorem transPbl_eq {n0 n1 fecRate : UInt8} (hrate : fecRate ≠ 1) (hn : n0.toNat ≤ 29)
    (hle : n1.toNat ≤ n0.toNat) (lossRate : ℚ) :
    transPbl n0 n1 lossRate fecRate =
      some (Thinning.binomial (stays lossRate fecRate) n0.toNat n1.toNat) := by
  rw [transPbl, if_neg hrate, comb_eq hn, ← Nat.cast_sub hle, zpow_natCast]
  change some _ = _
  rw [toNat_choose hn]
  rfl

/-- The weights that a column stands for. -/
def weight (lossDis : List ℚ) (n : ℕ) : ℚ := lossDis.getD n 0

theorem toNat_ofNat_of_le {n : ℕ} (hn : n ≤ 29) : (UInt8.ofNat n).toNat = n := by
  rw [UInt8.toNat_ofNat']
  exact Nat.mod_eq_of_lt (by omega)

/-- A state of the next layer, from the states that are not below it. -/
theorem statePbl_eq {columnVector : List ℚ} {g : ℕ} (hlength : columnVector.length = g + 1)
    (hg : g ≤ 29) {n : ℕ} (hn : n ≤ g) {fecRate : UInt8} (hrate : fecRate ≠ 1) (lossRate : ℚ)
    {w : ℕ → ℚ} (hw : ∀ i, n ≤ i → 0 < i → i ≤ g → weight columnVector i = w i) :
    statePbl columnVector (.ofNat n) lossRate fecRate =
      some (Thinning.thin g (stays lossRate fecRate) (Thinning.nonempty w) n) := by
  set q := stays lossRate fecRate with hq
  have hnat := toNat_ofNat_of_le (n := n) (by omega)
  have hstep : ∀ i acc, max n 1 ≤ i → i < max n 1 + (g + 1 - max n 1) →
      ((transPbl (.ofNat i) (.ofNat n) lossRate fecRate).bind fun p =>
        some (acc + columnVector.getD i 0 * p)) =
          some (acc + Thinning.nonempty w i * Thinning.binomial q i n) := by
    intro i acc hi hig
    have hiNat := toNat_ofNat_of_le (n := i) (by omega)
    have htrans := @transPbl_eq (.ofNat i) (.ofNat n) fecRate hrate (by omega) (by omega) lossRate
    have hvalue : columnVector.getD i 0 = Thinning.nonempty w i := by
      rw [Thinning.nonempty, if_neg (by omega)]
      exact hw i (by omega) (by omega) (by omega)
    rw [htrans, Option.bind_some, hvalue, hiNat, hnat]
  -- the states before the first one do not lead to this one
  have hbefore : ∀ k ∈ Finset.range (g + 1), k ∉ Finset.Ico (max n 1) (g + 1) →
      Thinning.nonempty w k * Thinning.binomial q k n = 0 := by
    intro k hk hout
    rw [Finset.mem_range] at hk
    rw [Finset.mem_Ico] at hout
    by_cases hkn : k < n
    · rw [Thinning.binomial_of_lt q hkn, mul_zero]
    · rw [Thinning.nonempty, if_pos (by omega), zero_mul]
  rw [statePbl, if_neg (by omega)]
  simp only [hnat, hlength]
  refine (Loops.foldlM_add _ _ hstep 0).trans (congrArg some ?_)
  rw [zero_add, Nat.add_sub_cancel' (by omega), Thinning.thin]
  exact Finset.sum_subset (fun k hk => Finset.mem_range.mpr (Finset.mem_Ico.mp hk).2) hbefore

/-! ## Layers -/

section Layers

variable {w : ℕ → ℕ → ℚ} {groupSize beta1 : UInt8} {lossRate : ℚ} {layer i : ℕ}

/-- The on-time rate before a layer. -/
def settled (w : ℕ → ℕ → ℚ) : ℕ → ℚ
  | 0 => 0
  | i + 1 => w i 0

/-- The retransmissions of the first layers. -/
def retransmitted (w : ℕ → ℕ → ℚ) (groupSize beta1 : UInt8) (i : ℕ) : ℚ :=
  ∑ m ∈ Finset.range i, (1 + beta1.toNat) * Thinning.mean groupSize.toNat (w m)

theorem retransmitted_succ (i : ℕ) : retransmitted w groupSize beta1 (i + 1) =
    retransmitted w groupSize beta1 i +
      ∑ n ∈ Finset.range (groupSize.toNat + 1), (1 + beta1.toNat) * (n * w i n) := by
  rw [← Finset.mul_sum]
  exact Finset.sum_range_succ _ i

/-- Before state `j` of layer `i`, where layer `i` has the weights `w i`. -/
structure Visited (w : ℕ → ℕ → ℚ) (groupSize beta1 : UInt8) (layer i j : ℕ) (c : Chain) :
    Prop where
  length : c.lossDis.length = groupSize.toNat + 1
  new : ∀ n, 0 < n → n < j → weight c.lossDis n = w i n
  old : ∀ n, j ≤ n → n ≤ groupSize.toNat → i = 0 ∨ 0 < n → weight c.lossDis n = w (i - 1) n
  onTime : c.onTimeRate = if j = 0 then settled w i else settled w (i + 1)
  pblSum : c.pblSum = ∑ n ∈ Finset.range j, Thinning.nonempty (w i) n
  miss : c.ddlMissRate = if i = layer - 1 then c.pblSum else 0
  extra : c.extraPkts = retransmitted w groupSize beta1 i +
    if i = layer - 1 then 0 else ∑ n ∈ Finset.range j, (1 + beta1.toNat) * (n * w i n)

/-- Before layer `i`. -/
structure Layered (w : ℕ → ℕ → ℚ) (groupSize beta1 : UInt8) (layer i : ℕ) (c : Chain) :
    Prop where
  length : c.lossDis.length = groupSize.toNat + 1
  states : ∀ n, n ≤ groupSize.toNat → i = 0 ∨ 0 < n → weight c.lossDis n = w (i - 1) n
  onTime : c.onTimeRate = settled w i
  miss : c.ddlMissRate = if i = layer then
    ∑ n ∈ Finset.range (groupSize.toNat + 1), Thinning.nonempty (w (layer - 1)) n else 0
  extra : c.extraPkts = retransmitted w groupSize beta1 (min i (layer - 1))

theorem weight_set_of_ne (lossDis : List ℚ) {j n : ℕ} (h : n ≠ j) (p : ℚ) :
    weight (lossDis.set j p) n = weight lossDis n := by
  rw [weight, weight, List.getD_eq_getElem?_getD, List.getD_eq_getElem?_getD,
    List.getElem?_set_ne h.symm]

theorem weight_set_self {lossDis : List ℚ} {j : ℕ} (h : j < lossDis.length) (p : ℚ) :
    weight (lossDis.set j p) j = p := by
  rw [weight, List.getD_eq_getElem?_getD, List.getElem?_set_self h]
  rfl

/-- What comes to state `j` in this layer. -/
theorem refill_eq (hgroup : groupSize.toNat ≤ 29) (hbeta : beta1 ≠ 1)
    (hw : ∀ m, w (m + 1) = Thinning.thin groupSize.toNat (stays lossRate beta1) (w m))
    {j : ℕ} {c : Chain} (hj : j ≤ groupSize.toNat) (h : Visited w groupSize beta1 layer i j c) :
    ∃ lossDis, refill beta1 lossRate i c.lossDis j = some lossDis ∧
      lossDis.length = groupSize.toNat + 1 ∧
      weight lossDis j = (if j = 0 then settled w (i + 1) - settled w i else w i j) ∧
      ∀ n, n ≠ j → weight lossDis n = weight c.lossDis n := by
  cases i with
  | zero =>
      refine ⟨c.lossDis, if_neg (lt_irrefl 0), h.length, ?_, fun _ _ => rfl⟩
      rw [h.old j le_rfl hj (.inl rfl)]
      split
      case isTrue hzero => rw [hzero, settled, settled, sub_zero]
      case isFalse => rfl
  | succ i =>
      have hstate := statePbl_eq h.length hgroup hj hbeta lossRate (w := w i)
        fun n hjn hpos hn => h.old n hjn hn (.inr hpos)
      refine ⟨_, by rw [refill, if_pos (Nat.succ_pos i), hstate]; rfl, ?_, ?_,
        fun n hn => weight_set_of_ne _ hn _⟩
      · rw [List.length_set, h.length]
      · rw [weight_set_self (by rw [h.length]; omega), Thinning.thin_nonempty, ← hw]
        split
        case isTrue hzero => rw [hzero, settled, settled]
        case isFalse => rw [sub_zero]

/-- One state. -/
theorem visit_visited (hgroup : groupSize.toNat ≤ 29) (hbeta : beta1 ≠ 1)
    (hw : ∀ m, w (m + 1) = Thinning.thin groupSize.toNat (stays lossRate beta1) (w m))
    {j : ℕ} {c : Chain} (hj : j ≤ groupSize.toNat) (h : Visited w groupSize beta1 layer i j c) :
    ∃ c', visit beta1 lossRate layer i c j = some c' ∧
      Visited w groupSize beta1 layer i (j + 1) c' := by
  obtain ⟨lossDis, hentry, hlength, hself, hrest⟩ := refill_eq hgroup hbeta hw hj h
  have hvisit : visit beta1 lossRate layer i c j =
      if j = 0 then some { c with lossDis, onTimeRate := c.onTimeRate + weight lossDis j }
      else some { c with
        lossDis
        pblSum := c.pblSum + weight lossDis j
        ddlMissRate := if i = layer - 1 then c.ddlMissRate + weight lossDis j else c.ddlMissRate
        extraPkts :=
          if i = layer - 1 then c.extraPkts
          else c.extraPkts + ⌊((j + j * beta1.toNat : ℕ) : ℚ)⌋ * weight lossDis j } := by
    rw [visit, hentry]
    rfl
  have hold : ∀ n, j + 1 ≤ n → n ≤ groupSize.toNat → i = 0 ∨ 0 < n →
      weight lossDis n = w (i - 1) n := fun n hjn hn hcase => by
    rw [hrest n (by omega)]
    exact h.old n (by omega) hn hcase
  rw [hvisit]
  by_cases hzero : j = 0
  · subst hzero
    rw [if_pos rfl]
    refine ⟨_, rfl, hlength, fun n hpos hn => by omega, hold, ?_, ?_, h.miss, ?_⟩
    · rw [if_neg (Nat.succ_ne_zero 0), hself, if_pos rfl, h.onTime, if_pos rfl]
      ring
    · rw [h.pblSum, Finset.sum_range_succ, Thinning.nonempty, if_pos rfl, add_zero]
    · rw [h.extra, Finset.sum_range_succ, Nat.cast_zero, zero_mul, mul_zero, add_zero]
  · rw [if_neg hzero]
    rw [if_neg hzero] at hself
    have hnonempty : Thinning.nonempty (w i) j = w i j := if_neg hzero
    refine ⟨_, rfl, hlength, fun n hpos hn => ?_, hold, ?_, ?_, ?_, ?_⟩
    · by_cases hnj : n = j
      · rw [hnj, hself]
      · rw [hrest n hnj]
        exact h.new n hpos (by omega)
    · rw [if_neg (Nat.succ_ne_zero j), h.onTime, if_neg hzero]
    · rw [Finset.sum_range_succ, hnonempty, ← h.pblSum, ← hself]
    · rw [h.miss]
      split <;> rfl
    · rw [h.extra]
      split
      case isTrue => rfl
      case isFalse =>
        rw [Finset.sum_range_succ, hself, Int.floor_natCast]
        push_cast
        ring

/-- Nothing is left to normalise. -/
theorem normalise_eq {c : Chain} (h : c.onTimeRate + c.pblSum = 1) :
    normalise c = { c with pblSum := 0 } := by
  have hsame : c.lossDis.mapIdx (fun j p => if j = 0 then p else p / 1) = c.lossDis := by
    refine List.ext_getElem (by simp) fun n h₁ h₂ => ?_
    simp
  unfold normalise
  rw [h, div_one]
  simp only [h, hsame]

/-- One layer. -/
theorem visitLayer_layered (hgroup : groupSize.toNat ≤ 29) (hbeta : beta1 ≠ 1)
    (hw : ∀ m, w (m + 1) = Thinning.thin groupSize.toNat (stays lossRate beta1) (w m))
    (hsum : ∀ m, ∑ n ∈ Finset.range (groupSize.toNat + 1), w m n = 1)
    (hi : i < layer) {c : Chain} (h : Layered w groupSize beta1 layer i c) :
    ∃ c', visitLayer groupSize beta1 lossRate layer c i = some c' ∧
      Layered w groupSize beta1 layer (i + 1) c' := by
  have hstart : Visited w groupSize beta1 layer i 0 { c with pblSum := 0 } :=
    { length := h.length
      new := fun n _ hn => absurd hn (Nat.not_lt_zero n)
      old := fun n _ => h.states n
      onTime := h.onTime
      pblSum := rfl
      miss := by
        change c.ddlMissRate = _
        rw [h.miss, if_neg (by omega), ite_self]
      extra := by
        change c.extraPkts = _
        rw [h.extra, Nat.min_eq_left (by omega), Finset.sum_range_zero, ite_self, add_zero] }
  obtain ⟨c', hloop, hend⟩ := Loops.exists_foldlM 0 (groupSize.toNat + 1)
    (fun j c _ hj hc => visit_visited hgroup hbeta hw (by omega) hc) hstart
  rw [Nat.zero_add] at hend
  have honTime : c'.onTimeRate = w i 0 := hend.onTime
  have hone : c'.onTimeRate + c'.pblSum = 1 := by
    rw [honTime, hend.pblSum, Thinning.sum_nonempty, hsum, add_sub_cancel]
  refine ⟨{ c' with pblSum := 0 },
    by rw [visitLayer, hloop, Option.map_some, normalise_eq hone], ?_⟩
  exact
    { length := hend.length
      states := fun n hn hcase => hend.new n (by omega) (by omega)
      onTime := honTime
      miss := by
        change c'.ddlMissRate = _
        rw [hend.miss, hend.pblSum]
        by_cases hlast : i + 1 = layer
        · subst hlast
          rw [if_pos (Nat.add_sub_cancel i 1).symm, if_pos rfl, Nat.add_sub_cancel]
        · rw [if_neg (by omega), if_neg hlast]
      extra := by
        change c'.extraPkts = _
        rw [hend.extra]
        by_cases hlast : i = layer - 1
        · rw [if_pos hlast, add_zero, Nat.min_eq_right (by omega), hlast]
        · rw [if_neg hlast, Nat.min_eq_left (by omega), retransmitted_succ] }

/-- All layers. -/
theorem layers_layered (hgroup : groupSize.toNat ≤ 29) (hbeta : beta1 ≠ 1)
    (hw : ∀ m, w (m + 1) = Thinning.thin groupSize.toNat (stays lossRate beta1) (w m))
    (hsum : ∀ m, ∑ n ∈ Finset.range (groupSize.toNat + 1), w m n = 1) (hlayer : 0 < layer)
    {lossDis : List ℚ} (hlength : lossDis.length = groupSize.toNat + 1)
    (hfirst : w 0 = weight lossDis) :
    ∃ c, (List.range' 0 layer).foldlM (visitLayer groupSize beta1 lossRate layer) { lossDis } =
        some c ∧ Layered w groupSize beta1 layer layer c := by
  have hstart : Layered w groupSize beta1 layer 0 { lossDis } :=
    { length := hlength
      states := fun n _ _ => by rw [Nat.zero_sub, hfirst]
      onTime := rfl
      miss := (if_neg hlayer.ne).symm
      extra := by rw [Nat.zero_min, retransmitted, Finset.sum_range_zero] }
  obtain ⟨c, hloop, hend⟩ := Loops.exists_foldlM 0 layer
    (fun i c _ hi hc => visitLayer_layered hgroup hbeta hw hsum (by omega) hc) hstart
  rw [Nat.zero_add] at hend
  exact ⟨c, hloop, hend⟩

end Layers

/-- The mean number of retransmissions, when `n` rounds of them fit. -/
def extraOf (groupSize beta1 : UInt8) (lossDis : List ℚ) (lossRate : ℚ) (n : ℕ) : ℚ :=
  (1 + beta1.toNat) * (∑ m ∈ Finset.range n, stays lossRate beta1 ^ m) *
    Thinning.mean groupSize.toNat (weight lossDis)

/-- A packet is on time if one of the copies of one of the rounds arrives. -/
def missOf (groupSize beta1 : UInt8) (lossDis : List ℚ) (lossRate : ℚ) (n : ℕ) : ℚ :=
  1 - Thinning.gen groupSize.toNat (weight lossDis) (1 - stays lossRate beta1 ^ n)

theorem sum_weight {lossDis : List ℚ} {g : ℕ} (h : lossDis.length = g + 1) :
    ∑ n ∈ Finset.range (g + 1), weight lossDis n = lossDis.sum := by
  rw [← h, ← Fin.sum_univ_eq_sum_range, ← Fin.sum_univ_getElem]
  refine Finset.sum_congr rfl fun n _ => ?_
  rw [weight, List.getD_eq_getElem?_getD, List.getElem?_eq_getElem n.isLt]
  rfl

/-- `GetResult` has a closed form, unless packets are sent exactly twice. -/
theorem getResult_eq {groupSize beta1 : UInt8} {lossDis : List ℚ} {lossRate rtt ddl : ℚ}
    (hlength : lossDis.length = groupSize.toNat + 1) (hgroup : groupSize.toNat ≤ 29)
    (hbeta : beta1 ≠ 1) (hsum : lossDis.sum = 1) (hlayer : 0 < (layers rtt ddl).toNat) :
    getResult groupSize beta1 lossDis lossRate rtt ddl =
      some (missOf groupSize beta1 lossDis lossRate ((layers rtt ddl).toNat - 1),
        extraOf groupSize beta1 lossDis lossRate ((layers rtt ddl).toNat - 1) /
          (groupSize.toNat +
            extraOf groupSize beta1 lossDis lossRate ((layers rtt ddl).toNat - 1))) := by
  set q := stays lossRate beta1 with hq
  set layer := (layers rtt ddl).toNat
  let w (m : ℕ) : ℕ → ℚ := (Thinning.thin groupSize.toNat q)^[m] (weight lossDis)
  have hw : ∀ m, w (m + 1) = Thinning.thin groupSize.toNat q (w m) := fun m =>
    Function.iterate_succ_apply' _ m _
  have hone : ∀ m, ∑ n ∈ Finset.range (groupSize.toNat + 1), w m n = 1 := fun m => by
    rw [Thinning.sum_thin_iterate, sum_weight hlength, hsum]
  obtain ⟨c, hloop, hend⟩ := layers_layered hgroup hbeta hw hone hlayer hlength rfl
  have hmiss : c.ddlMissRate = missOf groupSize beta1 lossDis lossRate (layer - 1) := by
    have hempty : w (layer - 1) 0 = _ := Thinning.thin_iterate_zero groupSize.toNat _ q _
    rw [hend.miss, if_pos rfl, Thinning.sum_nonempty, hone, hempty]
    rfl
  have hextra : c.extraPkts = extraOf groupSize beta1 lossDis lossRate (layer - 1) := by
    rw [hend.extra, Nat.min_eq_right (by omega), retransmitted, extraOf, Finset.mul_sum,
      Finset.sum_mul]
    refine Finset.sum_congr rfl fun m _ => ?_
    rw [Thinning.mean_thin_iterate, mul_assoc]
  have hsize : ¬ (lossDis.length ≠ groupSize.toNat + 1 ∨ groupSize = 255) := by
    rintro (h | rfl)
    · exact h hlength
    · exact absurd hgroup (by decide)
  rw [getResult, if_neg hsize, if_neg (by rw [hsum]; norm_num), hloop, Option.map_some, hmiss,
    hextra]

/-! ## The deadline -/

/-- Half a round trip more is one more round. -/
theorem toNat_layers {rtt ddl : ℚ} (hrtt : 0 < rtt) (hddl : 0 ≤ ddl) (hfit : ddl < 254 * rtt) :
    ((layers rtt ddl).toNat : ℤ) = ⌈ddl / rtt - 1 / 2⌉ + 1 := by
  set x := ddl / rtt with hx
  have hddlEq : ddl = x * rtt := (div_mul_cancel₀ ddl hrtt.ne').symm
  have hpos : 0 ≤ ⌊x⌋ := Int.floor_nonneg.mpr (div_nonneg hddl hrtt.le)
  have hfloor : ⌊x⌋ < 254 := Int.floor_lt.mpr ((div_lt_iff₀ hrtt).mpr hfit)
  have hfirst : ((UInt8.ofNat (⌊x⌋ + 1).toNat).toNat : ℤ) = ⌊x⌋ + 1 := by
    rw [UInt8.toNat_ofNat']
    omega
  have hhalf : rtt / 2 < ddl - rtt * (⌊x⌋ : ℚ) ↔ (⌊x⌋ : ℚ) < x - 1 / 2 := by
    rw [hddlEq]
    constructor
    · intro h
      have : rtt * (⌊x⌋ : ℚ) < rtt * (x - 1 / 2) := by linarith
      exact lt_of_mul_lt_mul_left this hrtt.le
    · intro h
      linarith [mul_lt_mul_of_pos_left h hrtt]
  have hle := Int.floor_le x
  have hlt := Int.lt_floor_add_one x
  unfold layers
  simp only [← hx, hfirst, add_sub_cancel_right, hhalf]
  split
  case isTrue hmore =>
    have hceil : ⌈x - 1 / 2⌉ = ⌊x⌋ + 1 := by
      rw [Int.ceil_eq_iff]
      push_cast
      constructor <;> linarith
    rw [hceil, UInt8.toNat_add, show (1 : UInt8).toNat = 1 from rfl]
    omega
  case isFalse hless =>
    have hceil : ⌈x - 1 / 2⌉ = ⌊x⌋ := by
      rw [Int.ceil_eq_iff]
      constructor <;> linarith
    rw [hceil, hfirst]

theorem toNat_layers_pos {rtt ddl : ℚ} (hrtt : 0 < rtt) (hddl : 0 ≤ ddl)
    (hfit : ddl < 254 * rtt) : 0 < (layers rtt ddl).toNat := by
  have hceil : -1 < ⌈ddl / rtt - 1 / 2⌉ := by
    rw [Int.lt_ceil]
    push_cast
    linarith [div_nonneg hddl hrtt.le]
  have := toNat_layers hrtt hddl hfit
  omega

theorem toNat_layers_mono {rtt ddl ddl' : ℚ} (hrtt : 0 < rtt) (hddl : 0 ≤ ddl) (hle : ddl ≤ ddl')
    (hfit : ddl' < 254 * rtt) : (layers rtt ddl).toNat ≤ (layers rtt ddl').toNat := by
  have hceil : ⌈ddl / rtt - 1 / 2⌉ ≤ ⌈ddl' / rtt - 1 / 2⌉ :=
    Int.ceil_mono (sub_le_sub_right (div_le_div_of_nonneg_right hle hrtt.le) _)
  have := toNat_layers hrtt hddl (hle.trans_lt hfit)
  have := toNat_layers hrtt (hddl.trans hle) hfit
  omega

/-! ## What the policy predicts -/

section Predictions

variable (groupSize beta1 : UInt8) {lossDis : List ℚ} {lossRate : ℚ}

theorem stays_nonneg (h : 0 ≤ lossRate) : 0 ≤ stays lossRate beta1 := pow_nonneg h _

theorem stays_le_one (h : 0 ≤ lossRate) (h' : lossRate ≤ 1) : stays lossRate beta1 ≤ 1 :=
  pow_le_one₀ h h'

theorem weight_nonneg (h : ∀ p ∈ lossDis, 0 ≤ p) (n : ℕ) : 0 ≤ weight lossDis n := by
  rw [weight, List.getD_eq_getElem?_getD]
  cases hget : lossDis[n]? with
  | none => exact le_rfl
  | some p => exact h p (List.mem_of_getElem? hget)

theorem missOf_antitone (hdis : ∀ p ∈ lossDis, 0 ≤ p) (hloss : 0 ≤ lossRate) (hloss' : lossRate ≤ 1)
    {n n' : ℕ} (h : n ≤ n') :
    missOf groupSize beta1 lossDis lossRate n' ≤ missOf groupSize beta1 lossDis lossRate n := by
  have hpow : stays lossRate beta1 ^ n' ≤ stays lossRate beta1 ^ n :=
    pow_le_pow_of_le_one (stays_nonneg beta1 hloss) (stays_le_one beta1 hloss hloss') h
  have hone : stays lossRate beta1 ^ n ≤ 1 :=
    pow_le_one₀ (stays_nonneg beta1 hloss) (stays_le_one beta1 hloss hloss')
  exact sub_le_sub_left (Thinning.gen_mono (fun n _ => weight_nonneg hdis n) (by linarith)
    (by linarith)) 1

theorem missOf_nonneg (hdis : ∀ p ∈ lossDis, 0 ≤ p)
    (hlength : lossDis.length = groupSize.toNat + 1) (hsum : lossDis.sum = 1)
    (hloss : 0 ≤ lossRate) (hloss' : lossRate ≤ 1) (n : ℕ) :
    0 ≤ missOf groupSize beta1 lossDis lossRate n := by
  have hpow := pow_nonneg (stays_nonneg beta1 hloss) n
  have hone : stays lossRate beta1 ^ n ≤ 1 :=
    pow_le_one₀ (stays_nonneg beta1 hloss) (stays_le_one beta1 hloss hloss')
  have hgen : Thinning.gen groupSize.toNat (weight lossDis) (1 - stays lossRate beta1 ^ n) ≤ 1 :=
    calc _ ≤ Thinning.gen groupSize.toNat (weight lossDis) 1 :=
          Thinning.gen_mono (fun n _ => weight_nonneg hdis n) (by linarith) (by linarith)
      _ = 1 := by rw [Thinning.gen_one, sum_weight hlength, hsum]
  exact sub_nonneg.mpr hgen

theorem extraOf_mono (hdis : ∀ p ∈ lossDis, 0 ≤ p) (hloss : 0 ≤ lossRate) {n n' : ℕ} (h : n ≤ n') :
    extraOf groupSize beta1 lossDis lossRate n ≤ extraOf groupSize beta1 lossDis lossRate n' := by
  have hrounds : ∑ m ∈ Finset.range n, stays lossRate beta1 ^ m ≤
      ∑ m ∈ Finset.range n', stays lossRate beta1 ^ m :=
    Finset.sum_le_sum_of_subset_of_nonneg (Finset.range_subset_range.mpr h)
      fun m _ _ => pow_nonneg (stays_nonneg beta1 hloss) m
  exact mul_le_mul_of_nonneg_right (mul_le_mul_of_nonneg_left hrounds (by positivity))
    (Thinning.mean_nonneg fun n _ => weight_nonneg hdis n)

theorem extraOf_nonneg (hdis : ∀ p ∈ lossDis, 0 ≤ p) (hloss : 0 ≤ lossRate) (n : ℕ) :
    0 ≤ extraOf groupSize beta1 lossDis lossRate n := by
  have h := extraOf_mono groupSize beta1 hdis hloss (Nat.zero_le n)
  simpa [extraOf] using h

end Predictions

/-- The rounds of retransmissions that fit. -/
def rounds (rtt ddl : ℚ) : ℕ := ⌈ddl / rtt - 1 / 2⌉.toNat

theorem toNat_layers_sub_one {rtt ddl : ℚ} (hrtt : 0 < rtt) (hddl : 0 ≤ ddl)
    (hfit : ddl < 254 * rtt) : (layers rtt ddl).toNat - 1 = rounds rtt ddl := by
  have := toNat_layers hrtt hddl hfit
  rw [rounds]
  omega

/-- More time never lets more packets miss the deadline, and never costs less bandwidth. -/
theorem deadline_tradeoff {groupSize beta1 : UInt8} {lossDis : List ℚ} {lossRate rtt ddl ddl' : ℚ}
    (hlength : lossDis.length = groupSize.toNat + 1) (hgroup : groupSize.toNat ≤ 29)
    (hpos : 0 < groupSize.toNat) (hbeta : beta1 ≠ 1) (hdis : ∀ p ∈ lossDis, 0 ≤ p)
    (hsum : lossDis.sum = 1) (hloss : 0 ≤ lossRate) (hloss' : lossRate ≤ 1) (hrtt : 0 < rtt)
    (hddl : 0 ≤ ddl) (hle : ddl ≤ ddl') (hfit : ddl' < 254 * rtt) :
    ∃ miss bw miss' bw', getResult groupSize beta1 lossDis lossRate rtt ddl = some (miss, bw) ∧
      getResult groupSize beta1 lossDis lossRate rtt ddl' = some (miss', bw') ∧
      0 ≤ miss' ∧ miss' ≤ miss ∧ miss ≤ 1 ∧ 0 ≤ bw ∧ bw ≤ bw' ∧ bw' < 1 := by
  have hfit₀ : ddl < 254 * rtt := hle.trans_lt hfit
  have hddl' : 0 ≤ ddl' := hddl.trans hle
  have hn : (layers rtt ddl).toNat - 1 ≤ (layers rtt ddl').toNat - 1 :=
    Nat.sub_le_sub_right (toNat_layers_mono hrtt hddl hle hfit) 1
  set n := (layers rtt ddl).toNat - 1
  set n' := (layers rtt ddl').toNat - 1
  have hextra := extraOf_nonneg groupSize beta1 hdis hloss n
  have hmore := extraOf_mono groupSize beta1 hdis hloss hn
  have hsize : (0 : ℚ) < groupSize.toNat := Nat.cast_pos.mpr hpos
  refine ⟨_, _, _, _, getResult_eq hlength hgroup hbeta hsum (toNat_layers_pos hrtt hddl hfit₀),
    getResult_eq hlength hgroup hbeta hsum (toNat_layers_pos hrtt hddl' hfit),
    missOf_nonneg groupSize beta1 hdis hlength hsum hloss hloss' n',
    missOf_antitone groupSize beta1 hdis hloss hloss' hn, ?_, div_nonneg hextra (by linarith), ?_,
    ?_⟩
  · have hgen : 0 ≤ Thinning.gen groupSize.toNat (weight lossDis)
        (1 - stays lossRate beta1 ^ n) := by
      have hpow : stays lossRate beta1 ^ n ≤ 1 :=
        pow_le_one₀ (stays_nonneg beta1 hloss) (stays_le_one beta1 hloss hloss')
      exact Finset.sum_nonneg fun k _ =>
        mul_nonneg (weight_nonneg hdis k) (pow_nonneg (by linarith) k)
    exact sub_le_self 1 hgen
  · rw [div_le_div_iff₀ (by linarith) (by linarith)]
    nlinarith
  · rw [div_lt_one (by linarith)]
    linarith

theorem deadline_tradeoff_three : ∃ miss bw miss' bw',
    getResult 2 0 [1 / 2, 1 / 4, 1 / 4] (1 / 10) 10 25 = some (miss, bw) ∧
      getResult 2 0 [1 / 2, 1 / 4, 1 / 4] (1 / 10) 10 45 = some (miss', bw') ∧
      0 ≤ miss' ∧ miss' ≤ miss ∧ miss ≤ 1 ∧ 0 ≤ bw ∧ bw ≤ bw' ∧ bw' < 1 :=
  deadline_tradeoff rfl (by decide) (by decide) (by decide) (by norm_num) (by norm_num)
    (by norm_num) (by norm_num) (by norm_num) (by norm_num) (by norm_num) (by norm_num)

/-! ## Two copies -/

section Twice

variable {n : ℕ} (lossRate : ℚ)

/-- How likely it is to lose the first `i` of `2 n` packets, and no other. -/
def loses (lossRate : ℚ) (n i : ℕ) : ℚ := lossRate ^ i * (1 - lossRate) ^ (2 * n - i)

theorem zpow_loses {i : ℕ} (h : i ≤ 2 * n) (p : ℚ) :
    p ^ ((n : ℤ) * 2 - i) = p ^ (2 * n - i) := by
  rw [← zpow_natCast, Nat.cast_sub h]
  congr 1
  push_cast
  ring

theorem transPbl_zero (hn : n ≤ 14) : transPbl (.ofNat n) 0 lossRate 1 =
    some (∑ i ∈ Finset.range n, (2 * n).choose i * loses lossRate n i) := by
  have hnat := toNat_ofNat_of_le (n := n) (by omega)
  have hdouble : (UInt8.ofNat n * 2).toNat = 2 * n := by
    rw [UInt8.toNat_mul, hnat, show (2 : UInt8).toNat = 2 from rfl]
    omega
  have hstep : ∀ i acc, 0 ≤ i → i < 0 + n →
      ((comb (UInt8.ofNat n * 2) (.ofNat i)).bind fun ways =>
        some (acc + ways.toNat * lossRate ^ i * (1 - lossRate) ^ ((n : ℤ) * 2 - i))) =
          some (acc + (2 * n).choose i * loses lossRate n i) := by
    intro i acc _ hi
    rw [comb_eq (by omega), Option.bind_some, hdouble, toNat_ofNat_of_le (n := i) (by omega),
      toNat_choose (by omega), zpow_loses (by omega), loses, mul_assoc]
  rw [transPbl, if_pos rfl, if_pos rfl, hnat]
  refine (Loops.foldlM_add 0 n hstep 0).trans ?_
  rw [zero_add, zero_add, Finset.range_eq_Ico]

theorem transPbl_pos (hn : n ≤ 14) {k : ℕ} (hk : 0 < k) (hkn : k ≤ n) :
    transPbl (.ofNat n) (.ofNat k) lossRate 1 =
      some (∑ i ∈ Finset.Ico (n + 1) (2 * n + 1),
        loses lossRate n i * n.choose (i - k) * n.choose k) := by
  have hnat := toNat_ofNat_of_le (n := n) (by omega)
  have hkNat := toNat_ofNat_of_le (n := k) (by omega)
  have hne : UInt8.ofNat k ≠ 0 := fun h => by
    have := congrArg UInt8.toNat h
    rw [hkNat, UInt8.toNat_zero] at this
    omega
  have hstep : ∀ i acc, n + 1 ≤ i → i < n + 1 + k →
      ((comb (.ofNat n) (.ofNat (i - k))).bind fun fecWays =>
        (comb (.ofNat n) (.ofNat k)).bind fun dataWays =>
          some (acc + lossRate ^ i * (1 - lossRate) ^ ((n : ℤ) * 2 - i) *
            fecWays.toNat * dataWays.toNat)) =
          some (acc + loses lossRate n i * n.choose (i - k) * n.choose k) := by
    intro i acc hi hik
    rw [comb_eq (by omega), comb_eq (by omega), Option.bind_some, Option.bind_some, hnat, hkNat,
      toNat_ofNat_of_le (n := i - k) (by omega), toNat_choose (by omega), toNat_choose (by omega),
      zpow_loses (by omega), loses]
  rw [transPbl, if_pos rfl, if_neg hne, hnat, hkNat, if_neg (by omega)]
  simp only [Nat.max_eq_left (by omega : k ≤ n + 1), show k + n + 1 - (n + 1) = k by omega]
  refine (Loops.foldlM_add (n + 1) k hstep 0).trans (congrArg some ?_)
  rw [zero_add]
  refine Finset.sum_subset (Finset.Ico_subset_Ico_right (by omega)) fun i hi hout => ?_
  rw [Finset.mem_Ico] at hi hout
  rw [Nat.choose_eq_zero_of_lt (by omega : n < i - k), Nat.cast_zero, mul_zero, zero_mul]

/-- The losses of the data packets and of the copies together. -/
theorem sum_choose_mul_choose {i : ℕ} (hi : n < i) :
    ∑ k ∈ Finset.range (n + 1), n.choose (i - k) * n.choose k = (2 * n).choose i := by
  rw [two_mul, Nat.add_choose_eq, Finset.Nat.sum_antidiagonal_eq_sum_range_succ_mk]
  refine Finset.sum_subset_zero_on_sdiff (Finset.range_subset_range.mpr (by omega))
    (fun k hk => ?_) fun k _ => mul_comm _ _
  rw [Finset.mem_sdiff, Finset.mem_range, Finset.mem_range] at hk
  rw [Nat.choose_eq_zero_of_lt (by omega : n < k), zero_mul]

/-- All losses are a distribution. -/
theorem sum_loses (n : ℕ) :
    ∑ i ∈ Finset.range (2 * n + 1), ((2 * n).choose i : ℚ) * loses lossRate n i = 1 := by
  have h := add_pow lossRate (1 - lossRate) (2 * n)
  rw [add_sub_cancel, one_pow] at h
  rw [h]
  exact Finset.sum_congr rfl fun i _ => mul_comm _ _

/-- The transition probabilities into all the states. With any number of copies but two they add up
to one. With two, the case that exactly as many packets are lost as there are FEC packets is counted
nowhere. -/
theorem sum_transPbl (hn : n ≤ 14) (fecRate : UInt8) :
    ∃ p : ℕ → ℚ, (∀ k ≤ n, transPbl (.ofNat n) (.ofNat k) lossRate fecRate = some (p k)) ∧
      ∑ k ∈ Finset.range (n + 1), p k =
        if fecRate = 1 then 1 - (2 * n).choose n * (lossRate * (1 - lossRate)) ^ n else 1 := by
  have hnat := toNat_ofNat_of_le (n := n) (by omega)
  split
  case isFalse hrate =>
    refine ⟨Thinning.binomial (stays lossRate fecRate) n, fun k hk => ?_, ?_⟩
    · have hkNat := toNat_ofNat_of_le (n := k) (by omega)
      rw [transPbl_eq hrate (by omega) (by omega), hnat, hkNat]
    · have h := Thinning.gen_binomial (stays lossRate fecRate) 1 (le_refl n)
      rwa [Thinning.gen_one, mul_one, sub_add_cancel, one_pow] at h
  case isTrue hrate =>
    subst hrate
    let lost (k : ℕ) : ℚ :=
      ∑ i ∈ Finset.Ico (n + 1) (2 * n + 1), loses lossRate n i * n.choose (i - k) * n.choose k
    have hnone : lost 0 = 0 := Finset.sum_eq_zero fun i hi => by
      rw [Finset.mem_Ico] at hi
      rw [Nat.choose_eq_zero_of_lt (by omega : n < i - 0), Nat.cast_zero, mul_zero, zero_mul]
    refine ⟨fun k => (if k = 0 then ∑ i ∈ Finset.range n, (2 * n).choose i * loses lossRate n i
      else 0) + lost k, fun k hk => ?_, ?_⟩
    · by_cases hzero : k = 0
      · subst hzero
        beta_reduce
        rw [if_pos rfl, hnone, add_zero]
        exact transPbl_zero lossRate hn
      · beta_reduce
        rw [if_neg hzero, zero_add]
        exact transPbl_pos lossRate hn (by omega) hk
    · have hlost : ∑ k ∈ Finset.range (n + 1), lost k =
          ∑ i ∈ Finset.Ico (n + 1) (2 * n + 1), (2 * n).choose i * loses lossRate n i := by
        rw [Finset.sum_comm]
        refine Finset.sum_congr rfl fun i hi => ?_
        rw [← sum_choose_mul_choose (by rw [Finset.mem_Ico] at hi; omega), Nat.cast_sum,
          Finset.sum_mul]
        refine Finset.sum_congr rfl fun k _ => ?_
        push_cast
        ring
      have hmiddle : loses lossRate n n = (lossRate * (1 - lossRate)) ^ n := by
        rw [loses, mul_pow, two_mul, Nat.add_sub_cancel]
      have hall := sum_loses lossRate n
      rw [← Finset.sum_range_add_sum_Ico _ (by omega : n + 1 ≤ 2 * n + 1), Finset.sum_range_succ,
        hmiddle] at hall
      rw [Finset.sum_add_distrib, hlost, Finset.sum_ite_eq' , if_pos (by simp)]
      linarith

theorem sum_transPbl_two : ∃ p : ℕ → ℚ,
    (∀ k ≤ 2, transPbl (.ofNat 2) (.ofNat k) (1 / 10) 1 = some (p k)) ∧
      ∑ k ∈ Finset.range (2 + 1), p k =
        if (1 : UInt8) = 1 then
          1 - (Nat.choose (2 * 2) 2 : ℚ) * (1 / 10 * (1 - 1 / 10)) ^ 2
        else 1 :=
  sum_transPbl (n := 2) (1 / 10) (by decide) 1

end Twice

end Zhuge.HairpinPolicy
