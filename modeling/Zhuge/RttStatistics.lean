-- SUMMARY: The sender's running statistics of the round-trip time, over exact numbers.
import Mathlib.Algebra.Order.Floor.Ring
import Zhuge.Lib.Means
import Zhuge.Sender

/-!
# The round-trip statistics

`UpdateRTT` keeps up the smoothed round-trip time, the mean of the samples and the mean of
their squares. Here a `double` is a rational number, the smoothed time is not cut to whole
nanoseconds and the count does not wrap. The square root is a parameter.
-/

namespace Zhuge

/-- `FECPolicy::NetStat`, as far as the two functions below write it. -/
structure RttStat where
  statCnt : ℕ
  rttSumAvgMs : ℚ
  rttSquareSumAvgMs : ℚ
  currentRtt : Time
  /-- In nanoseconds. -/
  srtt : ℚ
  minRtt : Time
  /-- In milliseconds. -/
  rttSd : ℚ
  currentBw : ℚ
  currentLossRate : ℚ
  oneWayDispersion : Time

/-- `rtt.GetMicroSeconds() / 1000.0`. -/
def sampleMs (rtt : Time) : ℚ := rtt.getMicroSeconds / 1000

/-- Whole microseconds lose nothing. -/
theorem sampleMs_of_dvd {rtt : Time} (h : 1000 ∣ rtt) : sampleMs rtt = rtt / 1000000 := by
  obtain ⟨us, rfl⟩ := h
  unfold sampleMs Time.getMicroSeconds
  rw [Int.mul_tdiv_cancel_left us (by decide)]
  push_cast
  ring

namespace RttStat

/-- `SetNetworkStatistics`, without the loss sequence it makes up. -/
def setNetworkStatistics (defaultRtt : Time) (bw loss delay : ℚ) : RttStat where
  currentRtt := defaultRtt
  srtt := defaultRtt
  minRtt := defaultRtt
  rttSd := defaultRtt.getMilliSeconds.tdiv 4
  statCnt := 0
  rttSumAvgMs := 0
  rttSquareSumAvgMs := 0
  currentBw := bw
  currentLossRate := loss
  oneWayDispersion := Time.microSeconds ⌊delay * 1000⌋₊

/-- What `rtt_sd` is the square root of. -/
def radicand (s : RttStat) : ℚ := s.rttSquareSumAvgMs - s.rttSumAvgMs ^ 2

/-- `UpdateRTT`. -/
def updateRtt (sqrt : ℚ → ℚ) (s : RttStat) (rtt : Time) : RttStat :=
  let s := { s with
    srtt := if s.srtt = 0 then rtt else 0.2 * rtt + 0.8 * s.srtt
    currentRtt := rtt
    rttSumAvgMs := (s.rttSumAvgMs * s.statCnt + sampleMs rtt) / (s.statCnt + 1)
    rttSquareSumAvgMs :=
      (s.rttSquareSumAvgMs * s.statCnt + sampleMs rtt ^ 2) / (s.statCnt + 1)
    statCnt := s.statCnt + 1 }
  { s with rttSd := sqrt s.radicand }

/-- How long `IsRtxTimeout` waits for a packet of a batch. -/
def rtxThreshold (s : RttStat) (batchSize : ℕ) : ℚ :=
  s.srtt + Time.microSeconds ⌊s.rttSd * 1000⌋₊ * 4 + batchSize * s.oneWayDispersion

/-- `IsRtxTimeout`. -/
def isRtxTimeout (s : RttStat) (now : Time) (pkt : DataPacket) : Bool :=
  let batchSize := pkt.batchDataNum.toNat + pkt.batchFecNum.toNat
  now > pkt.enqueueTime && (now - pkt.sendTime : Time) > s.rtxThreshold batchSize

/-- What the sender reads of the statistics, in whole numbers. -/
def netStat (s : RttStat) : NetStat where
  srtt := ⌊s.srtt⌋
  minRtt := s.minRtt
  rttSdUs := ⌊s.rttSd * 1000⌋₊
  oneWayDispersion := s.oneWayDispersion

theorem rtxThreshold_lt_iff (s : RttStat) (batchSize : ℕ) (passed : Time) :
    s.rtxThreshold batchSize < (passed : ℚ) ↔ ⌊s.srtt⌋ + Time.microSeconds ⌊s.rttSd * 1000⌋₊ * 4 +
      batchSize * s.oneWayDispersion < passed := by
  have hwhole : s.rtxThreshold batchSize = s.srtt +
      (Time.microSeconds ⌊s.rttSd * 1000⌋₊ * 4 + batchSize * s.oneWayDispersion : ℤ) := by
    unfold rtxThreshold
    push_cast
    ring
  rw [hwhole, ← lt_sub_iff_add_lt, ← Int.cast_sub, ← Int.floor_lt]
  omega

/-- The fraction of a nanosecond in the smoothed time decides nothing. -/
theorem isRtxTimeout_eq_netStat (s : RttStat) (now : Time) (pkt : DataPacket) :
    s.isRtxTimeout now pkt = PacketSenderUdp.isRtxTimeout s.netStat now pkt := by
  simp only [isRtxTimeout, gt_iff_lt, rtxThreshold_lt_iff]
  rfl

/-- The statistics are those of the samples, the smoothed time lies between the extremes. -/
structure Summarizes (first : Time) (rtts : List Time) (s : RttStat) : Prop where
  statCnt : s.statCnt = rtts.length
  avg : s.rttSumAvgMs = Means.mean (rtts.map sampleMs)
  squareAvg : s.rttSquareSumAvgMs = Means.mean ((rtts.map sampleMs).map (· ^ 2))
  least : (rtts.foldl min first : ℤ) ≤ s.srtt
  greatest : s.srtt ≤ (rtts.foldl max first : ℤ)
  dispersion : 0 ≤ s.oneWayDispersion

theorem summarizes_setNetworkStatistics (defaultRtt : Time) (bw loss delay : ℚ) :
    Summarizes defaultRtt [] (setNetworkStatistics defaultRtt bw loss delay) where
  statCnt := rfl
  avg := Means.mean_nil.symm
  squareAvg := Means.mean_nil.symm
  least := le_refl _
  greatest := le_refl _
  dispersion := mul_nonneg (Int.natCast_nonneg _) (by decide)

theorem Summarizes.updateRtt {first : Time} {rtts : List Time} {s : RttStat} (sqrt : ℚ → ℚ)
    (rtt : Time) (h : Summarizes first rtts s) :
    Summarizes first (rtts ++ [rtt]) (s.updateRtt sqrt rtt) where
  statCnt := by simp [RttStat.updateRtt, h.statCnt]
  avg := by
    rw [List.map_append, List.map_singleton, Means.mean_concat, List.length_map]
    simp only [RttStat.updateRtt, h.avg, h.statCnt]
  squareAvg := by
    rw [List.map_append, List.map_singleton, List.map_append, List.map_singleton,
      Means.mean_concat, List.length_map, List.length_map]
    simp only [RttStat.updateRtt, h.squareAvg, h.statCnt]
  least := by
    rw [List.foldl_concat]
    have hold : ((min (rtts.foldl min first) rtt : ℤ) : ℚ) ≤ s.srtt :=
      (Int.cast_le.mpr (min_le_left _ _)).trans h.least
    have hnew : ((min (rtts.foldl min first) rtt : ℤ) : ℚ) ≤ rtt :=
      Int.cast_le.mpr (min_le_right _ _)
    simp only [RttStat.updateRtt]
    split
    · exact hnew
    · have h := Means.le_smoothed (w := 0.2) (by norm_num) (by norm_num) hnew hold
      norm_num at h ⊢
      exact h
  greatest := by
    rw [List.foldl_concat]
    have hold : s.srtt ≤ ((max (rtts.foldl max first) rtt : ℤ) : ℚ) :=
      h.greatest.trans (Int.cast_le.mpr (le_max_left _ _))
    have hnew : (rtt : ℚ) ≤ ((max (rtts.foldl max first) rtt : ℤ) : ℚ) :=
      Int.cast_le.mpr (le_max_right _ _)
    simp only [RttStat.updateRtt]
    split
    · exact hnew
    · have h := Means.smoothed_le (w := 0.2) (by norm_num) (by norm_num) hnew hold
      norm_num at h ⊢
      exact h
  dispersion := h.dispersion

theorem Summarizes.foldl {first : Time} {s : RttStat} (sqrt : ℚ → ℚ) (rtts : List Time)
    {seen : List Time} (h : Summarizes first seen s) :
    Summarizes first (seen ++ rtts) (rtts.foldl (RttStat.updateRtt sqrt) s) := by
  induction rtts generalizing seen s with
  | nil => simpa using h
  | cons rtt rtts ih =>
    rw [List.foldl_cons, ← List.singleton_append, ← List.append_assoc]
    exact ih (h.updateRtt sqrt rtt)

theorem rttSd_updateRtt (sqrt : ℚ → ℚ) (s : RttStat) (rtt : Time) :
    (s.updateRtt sqrt rtt).rttSd = sqrt (s.updateRtt sqrt rtt).radicand := rfl

theorem srtt_le_rtxThreshold {s : RttStat} (hdispersion : 0 ≤ s.oneWayDispersion)
    (batchSize : ℕ) : s.srtt ≤ s.rtxThreshold batchSize := by
  have hsd : (0 : ℚ) ≤ Time.microSeconds ⌊s.rttSd * 1000⌋₊ * 4 := by
    simp only [Time.microSeconds]
    positivity
  have hbatch : (0 : ℚ) ≤ batchSize * s.oneWayDispersion :=
    mul_nonneg (Nat.cast_nonneg _) (Int.cast_nonneg hdispersion)
  unfold rtxThreshold
  linarith

/-- The running statistics are those of all the samples so far. -/
theorem updateRtt_run {sqrt : ℚ → ℚ} (hsqrt : ∀ x, 0 ≤ x → 0 ≤ sqrt x) (defaultRtt : Time)
    (bw loss delay : ℚ) {rtts : List Time} (hne : rtts ≠ []) :
    let s := rtts.foldl (updateRtt sqrt) (setNetworkStatistics defaultRtt bw loss delay)
    s.rttSumAvgMs = Means.mean (rtts.map sampleMs) ∧
    s.rttSquareSumAvgMs = Means.mean ((rtts.map sampleMs).map (· ^ 2)) ∧
    s.rttSd = sqrt s.radicand ∧ s.radicand = Means.variance (rtts.map sampleMs) ∧
    0 ≤ s.radicand ∧ 0 ≤ s.rttSd ∧
    (rtts.foldl min defaultRtt : ℤ) ≤ s.srtt ∧ s.srtt ≤ (rtts.foldl max defaultRtt : ℤ) ∧
    (∀ batchSize, (rtts.foldl min defaultRtt : ℤ) ≤ s.rtxThreshold batchSize) ∧
    ∀ now pkt, s.isRtxTimeout now pkt → rtts.foldl min defaultRtt < now - pkt.sendTime := by
  intro s
  have h : Summarizes defaultRtt rtts s :=
    (summarizes_setNetworkStatistics defaultRtt bw loss delay).foldl sqrt rtts
  have hsd : s.rttSd = sqrt s.radicand := by
    obtain ⟨init, last, rfl⟩ : ∃ init last, rtts = init ++ [last] :=
      ⟨_, _, (List.dropLast_append_getLast hne).symm⟩
    simp only [s, List.foldl_concat]
    exact rttSd_updateRtt sqrt _ last
  have hradicand : s.radicand = Means.variance (rtts.map sampleMs) := by
    rw [radicand, h.avg, h.squareAvg, Means.mean_sq_sub_sq_mean]
  have hnonneg : 0 ≤ s.radicand := hradicand ▸ Means.variance_nonneg _
  have hthreshold : ∀ batchSize, (rtts.foldl min defaultRtt : ℤ) ≤ s.rtxThreshold batchSize :=
    fun batchSize => h.least.trans (srtt_le_rtxThreshold h.dispersion batchSize)
  refine ⟨h.avg, h.squareAvg, hsd, hradicand, hnonneg, ?_, h.least, h.greatest, hthreshold, ?_⟩
  · rw [hsd]
    exact hsqrt _ hnonneg
  · intro now pkt htimeout
    simp only [isRtxTimeout, Bool.and_eq_true, decide_eq_true_eq] at htimeout
    exact Int.cast_lt.mp ((hthreshold _).trans_lt htimeout.2)

/-- Samples of 10 and 30 ms after the initial 50 ms, with a deviation of 10 ms. -/
theorem updateRtt_run_two :
    let s := [Time.milliSeconds 10, Time.milliSeconds 30].foldl
      (updateRtt fun x => Nat.sqrt ⌊x⌋₊) (setNetworkStatistics (Time.milliSeconds 50) 2 0 0)
    s.rttSumAvgMs = 20 ∧ s.rttSquareSumAvgMs = 500 ∧ s.rttSd = 10 ∧
      Time.milliSeconds 10 ≤ s.srtt := by
  intro s
  have hsqrt : ∀ x : ℚ, 0 ≤ x → (0 : ℚ) ≤ Nat.sqrt ⌊x⌋₊ := fun _ _ => Nat.cast_nonneg _
  have h := updateRtt_run hsqrt (Time.milliSeconds 50) 2 0 0
    (List.cons_ne_nil (Time.milliSeconds 10) [Time.milliSeconds 30])
  obtain ⟨havg, hsquare, hsd, hradicand, -, -, hleast, -⟩ := h
  refine ⟨?_, ?_, ?_, hleast⟩
  · rw [havg]
    decide +kernel
  · rw [hsquare]
    decide +kernel
  · rw [hsd, hradicand]
    decide +kernel

end RttStat

end Zhuge
