-- SUMMARY: Over exact arithmetic the GCC rate stays in bounds, its averages stay non-negative, and an over-use never raises it.
import Mathlib.Tactic.Positivity
import Zhuge.GccLoss

/-!
# Bounds of the rate control

The average of the maximal rate is a sentinel or not negative, and it is no sentinel near the
maximum. The times of the rate changes follow the clock. Whatever the detector says, and
whatever the square root and the power are, this holds along every run.
-/

namespace Zhuge.GccController

/-! ## Machine integers -/

theorem toInt_toInt64 {t : UInt64} (h : t.toNat < 2 ^ 63) : t.toInt64.toInt = t.toNat := by
  rw [Int64.toInt, UInt64.toBitVec_toInt64, BitVec.toInt_eq_toNat_of_lt]
  · rfl
  · exact (by omega : 2 * t.toNat < 2 ^ 64)

theorem toInt_sub_of_le {a b : Int64} (hb : 0 ≤ b.toInt) (hle : b.toInt ≤ a.toInt) :
    (a - b).toInt = a.toInt - b.toInt := by
  have := a.toInt_lt
  rw [Int64.toInt_sub, Int.bmod_eq_of_le] <;> omega

/-- A time of the simulator's clock, which counts nanoseconds in 64 bits with a sign. -/
def IsClockTime (nowMs : UInt64) : Prop := nowMs.toNat * 1000000 < 2 ^ 63

theorem IsClockTime.toInt {nowMs : UInt64} (h : IsClockTime nowMs) :
    nowMs.toInt64.toInt = nowMs.toNat := by
  unfold IsClockTime at h
  exact toInt_toInt64 (by omega)

/-! ## What the rest of a feedback leaves alone -/

section

variable {F D : Type} [Floating F] [Floating D]

/-- What is known of the maximum, and when the rate changed last. -/
structure Peak (F : Type) where
  avgMaxBitrateKbps : F
  rateControlRegion : RateControlRegion
  timeLastBitrateChange : Int64

def peak (c : GccController F D) : Peak F := { c with }

theorem updateMetrics_peak {c d : GccController F D} (h : c.updateMetrics = some d) :
    d.peak = c.peak := by
  obtain ⟨⟨rate, base⟩, -, h⟩ := Option.bind_eq_some_iff.mp h
  obtain ⟨info, -, h⟩ := Option.bind_eq_some_iff.mp h
  cases info <;> cases h <;> rfl

theorem updateThreshold_peak (modifiedOffset : D) (nowMs : Int64) (c : GccController F D) :
    (c.updateThreshold modifiedOffset nowMs).peak = c.peak := by
  simp only [updateThreshold]
  split_ifs <;> rfl

theorem overuseDetectorDetect_peak (tsDelta : D) (nowMs : Int64) (c : GccController F D) :
    (c.overuseDetectorDetect tsDelta nowMs).peak = c.peak := by
  by_cases hfew : c.numOfDeltas < 2
  · rw [overuseDetectorDetect, if_pos hfew]
  · simp only [overuseDetectorDetect, if_neg hfew, updateThreshold_peak]
    split_ifs <;> rfl

theorem estimate_peak {f : Feedback} {c d : GccController F D} (h : c.estimate f = some d) :
    d.peak = c.peak := by
  obtain ⟨e, he, rfl⟩ := Option.map_eq_some_iff.mp h
  have hestimator (tDelta : Int64) (tsDelta : D) (nowMs : Int64) :
      (e.overuseEstimatorUpdate tDelta tsDelta nowMs).peak = e.peak := rfl
  have hrtt (c : GccController F D) (rtt : Int64) : peak { c with rtt } = c.peak := rfl
  rw [hrtt, overuseDetectorDetect_peak, hestimator, updateMetrics_peak he]

/-- The round-trip time is one of microseconds, cut to milliseconds. -/
theorem estimate_rtt {f : Feedback} {c d : GccController F D} (h : c.estimate f = some d) :
    0 ≤ d.rtt.toInt ∧ d.rtt.toInt < 2 ^ 62 := by
  obtain ⟨e, -, rfl⟩ := Option.map_eq_some_iff.mp h
  simp only
  generalize (Option.getD _ f.rttUs : UInt64) = us
  have hdiv : (us / 1000).toNat = us.toNat / 1000 := UInt64.toNat_div us 1000
  have hlt := us.toNat_lt
  rw [toInt_toInt64 (by omega)]
  omega

theorem receive_peak [Widening F D] {f : Feedback} {ok : Bool} {c d : GccController F D}
    (h : c.receive f = some (ok, d)) : d.peak = c.peak := by
  obtain ⟨⟨ok', base⟩, -, heq⟩ := Option.map_eq_some_iff.mp h
  cases heq
  simp only [countLosses]
  split_ifs <;> rfl

theorem capBitrateToThresholds_peak (nowMs : Int64) (bitrateBps : UInt32) (c : GccController F D) :
    (c.capBitrateToThresholds nowMs bitrateBps).peak = c.peak := rfl

theorem updateLossBasedEstimate_peak (nowMs : Int64) (c : GccController F D) :
    (c.updateLossBasedEstimate nowMs).peak = c.peak := by
  simp only [updateLossBasedEstimate]
  split_ifs
  · apply capBitrateToThresholds_peak
  · exact (capBitrateToThresholds_peak ..).trans rfl
  · apply capBitrateToThresholds_peak

theorem updateEstimate_peak (nowMs : Int64) (c : GccController F D) :
    (c.updateEstimate nowMs).peak = c.peak := by
  simp only [updateEstimate]
  split_ifs
  · exact (capBitrateToThresholds_peak ..).trans rfl
  · exact (capBitrateToThresholds_peak ..).trans rfl
  · exact (updateLossBasedEstimate_peak ..).trans rfl

theorem caps_peak (nowMs : Int64) (c : GccController F D) :
    ((c.updateDelayBasedEstimate nowMs c.currentBitrateBps).updateEstimate nowMs).peak
      = c.peak := by
  have hdelay : (c.updateDelayBasedEstimate nowMs c.currentBitrateBps).peak = c.peak := rfl
  exact (updateEstimate_peak nowMs _).trans hdelay

end

/-! ## Exact arithmetic -/

/-- What is known of the maximum stays sound up to the time `now`. -/
structure Peak.Sound (now : Int) (p : Peak ℚ) : Prop where
  average : p.avgMaxBitrateKbps = -1 ∨ 0 ≤ p.avgMaxBitrateKbps
  nearMax : p.rateControlRegion = .nearMax →
    0 ≤ p.avgMaxBitrateKbps ∧ 0 ≤ p.timeLastBitrateChange.toInt
  past : p.timeLastBitrateChange.toInt ≤ now

theorem Peak.Sound.mono {now now' : Int} {p : Peak ℚ} (h : p.Sound now) (hle : now ≤ now') :
    p.Sound now' := { h with past := h.past.trans hle }

variable (m : Libm ℚ ℚ) {c : GccController ℚ ℚ} {nowMs : Int64}

theorem changeState_sound (h : c.peak.Sound nowMs.toInt) (hpos : 0 ≤ nowMs.toInt) :
    (c.changeState nowMs).peak.Sound nowMs.toInt := by
  unfold changeState
  split
  · exact ⟨h.average, fun hregion => ⟨(h.nearMax hregion).1, hpos⟩, le_rfl⟩
  all_goals exact h

theorem updateMaxBitRateEstimate_nonneg {incomingBitrateKbps : ℚ}
    (hincoming : 0 ≤ incomingBitrateKbps)
    (h : c.avgMaxBitrateKbps = -1 ∨ 0 ≤ c.avgMaxBitrateKbps) :
    0 ≤ (c.updateMaxBitRateEstimate incomingBitrateKbps).avgMaxBitrateKbps := by
  simp only [updateMaxBitRateEstimate]
  split_ifs with hsentinel
  · exact hincoming
  · have havg : 0 ≤ c.avgMaxBitrateKbps := by
      refine h.resolve_left fun heq => hsentinel ?_
      rw [heq]
      norm_num
    norm_num
    positivity

theorem increaseBitrate_sound (h : c.peak.Sound nowMs.toInt) (hpos : 0 ≤ nowMs.toInt)
    (incomingBitrateKbps stdMaxBitRate : ℚ) :
    (c.increaseBitrate m nowMs incomingBitrateKbps stdMaxBitRate).2.peak.Sound nowMs.toInt := by
  simp only [increaseBitrate]
  split_ifs
  · have hsentinel : (-1.0 : ℚ) = -1 := by norm_num
    refine ⟨.inl hsentinel, fun hregion => ?_, le_rfl⟩
    cases hregion
  · exact ⟨h.average, fun hregion => ⟨(h.nearMax hregion).1, hpos⟩, le_rfl⟩

theorem decreaseBitrate_sound (h : c.peak.Sound nowMs.toInt) (hpos : 0 ≤ nowMs.toInt)
    (incomingBitrateBps : UInt32) {incomingBitrateKbps : ℚ} (hincoming : 0 ≤ incomingBitrateKbps)
    (stdMaxBitRate : ℚ) : (c.decreaseBitrate nowMs incomingBitrateBps incomingBitrateKbps
      stdMaxBitRate).2.peak.Sound nowMs.toInt := by
  have havg : 0 ≤ (c.decreaseBitrate nowMs incomingBitrateBps incomingBitrateKbps
      stdMaxBitRate).2.avgMaxBitrateKbps := by
    apply updateMaxBitRateEstimate_nonneg hincoming
    simp only
    split_ifs
    · exact .inl (by norm_num)
    · exact h.average
  exact ⟨.inr havg, fun _ => ⟨havg, hpos⟩, le_rfl⟩

theorem proposeBitrate_sound (h : c.peak.Sound nowMs.toInt) (hpos : 0 ≤ nowMs.toInt)
    (incomingBitrateBps : UInt32) :
    (c.proposeBitrate m nowMs incomingBitrateBps).2.peak.Sound nowMs.toInt := by
  have hincoming : (0 : ℚ) ≤ Floating.ofInt incomingBitrateBps.toNat / 1000.0 := by
    simp only [Floating.ofInt]
    positivity
  unfold proposeBitrate
  cases c.rateControlState with
  | hold => exact h
  | increase => exact increaseBitrate_sound m h hpos _ _
  | decrease => exact decreaseBitrate_sound h hpos _ hincoming _

theorem changeBitrate_sound (h : c.peak.Sound nowMs.toInt) (hpos : 0 ≤ nowMs.toInt)
    (incomingBitrateBps : UInt32) :
    (c.changeBitrate m nowMs incomingBitrateBps).2.peak.Sound nowMs.toInt := by
  unfold changeBitrate
  split
  · exact h
  · exact proposeBitrate_sound m (changeState_sound h hpos) hpos _

/-! ## Over-uses -/

/-- An over-use never asks for more than the current rate. -/
theorem reducedBitrate_le (incomingBitrateBps : UInt32) :
    c.reducedBitrate incomingBitrateBps ≤ c.currentBitrateBps := by
  simp only [reducedBitrate]
  split
  · exact UInt32.le_iff_toNat_le.mpr (by rw [UInt32.toNat_min]; exact min_le_right _ _)
  case isFalse hle => exact UInt32.not_lt.mp hle

theorem changeBitrate_le (hover : c.hypothesis = .overusing)
    (hleast : 500000 ≤ c.currentBitrateBps.toNat) (incomingBitrateBps : UInt32) :
    (c.changeBitrate m nowMs incomingBitrateBps).1 ≤ c.currentBitrateBps := by
  unfold changeBitrate
  split
  · exact UInt32.le_refl _
  · have hstate : c.changeState nowMs = { c with rateControlState := .decrease } := by
      simp only [changeState, hover]
    have hreduced : ((c.changeState nowMs).proposeBitrate m nowMs incomingBitrateBps).1
        ≤ c.currentBitrateBps := by
      rw [hstate]
      exact reducedBitrate_le (c := { c with rateControlState := .decrease }) incomingBitrateBps
    rw [UInt32.le_iff_toNat_le] at hreduced ⊢
    rw [clampBitrate_toNat]
    exact max_le hleast ((min_le_left _ _).trans hreduced)

theorem update_eq {incomingBitrate : UInt32}
    (hstarted : c.bitrateIsInitialized ∨ c.timeFirstIncomingEstimate < 0) :
    ∃ time, c.update m nowMs incomingBitrate =
      { ((c.withFirstEstimate time).changeBitrate m nowMs incomingBitrate).2 with
        currentBitrateBps := ((c.withFirstEstimate time).changeBitrate m nowMs incomingBitrate).1
        bitrateIsInitialized := true } := by
  obtain ⟨time, htime⟩ := exists_withFirstEstimate nowMs incomingBitrate hstarted
  exact ⟨time, by simp only [update, htime]⟩

/-- An over-use never raises the rate, whatever comes in. -/
theorem update_le (hstarted : c.bitrateIsInitialized ∨ c.timeFirstIncomingEstimate < 0)
    (hover : c.hypothesis = .overusing) (hleast : 500000 ≤ c.currentBitrateBps.toNat)
    (incomingBitrate : UInt32) :
    (c.update m nowMs incomingBitrate).currentBitrateBps ≤ c.currentBitrateBps := by
  obtain ⟨time, hupdate⟩ := update_eq m hstarted
  rw [hupdate]
  exact changeBitrate_le m (c := c.withFirstEstimate time) hover hleast incomingBitrate

theorem update_sound (hstarted : c.bitrateIsInitialized ∨ c.timeFirstIncomingEstimate < 0)
    (h : c.peak.Sound nowMs.toInt) (hpos : 0 ≤ nowMs.toInt) (incomingBitrate : UInt32) :
    (c.update m nowMs incomingBitrate).peak.Sound nowMs.toInt := by
  obtain ⟨time, hupdate⟩ := update_eq m hstarted
  rw [hupdate]
  exact changeBitrate_sound m (c := c.withFirstEstimate time) h hpos incomingBitrate

theorem update_view_of_started (hstarted : c.bitrateIsInitialized ∨ c.timeFirstIncomingEstimate < 0)
    (incomingBitrate : UInt32) : ∃ (bitrate : UInt32) (time : Int64),
      (c.update m nowMs incomingBitrate).view = { c.view with
        currentBitrateBps := bitrate
        bitrateIsInitialized := true
        timeFirstIncomingEstimate := time } := by
  obtain ⟨time, hupdate⟩ := update_eq m hstarted
  obtain ⟨initialized, hview⟩ :=
    changeBitrate_view m nowMs incomingBitrate (c.withFirstEstimate time)
  refine ⟨((c.withFirstEstimate time).changeBitrate m nowMs incomingBitrate).1, time, ?_⟩
  rw [hupdate]
  exact congrArg (fun v : View => { v with
    currentBitrateBps := ((c.withFirstEstimate time).changeBitrate m nowMs incomingBitrate).1
    bitrateIsInitialized := true }) hview

/-! ## Conversions -/

theorem getNearMaxIncreaseRateBps_bounds (hrtt : 0 ≤ c.rtt.toInt) (hmax : c.rtt.toInt < 2 ^ 62)
    (hrate : 0 < c.currentBitrateBps.toNat) :
    4000 ≤ c.getNearMaxIncreaseRateBps.toInt ∧ c.getNearMaxIncreaseRateBps.toInt ≤ 96000 := by
  have hresponse : (c.rtt + 100).toInt = c.rtt.toInt + 100 := by
    rw [Int64.toInt_add, Int.bmod_eq_of_le]
    · rfl
    · change _ ≤ c.rtt.toInt + 100
      omega
    · change c.rtt.toInt + 100 < _
      omega
  -- a packet of the average size has at most 1200 bytes
  have hsize : ∀ bits : ℚ, 0 < bits → bits / ⌈bits / 9600⌉ ≤ 9600 := by
    intro bits hbits
    have hceil : (0 : ℚ) < ⌈bits / 9600⌉ := by
      exact_mod_cast Int.ceil_pos.mpr (by positivity)
    rw [div_le_iff₀ hceil, mul_comm, ← div_le_iff₀ (by norm_num)]
    exact Int.le_ceil _
  have hquot : ∀ size : ℚ, size ≤ 9600 → size * 1000 / ((c.rtt.toInt + 100 : ℤ) : ℚ) ≤ 96000 := by
    intro size hsize
    have htime : (100 : ℚ) ≤ ((c.rtt.toInt + 100 : ℤ) : ℚ) := by
      exact_mod_cast (by omega : (100 : ℤ) ≤ c.rtt.toInt + 100)
    rw [div_le_iff₀ (by linarith)]
    linarith
  obtain ⟨rate, heq, hlow, hhigh⟩ : ∃ rate : ℚ,
      c.getNearMaxIncreaseRateBps = Floating.toInt32 rate ∧ 4000 ≤ rate ∧ rate ≤ 96000 := by
    refine ⟨_, rfl, ?_, ?_⟩
    · split_ifs with hlt
      · norm_num at hlt ⊢
        exact hlt.le
      · norm_num
    · split_ifs
      · rw [hresponse]
        have hbits : (0 : ℚ) < ((c.currentBitrateBps.toNat : ℤ) : ℚ) / 30 :=
          div_pos (by exact_mod_cast hrate) (by norm_num)
        have hle := hquot _ (hsize _ hbits)
        norm_num [Floating.ofInt, Floating.ceil] at hle ⊢
        exact hle
      · norm_num
  have hfloor : 4000 ≤ ⌊rate⌋ ∧ ⌊rate⌋ ≤ 96000 :=
    ⟨Int.le_floor.mpr (by exact_mod_cast hlow), Int.floor_le_iff.mpr (by norm_num; linarith)⟩
  have hint : (Floating.toInt32 rate).toInt = ⌊rate⌋ := by
    have hpos : 0 ≤ rate := by linarith
    simp only [Floating.toInt32, if_pos hpos, Int32.toInt_ofInt]
    change ⌊rate⌋.bmod 4294967296 = ⌊rate⌋
    rw [Int.bmod_eq_of_le] <;> omega
  rw [heq, hint]
  exact hfloor

/-- What is converted to an unsigned number near the maximum is not negative: the maximum that
an over-use falls back on, and the additive increase. -/
structure ConvertsNonneg (nowMs : Int64) (c : GccController ℚ ℚ) : Prop where
  maximum : 0 ≤ beta ℚ * c.avgMaxBitrateKbps * 1000.0 + 0.5
  increase : 0 ≤ ((nowMs - c.timeLastBitrateChange) * c.getNearMaxIncreaseRateBps.toInt64
    / 1000).toInt

theorem convertsNonneg (h : c.peak.Sound nowMs.toInt) (hnear : c.rateControlRegion = .nearMax)
    (hclock : nowMs.toInt < 2 ^ 44) (hrtt : 0 ≤ c.rtt.toInt ∧ c.rtt.toInt < 2 ^ 62)
    (hrate : 0 < c.currentBitrateBps.toNat) : c.ConvertsNonneg nowMs := by
  obtain ⟨havg, hlast⟩ := h.nearMax hnear
  have hpast : c.timeLastBitrateChange.toInt ≤ nowMs.toInt := h.past
  change 0 ≤ c.avgMaxBitrateKbps at havg
  change 0 ≤ c.timeLastBitrateChange.toInt at hlast
  refine ⟨?_, ?_⟩
  · simp only [beta]
    positivity
  · obtain ⟨hlow, hhigh⟩ := getNearMaxIncreaseRateBps_bounds hrtt.1 hrtt.2 hrate
    have helapsed := toInt_sub_of_le hlast hpast
    have hproduct : 0 ≤ (nowMs.toInt - c.timeLastBitrateChange.toInt) *
        c.getNearMaxIncreaseRateBps.toInt ∧ (nowMs.toInt - c.timeLastBitrateChange.toInt) *
        c.getNearMaxIncreaseRateBps.toInt < 2 ^ 62 := by
      constructor
      · exact mul_nonneg (by omega) (by omega)
      · nlinarith
    have hmul : ((nowMs - c.timeLastBitrateChange) * c.getNearMaxIncreaseRateBps.toInt64).toInt
        = (nowMs.toInt - c.timeLastBitrateChange.toInt) * c.getNearMaxIncreaseRateBps.toInt := by
      rw [Int64.toInt_mul, helapsed, Int32.toInt_toInt64, Int.bmod_eq_of_le] <;> omega
    have hthousand : (1000 : Int64).toInt = 1000 := rfl
    rw [Int64.toInt_div, hmul, hthousand, Int.tdiv_eq_ediv_of_nonneg hproduct.1,
      Int.bmod_eq_of_le] <;> omega

/-! ## Any detector -/

/-- `estimate`, after which the detector says `outcome`, if that is something. -/
def estimateWith (outcome : Option BandwidthUsage) (f : Feedback) (c : GccController ℚ ℚ) :
    Option (GccController ℚ ℚ) :=
  (c.estimate f).map fun c => { c with hypothesis := outcome.getD c.hypothesis }

/-- `processFeedback` with the outcome of the detector replaced. -/
def processFeedbackWith (outcome : Option BandwidthUsage) (f : Feedback) (c : GccController ℚ ℚ) :
    Option (Bool × GccController ℚ ℚ) :=
  (c.receive f).bind fun (ok, c) =>
    if ¬ ok then some (false, c)
    else if ¬ c.lastTimeCalcValid then some (true, c.setInitialBitrates f)
    else (c.estimateWith outcome f).map fun c => (true, c.control m f)

theorem processFeedbackWith_none (f : Feedback) (c : GccController ℚ ℚ) :
    c.processFeedbackWith m none f = c.processFeedback m f := by
  simp only [processFeedbackWith, processFeedback, estimateWith, Option.getD_none, Option.map_id']

/-- An event, and what the detector says if it is a feedback. -/
def stepWith (c : GccController ℚ ℚ) : Event × Option BandwidthUsage → Option (GccController ℚ ℚ)
  | (.call (.processFeedback f), outcome) => (c.processFeedbackWith m outcome f).map Prod.snd
  | (e, _) => c.step m e

/-- Runs of the controller itself are among these. -/
theorem stepWith_none (c : GccController ℚ ℚ) (e : Event) :
    c.stepWith m (e, none) = c.step m e := by
  cases e with
  | call call =>
      cases call with
      | processFeedback f => exact congrArg (Option.map Prod.snd) (processFeedbackWith_none m f c)
      | processSendPacket txTimestampUs sequence size => rfl
      | prunTransitHistory tarSeq => rfl
  | updateLossRate lossQ8 => rfl
  | reset => rfl

/-- The times of the feedbacks. -/
def feedbackTimes (es : List (Event × Option BandwidthUsage)) : List UInt64 :=
  es.filterMap fun
    | (.call (.processFeedback f), _) => some f.nowMs
    | _ => none

/-- Times of the clock, none before the one that it follows. -/
structure FollowsClock (times : List UInt64) : Prop where
  clock : ∀ t ∈ times, IsClockTime t
  sorted : times.Pairwise (· ≤ ·)

/-! ## The invariant -/

/-- What is known of the controller between calls, when feedbacks at `later` are still to come. -/
structure Sound (later : List UInt64) (c : GccController ℚ ℚ) : Prop where
  dormant : c.view.Dormant
  rate : c.currentBitrateBps.toNat = bounded c.currentBitrateBps.toNat
  started : c.bitrateIsInitialized ∨ c.timeFirstIncomingEstimate < 0
  peak : ∀ t ∈ later, c.peak.Sound t.toInt64.toInt
  known : c.peak.Sound c.peak.timeLastBitrateChange.toInt

variable {m} {later : List UInt64} {d : GccController ℚ ℚ}

theorem Sound.least (h : Sound later c) : 500000 ≤ c.currentBitrateBps.toNat := by
  rw [h.rate, bounded]
  exact le_max_left _ _

/-- A change of other fields. -/
theorem Sound.congr (h : Sound later c) (hview : d.view.Dormant)
    (hrate : d.currentBitrateBps.toNat = bounded d.currentBitrateBps.toNat)
    (hstarted : d.bitrateIsInitialized ∨ d.timeFirstIncomingEstimate < 0)
    (hpeak : d.peak = c.peak) : Sound later d := by
  refine ⟨hview, hrate, hstarted, ?_, ?_⟩
  · rw [hpeak]
    exact h.peak
  · rw [hpeak]
    exact h.known

theorem Sound.of_view (h : Sound later c) (hview : d.view = c.view) (hpeak : d.peak = c.peak) :
    Sound later d := by
  have hrate : d.currentBitrateBps = c.currentBitrateBps := congrArg View.currentBitrateBps hview
  have hinit : d.bitrateIsInitialized = c.bitrateIsInitialized :=
    congrArg View.bitrateIsInitialized hview
  have hfirst : d.timeFirstIncomingEstimate = c.timeFirstIncomingEstimate :=
    congrArg View.timeFirstIncomingEstimate hview
  refine h.congr (hview ▸ h.dormant) ?_ ?_ hpeak
  · rw [hrate]
    exact h.rate
  · rw [hinit, hfirst]
    exact h.started

theorem Sound.mono {later' : List UInt64} (h : Sound later c) (hsub : later' ⊆ later) :
    Sound later' c :=
  { h with peak := fun t ht => h.peak t (hsub ht) }

theorem caps_sound (nowMs : Int64) (hdormant : c.view.Dormant)
    (hstarted : c.bitrateIsInitialized ∨ c.timeFirstIncomingEstimate < 0)
    (hpeak : ∀ t ∈ later, c.peak.Sound t.toInt64.toInt)
    (hknown : c.peak.Sound c.peak.timeLastBitrateChange.toInt) :
    Sound later ((c.updateDelayBasedEstimate nowMs c.currentBitrateBps).updateEstimate nowMs) := by
  obtain ⟨bitrate, hview, hbitrate⟩ := caps_view nowMs hdormant
  refine ⟨?_, ?_, ?_, ?_, ?_⟩
  · rw [hview]
    exact { hdormant with }
  · rw [show GccController.currentBitrateBps _ = bitrate from congrArg View.currentBitrateBps hview,
      hbitrate]
    simp only [bounded]
    omega
  · rw [show GccController.bitrateIsInitialized _ = c.bitrateIsInitialized from
        congrArg View.bitrateIsInitialized hview,
      show GccController.timeFirstIncomingEstimate _ = c.timeFirstIncomingEstimate from
        congrArg View.timeFirstIncomingEstimate hview]
    exact hstarted
  · rw [caps_peak]
    exact hpeak
  · rw [caps_peak]
    exact hknown

theorem control_sound {f : Feedback} (h : Sound (f.nowMs :: later) c)
    (hclock : FollowsClock (f.nowMs :: later)) : Sound later (c.control m f) := by
  have hnow := (hclock.clock _ List.mem_cons_self).toInt
  have hpos : 0 ≤ f.nowMs.toInt64.toInt := by omega
  by_cases hdue : c.updateEstimateDue f
  · have hpeak := update_sound m h.started (h.peak _ List.mem_cons_self) hpos c.incomingBitrate
    obtain ⟨bitrate, time, hview⟩ : ∃ (bitrate : UInt32) (time : Int64),
        (c.update m f.nowMs.toInt64 c.incomingBitrate).view = { c.view with
          currentBitrateBps := bitrate
          bitrateIsInitialized := true
          timeFirstIncomingEstimate := time } :=
      update_view_of_started m h.started c.incomingBitrate
    rw [control, if_pos hdue]
    refine caps_sound (c := { c.update m f.nowMs.toInt64 c.incomingBitrate with
      lastUpdateMs := f.nowMs.toInt64 }) f.nowMs.toInt64 ?_ ?_ (fun t ht => ?_)
      { hpeak with past := le_rfl }
    · have hdormant : (c.update m f.nowMs.toInt64 c.incomingBitrate).view.Dormant := by
        rw [hview]
        exact { h.dormant with }
      exact { hdormant with }
    · exact .inl (congrArg View.bitrateIsInitialized hview)
    · apply hpeak.mono
      rw [hnow, (hclock.clock t (List.mem_cons_of_mem _ ht)).toInt]
      have hle := UInt64.le_iff_toNat_le.mp ((List.pairwise_cons.mp hclock.sorted).1 t ht)
      exact_mod_cast hle
  · rw [control, if_neg hdue]
    exact caps_sound f.nowMs.toInt64 h.dormant h.started
      (fun t ht => h.peak t (List.mem_cons_of_mem _ ht)) h.known

theorem estimateWith_eq_some {outcome : Option BandwidthUsage} {f : Feedback}
    (h : c.estimateWith outcome f = some d) : ∃ numOfDeltas hypothesis,
      d.view = { c.view with numOfDeltas, hypothesis } ∧ d.peak = c.peak ∧
      0 ≤ d.rtt.toInt ∧ d.rtt.toInt < 2 ^ 62 := by
  obtain ⟨e, he, rfl⟩ := Option.map_eq_some_iff.mp h
  obtain ⟨numOfDeltas, hypothesis, hview, -⟩ := estimate_view he
  have hpeak := estimate_peak he
  have hrtt := estimate_rtt he
  refine ⟨numOfDeltas, outcome.getD e.hypothesis, ?_, hpeak, hrtt⟩
  exact congrArg (fun v : View => { v with hypothesis := outcome.getD e.hypothesis }) hview

theorem Sound.estimateWith {outcome : Option BandwidthUsage} {f : Feedback} (h : Sound later c)
    (hestimate : c.estimateWith outcome f = some d) : Sound later d := by
  obtain ⟨numOfDeltas, hypothesis, hview, hpeak, -⟩ := estimateWith_eq_some hestimate
  have hrate : d.currentBitrateBps = c.currentBitrateBps := congrArg View.currentBitrateBps hview
  have hinit : d.bitrateIsInitialized = c.bitrateIsInitialized :=
    congrArg View.bitrateIsInitialized hview
  have hfirst : d.timeFirstIncomingEstimate = c.timeFirstIncomingEstimate :=
    congrArg View.timeFirstIncomingEstimate hview
  refine h.congr ?_ ?_ ?_ hpeak
  · rw [hview]
    exact { h.dormant with }
  · rw [hrate]
    exact h.rate
  · rw [hinit, hfirst]
    exact h.started

theorem Sound.receive {f : Feedback} {ok : Bool} (h : Sound later c)
    (hreceive : c.receive f = some (ok, d)) : Sound later d :=
  h.of_view (receive_view hreceive) (receive_peak hreceive)

theorem Sound.setInitialBitrates (h : Sound later c) (f : Feedback) :
    Sound later (c.setInitialBitrates f) := by
  obtain ⟨hdormant, hrate⟩ := setInitialBitrates_dormant f h.dormant
  refine h.congr hdormant ?_ h.started rfl
  rw [hrate]
  rfl

/-- One event. -/
theorem Sound.step {e : Event × Option BandwidthUsage} {es : List (Event × Option BandwidthUsage)}
    (h : Sound (feedbackTimes (e :: es)) c) (hclock : FollowsClock (feedbackTimes (e :: es)))
    (hstep : c.stepWith m e = some d) : Sound (feedbackTimes es) d := by
  obtain ⟨e, outcome⟩ := e
  cases e with
  | call call =>
      cases call with
      | processSendPacket txTimestampUs sequence size =>
          obtain ⟨_, -, heq⟩ := Option.map_eq_some_iff.mp hstep
          cases heq
          exact h.of_view rfl rfl
      | prunTransitHistory tarSeq =>
          obtain ⟨_, -, heq⟩ := Option.map_eq_some_iff.mp hstep
          cases heq
          exact h.of_view rfl rfl
      | processFeedback f =>
          obtain ⟨⟨ok, d'⟩, hfeedback, heq⟩ := Option.map_eq_some_iff.mp hstep
          cases heq
          obtain ⟨⟨ok', e⟩, hreceive, hfeedback⟩ := Option.bind_eq_some_iff.mp hfeedback
          have hreceived := h.receive hreceive
          have hrest := hreceived.mono (List.subset_cons_self f.nowMs (feedbackTimes es))
          simp only at hfeedback
          split at hfeedback
          · cases hfeedback
            exact hrest
          · split at hfeedback
            · cases hfeedback
              exact hrest.setInitialBitrates f
            · obtain ⟨g, hestimate, heq⟩ := Option.map_eq_some_iff.mp hfeedback
              cases heq
              exact control_sound (hreceived.estimateWith hestimate) hclock
  | updateLossRate lossQ8 =>
      cases hstep
      exact h.of_view rfl rfl
  | reset =>
      cases hstep
      exact h.congr { h.dormant with } h.rate h.started rfl

theorem Sound.new (lastFractionLoss : UInt8) (lastRtcEventLogMs : Int64) {times : List UInt64}
    (hclock : FollowsClock times) :
    Sound times { lastFractionLoss, lastRtcEventLogMs : GccController ℚ ℚ } := by
  have hfresh := fresh_invariant (F := ℚ) (D := ℚ) lastFractionLoss lastRtcEventLogMs
  have hpeak : (⟨-1.0, .maxUnknown, -1⟩ : Peak ℚ).Sound (-1) := by
    refine ⟨.inl (by norm_num), fun hregion => ?_, le_rfl⟩
    cases hregion
  refine ⟨hfresh.toDormant, hfresh.bounded, .inr (show (-1 : Int64) < 0 by decide), ?_, hpeak⟩
  intro t ht
  apply hpeak.mono
  rw [(hclock.clock t ht).toInt]
  omega

/-! ## Runs -/

/-- What is said of the controller between calls. -/
structure RatesSound (c : GccController ℚ ℚ) : Prop where
  lower : c.minBitrateConfigured ≤ c.getSendBps
  upper : c.getSendBps ≤ c.maxBitrateConfigured
  nearMax : c.rateControlRegion = .nearMax →
    0 ≤ c.avgMaxBitrateKbps ∧ 0 ≤ c.timeLastBitrateChange.toInt

/-- What is said of the controller when `Update` is called. -/
structure UpdateSound (m : Libm ℚ ℚ) (nowMs : Int64) (c : GccController ℚ ℚ) : Prop where
  nearMax : c.rateControlRegion = .nearMax →
    0 ≤ c.avgMaxBitrateKbps ∧ 0 ≤ c.timeLastBitrateChange.toInt
  converts : (c.changeState nowMs).rateControlRegion = .nearMax →
    (c.changeState nowMs).ConvertsNonneg nowMs
  backsOff : c.hypothesis = .overusing → ∀ incomingBitrate ≤ c.currentBitrateBps,
    (c.update m nowMs incomingBitrate).currentBitrateBps ≤ c.currentBitrateBps

/-- The same for the event, if it is a feedback that comes to the rate control. -/
def UpdatesSoundly (m : Libm ℚ ℚ) (c : GccController ℚ ℚ) : Event × Option BandwidthUsage → Prop
  | (.call (.processFeedback f), outcome) => ∀ e g, c.receive f = some (true, e) →
      e.lastTimeCalcValid = true → e.estimateWith outcome f = some g →
      UpdateSound m f.nowMs.toInt64 g
  | _ => True

theorem Sound.rates (h : Sound later c) : RatesSound c := by
  have hrate := h.rate
  simp only [bounded] at hrate
  refine ⟨?_, ?_, h.known.nearMax⟩
  · rw [show c.minBitrateConfigured = _ from h.dormant.minBitrateConfigured,
      UInt32.le_iff_toNat_le]
    change 500000 ≤ c.currentBitrateBps.toNat
    omega
  · rw [show c.maxBitrateConfigured = _ from h.dormant.maxBitrateConfigured,
      UInt32.le_iff_toNat_le]
    change c.currentBitrateBps.toNat ≤ 100000000
    omega

theorem changeState_rtt (nowMs : Int64) (c : GccController ℚ ℚ) :
    (c.changeState nowMs).rtt = c.rtt := by
  unfold changeState
  split <;> rfl

theorem Sound.updatesSoundly {e : Event × Option BandwidthUsage}
    {es : List (Event × Option BandwidthUsage)} (h : Sound (feedbackTimes (e :: es)) c)
    (hclock : FollowsClock (feedbackTimes (e :: es))) : c.UpdatesSoundly m e := by
  obtain ⟨e, outcome⟩ := e
  cases e with
  | call call =>
      cases call with
      | processSendPacket txTimestampUs sequence size => trivial
      | prunTransitHistory tarSeq => trivial
      | processFeedback f =>
          intro e g hreceive _ hestimate
          have hg := (h.receive hreceive).estimateWith hestimate
          have hpeak := hg.peak f.nowMs List.mem_cons_self
          obtain ⟨-, -, -, -, hrtt⟩ := estimateWith_eq_some hestimate
          have hclock := hclock.clock f.nowMs List.mem_cons_self
          have hnow := hclock.toInt
          unfold IsClockTime at hclock
          refine ⟨hpeak.nearMax, fun hnear => ?_, fun hover incomingBitrate _ => ?_⟩
          · have hrate : (g.changeState f.nowMs.toInt64).currentBitrateBps = g.currentBitrateBps :=
              congrArg View.currentBitrateBps (changeState_view _ g)
            refine convertsNonneg (changeState_sound hpeak (by omega)) hnear (by omega) ?_ ?_
            · rw [changeState_rtt]
              exact hrtt
            · rw [hrate]
              exact lt_of_lt_of_le (by decide) hg.least
          · exact update_le m hg.started hover hg.least incomingBitrate
  | updateLossRate lossQ8 => trivial
  | reset => trivial

theorem Sound.run {es : List (Event × Option BandwidthUsage)} (h : Sound (feedbackTimes es) c)
    (hclock : FollowsClock (feedbackTimes es)) :
    Run.Always (stepWith m) RatesSound c es ∧ Run.Each (stepWith m) (UpdatesSoundly m) c es := by
  induction es generalizing c with
  | nil => exact ⟨h.rates, trivial⟩
  | cons e es ih =>
      have hrest : FollowsClock (feedbackTimes es) := by
        have hsub : (feedbackTimes es).Sublist (feedbackTimes (e :: es)) :=
          (List.sublist_cons_self e es).filterMap _
        exact ⟨fun t ht => hclock.clock t (hsub.subset ht), hclock.sorted.sublist hsub⟩
      have hnext : ∀ d, c.stepWith m e = some d → _ := fun d hstep => ih (h.step hclock hstep) hrest
      exact ⟨⟨h.rates, fun d hstep => (hnext d hstep).1⟩,
        h.updatesSoundly hclock, fun d hstep => (hnext d hstep).2⟩

/-- Whatever the detector says and at whatever times of the clock the feedbacks come: the rate stays
within its bounds, nothing negative is converted, and an over-use never raises the rate. -/
theorem rates_sound {lastFractionLoss : UInt8} {lastRtcEventLogMs : Int64}
    {es : List (Event × Option BandwidthUsage)} (hclock : FollowsClock (feedbackTimes es)) :
    Run.Always (stepWith m) RatesSound { lastFractionLoss, lastRtcEventLogMs } es ∧
      Run.Each (stepWith m) (UpdatesSoundly m) { lastFractionLoss, lastRtcEventLogMs } es :=
  (Sound.new lastFractionLoss lastRtcEventLogMs hclock).run hclock

/-- Two packets are acknowledged, the second one with an over-use. -/
def overuseEvents : List (Event × Option BandwidthUsage) :=
  [(.call (.processSendPacket 1000 1 1200), none),
    (.call (.processFeedback ⟨20000, 1, 15000, 0, 0, 15000, 20, 0⟩), none),
    (.call (.processSendPacket 21000 2 1200), none),
    (.call (.processFeedback ⟨40000, 2, 35000, 20000, 20000, 35000, 40, 0⟩), some .overusing)]

theorem rates_sound_overuse :
    Run.Always (stepWith ⟨fun _ => 0, fun _ _ => 1⟩) RatesSound
        { lastFractionLoss := 0, lastRtcEventLogMs := 0 } overuseEvents ∧
      Run.Each (stepWith ⟨fun _ => 0, fun _ _ => 1⟩) (UpdatesSoundly ⟨fun _ => 0, fun _ _ => 1⟩)
        { lastFractionLoss := 0, lastRtcEventLogMs := 0 } overuseEvents := by
  have htimes : feedbackTimes overuseEvents = [20, 40] := rfl
  refine rates_sound ⟨?_, ?_⟩
  · simp [htimes, IsClockTime]
  · simp [htimes]

end Zhuge.GccController
