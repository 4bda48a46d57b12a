-- SUMMARY: What the over-use detector of the GCC controller can say, over whole runs of the controller.
import Zhuge.Lib.Regression
import Zhuge.Lib.Run
import Zhuge.GccController

/-!
# The over-use detector

Every feedback that reaches the detector is a sample: how far apart two groups of packets
arrived, how far apart they were sent, and when the later one arrived. The detector fits a line
to the smoothed delay of the last twenty samples and compares its slope with a threshold that
adapts. Nothing else in the controller touches its state.
-/

namespace Zhuge.GccController

/-! ## The detector alone -/

section

variable {F D : Type} [Floating F] [Floating D]

/-- The fields that the detector keeps. -/
structure Detector (D : Type) where
  numOfDeltas : UInt16
  offset : D
  accumulatedDelay : D
  smoothedDelay : D
  delayHist : List (D × D)
  threshold : D
  utLastUpdateMs : Int64
  prevOffset : D
  timeOverUsing : D
  overuseCounter : Int32
  hypothesis : BandwidthUsage

def detector (c : GccController F D) : Detector D := { c with }

/-- What the detector is told of a feedback, in milliseconds. -/
structure Sample where
  arrivalGap : Int64
  departureGap : ℕ
  arrival : Int64
deriving DecidableEq

def sampleOf (f : Feedback) : Sample where
  arrivalGap := f.interArrival / 1000
  departureGap := (f.interDeparture.toUInt32 / 1000).toNat
  arrival := f.arrivalTime / 1000

/-- The two calls of `processFeedback` on the detector. -/
def detect (x : Sample) (c : GccController F D) : GccController F D :=
  (c.overuseEstimatorUpdate x.arrivalGap (Floating.ofInt x.departureGap) x.arrival
    ).overuseDetectorDetect (Floating.ofInt x.departureGap) x.arrival

/-! ## What leaves the detector alone -/

theorem receive_detector [Widening F D] {f : Feedback} {ok : Bool} {c d : GccController F D}
    (h : c.receive f = some (ok, d)) : d.detector = c.detector := by
  obtain ⟨⟨ok', base⟩, -, heq⟩ := Option.map_eq_some_iff.mp h
  cases heq
  simp only [countLosses]
  split_ifs <;> rfl

theorem updateMetrics_detector {c d : GccController F D} (h : c.updateMetrics = some d) :
    d.detector = c.detector := by
  obtain ⟨⟨rate, base⟩, -, h⟩ := Option.bind_eq_some_iff.mp h
  obtain ⟨info, -, h⟩ := Option.bind_eq_some_iff.mp h
  cases info <;> cases h <;> rfl

theorem estimate_detector {f : Feedback} {c d : GccController F D} (h : c.estimate f = some d) :
    ∃ g : GccController F D, g.detector = c.detector ∧
      d.detector = (g.detect (sampleOf f)).detector := by
  obtain ⟨g, hg, rfl⟩ := Option.map_eq_some_iff.mp h
  exact ⟨g, updateMetrics_detector hg, rfl⟩

theorem capBitrateToThresholds_detector (nowMs : Int64) (bitrateBps : UInt32)
    (c : GccController F D) :
    (c.capBitrateToThresholds nowMs bitrateBps).detector = c.detector := rfl

theorem updateLossBasedEstimate_detector (nowMs : Int64) (c : GccController F D) :
    (c.updateLossBasedEstimate nowMs).detector = c.detector := by
  simp only [updateLossBasedEstimate]
  split_ifs
  · apply capBitrateToThresholds_detector
  · exact (capBitrateToThresholds_detector ..).trans rfl
  · apply capBitrateToThresholds_detector

theorem updateEstimate_detector (nowMs : Int64) (c : GccController F D) :
    (c.updateEstimate nowMs).detector = c.detector := by
  simp only [updateEstimate]
  split_ifs
  · exact (capBitrateToThresholds_detector ..).trans rfl
  · exact (capBitrateToThresholds_detector ..).trans rfl
  · exact (updateLossBasedEstimate_detector ..).trans rfl

theorem changeState_detector (nowMs : Int64) (c : GccController F D) :
    (c.changeState nowMs).detector = c.detector := by
  unfold changeState
  split <;> rfl

section

variable [Widening F D] (m : Libm F D)

theorem proposeBitrate_detector (nowMs : Int64) (incomingBitrateBps : UInt32)
    (c : GccController F D) :
    (c.proposeBitrate m nowMs incomingBitrateBps).2.detector = c.detector := by
  unfold proposeBitrate
  cases c.rateControlState with
  | hold => rfl
  | increase =>
      simp only [increaseBitrate]
      split_ifs <;> rfl
  | decrease => rfl

theorem changeBitrate_detector (nowMs : Int64) (incomingBitrateBps : UInt32)
    (c : GccController F D) :
    (c.changeBitrate m nowMs incomingBitrateBps).2.detector = c.detector := by
  unfold changeBitrate
  split
  · rfl
  · exact (proposeBitrate_detector ..).trans (changeState_detector ..)

theorem update_detector (nowMs : Int64) (incomingBitrate : UInt32) (c : GccController F D) :
    (c.update m nowMs incomingBitrate).detector = c.detector := by
  have hkept (b : GccController F D) : detector { (b.changeBitrate m nowMs incomingBitrate).2 with
      currentBitrateBps := (b.changeBitrate m nowMs incomingBitrate).1
      bitrateIsInitialized := true } = b.detector :=
    changeBitrate_detector m nowMs incomingBitrate b
  refine (hkept _).trans ?_
  split_ifs <;> rfl

theorem control_detector (f : Feedback) (c : GccController F D) :
    (c.control m f).detector = c.detector := by
  rw [control, updateEstimate_detector]
  change detector (if _ then _ else _ : GccController F D) = _
  split_ifs
  · exact update_detector ..
  · rfl

/-- The sample that an event hands to the detector. -/
def sampled (c : GccController F D) : Event → Option Sample
  | .call (.processFeedback f) =>
    match c.receive f with
    | some (true, d) => if d.lastTimeCalcValid then some (sampleOf f) else none
    | _ => none
  | _ => none

/-- A step leaves the detector alone, or hands it one sample. -/
theorem step_detector {c d : GccController F D} {e : Event} (h : c.step m e = some d) :
    (c.sampled e = none ∧ d.detector = c.detector) ∨
      ∃ x, c.sampled e = some x ∧ ∃ g : GccController F D,
        g.detector = c.detector ∧ d.detector = (g.detect x).detector := by
  cases e with
  | updateLossRate lossQ8 => cases h; exact .inl ⟨rfl, rfl⟩
  | reset => cases h; exact .inl ⟨rfl, rfl⟩
  | call call =>
      cases call with
      | processSendPacket txTimestampUs sequence size =>
          obtain ⟨_, -, heq⟩ := Option.map_eq_some_iff.mp h
          cases heq
          exact .inl ⟨rfl, rfl⟩
      | prunTransitHistory tarSeq =>
          obtain ⟨_, -, heq⟩ := Option.map_eq_some_iff.mp h
          cases heq
          exact .inl ⟨rfl, rfl⟩
      | processFeedback f =>
          obtain ⟨⟨answer, d'⟩, hfeedback, heq⟩ := Option.map_eq_some_iff.mp h
          cases heq
          obtain ⟨⟨ok, e⟩, hreceive, hfeedback⟩ := Option.bind_eq_some_iff.mp hfeedback
          have hreceived := receive_detector hreceive
          cases ok with
          | false =>
              cases hfeedback
              exact .inl ⟨by simp [sampled, hreceive], hreceived⟩
          | true =>
              by_cases hvalid : e.lastTimeCalcValid
              · simp only [hvalid, not_true_eq_false, if_false] at hfeedback
                obtain ⟨g, hestimate, heq⟩ := Option.map_eq_some_iff.mp hfeedback
                cases heq
                obtain ⟨g', hg', hdetect⟩ := estimate_detector hestimate
                exact .inr ⟨sampleOf f, by simp [sampled, hreceive, hvalid], g',
                  hg'.trans hreceived, (control_detector ..).trans hdetect⟩
              · simp only [hvalid, not_true_eq_false, if_false, not_false_eq_true, if_true,
                  Bool.false_eq_true] at hfeedback
                cases hfeedback
                exact .inl ⟨by simp [sampled, hreceive, hvalid], hreceived⟩

end

end

/-! ## Exact arithmetic -/

section

/-- The loops of `LinearFitSlope` compute the slope of a regression. -/
theorem linearFitSlope_eq (points : List (ℚ × ℚ)) :
    linearFitSlope points = Regression.slope points := by
  have hmean (g : ℚ × ℚ → ℚ) :
      points.foldl (fun sum p => sum + g p) (0.0 : ℚ) / (points.length : ℤ) =
        Means.mean (points.map g) := by
    rw [Means.foldl_add_eq, Means.mean, List.length_map]
    norm_num
  have hslope (m n : ℚ)
      (hm : points.foldl (fun sum p => sum + p.1) (0.0 : ℚ) / (points.length : ℤ) = m)
      (hn : points.foldl (fun sum p => sum + p.2) (0.0 : ℚ) / (points.length : ℤ) = n) :
      linearFitSlope points =
        let numerator := points.foldl (fun sum p => sum + (p.1 - m) * (p.2 - n)) (0.0 : ℚ)
        let denominator := points.foldl (fun sum p => sum + (p.1 - m) * (p.1 - m)) (0.0 : ℚ)
        if denominator == 0.0 then 0.0 else numerator / denominator := by
    rw [← hm, ← hn]
    rfl
  rw [hslope _ _ (hmean Prod.fst) (hmean Prod.snd)]
  simp only [Means.foldl_add_eq, Regression.slope, Regression.deviation, Regression.codeviation,
    pow_two]
  norm_num

/-- `LinearFitSlope` gives the slope of a line with the least squared error. -/
theorem linearFitSlope_least (points : List (ℚ × ℚ)) (a b : ℚ) :
    Regression.squaredError
      (Means.mean (points.map Prod.snd) - linearFitSlope points * Means.mean (points.map Prod.fst))
      (linearFitSlope points) points ≤ Regression.squaredError a b points := by
  rw [linearFitSlope_eq]
  exact Regression.squaredError_slope_le a b points

namespace Detector

/-- `T` in `OveruseDetectorDetect`. -/
def level (d : Detector ℚ) : ℚ := (min d.numOfDeltas 60).toNat * d.offset * 4

/-- `time_over_using_` after a sample above the threshold. -/
def overFor (gap : ℚ) (d : Detector ℚ) : ℚ :=
  if d.timeOverUsing = -1 then gap / 2 else d.timeOverUsing + gap

/-- The over-use timer, its counter and the verdict after a sample with this departure gap. -/
inductive Judged (gap : ℚ) (d : Detector ℚ) : ℚ → Int32 → BandwidthUsage → Prop
  /-- Above the threshold, but not for long enough, or with a falling slope. -/
  | above : d.threshold < d.level → Judged gap d (d.overFor gap) (d.overuseCounter + 1) d.hypothesis
  | declared : d.threshold < d.level → 10 < d.overFor gap → 1 < d.overuseCounter + 1 →
      d.prevOffset ≤ d.offset → Judged gap d 0 0 .overusing
  | under : d.level < -d.threshold → Judged gap d (-1) 0 .underusing
  | normal : ¬ d.threshold < d.level → ¬ d.level < -d.threshold → Judged gap d (-1) 0 .normal

end Detector

/-- `SafeClamp`. -/
theorem clamp_mem (t : ℚ) :
    6 ≤ (if t ≤ 6.0 then 6.0 else if 600.0 ≤ t then 600.0 else t) ∧
      (if t ≤ 6.0 then 6.0 else if 600.0 ≤ t then 600.0 else t) ≤ 600 := by
  split_ifs with hlow hhigh
  · norm_num
  · norm_num
  · norm_num at hlow hhigh
    exact ⟨hlow.le, hhigh.le⟩

theorem updateThreshold_spec (modifiedOffset : ℚ) (nowMs : Int64) (c : GccController ℚ ℚ) :
    ∃ threshold utLastUpdateMs, (c.updateThreshold modifiedOffset nowMs).detector =
        { c.detector with threshold, utLastUpdateMs } ∧
      (6 ≤ c.threshold ∧ c.threshold ≤ 600 → 6 ≤ threshold ∧ threshold ≤ 600) := by
  by_cases hspike : c.threshold + 15.0 < Floating.abs modifiedOffset
  · exact ⟨_, _, by rw [updateThreshold, if_pos hspike]; rfl, id⟩
  · exact ⟨_, _, by rw [updateThreshold, if_neg hspike]; rfl, fun _ => clamp_mem _⟩

/-- What the detector makes of an estimate. -/
theorem overuseDetectorDetect_spec (gap : ℕ) (nowMs : Int64) (c : GccController ℚ ℚ) :
    c.numOfDeltas < 2 ∧ c.overuseDetectorDetect (Floating.ofInt gap) nowMs = c ∨
      ∃ threshold utLastUpdateMs timeOverUsing overuseCounter hypothesis,
        (c.overuseDetectorDetect (Floating.ofInt gap) nowMs).detector =
          { c.detector with
            threshold, utLastUpdateMs, prevOffset := c.offset
            timeOverUsing, overuseCounter, hypothesis } ∧
        (6 ≤ c.threshold ∧ c.threshold ≤ 600 → 6 ≤ threshold ∧ threshold ≤ 600) ∧
        Detector.Judged gap c.detector timeOverUsing overuseCounter hypothesis := by
  by_cases hfew : c.numOfDeltas < 2
  · exact .inl ⟨hfew, by rw [overuseDetectorDetect, if_pos hfew]⟩
  right
  have hlevel : Floating.ofInt (min c.numOfDeltas 60).toNat * c.offset * 4.0 =
      c.detector.level := by
    simp only [Detector.level, detector]
    norm_num [Floating.ofInt]
  have hfor : (if c.timeOverUsing == -1.0 then Floating.ofInt (gap : ℤ) / 2.0
      else c.timeOverUsing + Floating.ofInt (gap : ℤ)) = c.detector.overFor gap := by
    simp only [Detector.overFor, detector]
    by_cases hfirst : c.timeOverUsing = -1 <;> norm_num [Floating.ofInt, hfirst]
  have hzero : (0 : ℚ) = 0.0 := by norm_num
  have hten : (10.0 : ℚ) = 10 := by norm_num
  have hminus : (-1 : ℚ) = -1.0 := by norm_num
  simp only [overuseDetectorDetect, if_neg hfew, hlevel, hfor]
  split_ifs with hover hdeclared hunder
  · obtain ⟨hlong, htwice, hslope⟩ := hdeclared
    obtain ⟨threshold, utLastUpdateMs, heq, hclamp⟩ := updateThreshold_spec c.detector.level nowMs
      { c with
        timeOverUsing := 0.0, overuseCounter := 0, hypothesis := .overusing,
        prevOffset := c.offset }
    exact ⟨threshold, utLastUpdateMs, _, _, _, heq, hclamp,
      hzero ▸ .declared hover (hten ▸ hlong) htwice hslope⟩
  · obtain ⟨threshold, utLastUpdateMs, heq, hclamp⟩ := updateThreshold_spec c.detector.level nowMs
      { c with
        timeOverUsing := c.detector.overFor gap, overuseCounter := c.overuseCounter + 1
        prevOffset := c.offset }
    exact ⟨threshold, utLastUpdateMs, _, _, _, heq, hclamp, .above hover⟩
  · obtain ⟨threshold, utLastUpdateMs, heq, hclamp⟩ := updateThreshold_spec c.detector.level nowMs
      { c with
        timeOverUsing := -1.0, overuseCounter := 0, hypothesis := .underusing,
        prevOffset := c.offset }
    exact ⟨threshold, utLastUpdateMs, _, _, _, heq, hclamp, hminus ▸ .under hunder⟩
  · obtain ⟨threshold, utLastUpdateMs, heq, hclamp⟩ := updateThreshold_spec c.detector.level nowMs
      { c with
        timeOverUsing := -1.0, overuseCounter := 0, hypothesis := .normal, prevOffset := c.offset }
    exact ⟨threshold, utLastUpdateMs, _, _, _, heq, hclamp, hminus ▸ .normal hover hunder⟩

/-! ## A trend in one direction -/

/-- The delay has never moved against `σ`, and its history ends before every time in `later`. -/
structure Detector.Leaning (σ : ℚ) (later : List ℚ) (d : Detector ℚ) : Prop where
  threshold : 6 ≤ d.threshold ∧ d.threshold ≤ 600
  smoothed : σ * d.accumulatedDelay ≤ σ * d.smoothedDelay
  hist : d.delayHist.Pairwise fun p q => p.1 ≤ q.1 ∧ σ * q.2 ≤ σ * p.2
  last : ∀ p ∈ d.delayHist, σ * d.smoothedDelay ≤ σ * p.2
  before : ∀ p ∈ d.delayHist, ∀ t ∈ later, p.1 ≤ t
  offset : σ * d.offset ≤ 0

namespace Detector.Leaning

variable {σ : ℚ} {later : List ℚ}

theorem mono {later' : List ℚ} {d : Detector ℚ} (h : d.Leaning σ later) (hsub : later' ⊆ later) :
    d.Leaning σ later' :=
  { h with before := fun p hp t ht => h.before p hp t (hsub ht) }

/-- The slope of a history that moves with `σ`, or not at all. -/
theorem slope_le {ps : List (ℚ × ℚ)} (hσ : σ = 1 ∨ σ = -1)
    (h : ps.Pairwise fun p q => p.1 ≤ q.1 ∧ σ * q.2 ≤ σ * p.2) :
    σ * Regression.slope ps ≤ 0 := by
  rcases hσ with rfl | rfl
  · rw [one_mul]
    exact Regression.slope_nonpos (h.imp fun hpq => ⟨hpq.1, by simpa using hpq.2⟩)
  · rw [neg_one_mul, neg_nonpos]
    exact Regression.slope_nonneg (h.imp fun hpq => ⟨hpq.1, by simpa using hpq.2⟩)

/-- Smoothing stays between the old value and the new one. -/
theorem mul_smoothed {σ s a : ℚ} (h : σ * a ≤ σ * s) :
    σ * a ≤ σ * (0.9 * s + (1.0 - 0.9) * a) ∧ σ * (0.9 * s + (1.0 - 0.9) * a) ≤ σ * s := by
  have hvalue : σ * (0.9 * s + (1.0 - 0.9) * a) = 9 / 10 * (σ * s) + 1 / 10 * (σ * a) := by
    norm_num only
    ring
  rw [hvalue]
  constructor <;> linarith

theorem mul_accumulated {σ a gap sent : ℚ} (h : σ * gap ≤ σ * sent) :
    σ * (a + (gap - sent)) ≤ σ * a := by
  rw [mul_add, mul_sub]
  linarith

/-- A sample whose gap has grown with `σ`, or not at all. -/
theorem estimator {x : Sample} {c : GccController ℚ ℚ} (hσ : σ = 1 ∨ σ = -1)
    (h : c.detector.Leaning σ ((x.arrival.toInt : ℚ) :: later))
    (hgap : σ * x.arrivalGap.toInt ≤ σ * x.departureGap)
    (hlater : ∀ t ∈ later, (x.arrival.toInt : ℚ) ≤ t) :
    (c.overuseEstimatorUpdate x.arrivalGap (Floating.ofInt x.departureGap) x.arrival
      ).detector.Leaning σ later := by
  obtain ⟨hthreshold, hsmoothed, hhist, hlast, hbefore, hoffset⟩ := h
  let accumulated : ℚ := c.accumulatedDelay + (x.arrivalGap.toInt - x.departureGap)
  let smoothed : ℚ := 0.9 * c.smoothedDelay + (1.0 - 0.9) * accumulated
  let hist := c.delayHist ++ [((x.arrival.toInt : ℚ), smoothed)]
  have hbelow : σ * accumulated ≤ σ * c.smoothedDelay := (mul_accumulated hgap).trans hsmoothed
  obtain ⟨hstill, hdown⟩ : σ * accumulated ≤ σ * smoothed ∧ σ * smoothed ≤ σ * c.smoothedDelay :=
    mul_smoothed hbelow
  have hfull : hist.Pairwise fun p q => p.1 ≤ q.1 ∧ σ * q.2 ≤ σ * p.2 := by
    refine List.pairwise_append.mpr ⟨hhist, List.pairwise_singleton _ _, ?_⟩
    intro p hp q hq
    rw [List.mem_singleton.mp hq]
    exact ⟨hbefore p hp _ List.mem_cons_self, hdown.trans (hlast p hp)⟩
  have hkept : (if 20 < hist.length then hist.drop 1 else hist).Sublist hist := by
    split_ifs
    · exact List.drop_sublist 1 hist
    · exact List.Sublist.refl _
  have hmem : ∀ p ∈ (if 20 < hist.length then hist.drop 1 else hist),
      p ∈ c.delayHist ∨ p = ((x.arrival.toInt : ℚ), smoothed) := fun p hp => by
    simpa [hist] using hkept.subset hp
  have hsorted := hfull.sublist hkept
  refine ⟨hthreshold, hstill, hsorted, ?_, ?_, ?_⟩
  · intro p hp
    rcases hmem p hp with hp | rfl
    · exact hdown.trans (hlast p hp)
    · exact le_rfl
  · intro p hp t ht
    rcases hmem p hp with hp | rfl
    · exact hbefore p hp t (List.mem_cons_of_mem _ ht)
    · exact hlater t ht
  · change σ * (if (if 20 < hist.length then hist.drop 1 else hist).length = 20 then
      linearFitSlope (if 20 < hist.length then hist.drop 1 else hist) else c.offset) ≤ 0
    split_ifs
    · rw [linearFitSlope_eq]
      exact slope_le hσ (hfull.sublist (List.drop_sublist 1 hist))
    · exact hoffset
    · rw [linearFitSlope_eq]
      exact slope_le hσ hfull
    · exact hoffset

/-- The verdict against `σ`: that the delay grows, or that it shrinks. -/
def Against (σ : ℚ) (verdict : BandwidthUsage) : Prop :=
  σ = 1 ∧ verdict = .overusing ∨ σ = -1 ∧ verdict = .underusing

theorem level_le {d : Detector ℚ} (h : d.Leaning σ later) : σ * d.level ≤ 0 := by
  have hlevel : σ * d.level = (min d.numOfDeltas 60).toNat * 4 * (σ * d.offset) := by
    rw [Detector.level]
    ring
  rw [hlevel]
  exact mul_nonpos_of_nonneg_of_nonpos (by positivity) h.offset

theorem verdict {d : Detector ℚ} {v : BandwidthUsage} (h : d.Leaning σ later) (hv : Against σ v)
    (hd : d.hypothesis ≠ v) {gap timeOverUsing : ℚ} {overuseCounter : Int32}
    {hypothesis : BandwidthUsage}
    (hjudged : d.Judged gap timeOverUsing overuseCounter hypothesis) : hypothesis ≠ v := by
  have hlevel := h.level_le
  have hthreshold := h.threshold.1
  rcases hv with ⟨rfl, rfl⟩ | ⟨rfl, rfl⟩
  · rw [one_mul] at hlevel
    cases hjudged with
    | above hover => exact absurd (hover.trans_le hlevel) (by linarith)
    | declared hover => exact absurd (hover.trans_le hlevel) (by linarith)
    | under => decide
    | normal => decide
  · rw [neg_one_mul, neg_nonpos] at hlevel
    cases hjudged with
    | above => exact hd
    | declared => decide
    | under hunder => exact absurd (hlevel.trans_lt hunder) (by linarith)
    | normal => decide

/-- What a sample leaves of an inclination, and what the detector says of it. -/
theorem detect {x : Sample} {c : GccController ℚ ℚ} {v : BandwidthUsage} (hv : Against σ v)
    (h : c.detector.Leaning σ ((x.arrival.toInt : ℚ) :: later)) (hc : c.hypothesis ≠ v)
    (hgap : σ * x.arrivalGap.toInt ≤ σ * x.departureGap)
    (hlater : ∀ t ∈ later, (x.arrival.toInt : ℚ) ≤ t) :
    (c.detect x).detector.Leaning σ later ∧ (c.detect x).hypothesis ≠ v := by
  have hσ : σ = 1 ∨ σ = -1 := hv.imp And.left And.left
  have hestimated := h.estimator hσ hgap hlater
  rcases overuseDetectorDetect_spec x.departureGap x.arrival
      (c.overuseEstimatorUpdate x.arrivalGap (Floating.ofInt x.departureGap) x.arrival)
    with ⟨-, hsame⟩ | ⟨_, _, _, _, _, heq, hclamp, hjudged⟩
  · rw [GccController.detect, hsame]
    exact ⟨hestimated, hc⟩
  · constructor
    · unfold GccController.detect
      rw [heq]
      exact { hestimated with threshold := hclamp hestimated.threshold }
    · have hverdict := hestimated.verdict hv hc hjudged
      exact (congrArg Detector.hypothesis heq).trans_ne hverdict

end Detector.Leaning

/-- The samples of the feedbacks in a run, whether the controller takes them or not. -/
def samples (es : List Event) : List Sample :=
  es.filterMap fun
    | .call (.processFeedback f) => some (sampleOf f)
    | _ => none

section

variable {m : Libm ℚ ℚ} {σ : ℚ} {v : BandwidthUsage} {es : List Event} {c : GccController ℚ ℚ}

theorem sampled_eq_some {e : Event} {x : Sample} (h : c.sampled e = some x) :
    samples (e :: es) = x :: samples es := by
  cases e with
  | updateLossRate lossQ8 => cases h
  | reset => cases h
  | call call =>
      cases call with
      | processSendPacket txTimestampUs sequence size => cases h
      | prunTransitHistory tarSeq => cases h
      | processFeedback f =>
          have hx : sampleOf f = x := by
            simp only [sampled] at h
            split at h
            · split_ifs at h
              exact Option.some.inj h
            · cases h
          rw [← hx]
          rfl

theorem samples_sublist (e : Event) (es : List Event) :
    (samples es).Sublist (samples (e :: es)) :=
  (List.sublist_cons_self e es).filterMap _

/-- By induction over the events: what has been seen ends before what is to come. -/
theorem Detector.Leaning.run (hv : Detector.Leaning.Against σ v)
    (h : c.detector.Leaning σ ((samples es).map fun x => (x.arrival.toInt : ℚ)))
    (hc : c.hypothesis ≠ v)
    (hordered : (samples es).Pairwise fun x y => x.arrival.toInt ≤ y.arrival.toInt)
    (hgaps : ∀ x ∈ samples es, σ * x.arrivalGap.toInt ≤ σ * x.departureGap) :
    Run.Always (step m) (fun c => c.hypothesis ≠ v) c es := by
  induction es generalizing c with
  | nil => exact hc
  | cons e es ih =>
      refine ⟨hc, fun d hd => ?_⟩
      have hsub := samples_sublist e es
      have hrest := hordered.sublist hsub
      have hgapsRest := fun x hx => hgaps x (hsub.subset hx)
      rcases step_detector m hd with ⟨-, heq⟩ | ⟨x, hx, g, hg, heq⟩
      · apply ih _ _ hrest hgapsRest
        · rw [heq]
          exact h.mono (List.map_subset _ hsub.subset)
        · exact (congrArg Detector.hypothesis heq).trans_ne hc
      · rw [sampled_eq_some hx] at h hordered hgaps
        obtain ⟨hfirst, -⟩ := List.pairwise_cons.mp hordered
        have hgc : g.hypothesis ≠ v := (congrArg Detector.hypothesis hg).trans_ne hc
        rw [← hg] at h
        obtain ⟨hleaning, hverdict⟩ := Detector.Leaning.detect hv h hgc
          (hgaps x List.mem_cons_self) (by
            intro t ht
            obtain ⟨y, hy, rfl⟩ := List.mem_map.mp ht
            exact_mod_cast hfirst y hy)
        apply ih _ _ hrest hgapsRest
        · rw [heq]
          exact hleaning
        · exact (congrArg Detector.hypothesis heq).trans_ne hverdict

theorem Detector.Leaning.fresh {lastFractionLoss : UInt8} {lastRtcEventLogMs : Int64}
    {later : List ℚ} :
    ({ lastFractionLoss, lastRtcEventLogMs } : GccController ℚ ℚ).detector.Leaning σ later := by
  refine ⟨?_, ?_, List.Pairwise.nil, List.forall_mem_nil _,
    List.forall_mem_nil _, ?_⟩
  · change 6 ≤ (12.5 : ℚ) ∧ (12.5 : ℚ) ≤ 600
    norm_num
  · exact le_rfl
  · change σ * (0.0 : ℚ) ≤ 0
    norm_num

/-- Over feedbacks that arrive in order, the detector never speaks of over-use where no gap grew
on the way, and never of under-use where none shrank. -/
theorem hypothesis_follows_delay {lastFractionLoss : UInt8} {lastRtcEventLogMs : Int64}
    (hordered : (samples es).Pairwise fun x y => x.arrival.toInt ≤ y.arrival.toInt) :
    ((∀ x ∈ samples es, x.arrivalGap.toInt ≤ x.departureGap) →
        Run.Always (step m) (fun c => c.hypothesis ≠ .overusing)
          { lastFractionLoss, lastRtcEventLogMs } es) ∧
      ((∀ x ∈ samples es, (x.departureGap : Int) ≤ x.arrivalGap.toInt) →
        Run.Always (step m) (fun c => c.hypothesis ≠ .underusing)
          { lastFractionLoss, lastRtcEventLogMs } es) := by
  constructor
  · intro hgaps
    apply Detector.Leaning.fresh.run (.inl ⟨rfl, rfl⟩)
      (show BandwidthUsage.normal ≠ .overusing by decide) hordered
    intro x hx
    rw [one_mul, one_mul]
    exact_mod_cast hgaps x hx
  · intro hgaps
    apply Detector.Leaning.fresh.run (.inr ⟨rfl, rfl⟩)
      (show BandwidthUsage.normal ≠ .underusing by decide) hordered
    intro x hx
    rw [neg_one_mul, neg_one_mul, neg_le_neg_iff]
    exact_mod_cast hgaps x hx

/-- Packets that are sent 20 ms apart and arrive 50 ms apart, each with its feedback. -/
def queueing (count : ℕ) : List Event :=
  (List.range count).flatMap fun i =>
    [.call (.processSendPacket (20000 * .ofNat i) (.ofNat i) 1200),
      .call (.processFeedback {
        nowUs := 50000 * .ofNat i + 50000
        sequence := .ofNat i
        rxTimestampUs := 50000 * .ofNat i + 15000
        interArrival := 50000
        interDeparture := 20000
        arrivalTime := 50000 * .ofNat i + 15000
        nowMs := 50 * .ofNat i + 50
        rttUs := 0 })]

theorem hypothesis_follows_delay_queueing :
    Run.Always (step (⟨fun _ => 1, fun _ _ => 1⟩ : Libm ℚ ℚ))
      (fun c => c.hypothesis ≠ .underusing)
      { lastFractionLoss := 0, lastRtcEventLogMs := 0 } (queueing 22) :=
  (hypothesis_follows_delay (by decide +kernel)).2 (by decide +kernel)

end

/-! ## What an over-use rests on -/

/-- What the timer shows after samples above the threshold with these departure gaps. Of the first
gap it counts one half. -/
def overTime : List ℕ → ℚ
  | [] => -1
  | gap :: gaps => gap / 2 + gaps.sum

theorem overTime_append (gaps : List ℕ) (gap : ℕ) :
    overTime (gaps ++ [gap]) =
      if overTime gaps = -1 then (gap : ℚ) / 2 else overTime gaps + gap := by
  cases gaps with
  | nil => simp [overTime]
  | cons first gaps =>
      have hpos : 0 ≤ overTime (first :: gaps) := by
        simp only [overTime]
        positivity
      rw [if_neg (by linarith)]
      simp only [overTime, List.cons_append, List.sum_append, List.sum_singleton, Nat.cast_add]
      ring

/-- The latest samples were above the threshold, with the departure gaps in `stretch`. -/
structure Detector.Evidenced (stretch : List ℕ) (d : Detector ℚ) : Prop where
  threshold : 6 ≤ d.threshold ∧ d.threshold ≤ 600
  count : d.numOfDeltas.toNat ≤ 1000
  hist : d.delayHist.length = min d.numOfDeltas.toNat 20
  waiting : d.delayHist.length < 20 → d.offset = 0 ∧ stretch = [] ∧ d.hypothesis = .normal
  timer : d.hypothesis ≠ .overusing →
    d.timeOverUsing = overTime stretch ∧ d.overuseCounter = .ofNat stretch.length

/-- An over-use that the samples before it bear out. -/
structure Detector.Justified (stretch : List ℕ) (before after : Detector ℚ) : Prop where
  twice : 2 ≤ stretch.length
  long : 10 < overTime stretch
  rising : before.offset ≤ after.offset
  full : after.delayHist.length = 20

/-- The stretch after a sample. -/
def extend (x : Sample) (before after : Detector ℚ) (stretch : List ℕ) : List ℕ :=
  if before.threshold < after.level then stretch ++ [x.departureGap] else []

theorem toNat_numOfDeltas_succ {n : UInt16} (h : n.toNat ≤ 1000) :
    (if 1000 < n + 1 then 1000 else n + 1).toNat = min (n.toNat + 1) 1000 := by
  have hsucc : (n + 1).toNat = n.toNat + 1 := by
    rw [UInt16.toNat_add]
    exact Nat.mod_eq_of_lt (by simpa using Nat.lt_of_le_of_lt (Nat.succ_le_succ h) (by decide))
  split_ifs with hmore
  · have := UInt16.lt_iff_toNat_lt.mp hmore
    simp only [hsucc, UInt16.reduceToNat] at this ⊢
    omega
  · have := UInt16.lt_iff_toNat_lt.not.mp hmore
    simp only [hsucc, UInt16.reduceToNat] at this ⊢
    omega

section

variable {m : Libm ℚ ℚ} {c : GccController ℚ ℚ} {stretch : List ℕ}

theorem overuseEstimatorUpdate_hist (tDelta nowMs : Int64) (tsDelta : ℚ)
    (hcount : c.numOfDeltas.toNat ≤ 1000)
    (hhist : c.delayHist.length = min c.numOfDeltas.toNat 20) :
    (c.overuseEstimatorUpdate tDelta tsDelta nowMs).numOfDeltas.toNat =
        min (c.numOfDeltas.toNat + 1) 1000 ∧
      (c.overuseEstimatorUpdate tDelta tsDelta nowMs).delayHist.length =
        min (c.numOfDeltas.toNat + 1) 20 := by
  refine ⟨toNat_numOfDeltas_succ hcount, ?_⟩
  simp only [overuseEstimatorUpdate]
  split_ifs with hfull <;>
    simp only [List.length_append, List.length_singleton, List.length_drop] at * <;> omega

/-- Until the history is full, the slope stays as it is. -/
theorem overuseEstimatorUpdate_offset (tDelta nowMs : Int64) (tsDelta : ℚ)
    (hlength : (c.overuseEstimatorUpdate tDelta tsDelta nowMs).delayHist.length ≠ 20) :
    (c.overuseEstimatorUpdate tDelta tsDelta nowMs).offset = c.offset :=
  if_neg hlength

theorem Detector.level_eq_zero {d : Detector ℚ} (h : d.offset = 0) : d.level = 0 := by
  rw [Detector.level, h, mul_zero, zero_mul]

theorem Detector.Evidenced.estimator (h : c.detector.Evidenced stretch) (tDelta nowMs : Int64)
    (tsDelta : ℚ) :
    (c.overuseEstimatorUpdate tDelta tsDelta nowMs).detector.Evidenced stretch := by
  obtain ⟨hcount, hhist⟩ := overuseEstimatorUpdate_hist tDelta nowMs tsDelta h.count h.hist
  refine ⟨h.threshold, ?_, ?_, ?_, h.timer⟩
  · exact hcount.trans_le (min_le_right _ _)
  · refine hhist.trans ?_
    rw [show (c.overuseEstimatorUpdate tDelta tsDelta nowMs).detector.numOfDeltas.toNat = _
      from hcount]
    omega
  · intro hfew
    have hbefore : c.detector.delayHist.length < 20 := by
      rw [h.hist]
      have hfew' : (c.overuseEstimatorUpdate tDelta tsDelta nowMs).delayHist.length < 20 := hfew
      rw [hhist] at hfew'
      change min c.numOfDeltas.toNat 20 < 20
      omega
    obtain ⟨hoffset, hrest⟩ := h.waiting hbefore
    exact ⟨(overuseEstimatorUpdate_offset tDelta nowMs tsDelta hfew.ne).trans hoffset, hrest⟩

theorem two_le_of_one_lt_ofNat {n : ℕ} (h : 1 < Int32.ofNat n) : 2 ≤ n := by
  by_contra hless
  have hn : n = 0 ∨ n = 1 := by omega
  rcases hn with rfl | rfl <;> exact absurd h (by decide)

/-- One case for each thing that the detector can say. -/
theorem Detector.Evidenced.judged {d : Detector ℚ} (h : d.Evidenced stretch) (x : Sample)
    {threshold timeOverUsing prevOffset : ℚ} {utLastUpdateMs : Int64} {overuseCounter : Int32}
    {hypothesis : BandwidthUsage}
    (hthreshold : 6 ≤ threshold ∧ threshold ≤ 600)
    (hjudged : d.Judged x.departureGap timeOverUsing overuseCounter hypothesis) :
    let after : Detector ℚ := { d with
      threshold, utLastUpdateMs, prevOffset, timeOverUsing, overuseCounter, hypothesis }
    after.Evidenced (extend x d after stretch) ∧
      (d.hypothesis ≠ .overusing → hypothesis = .overusing → d.prevOffset ≤ d.offset ∧
        2 ≤ (extend x d after stretch).length ∧ 10 < overTime (extend x d after stretch) ∧
        d.delayHist.length = 20) := by
  intro after
  have hsame : after.level = d.level := rfl
  have hpos : 0 < d.threshold := by linarith [h.threshold.1]
  have hfull (hlevel : d.level ≠ 0) : d.delayHist.length = 20 := by
    refine le_antisymm (h.hist.trans_le (min_le_right _ _)) (not_lt.mp fun hfew => hlevel ?_)
    exact Detector.level_eq_zero (h.waiting hfew).1
  have hextended (habove : d.threshold < d.level) :
      extend x d after stretch = stretch ++ [x.departureGap] := if_pos habove
  have hcleared (hbelow : ¬ d.threshold < d.level) : extend x d after stretch = [] := if_neg hbelow
  have htime (hd : d.hypothesis ≠ .overusing) :
      d.overFor x.departureGap = overTime (stretch ++ [x.departureGap]) ∧
        d.overuseCounter + 1 = .ofNat (stretch ++ [x.departureGap]).length := by
    obtain ⟨htimer, hcounter⟩ := h.timer hd
    rw [Detector.overFor, overTime_append, htimer, hcounter, List.length_append,
      List.length_singleton, Int32.ofNat_add]
    exact ⟨rfl, rfl⟩
  cases hjudged with
  | above habove =>
      have hlength := hfull (hpos.trans habove).ne'
      rw [hextended habove]
      refine ⟨⟨hthreshold, h.count, h.hist, fun hfew => absurd hlength hfew.ne, htime⟩, ?_⟩
      intro hd hafter
      exact absurd hafter hd
  | declared habove hlong htwice hrising =>
      have hlength := hfull (hpos.trans habove).ne'
      rw [hextended habove]
      refine ⟨⟨hthreshold, h.count, h.hist, fun hfew => absurd hlength hfew.ne,
        fun hd => absurd rfl hd⟩, ?_⟩
      intro hd _
      obtain ⟨hover, hcounter⟩ := htime hd
      rw [hover] at hlong
      rw [hcounter] at htwice
      exact ⟨hrising, two_le_of_one_lt_ofNat htwice, hlong, hlength⟩
  | under hunder =>
      have hlength := hfull (hunder.trans (neg_lt_zero.mpr hpos)).ne
      rw [hcleared (by linarith)]
      refine ⟨⟨hthreshold, h.count, h.hist, fun hfew => absurd hlength hfew.ne,
        fun _ => ⟨rfl, rfl⟩⟩, ?_⟩
      intro _ hafter
      cases hafter
  | normal hbelow _ =>
      rw [hcleared hbelow]
      refine ⟨⟨hthreshold, h.count, h.hist, fun hfew => ⟨(h.waiting hfew).1, rfl, rfl⟩,
        fun _ => ⟨rfl, rfl⟩⟩, ?_⟩
      intro _ hafter
      cases hafter

theorem Detector.Evidenced.detect (h : c.detector.Evidenced stretch)
    (hprev : c.prevOffset = c.offset) (x : Sample) :
    (c.detect x).detector.Evidenced (extend x c.detector (c.detect x).detector stretch) ∧
      (c.detect x).prevOffset = (c.detect x).offset ∧
      (c.hypothesis ≠ .overusing → (c.detect x).hypothesis = .overusing →
        Justified (extend x c.detector (c.detect x).detector stretch) c.detector
          (c.detect x).detector) := by
  have hestimated := h.estimator x.arrivalGap x.arrival (Floating.ofInt x.departureGap)
  rcases overuseDetectorDetect_spec x.departureGap x.arrival
      (c.overuseEstimatorUpdate x.arrivalGap (Floating.ofInt x.departureGap) x.arrival)
    with ⟨hnum, hsame⟩ | ⟨_, _, _, _, _, heq, hclamp, hjudged⟩
  · have hfew : (c.overuseEstimatorUpdate x.arrivalGap (Floating.ofInt x.departureGap) x.arrival
        ).detector.delayHist.length < 20 := by
      rw [hestimated.hist]
      have htwo := UInt16.lt_iff_toNat_lt.mp hnum
      exact (min_le_left _ _).trans_lt (htwo.trans (by decide))
    obtain ⟨hoffset, hstretch, hnormal⟩ := hestimated.waiting hfew
    rw [GccController.detect, hsame]
    have hcleared : extend x c.detector (c.overuseEstimatorUpdate x.arrivalGap
        (Floating.ofInt x.departureGap) x.arrival).detector stretch = [] := by
      refine if_neg ?_
      rw [Detector.level_eq_zero hoffset]
      linarith [h.threshold.1]
    rw [hcleared]
    refine ⟨hstretch ▸ hestimated, ?_, ?_⟩
    · exact hprev.trans (overuseEstimatorUpdate_offset _ _ _ hfew.ne).symm
    · intro _ hafter
      exact absurd (hnormal.symm.trans hafter) (by decide)
  · obtain ⟨hafter, hjustified⟩ :=
      hestimated.judged x (hclamp hestimated.threshold) hjudged
    have hdetector : (c.detect x).detector = _ := heq
    rw [hdetector]
    refine ⟨hafter, ?_, ?_⟩
    · exact (congrArg Detector.prevOffset hdetector).trans
        (congrArg Detector.offset hdetector).symm
    · intro hc hover
      obtain ⟨hrising, htwice, hlong, hlength⟩ :=
        hjustified hc ((congrArg Detector.hypothesis hdetector).symm.trans hover)
      exact ⟨htwice, hlong, hprev.symm.trans_le hrising, hlength⟩

/-- A step that notes the departure gaps of the latest samples above the threshold. -/
def noting (m : Libm ℚ ℚ) (s : GccController ℚ ℚ × List ℕ) (e : Event) :
    Option (GccController ℚ ℚ × List ℕ) :=
  (s.1.step m e).map fun d => (d,
    match s.1.sampled e with
    | none => s.2
    | some x => extend x s.1.detector d.detector s.2)

/-- A step into over-use is justified by the samples up to it. -/
def OveruseJustified (m : Libm ℚ ℚ) (s : GccController ℚ ℚ × List ℕ) (e : Event) : Prop :=
  ∀ s', noting m s e = some s' → s.1.hypothesis ≠ .overusing → s'.1.hypothesis = .overusing →
    Detector.Justified s'.2 s.1.detector s'.1.detector

theorem Detector.Evidenced.noting {s s' : GccController ℚ ℚ × List ℕ} {e : Event}
    (h : s.1.detector.Evidenced s.2) (hprev : s.1.prevOffset = s.1.offset)
    (hstep : noting m s e = some s') :
    s'.1.detector.Evidenced s'.2 ∧ s'.1.prevOffset = s'.1.offset ∧
      (s.1.hypothesis ≠ .overusing → s'.1.hypothesis = .overusing →
        Detector.Justified s'.2 s.1.detector s'.1.detector) := by
  obtain ⟨d, hd, rfl⟩ := Option.map_eq_some_iff.mp hstep
  rcases step_detector m hd with ⟨hnone, heq⟩ | ⟨x, hx, g, hg, heq⟩
  · simp only [hnone]
    refine ⟨heq ▸ h, ?_, ?_⟩
    · exact (congrArg Detector.prevOffset heq).trans
        (hprev.trans (congrArg Detector.offset heq).symm)
    · intro hbefore hafter
      exact absurd ((congrArg Detector.hypothesis heq).symm.trans hafter) hbefore
  · have hgprev : g.prevOffset = g.offset := (congrArg Detector.prevOffset hg).trans
      (hprev.trans (congrArg Detector.offset hg).symm)
    obtain ⟨hevidenced, hsame, hjustified⟩ := Detector.Evidenced.detect (hg ▸ h) hgprev x
    simp only [hx]
    rw [heq, ← hg]
    refine ⟨hevidenced, ?_, ?_⟩
    · exact (congrArg Detector.prevOffset heq).trans
        (hsame.trans (congrArg Detector.offset heq).symm)
    · intro hbefore hafter
      exact hjustified ((congrArg Detector.hypothesis hg).trans_ne hbefore)
        ((congrArg Detector.hypothesis heq).symm.trans hafter)

/-- In every run the controller takes a path for over-used only after a full history, and after at
least two samples in a row above the threshold that lasted for more than ten milliseconds, the
last of them with a slope that has not fallen. -/
theorem overuse_justified (m : Libm ℚ ℚ) (lastFractionLoss : UInt8) (lastRtcEventLogMs : Int64)
    (es : List Event) :
    Run.Each (noting m) (OveruseJustified m) ({ lastFractionLoss, lastRtcEventLogMs }, []) es := by
  have hfresh : ({ lastFractionLoss, lastRtcEventLogMs } : GccController ℚ ℚ).detector.Evidenced
      [] := by
    have hthreshold : 6 ≤ (12.5 : ℚ) ∧ (12.5 : ℚ) ≤ 600 := by norm_num
    have hoffset : (0.0 : ℚ) = 0 := by norm_num
    have htimer : (-1.0 : ℚ) = -1 := by norm_num
    exact ⟨hthreshold, Nat.zero_le _, rfl, fun _ => ⟨hoffset, rfl, rfl⟩, fun _ => ⟨htimer, rfl⟩⟩
  suffices hrun : ∀ s : GccController ℚ ℚ × List ℕ, s.1.detector.Evidenced s.2 →
      s.1.prevOffset = s.1.offset → Run.Each (noting m) (OveruseJustified m) s es from
    hrun _ hfresh rfl
  induction es with
  | nil => exact fun _ _ _ => trivial
  | cons e es ih =>
      intro s h hprev
      refine ⟨fun s' hs' => (h.noting hprev hs').2.2, fun s' hs' => ?_⟩
      obtain ⟨hnext, hprevNext, -⟩ := h.noting hprev hs'
      exact ih s' hnext hprevNext

example : (Run.exec (noting ⟨fun _ => 1, fun _ _ => 1⟩)
    ({ lastFractionLoss := 0, lastRtcEventLogMs := 0 }, []) (queueing 22)).map
      (fun s => (s.1.hypothesis, s.2)) = some (.overusing, [20, 20]) := by decide +kernel

end

end

end Zhuge.GccController
