-- SUMMARY: What one feedback does to the rate of the GCC controller.
import Mathlib.Tactic.SplitIfs
import Mathlib.Data.List.Basic
import Zhuge.GccController

/-!
# The rate after a feedback

The loss-based rate control never leaves its start: no report time is ever recorded. What is
left of a feedback is the update of the delay-based rate control, within fixed bounds. None of
this depends on what the floating-point operations do.
-/

namespace Zhuge.GccController

variable {F D : Type} [Floating F] [Floating D]

/-! ## Frames -/

/-- The fields that decide which part of the rate control is alive. -/
structure View where
  lastTimeCalcValid : Bool
  numOfDeltas : UInt16
  hypothesis : BandwidthUsage
  currentBitrateBps : UInt32
  bitrateIsInitialized : Bool
  lastUpdateMs : Int64
  timeFirstIncomingEstimate : Int64
  minBitrateConfigured : UInt32
  maxBitrateConfigured : UInt32
  lastPacketReportMs : Int64
  timeLastDecreaseMs : Int64
  lastRoundTripTimeMs : Int64

def view (c : GccController F D) : View :=
  { c with }

theorem updateMetrics_view {c d : GccController F D} (h : c.updateMetrics = some d) :
    d.view = c.view := by
  obtain ⟨⟨rate, base⟩, -, h⟩ := Option.bind_eq_some_iff.mp h
  obtain ⟨info, -, h⟩ := Option.bind_eq_some_iff.mp h
  cases info <;> cases h <;> rfl

theorem updateThreshold_view (modifiedOffset : D) (nowMs : Int64) (c : GccController F D) :
    (c.updateThreshold modifiedOffset nowMs).view = c.view := by
  simp only [updateThreshold]
  split_ifs <;> rfl

/-- The detector changes nothing but its hypothesis, and that not before the second delta. -/
theorem overuseDetectorDetect_view (tsDelta : D) (nowMs : Int64) (c : GccController F D) :
    ∃ hypothesis, (c.overuseDetectorDetect tsDelta nowMs).view = { c.view with hypothesis } ∧
      (c.numOfDeltas < 2 → hypothesis = c.hypothesis) := by
  by_cases hfew : c.numOfDeltas < 2
  · exact ⟨c.hypothesis, by rw [overuseDetectorDetect, if_pos hfew]; rfl, fun _ => rfl⟩
  · simp only [overuseDetectorDetect, if_neg hfew, updateThreshold_view]
    split_ifs <;> exact ⟨_, rfl, fun h => absurd h hfew⟩

theorem overuseEstimatorUpdate_view (tDelta : Int64) (tsDelta : D) (nowMs : Int64)
    (c : GccController F D) :
    ∃ numOfDeltas, (c.overuseEstimatorUpdate tDelta tsDelta nowMs).view
        = { c.view with numOfDeltas } ∧ (c.numOfDeltas = 0 → numOfDeltas = 1) := by
  refine ⟨if 1000 < c.numOfDeltas + 1 then 1000 else c.numOfDeltas + 1, rfl, fun hzero => ?_⟩
  rw [hzero]
  decide

theorem estimate_view {f : Feedback} {c d : GccController F D} (h : c.estimate f = some d) :
    ∃ numOfDeltas hypothesis, d.view = { c.view with numOfDeltas, hypothesis } ∧
      (c.numOfDeltas = 0 → hypothesis = c.hypothesis) := by
  obtain ⟨e, he, heq⟩ := Option.map_eq_some_iff.mp h
  have hview := updateMetrics_view he
  cases heq
  let tsDelta : D := Floating.ofInt (f.interDeparture.toUInt32 / 1000).toNat
  obtain ⟨numOfDeltas, hupdate, hone⟩ :=
    overuseEstimatorUpdate_view (f.interArrival / 1000) tsDelta (f.arrivalTime / 1000) e
  obtain ⟨hypothesis, hdetect, hfew⟩ := overuseDetectorDetect_view tsDelta (f.arrivalTime / 1000)
    (e.overuseEstimatorUpdate (f.interArrival / 1000) tsDelta (f.arrivalTime / 1000))
  rw [hupdate, hview] at hdetect
  have hrtt (c : GccController F D) (rtt : Int64) : view { c with rtt } = c.view := rfl
  refine ⟨numOfDeltas, hypothesis, (hrtt _ _).trans hdetect, fun hzero => ?_⟩
  have hnum : View.numOfDeltas _ = numOfDeltas := congrArg View.numOfDeltas hupdate
  have hhypothesis : View.hypothesis _ = e.hypothesis := congrArg View.hypothesis hupdate
  rw [hone ((congrArg View.numOfDeltas hview).trans hzero)] at hnum
  have hkept := hfew (lt_of_eq_of_lt hnum (by decide))
  exact hkept.trans (hhypothesis.trans (congrArg View.hypothesis hview))

/-! ## Bounds -/

theorem capBitrateToThresholds_currentBitrateBps (nowMs : Int64) (bitrateBps : UInt32)
    {c : GccController F D} (h : c.minBitrateConfigured ≤ c.maxBitrateConfigured) :
    (c.capBitrateToThresholds nowMs bitrateBps).currentBitrateBps.toNat
      = max c.minBitrateConfigured.toNat (min c.maxBitrateConfigured.toNat
          (if 0 < c.delayBasedBitrateBps ∧ c.delayBasedBitrateBps < bitrateBps then
            c.delayBasedBitrateBps.toNat
          else bitrateBps.toNat)) := by
  rw [UInt32.le_iff_toNat_le] at h
  simp only [capBitrateToThresholds, decide_eq_true_eq, UInt32.lt_iff_toNat_lt]
  split_ifs <;> omega

/-- The bounds of the rate and the fields that a loss report in a feedback packet would set. -/
structure View.Dormant (v : View) : Prop where
  minBitrateConfigured : v.minBitrateConfigured = minConfiguredBitrateBps
  maxBitrateConfigured : v.maxBitrateConfigured = maxConfiguredBitrateBps
  lastPacketReportMs : v.lastPacketReportMs = -1
  timeLastDecreaseMs : v.timeLastDecreaseMs = 0
  lastRoundTripTimeMs : v.lastRoundTripTimeMs = 0

/-- The rate within its bounds. -/
def bounded (bitrate : Nat) : Nat := max 500000 (min 100000000 bitrate)

theorem cap_bounded (nowMs : Int64) (bitrateBps : UInt32) {c : GccController F D}
    (h : c.view.Dormant) :
    (c.capBitrateToThresholds nowMs bitrateBps).currentBitrateBps.toNat
      = bounded (if 0 < c.delayBasedBitrateBps ∧ c.delayBasedBitrateBps < bitrateBps then
          c.delayBasedBitrateBps.toNat
        else bitrateBps.toNat) := by
  have hmin : c.minBitrateConfigured = minConfiguredBitrateBps := h.minBitrateConfigured
  have hmax : c.maxBitrateConfigured = maxConfiguredBitrateBps := h.maxBitrateConfigured
  rw [capBitrateToThresholds_currentBitrateBps nowMs bitrateBps (by rw [hmin, hmax]; decide),
    hmin, hmax]
  rfl

/-- The loss-based rate control finds no report and caps the rate once more. -/
theorem updateEstimate_view (nowMs : Int64) {c : GccController F D} (h : c.view.Dormant)
    (hcapped : c.currentBitrateBps.toNat = bounded c.delayBasedBitrateBps.toNat) :
    ∃ bitrate : UInt32, (c.updateEstimate nowMs).view = { c.view with
        currentBitrateBps := bitrate } ∧
      bitrate.toNat = bounded c.delayBasedBitrateBps.toNat := by
  have hreport : c.lastPacketReportMs = -1 := h.lastPacketReportMs
  simp only [updateEstimate]
  split_ifs with hstart hnone
  · refine ⟨_, rfl, (cap_bounded nowMs _ (c := { c with
      minBitrateHistory := [(nowMs, c.currentBitrateBps)] }) h).trans ?_⟩
    simp only [UInt32.lt_iff_toNat_lt, UInt32.toNat_max, UInt32.toNat_zero]
    simp only [bounded] at hcapped ⊢
    split_ifs <;> omega
  · refine ⟨_, rfl, (cap_bounded nowMs _ (c := c.updateMinHistory nowMs) h).trans ?_⟩
    simp only [updateMinHistory, UInt32.lt_iff_toNat_lt, UInt32.toNat_zero]
    simp only [bounded] at hcapped ⊢
    split_ifs <;> omega
  · exact absurd hreport hnone

/-- What is left of the two rate controls once the delay-based one has updated the rate. -/
theorem caps_view (nowMs : Int64) {c : GccController F D} (h : c.view.Dormant) :
    ∃ bitrate : UInt32,
      ((c.updateDelayBasedEstimate nowMs c.currentBitrateBps).updateEstimate nowMs).view
          = { c.view with currentBitrateBps := bitrate } ∧
        bitrate.toNat = bounded c.currentBitrateBps.toNat := by
  have hdormant : (c.updateDelayBasedEstimate nowMs c.currentBitrateBps).view.Dormant :=
    { h with }
  have hcapped := cap_bounded nowMs c.currentBitrateBps
    (c := { c with delayBasedBitrateBps := c.currentBitrateBps }) { h with }
  simp only [ite_self] at hcapped
  obtain ⟨bitrate, hview, hbounded⟩ := updateEstimate_view nowMs hdormant hcapped
  exact ⟨bitrate, hview, hbounded⟩

theorem clampBitrate_toNat (newBitrateBps incomingBitrateBps : UInt32) (c : GccController F D) :
    (c.clampBitrate newBitrateBps incomingBitrateBps).toNat
      = max 500000
          (min newBitrateBps.toNat (maxBitrateBps F incomingBitrateBps).toNat) := by
  have hmin : minConfiguredBitrateBps.toNat = 500000 := rfl
  simp only [clampBitrate, UInt32.toNat_max, UInt32.toNat_min, hmin, UInt32.lt_iff_toNat_lt]
  split_ifs
  · rw [UInt32.toNat_max]
    omega
  · omega

theorem changeState_view (nowMs : Int64) (c : GccController F D) :
    (c.changeState nowMs).view = c.view := by
  unfold changeState
  split <;> rfl

theorem increaseBitrate_view (m : Libm F D) (nowMs : Int64)
    (incomingBitrateKbps stdMaxBitRate : F) (c : GccController F D) :
    (c.increaseBitrate m nowMs incomingBitrateKbps stdMaxBitRate).2.view = c.view := by
  simp only [increaseBitrate]
  split_ifs <;> rfl

/-! ## The time of the first estimate -/

/-- The controller with another time of the first estimate, which the rate ignores. -/
def withFirstEstimate (timeFirstIncomingEstimate : Int64) (c : GccController F D) :
    GccController F D :=
  { c with timeFirstIncomingEstimate }

/-- The first update sets the time of the first estimate at most. -/
theorem exists_withFirstEstimate (nowMs : Int64) (incomingBitrate : UInt32)
    {c : GccController F D} (h : c.bitrateIsInitialized ∨ c.timeFirstIncomingEstimate < 0) :
    ∃ time, (if c.bitrateIsInitialized then c
      else if c.timeFirstIncomingEstimate < 0 then
        if incomingBitrate ≠ 0 then { c with timeFirstIncomingEstimate := nowMs } else c
      else if 5000 < nowMs - c.timeFirstIncomingEstimate ∧ 0 < incomingBitrate then
        { c with currentBitrateBps := incomingBitrate, bitrateIsInitialized := true }
      else c) = c.withFirstEstimate time := by
  split_ifs with hinit hfirst hincoming hlate
  · exact ⟨c.timeFirstIncomingEstimate, rfl⟩
  · exact ⟨nowMs, rfl⟩
  · exact ⟨c.timeFirstIncomingEstimate, rfl⟩
  · exact absurd (h.resolve_left hinit) hfirst
  · exact absurd (h.resolve_left hinit) hfirst

theorem changeState_withFirstEstimate (nowMs time : Int64) (c : GccController F D) :
    (c.withFirstEstimate time).changeState nowMs
      = (c.changeState nowMs).withFirstEstimate time := by
  cases hhypothesis : c.hypothesis <;> cases hstate : c.rateControlState <;>
    simp only [changeState, withFirstEstimate, hhypothesis, hstate]

theorem increaseBitrate_withFirstEstimate (m : Libm F D) (nowMs time : Int64)
    (incomingBitrateKbps stdMaxBitRate : F) (c : GccController F D) :
    ((c.withFirstEstimate time).increaseBitrate m nowMs incomingBitrateKbps stdMaxBitRate).1
      = (c.increaseBitrate m nowMs incomingBitrateKbps stdMaxBitRate).1 := by
  have habove : (c.withFirstEstimate time).aboveMaxBitRate incomingBitrateKbps stdMaxBitRate
      = c.aboveMaxBitRate incomingBitrateKbps stdMaxBitRate := rfl
  simp only [increaseBitrate, habove]
  cases c.aboveMaxBitRate incomingBitrateKbps stdMaxBitRate
  · simp only [Bool.false_eq_true, if_false]
    cases hregion : c.rateControlRegion
    · simp only [withFirstEstimate, hregion]
    · simp only [withFirstEstimate, hregion]
      rfl
  · rfl

/-! ## The invariant -/

/-- The rate control was initialised, or the first update will not find an over-use. -/
def View.Ready (v : View) : Prop :=
  v.bitrateIsInitialized ∨ (v.hypothesis = .normal ∧ v.timeFirstIncomingEstimate < 0)

/-- What is known of the rate between calls. -/
structure View.Invariant (v : View) : Prop extends v.Dormant where
  bounded : v.currentBitrateBps.toNat = bounded v.currentBitrateBps.toNat
  started : v.bitrateIsInitialized ∨ (v.lastUpdateMs = -1 ∧ v.numOfDeltas = 0 ∧
    v.hypothesis = .normal ∧ v.timeFirstIncomingEstimate < 0)

/-- What is known of it once the detector has run. -/
structure View.Measured (v : View) : Prop extends v.Dormant where
  bounded : v.currentBitrateBps.toNat = bounded v.currentBitrateBps.toNat
  ready : v.Ready
  due : v.bitrateIsInitialized ∨ v.lastUpdateMs = -1

theorem measured_of_estimate {f : Feedback} {c d : GccController F D}
    (hinv : c.view.Invariant) (h : c.estimate f = some d) : d.view.Measured := by
  obtain ⟨numOfDeltas, hypothesis, hview, hfew⟩ := estimate_view h
  rw [hview]
  refine { hinv with ready := ?_, due := hinv.started.imp id And.left }
  exact hinv.started.imp id fun hfresh =>
    ⟨(hfew hfresh.2.1).trans hfresh.2.2.1, hfresh.2.2.2⟩

theorem setInitialBitrates_dormant (f : Feedback) {c : GccController F D} (h : c.view.Dormant) :
    (c.setInitialBitrates f).view.Dormant ∧
      (c.setInitialBitrates f).currentBitrateBps.toNat = 500000 := by
  have hmin : max minConfiguredBitrateBps c.minBitrateConfigured = minConfiguredBitrateBps := by
    rw [show c.minBitrateConfigured = _ from h.minBitrateConfigured]
    rfl
  have hmax : max (max minConfiguredBitrateBps c.minBitrateConfigured) maxConfiguredBitrateBps
      = maxConfiguredBitrateBps := by
    rw [hmin]
    rfl
  have hdormant : ({ { c with lastTimeCalcValid := true }.setMinMaxBitrate minConfiguredBitrateBps
      maxConfiguredBitrateBps with delayBasedBitrateBps := 0 } : GccController F D).view.Dormant :=
    { h with minBitrateConfigured := hmin, maxBitrateConfigured := hmax }
  exact ⟨{ hdormant with },
    (cap_bounded f.nowUs.toUInt32.toInt32.toInt64 minConfiguredBitrateBps hdormant).trans rfl⟩

theorem setInitialBitrates_invariant (f : Feedback) {c : GccController F D}
    (h : c.view.Invariant) : (c.setInitialBitrates f).view.Invariant ∧
      (c.setInitialBitrates f).currentBitrateBps.toNat = 500000 := by
  obtain ⟨hdormant, hrate⟩ := setInitialBitrates_dormant f h.toDormant
  refine ⟨{ hdormant with started := h.started, bounded := ?_ }, hrate⟩
  change (c.setInitialBitrates f).currentBitrateBps.toNat
    = GccController.bounded (c.setInitialBitrates f).currentBitrateBps.toNat
  rw [hrate]
  rfl

/-! ## The delay-based rate control -/

section

variable [Widening F D] (m : Libm F D)

/-- The rate that the state machine asks for. -/
def targetBitrate (nowMs : Int64) (c : GccController F D) : UInt32 :=
  ((c.changeState nowMs).proposeBitrate m nowMs c.incomingBitrate).1

theorem proposeBitrate_view (nowMs : Int64) (incomingBitrateBps : UInt32)
    (c : GccController F D) :
    ∃ bitrateIsInitialized, (c.proposeBitrate m nowMs incomingBitrateBps).2.view
      = { c.view with bitrateIsInitialized } := by
  unfold proposeBitrate
  cases c.rateControlState with
  | hold => exact ⟨c.bitrateIsInitialized, rfl⟩
  | increase => exact ⟨c.bitrateIsInitialized, increaseBitrate_view ..⟩
  | decrease => exact ⟨true, rfl⟩

theorem proposeBitrate_withFirstEstimate (nowMs time : Int64) (incomingBitrateBps : UInt32)
    (c : GccController F D) :
    ((c.withFirstEstimate time).proposeBitrate m nowMs incomingBitrateBps).1
      = (c.proposeBitrate m nowMs incomingBitrateBps).1 := by
  have hstate : (c.withFirstEstimate time).rateControlState = c.rateControlState := rfl
  unfold proposeBitrate
  rw [hstate]
  cases c.rateControlState with
  | hold => rfl
  | increase => exact increaseBitrate_withFirstEstimate ..
  | decrease => rfl

theorem targetBitrate_withFirstEstimate (nowMs time : Int64) (c : GccController F D) :
    (c.withFirstEstimate time).targetBitrate m nowMs = c.targetBitrate m nowMs := by
  rw [targetBitrate, changeState_withFirstEstimate]
  exact proposeBitrate_withFirstEstimate ..

theorem changeBitrate_view (nowMs : Int64) (incomingBitrateBps : UInt32)
    (c : GccController F D) :
    ∃ bitrateIsInitialized, (c.changeBitrate m nowMs incomingBitrateBps).2.view
      = { c.view with bitrateIsInitialized } := by
  unfold changeBitrate
  split
  · exact ⟨c.bitrateIsInitialized, rfl⟩
  · rw [← changeState_view nowMs c]
    exact proposeBitrate_view ..

theorem changeBitrate_toNat (nowMs : Int64) {c : GccController F D}
    (h : c.bitrateIsInitialized ∨ c.hypothesis ≠ .overusing) :
    (c.changeBitrate m nowMs c.incomingBitrate).1.toNat
      = max 500000
          (min (c.targetBitrate m nowMs).toNat (maxBitrateBps F c.incomingBitrate).toNat) := by
  have hover : ¬ (¬ c.bitrateIsInitialized ∧ c.hypothesis = .overusing) :=
    fun hboth => h.elim hboth.1 fun hne => hne hboth.2
  simp only [changeBitrate, if_neg hover, clampBitrate_toNat, targetBitrate]

/-- The rate that an update proposes, before the bounds. -/
def proposal (nowMs : Int64) (c : GccController F D) : Nat :=
  min (c.targetBitrate m nowMs).toNat (maxBitrateBps F c.incomingBitrate).toNat

theorem update_view (nowMs : Int64) {c : GccController F D} (h : c.view.Ready) :
    ∃ (bitrate : UInt32) (time : Int64),
      (c.update m nowMs c.incomingBitrate).view = { c.view with
          currentBitrateBps := bitrate
          bitrateIsInitialized := true
          timeFirstIncomingEstimate := time } ∧
        bitrate.toNat = max 500000 (c.proposal m nowMs) := by
  obtain ⟨time, htime⟩ :=
    exists_withFirstEstimate nowMs c.incomingBitrate (h.imp id And.right)
  have hover : (c.withFirstEstimate time).bitrateIsInitialized ∨
      (c.withFirstEstimate time).hypothesis ≠ .overusing :=
    h.imp id fun hnormal hover => by cases hnormal.1.symm.trans hover
  obtain ⟨bitrateIsInitialized, hview⟩ :=
    changeBitrate_view m nowMs c.incomingBitrate (c.withFirstEstimate time)
  refine ⟨((c.withFirstEstimate time).changeBitrate m nowMs c.incomingBitrate).1, time, ?_, ?_⟩
  · simp only [update, htime]
    exact congrArg (fun v : View => { v with
      currentBitrateBps :=
        ((c.withFirstEstimate time).changeBitrate m nowMs c.incomingBitrate).1
      bitrateIsInitialized := true }) hview
  · rw [proposal, ← targetBitrate_withFirstEstimate m nowMs time]
    exact changeBitrate_toNat m nowMs hover

/-- An update that is due moves the rate to the proposal, within the bounds. -/
theorem control_view_of_due {f : Feedback} {c : GccController F D} (hdormant : c.view.Dormant)
    (hready : c.view.Ready) (hdue : c.updateEstimateDue f) :
    ∃ (bitrate : UInt32) (time : Int64), (c.control m f).view = { c.view with
        currentBitrateBps := bitrate
        bitrateIsInitialized := true
        timeFirstIncomingEstimate := time
        lastUpdateMs := f.nowMs.toInt64 } ∧
      bitrate.toNat = bounded (c.proposal m f.nowMs.toInt64) := by
  obtain ⟨updated, time, hview, hupdated⟩ := update_view m f.nowMs.toInt64 hready
  let d := { c.update m f.nowMs.toInt64 c.incomingBitrate with lastUpdateMs := f.nowMs.toInt64 }
  have hd : d.view = { c.view with
      currentBitrateBps := updated
      bitrateIsInitialized := true
      timeFirstIncomingEstimate := time
      lastUpdateMs := f.nowMs.toInt64 } :=
    congrArg (fun v : View => { v with lastUpdateMs := f.nowMs.toInt64 }) hview
  have hdormant' : d.view.Dormant := by
    rw [hd]
    exact { hdormant with }
  obtain ⟨bitrate, hcaps, hbitrate⟩ := caps_view f.nowMs.toInt64 hdormant'
  refine ⟨bitrate, time, ?_, ?_⟩
  · rw [control, if_pos hdue]
    exact hcaps.trans (by rw [hd])
  · have hcurrent : d.currentBitrateBps = updated := congrArg View.currentBitrateBps hd
    rw [hbitrate, hcurrent, hupdated]
    simp only [bounded]
    omega

/-- Without an update the rate stays as it is. -/
theorem control_view_of_not_due {f : Feedback} {c : GccController F D}
    (hdormant : c.view.Dormant)
    (hbounded : c.currentBitrateBps.toNat = bounded c.currentBitrateBps.toNat)
    (hdue : ¬ c.updateEstimateDue f) : (c.control m f).view = c.view := by
  obtain ⟨bitrate, hcaps, hbitrate⟩ := caps_view f.nowMs.toInt64 hdormant
  have hsame : bitrate = c.currentBitrateBps :=
    UInt32.toNat_inj.mp (hbitrate.trans hbounded.symm)
  rw [control, if_neg hdue, hcaps, hsame]
  rfl

theorem countLosses_view (f : Feedback) (c : GccController F D) :
    (c.countLosses f).view = c.view := by
  simp only [countLosses]
  split_ifs <;> rfl

theorem receive_view {f : Feedback} {ok : Bool} {c d : GccController F D}
    (h : c.receive f = some (ok, d)) : d.view = c.view := by
  obtain ⟨⟨ok', base⟩, -, heq⟩ := Option.map_eq_some_iff.mp h
  cases heq
  exact (countLosses_view f { c with base }).trans rfl

end

end Zhuge.GccController
