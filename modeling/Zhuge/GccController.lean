-- SUMMARY: The congestion controller with its trendline detector, its delay-based and its loss-based rate control.
import Zhuge.Lib.Floating
import Zhuge.SenderBasedController

/-!
# The GCC controller

Each feedback goes to the base class, then to the detector of over-use, to the delay-based
rate control and to the loss-based one. The loss report of the sender is stored in the base
class, next to a field of the same name in this class that the loss-based control reads.
`F` stands for `float` and `D` for `double`.
-/

namespace Zhuge

/-- `D_hypothesis_`. -/
inductive BandwidthUsage
  | normal
  | overusing
  | underusing
deriving Repr, DecidableEq

inductive RateControlState
  | hold
  | increase
  | decrease
deriving Repr, DecidableEq

inductive RateControlRegion
  | maxUnknown
  | nearMax
deriving Repr, DecidableEq

/-- `min_configured_bitrate_bps_`. -/
def minConfiguredBitrateBps : UInt32 := 500000

/-- `max_configured_bitrate_bps_`. -/
def maxConfiguredBitrateBps : UInt32 := 100000000

/-- The fields without a default are not initialised by the constructor. -/
structure GccController (F D : Type) [Floating F] [Floating D] where
  base : SenderBasedController := {}
  lastTimeCalcValid : Bool := false
  qdelayUs : UInt64 := 0
  pkt : UInt32 := 0
  ploss : UInt32 := 0
  plr : F := 0.0
  recvR : F := 0.0
  timer : UInt64 := 0
  prevSeqLoss : Int32 := 0
  lossMovingAvg : F := 0.0
  numOfDeltas : UInt16 := 0
  offset : D := 0.0
  accumulatedDelay : D := 0.0
  smoothedDelay : D := 0.0
  delayHist : List (D × D) := []
  threshold : D := 12.5
  lastUpdateMs : Int64 := -1
  utLastUpdateMs : Int64 := -1
  prevOffset : D := 0.0
  timeOverUsing : D := -1.0
  overuseCounter : Int32 := 0
  hypothesis : BandwidthUsage := .normal
  currentBitrateBps : UInt32 := minConfiguredBitrateBps
  avgMaxBitrateKbps : F := -1.0
  varMaxBitrateKbps : F := 0.4
  rateControlState : RateControlState := .hold
  rateControlRegion : RateControlRegion := .maxUnknown
  timeLastBitrateChange : Int64 := -1
  timeFirstIncomingEstimate : Int64 := -1
  bitrateIsInitialized : Bool := false
  rtt : Int64 := 200
  lastDecrease : Int32 := 0
  minBitrateHistory : List (Int64 × UInt32) := []
  minBitrateConfigured : UInt32 := minConfiguredBitrateBps
  maxBitrateConfigured : UInt32 := maxConfiguredBitrateBps
  lastLowBitrateLogMs : Int64 := -1
  hasDecreasedSinceLastFractionLoss : Bool := false
  lastPacketReportMs : Int64 := -1
  lastFractionLoss : UInt8
  lastLoggedFractionLoss : UInt8 := 0
  lastRoundTripTimeMs : Int64 := 0
  delayBasedBitrateBps : UInt32 := 0
  timeLastDecreaseMs : Int64 := 0
  firstReportTimeMs : Int64 := -1
  lastRtcEventLogMs : Int64

/-- The arguments of `processFeedback` that it uses, and what it finds around it. -/
structure Feedback where
  nowUs : UInt64
  sequence : UInt16
  rxTimestampUs : UInt64
  interArrival : Int64
  interDeparture : UInt64
  arrivalTime : Int64
  /-- `Simulator::Now`, in milliseconds. -/
  nowMs : UInt64
  /-- What the local `rtt_us` holds before it is set. -/
  rttUs : UInt64

namespace GccController

variable {F D : Type} [Floating F] [Floating D]

open Floating Widening

/-! ## The loss-based rate control -/

def capBitrateToThresholds (nowMs : Int64) (bitrateBps : UInt32) (c : GccController F D) :
    GccController F D :=
  let bitrateBps :=
    if 0 < c.delayBasedBitrateBps ∧ c.delayBasedBitrateBps < bitrateBps then
      c.delayBasedBitrateBps
    else bitrateBps
  let bitrateBps :=
    if c.maxBitrateConfigured < bitrateBps then c.maxBitrateConfigured else bitrateBps
  let low : Bool := bitrateBps < c.minBitrateConfigured
  let lastLowBitrateLogMs :=
    if low ∧ (c.lastLowBitrateLogMs = -1 ∨ 10000 < nowMs - c.lastLowBitrateLogMs) then nowMs
    else c.lastLowBitrateLogMs
  let bitrateBps := if low then c.minBitrateConfigured else bitrateBps
  let log : Bool := bitrateBps ≠ c.currentBitrateBps ∨
    c.lastFractionLoss ≠ c.lastLoggedFractionLoss ∨ 5000 < nowMs - c.lastRtcEventLogMs
  { c with
    lastLowBitrateLogMs
    lastLoggedFractionLoss := if log then c.lastFractionLoss else c.lastLoggedFractionLoss
    lastRtcEventLogMs := if log then nowMs else c.lastRtcEventLogMs
    currentBitrateBps := bitrateBps }

def setSendBitrate (bitrate : UInt32) (nowMs : Int64) (c : GccController F D) : GccController F D :=
  { { c with delayBasedBitrateBps := 0 }.capBitrateToThresholds nowMs bitrate with
    minBitrateHistory := [] }

/-- `SetMinMaxBitrate` for a positive maximum. -/
def setMinMaxBitrate (minBitrate maxBitrate : UInt32) (c : GccController F D) : GccController F D :=
  let minBitrateConfigured := max minBitrate c.minBitrateConfigured
  { c with minBitrateConfigured, maxBitrateConfigured := max minBitrateConfigured maxBitrate }

def updateDelayBasedEstimate (nowMs : Int64) (bitrateBps : UInt32) (c : GccController F D) :
    GccController F D :=
  { c with delayBasedBitrateBps := bitrateBps }.capBitrateToThresholds nowMs c.currentBitrateBps

def isInStartPhase (nowMs : Int64) (c : GccController F D) : Bool :=
  c.firstReportTimeMs = -1 ∨ nowMs - c.firstReportTimeMs < 2000

/-- Old values leave the history, then values that are not below the current rate. -/
def updateMinHistory (nowMs : Int64) (c : GccController F D) : GccController F D :=
  let recent := c.minBitrateHistory.dropWhile fun p => 1000 < nowMs - p.1 + 1
  let lower := (recent.reverse.dropWhile fun p => c.currentBitrateBps ≤ p.2).reverse
  { c with minBitrateHistory := lower ++ [(nowMs, c.currentBitrateBps)] }

/-- The part of `UpdateEstimate` that acts on the loss. The history is not empty here. -/
def updateLossBasedEstimate (nowMs : Int64) (c : GccController F D) : GccController F D :=
  let loss : F := ofInt c.lastFractionLoss.toNat / 256.0
  if c.currentBitrateBps < 0 ∨ loss ≤ 0.02 then
    let least : UInt32 := (c.minBitrateHistory.head?.map Prod.snd).getD 0
    c.capBitrateToThresholds nowMs (toUInt32 ((ofInt least.toNat * 1.08 + 0.5 : D)) + 1000)
  else if 0 < c.currentBitrateBps ∧ ¬ loss ≤ 0.1 ∧ ¬ c.hasDecreasedSinceLastFractionLoss ∧
      300 + c.lastRoundTripTimeMs ≤ nowMs - c.timeLastDecreaseMs then
    { c with
      timeLastDecreaseMs := nowMs
      hasDecreasedSinceLastFractionLoss := true }.capBitrateToThresholds nowMs
        (toUInt32 (ofInt c.currentBitrateBps.toNat * ofInt (512 - c.lastFractionLoss.toNat)
          / 512.0 : D))
  else c.capBitrateToThresholds nowMs c.currentBitrateBps

def updateEstimate (nowMs : Int64) (c : GccController F D) : GccController F D :=
  let newBitrate := max c.delayBasedBitrateBps c.currentBitrateBps
  if c.lastFractionLoss = 0 ∧ c.isInStartPhase nowMs ∧ newBitrate ≠ c.currentBitrateBps then
    { c with minBitrateHistory := [(nowMs, c.currentBitrateBps)] }.capBitrateToThresholds
      nowMs newBitrate
  else
    let c := c.updateMinHistory nowMs
    if c.lastPacketReportMs = -1 then c.capBitrateToThresholds nowMs c.currentBitrateBps
    else c.updateLossBasedEstimate nowMs

/-! ## The detector -/

def linearFitSlope (points : List (D × D)) : D :=
  let sumX := points.foldl (fun sum p => sum + p.1) 0.0
  let sumY := points.foldl (fun sum p => sum + p.2) 0.0
  let xAvg := sumX / ofInt points.length
  let yAvg := sumY / ofInt points.length
  let numerator := points.foldl (fun sum p => sum + (p.1 - xAvg) * (p.2 - yAvg)) 0.0
  let denominator := points.foldl (fun sum p => sum + (p.1 - xAvg) * (p.1 - xAvg)) 0.0
  if denominator == 0.0 then 0.0 else numerator / denominator

def overuseEstimatorUpdate (tDelta : Int64) (tsDelta : D) (nowMs : Int64)
    (c : GccController F D) : GccController F D :=
  let numOfDeltas := if 1000 < c.numOfDeltas + 1 then 1000 else c.numOfDeltas + 1
  let accumulatedDelay := c.accumulatedDelay + (ofInt tDelta.toInt - tsDelta)
  let smoothedDelay := 0.9 * c.smoothedDelay + (1.0 - 0.9) * accumulatedDelay
  let hist := c.delayHist ++ [(ofInt nowMs.toInt, smoothedDelay)]
  let delayHist := if 20 < hist.length then hist.drop 1 else hist
  { c with
    numOfDeltas, accumulatedDelay, smoothedDelay, delayHist
    offset := if delayHist.length = 20 then linearFitSlope delayHist else c.offset }

def updateThreshold (modifiedOffset : D) (nowMs : Int64) (c : GccController F D) :
    GccController F D :=
  let last := if c.utLastUpdateMs = -1 then nowMs else c.utLastUpdateMs
  if c.threshold + 15.0 < abs modifiedOffset then { c with utLastUpdateMs := nowMs }
  else
    let k : D := if abs modifiedOffset < c.threshold then 0.039 else 0.0087
    let timeDeltaMs := min (nowMs - last) 100
    let threshold :=
      c.threshold + k * (abs modifiedOffset - c.threshold) * ofInt timeDeltaMs.toInt
    { c with
      threshold := if threshold ≤ 6.0 then 6.0 else if 600.0 ≤ threshold then 600.0 else threshold
      utLastUpdateMs := nowMs }

def overuseDetectorDetect (tsDelta : D) (nowMs : Int64) (c : GccController F D) :
    GccController F D :=
  if c.numOfDeltas < 2 then c
  else
    let t := ofInt (min c.numOfDeltas 60).toNat * c.offset * 4.0
    let c :=
      if c.threshold < t then
        let timeOverUsing :=
          if c.timeOverUsing == -1.0 then tsDelta / 2.0 else c.timeOverUsing + tsDelta
        let overuseCounter := c.overuseCounter + 1
        if 10.0 < timeOverUsing ∧ 1 < overuseCounter ∧ c.prevOffset ≤ c.offset then
          { c with timeOverUsing := 0.0, overuseCounter := 0, hypothesis := .overusing }
        else { c with timeOverUsing, overuseCounter }
      else if t < -c.threshold then
        { c with timeOverUsing := -1.0, overuseCounter := 0, hypothesis := .underusing }
      else { c with timeOverUsing := -1.0, overuseCounter := 0, hypothesis := .normal }
    { c with prevOffset := c.offset }.updateThreshold t nowMs

/-! ## The delay-based rate control -/

section

variable [Widening F D] (m : Libm F D)

/-- `static_cast<uint32_t> (m_RecvR)`, bounded by the current rate. -/
def incomingBitrate (c : GccController F D) : UInt32 := min (toUInt32 c.recvR) c.currentBitrateBps

def timeToReduceFurther (timeNow : Int32) (incomingBitrateBps : UInt32) (c : GccController F D) :
    Bool :=
  if max (min c.rtt 200) 10 ≤ timeNow.toInt64 - c.timeLastBitrateChange then true
  else c.bitrateIsInitialized ∧
    incomingBitrateBps < toUInt32 (0.5 * ofInt c.currentBitrateBps.toNat : D)

def getNearMaxIncreaseRateBps (c : GccController F D) : Int32 :=
  let bitsPerFrame : D := ofInt c.currentBitrateBps.toNat / 30.0
  let packetsPerFrame := ceil (bitsPerFrame / (8.0 * 1200.0))
  let avgPacketSizeBits := bitsPerFrame / packetsPerFrame
  let rate := avgPacketSizeBits * 1000.0 / ofInt (c.rtt + 100).toInt
  toInt32 (if 4000.0 < rate then rate else 4000.0)

def additiveRateIncrease (nowMs lastMs : Int64) (c : GccController F D) : UInt32 :=
  ((nowMs - lastMs) * c.getNearMaxIncreaseRateBps.toInt64 / 1000).toUInt64.toUInt32

def multiplicativeRateIncrease (nowMs lastMs : Int64) (currentBitrateBps : UInt32) : UInt32 :=
  let alpha : D :=
    if -1 < lastMs then
      let timeSinceLastUpdateMs := if nowMs - lastMs < 1000 then nowMs - lastMs else 1000
      m.pow 1.08 (ofInt timeSinceLastUpdateMs.toInt / 1000.0)
    else 1.08
  let increase := ofInt currentBitrateBps.toNat * (alpha - 1.0)
  toUInt32 (if increase < 1000.0 then 1000.0 else increase)

/-- The largest rate that `ClampBitrate` allows, unless the configured minimum is above it. -/
def maxBitrateBps (F : Type) [Floating F] (incomingBitrateBps : UInt32) : UInt32 :=
  toUInt32 (1.5 * ofInt incomingBitrateBps.toNat : F) + 10000

def clampBitrate (newBitrateBps incomingBitrateBps : UInt32) (c : GccController F D) : UInt32 :=
  let maxBitrateBps := maxBitrateBps F incomingBitrateBps
  let newBitrateBps :=
    if c.currentBitrateBps < newBitrateBps ∧ maxBitrateBps < newBitrateBps ∧
        c.currentBitrateBps < maxBitrateBps then
      max c.currentBitrateBps maxBitrateBps
    else newBitrateBps
  max (min newBitrateBps maxBitrateBps) minConfiguredBitrateBps

def updateMaxBitRateEstimate (incomingBitrateKbps : F) (c : GccController F D) :
    GccController F D :=
  let alpha : F := 0.05
  let avg :=
    if c.avgMaxBitrateKbps == -1.0 then incomingBitrateKbps
    else (1.0 - alpha) * c.avgMaxBitrateKbps + alpha * incomingBitrateKbps
  let norm := if avg < 1.0 then 1.0 else avg
  let var := (1.0 - alpha) * c.varMaxBitrateKbps
    + alpha * (avg - incomingBitrateKbps) * (avg - incomingBitrateKbps) / norm
  let var := if var < 0.4 then 0.4 else var
  { c with avgMaxBitrateKbps := avg, varMaxBitrateKbps := if 2.5 < var then 2.5 else var }

def changeState (nowMs : Int64) (c : GccController F D) : GccController F D :=
  match c.hypothesis, c.rateControlState with
  | .normal, .hold => { c with timeLastBitrateChange := nowMs, rateControlState := .increase }
  | .normal, .decrease => { c with rateControlState := .hold }
  | .normal, .increase => c
  | .overusing, _ => { c with rateControlState := .decrease }
  | .underusing, _ => { c with rateControlState := .hold }

/-- Is the incoming rate more than three deviations above the average of the maximum? -/
def aboveMaxBitRate (incomingBitrateKbps stdMaxBitRate : F) (c : GccController F D) : Bool :=
  0.0 ≤ c.avgMaxBitrateKbps ∧ c.avgMaxBitrateKbps + 3.0 * stdMaxBitRate < incomingBitrateKbps

/-- The case of `ChangeBitrate` for an increase: the new rate, and the state. -/
def increaseBitrate (nowMs : Int64) (incomingBitrateKbps stdMaxBitRate : F)
    (c : GccController F D) : UInt32 × GccController F D :=
  let c :=
    if c.aboveMaxBitRate incomingBitrateKbps stdMaxBitRate then
      { c with rateControlRegion := .maxUnknown, avgMaxBitrateKbps := -1.0 }
    else c
  let increase :=
    match c.rateControlRegion with
    | .nearMax => c.additiveRateIncrease nowMs c.timeLastBitrateChange
    | .maxUnknown =>
      multiplicativeRateIncrease m nowMs c.timeLastBitrateChange c.currentBitrateBps
  (c.currentBitrateBps + increase, { c with timeLastBitrateChange := nowMs })

/-- `beta_`. -/
def beta (F : Type) [Floating F] : F := 0.85

/-- The rate that an over-use asks for. -/
def reducedBitrate (incomingBitrateBps : UInt32) (c : GccController F D) : UInt32 :=
  let reduced := toUInt32 (widen (beta F * ofInt incomingBitrateBps.toNat : F) + 0.5 : D)
  if c.currentBitrateBps < reduced then
    let reduced :=
      match c.rateControlRegion with
      | .maxUnknown => reduced
      | .nearMax => toUInt32 (beta F * c.avgMaxBitrateKbps * 1000.0 + 0.5)
    min reduced c.currentBitrateBps
  else reduced

/-- The case of `ChangeBitrate` for a decrease. -/
def decreaseBitrate (nowMs : Int64) (incomingBitrateBps : UInt32)
    (incomingBitrateKbps stdMaxBitRate : F) (c : GccController F D) : UInt32 × GccController F D :=
  let newBitrateBps := c.reducedBitrate incomingBitrateBps
  let lastDecrease :=
    if c.bitrateIsInitialized ∧ incomingBitrateBps < c.currentBitrateBps then
      (c.currentBitrateBps - newBitrateBps).toInt32
    else c.lastDecrease
  let below : Bool := incomingBitrateKbps < c.avgMaxBitrateKbps - 3.0 * stdMaxBitRate
  let c := { c with
    rateControlRegion := .nearMax
    lastDecrease
    avgMaxBitrateKbps := if below then -1.0 else c.avgMaxBitrateKbps
    bitrateIsInitialized := true }
  (newBitrateBps, { c.updateMaxBitRateEstimate incomingBitrateKbps with
    rateControlState := .hold
    timeLastBitrateChange := nowMs })

/-- The switch of `ChangeBitrate`. -/
def proposeBitrate (nowMs : Int64) (incomingBitrateBps : UInt32) (c : GccController F D) :
    UInt32 × GccController F D :=
  let incomingBitrateKbps : F := ofInt incomingBitrateBps.toNat / 1000.0
  let stdMaxBitRate := m.sqrt (c.varMaxBitrateKbps * c.avgMaxBitrateKbps)
  match c.rateControlState with
  | .hold => (c.currentBitrateBps, c)
  | .increase => c.increaseBitrate m nowMs incomingBitrateKbps stdMaxBitRate
  | .decrease => c.decreaseBitrate nowMs incomingBitrateBps incomingBitrateKbps stdMaxBitRate

def changeBitrate (nowMs : Int64) (incomingBitrateBps : UInt32) (c : GccController F D) :
    UInt32 × GccController F D :=
  if ¬ c.bitrateIsInitialized ∧ c.hypothesis = .overusing then (c.currentBitrateBps, c)
  else
    let proposed := (c.changeState nowMs).proposeBitrate m nowMs incomingBitrateBps
    (proposed.2.clampBitrate proposed.1 incomingBitrateBps, proposed.2)

def update (nowMs : Int64) (incomingBitrate : UInt32) (c : GccController F D) : GccController F D :=
  let c :=
    if c.bitrateIsInitialized then c
    else if c.timeFirstIncomingEstimate < 0 then
      if incomingBitrate ≠ 0 then { c with timeFirstIncomingEstimate := nowMs } else c
    else if 5000 < nowMs - c.timeFirstIncomingEstimate ∧ 0 < incomingBitrate then
      { c with currentBitrateBps := incomingBitrate, bitrateIsInitialized := true }
    else c
  let (newBitrateBps, c) := c.changeBitrate m nowMs incomingBitrate
  { c with currentBitrateBps := newBitrateBps, bitrateIsInitialized := true }

/-! ## Feedback -/

/-- The loss counter of the base class is read and cleared once a second. -/
def countLosses (f : Feedback) (c : GccController F D) : GccController F D :=
  if c.prevSeqLoss = 0 then
    { c with prevSeqLoss := f.sequence.toUInt32.toInt32, timer := f.nowMs }
  else if c.timer + 1000 < f.nowMs then
    let deltaSeq := f.sequence.toUInt32.toInt32 - c.prevSeqLoss
    let lossRatio := (ofInt c.base.lossCounter / ofInt deltaSeq.toInt : F)
    { c with
      lossMovingAvg :=
        if deltaSeq = 0 then c.lossMovingAvg
        else narrow (widen c.lossMovingAvg * 0.8 + widen lossRatio * 0.2 : D)
      base := { c.base with lossCounter := 0 }
      prevSeqLoss := f.sequence.toUInt32.toInt32 + 1
      timer := f.nowMs }
  else c

/-- The call of the base class and what comes before its answer is looked at. -/
def receive (f : Feedback) (c : GccController F D) : Option (Bool × GccController F D) :=
  (c.base.processFeedback f.nowUs f.sequence f.rxTimestampUs).map fun (ok, base) =>
    (ok, { c with base }.countLosses f)

/-- The first feedback that the base class accepts sets the rates. -/
def setInitialBitrates (f : Feedback) (c : GccController F D) : GccController F D :=
  ({ c with lastTimeCalcValid := true }.setMinMaxBitrate minConfiguredBitrateBps
    maxConfiguredBitrateBps).setSendBitrate minConfiguredBitrateBps
      f.nowUs.toUInt32.toInt32.toInt64

def updateMetrics (c : GccController F D) : Option (GccController F D) := do
  let (rate, base) ← c.base.getCurrentRecvRate
  let info ← base.getPktLossInfo
  let c := { c with
    base
    qdelayUs := base.getCurrentQdelay.getD c.qdelayUs
    recvR :=
      match rate with
      | none => c.recvR
      | some (bits, timeUs) => ofInt bits.toNat * 1000.0 * 1000.0 / ofInt timeUs.toNat }
  match info with
  | none => some c
  | some (nLoss, nPkt) =>
    some { c with ploss := nLoss, pkt := nPkt, plr := ofInt nLoss.toNat / ofInt nPkt.toNat }

/-- The metrics, the detector and the round-trip time after a feedback. -/
def estimate (f : Feedback) (c : GccController F D) : Option (GccController F D) :=
  c.updateMetrics.map fun c =>
    let tsDelta : D := ofInt (f.interDeparture.toUInt32 / 1000).toNat
    let nowMs := f.arrivalTime / 1000
    let c := (c.overuseEstimatorUpdate (f.interArrival / 1000) tsDelta nowMs
      ).overuseDetectorDetect tsDelta nowMs
    { c with rtt := (c.base.getCurrentRTT.getD f.rttUs / 1000).toInt64 }

/-- Is it time for an update, or should an over-use cause one? -/
def updateEstimateDue (f : Feedback) (c : GccController F D) : Bool :=
  let rttClamped : UInt16 := min (max c.rtt.toUInt64.toUInt16 10) 200
  if c.lastUpdateMs = -1 ∨ rttClamped.toUInt64 < f.nowMs - c.lastUpdateMs.toUInt64 then true
  else c.hypothesis = .overusing ∧ c.incomingBitrate ≠ 0 ∧
    c.timeToReduceFurther f.nowMs.toUInt32.toInt32 c.incomingBitrate

/-- The two rate controls. -/
def control (f : Feedback) (c : GccController F D) : GccController F D :=
  let nowMs := f.nowMs.toInt64
  let c :=
    if c.updateEstimateDue f then
      { c.update m nowMs c.incomingBitrate with lastUpdateMs := nowMs }
    else c
  (c.updateDelayBasedEstimate nowMs c.currentBitrateBps).updateEstimate nowMs

def processFeedback (f : Feedback) (c : GccController F D) : Option (Bool × GccController F D) :=
  (c.receive f).bind fun (ok, c) =>
    if ¬ ok then some (false, c)
    else if ¬ c.lastTimeCalcValid then some (true, c.setInitialBitrates f)
    else (c.estimate f).map fun c => (true, c.control m f)

def getSendBps (c : GccController F D) : UInt32 := c.currentBitrateBps

/-! ## The interface -/

/-- `reset` leaves the rate control as it is. -/
def reset (c : GccController F D) : GccController F D :=
  { c with
    lastTimeCalcValid := false
    qdelayUs := 0
    ploss := 0
    pkt := 0
    plr := 0.0
    recvR := 0.0
    base := c.base.reset }

/-- The calls that the sender makes between two loss reports. -/
inductive Call
  | processSendPacket (txTimestampUs : UInt64) (sequence : UInt16) (size : UInt32)
  | prunTransitHistory (tarSeq : UInt32)
  | processFeedback (f : Feedback)

def call (c : GccController F D) : Call → Option (GccController F D)
  | .processSendPacket txTimestampUs sequence size =>
    (c.base.processSendPacket txTimestampUs sequence size).map fun (_, base) => { c with base }
  | .prunTransitHistory tarSeq =>
    (c.base.prunTransitHistory tarSeq).map fun base => { c with base }
  | .processFeedback f => (c.processFeedback m f).map Prod.snd

/-- `UpdateLossRate` of the base class. -/
def updateLossRate (lossQ8 : UInt8) (c : GccController F D) : GccController F D :=
  { c with base := c.base.updateLossRate lossQ8 }

inductive Event
  | call (call : Call)
  | updateLossRate (lossQ8 : UInt8)
  | reset

def step (c : GccController F D) : Event → Option (GccController F D)
  | .call call => c.call m call
  | .updateLossRate lossQ8 => some (c.updateLossRate lossQ8)
  | .reset => some c.reset

end

end GccController

end Zhuge
