-- SUMMARY: The NADA controller: its congestion signal, its rate, and their bounds in every run.
import Zhuge.LossIntervals

/-!
# The NADA controller

Feedback goes to the base class. Once per `NADA_PARAM_DELTA_US` the metrics of the base class are
read, combined into the congestion signal, and the rate is set from them. `F` stands for `float`
and `D` for `double`.
-/

namespace Zhuge

/-- `NADA_PARAM_DELTA_US`. -/
def nadaDeltaUs : UInt64 := 100 * 1000

/-- `NADA_PARAM_QEPS_US`. -/
def nadaQepsUs : UInt64 := 10 * 1000

/-- `NADA_PARAM_DFILT_US`. -/
def nadaDfiltUs : UInt64 := 120 * 1000

/-- The rates are those of the base class. -/
structure NadaController (F : Type) [Floating F] where
  base : SenderBasedController := {}
  initBw : F := 150000.0
  minBw : F := 150000.0
  maxBw : F := 1500000.0
  ploss : UInt32 := 0
  plr : F := 0.0
  lastTimeCalcUs : UInt64 := 0
  lastTimeCalcValid : Bool := false
  currBw : F := 150000.0
  qdelayUs : UInt64 := 0
  rttUs : UInt64 := 0
  xcurr : F := 0.0
  xprev : F := 0.0
  recvR : F := 0.0
  avgInt : F := 0.0
  currInt : UInt16 := 0
  lossesSeen : Bool := false

namespace NadaController

open Floating Widening

section

variable {F D : Type} [Floating F] [Floating D] [Widening F D] (exp : D → D)

/-! ## The congestion signal -/

/-- `calcDtilde`. The test is on whole milliseconds. -/
def calcDtilde (c : NadaController F) : F :=
  let qDelay : F := ofInt c.qdelayUs.toNat / 1000.0
  if (50.0 : F) < ofInt (c.qdelayUs / 1000).toNat then
    let ratio := (qDelay - 50.0) / 50.0
    let ratio := 0.5 * ratio
    narrow (widen (50.0 : F) * exp (widen (-ratio)))
  else qDelay

/-- The delay, or its warped value while losses are recent, or a blend while they expire. -/
def delaySignal (c : NadaController F) : F :=
  let xdel : F := ofInt c.qdelayUs.toNat / 1000.0
  let xtilde := c.calcDtilde exp
  let currInt : F := ofInt c.currInt.toNat
  if c.lossesSeen ∧ currInt < 7.0 * c.avgInt then xtilde
  else if c.lossesSeen then
    if currInt < (7.0 + 1.0) * c.avgInt then
      let alpha := (currInt - 7.0 * c.avgInt) / c.avgInt
      alpha * xdel + (1.0 - alpha) * xtilde
    else xdel
  else xdel

def updateXcurr (c : NadaController F) : NadaController F :=
  let plr0 := c.plr / 0.01
  let xcurr := c.delaySignal exp + 10.0 * plr0 * plr0
  { c with xcurr := if 500.0 < xcurr then 500.0 else xcurr }

/-- What the base class measures. -/
def readMetrics (c : NadaController F) : Option (NadaController F) := do
  let (rate, base) ← c.base.getCurrentRecvRate
  let info ← base.getPktLossInfo
  let intervals ← base.getLossIntervalInfo F
  let c := { c with
    base
    qdelayUs := base.getCurrentQdelay.getD c.qdelayUs
    rttUs := base.getCurrentRTT.getD c.rttUs
    recvR :=
      match rate with
      | none => c.recvR
      | some (bits, timeUs) => ofInt bits.toNat * 1000.0 * 1000.0 / ofInt timeUs.toNat }
  let c :=
    match info with
    | none => c
    | some (nLoss, nPkt) =>
      let plr : F := ofInt nLoss.toNat / ofInt nPkt.toNat
      { c with ploss := nLoss, plr := c.plr + 0.1 * (plr - c.plr) }
  match intervals with
  | none => some { c with lossesSeen := false }
  | some (avgInt, currInt) => some { c with lossesSeen := true, avgInt, currInt }

def updateMetrics (c : NadaController F) : Option (NadaController F) :=
  c.readMetrics.map fun c =>
    let c := { c with xprev := c.xcurr }
    if c.base.getCurrentQdelay.isSome then c.updateXcurr exp else c

/-! ## The rate -/

/-- `getRampUpMode() == 0`. -/
def rampsUp (c : NadaController F) : Bool :=
  c.ploss = 0 ∧ ∀ r ∈ c.base.packetHistory, r.owdUs - c.base.baseDelayUs ≤ nadaQepsUs

def calcAcceleratedRampUp (c : NadaController F) : NadaController F :=
  let denom := (c.rttUs + nadaDeltaUs + nadaDfiltUs) / 1000
  let gamma : F := 50.0 / ofInt denom.toNat
  let gamma := if 0.5 < gamma then 0.5 else gamma
  let rnew := (1.0 + gamma) * c.recvR
  { c with currBw := if c.currBw < rnew then rnew else c.currBw }

variable (D) in
def calcGradualRateUpdate (deltaUs : UInt64) (c : NadaController F) : NadaController F :=
  let xOffset := c.xcurr - 1.0 * 10.0 * c.maxBw / c.currBw
  let xDiff := c.xcurr - c.xprev
  let delta : F := narrow (widen (ofInt deltaUs.toNat : F) / 1000.0 : D)
  let rOffset := c.currBw * 0.5 * (delta / 500.0) * (xOffset / 500.0)
  let rDiff := c.currBw * 0.5 * 2.0 * (xDiff / 500.0)
  { c with currBw := c.currBw - rOffset - rDiff }

variable (D) in
def updateBw (deltaUs : UInt64) (c : NadaController F) : NadaController F :=
  let c := if c.rampsUp then c.calcAcceleratedRampUp else c.calcGradualRateUpdate D deltaUs
  let c := { c with currBw := if c.maxBw < c.currBw then c.maxBw else c.currBw }
  { c with currBw := if c.currBw < c.minBw then c.minBw else c.currBw }

/-- Is it time for an update of the rate? -/
def due (nowUs : UInt64) (c : NadaController F) : Bool :=
  c.lastTimeCalcValid ∧ nadaDeltaUs ≤ nowUs - c.lastTimeCalcUs

def processFeedback (nowUs : UInt64) (sequence : UInt16) (rxTimestampUs : UInt64)
    (c : NadaController F) : Option (Bool × NadaController F) :=
  (c.base.processFeedback nowUs sequence rxTimestampUs).bind fun (ok, base) =>
    let c := { c with base }
    if ¬ ok then some (false, c)
    else if ¬ c.lastTimeCalcValid then
      some (true, { c with lastTimeCalcUs := nowUs, lastTimeCalcValid := true })
    else if ¬ lessThan c.lastTimeCalcUs (nowUs + 1) then none
    else if ¬ c.due nowUs then some (true, c)
    else
      (c.updateMetrics exp).map fun d =>
        (true, { d.updateBw D (nowUs - c.lastTimeCalcUs) with lastTimeCalcUs := nowUs })

def getBandwidth (c : NadaController F) : F := c.currBw

def getSendBps (_ : NadaController F) : UInt32 := 0

/-! ## The interface -/

/-- The rate goes to the initial one that was set, and that one to the default. -/
def reset (c : NadaController F) : NadaController F :=
  { currBw := c.initBw, base := c.base.reset }

inductive Event
  | processSendPacket (txTimestampUs : UInt64) (sequence : UInt16) (size : UInt32)
  | prunTransitHistory (tarSeq : UInt32)
  | processFeedback (nowUs : UInt64) (sequence : UInt16) (rxTimestampUs : UInt64)
  | updateLossRate (lossQ8 : UInt8)
  | reset

def step (c : NadaController F) : Event → Option (NadaController F)
  | .processSendPacket txTimestampUs sequence size =>
    (c.base.processSendPacket txTimestampUs sequence size).map fun (_, base) => { c with base }
  | .prunTransitHistory tarSeq =>
    (c.base.prunTransitHistory tarSeq).map fun base => { c with base }
  | .processFeedback nowUs sequence rxTimestampUs =>
    (c.processFeedback exp nowUs sequence rxTimestampUs).map Prod.snd
  | .updateLossRate lossQ8 => some { c with base := c.base.updateLossRate lossQ8 }
  | .reset => some c.reset

end

/-! ## What a feedback does -/

section

variable {F D : Type} [Floating F] [Floating D] [Widening F D] {exp : D → D}

/-- A feedback that the base class takes sets the rate if it is time. -/
theorem processFeedback_cases {nowUs rxTimestampUs : UInt64} {sequence : UInt16}
    {c c' : NadaController F} {ok : Bool}
    (h : c.processFeedback exp nowUs sequence rxTimestampUs = some (ok, c')) :
    (ok = true ∧ c.due nowUs = true ∧ ∃ base d, { c with base }.updateMetrics exp = some d ∧
        c' = { d.updateBw D (nowUs - c.lastTimeCalcUs) with lastTimeCalcUs := nowUs }) ∨
      ((ok = false ∨ c.due nowUs = false) ∧ ∃ base lastTimeCalcUs lastTimeCalcValid,
        c' = { c with base, lastTimeCalcUs, lastTimeCalcValid }) := by
  obtain ⟨⟨accepted, base⟩, -, h⟩ := Option.bind_eq_some_iff.mp h
  simp only at h
  split at h
  case isTrue =>
    cases h
    exact .inr ⟨.inl rfl, base, _, _, rfl⟩
  case isFalse =>
    split at h
    case isTrue hfirst =>
      cases h
      refine .inr ⟨.inr ?_, base, _, _, rfl⟩
      rw [due, decide_eq_false_iff_not]
      exact fun hdue => hfirst hdue.1
    case isFalse =>
      split at h
      case isTrue => cases h
      case isFalse =>
        split at h
        case isTrue hearly =>
          cases h
          exact .inr ⟨.inr (Bool.of_not_eq_true hearly), base, _, _, rfl⟩
        case isFalse hdue =>
          obtain ⟨d, hd, heq⟩ := Option.map_eq_some_iff.mp h
          cases heq
          exact .inl ⟨rfl, not_not.mp hdue, base, d, hd, rfl⟩

/-- The fields that the metrics leave alone. -/
structure SameRates (c d : NadaController F) : Prop where
  initBw : d.initBw = c.initBw
  minBw : d.minBw = c.minBw
  maxBw : d.maxBw = c.maxBw
  currBw : d.currBw = c.currBw

theorem readMetrics_eq {c d : NadaController F} (h : c.readMetrics = some d) :
    SameRates c d ∧ d.xcurr = c.xcurr ∧ (d.plr = c.plr ∨ ∃ base nLoss nPkt,
      SenderBasedController.getPktLossInfo base = some (some (nLoss, nPkt)) ∧
        d.plr = c.plr + 0.1 * (ofInt nLoss.toNat / ofInt nPkt.toNat - c.plr)) := by
  obtain ⟨⟨rate, base⟩, -, h⟩ := Option.bind_eq_some_iff.mp h
  obtain ⟨info, hinfo, h⟩ := Option.bind_eq_some_iff.mp h
  obtain ⟨intervals, -, h⟩ := Option.bind_eq_some_iff.mp h
  cases info with
  | none =>
      cases intervals <;> cases h <;> exact ⟨⟨rfl, rfl, rfl, rfl⟩, rfl, .inl rfl⟩
  | some p =>
      have hplr : ∃ base nLoss nPkt,
          SenderBasedController.getPktLossInfo base = some (some (nLoss, nPkt)) ∧
            c.plr + 0.1 * (ofInt p.1.toNat / ofInt p.2.toNat - c.plr) =
              c.plr + 0.1 * (ofInt nLoss.toNat / ofInt nPkt.toNat - c.plr) :=
        ⟨base, p.1, p.2, hinfo, rfl⟩
      cases intervals <;> cases h <;> exact ⟨⟨rfl, rfl, rfl, rfl⟩, rfl, .inr hplr⟩

/-- The signal is computed anew, or there is none and it stays. -/
theorem updateMetrics_eq {c d : NadaController F} (h : c.updateMetrics exp = some d) :
    SameRates c d ∧ d.xprev = c.xcurr ∧ ∃ e, c.readMetrics = some e ∧ d.plr = e.plr ∧
      (d.xcurr = c.xcurr ∨ ∃ e' : NadaController F, e'.plr = e.plr ∧
        d.xcurr = (e'.updateXcurr exp).xcurr) := by
  obtain ⟨e, he, rfl⟩ := Option.map_eq_some_iff.mp h
  obtain ⟨hsame, hxcurr, -⟩ := readMetrics_eq he
  simp only
  split
  case isTrue => exact ⟨{ hsame with }, hxcurr, e, he, rfl, .inr ⟨_, rfl, rfl⟩⟩
  case isFalse => exact ⟨{ hsame with }, hxcurr, e, he, rfl, .inl hxcurr⟩

end

/-! ## Bounds -/

section

variable {exp : ℚ → ℚ} {c d : NadaController ℚ}

/-- The rate, the loss ratio and the signal are in their ranges. -/
structure Bounded (c : NadaController ℚ) : Prop where
  initBw : c.initBw = 150000
  minBw : c.minBw = 150000
  maxBw : c.maxBw = 1500000
  currBw : 150000 ≤ c.currBw ∧ c.currBw ≤ 1500000
  plr : 0 ≤ c.plr ∧ c.plr ≤ 1
  xcurr : 0 ≤ c.xcurr ∧ c.xcurr ≤ 500
  xprev : 0 ≤ c.xprev ∧ c.xprev ≤ 500

theorem Bounded.new : Bounded {} := by
  constructor <;> norm_num

theorem Bounded.withBase (hc : c.Bounded) (base : SenderBasedController) :
    Bounded { c with base } := { hc with }

theorem calcDtilde_nonneg (hexp : ∀ x, 0 ≤ exp x) (c : NadaController ℚ) :
    0 ≤ c.calcDtilde exp := by
  unfold calcDtilde
  simp only
  split_ifs
  · change (0 : ℚ) ≤ 50.0 * exp _
    exact mul_nonneg (by norm_num) (hexp _)
  · exact div_nonneg (Nat.cast_nonneg _) (by norm_num)

/-- The blend is one of values that are not negative. -/
theorem delaySignal_nonneg (hexp : ∀ x, 0 ≤ exp x) (c : NadaController ℚ) :
    0 ≤ c.delaySignal exp := by
  have hwarped := calcDtilde_nonneg hexp c
  have hdelay : (0 : ℚ) ≤ ofInt c.qdelayUs.toNat / 1000.0 :=
    div_nonneg (Nat.cast_nonneg _) (by norm_num)
  have hcurrInt : (0 : ℚ) ≤ ofInt c.currInt.toNat := Nat.cast_nonneg _
  unfold delaySignal
  simp only
  split_ifs with hrecent hseen hexpiring
  · exact hwarped
  · have hrecent' : 7.0 * c.avgInt ≤ ofInt c.currInt.toNat := not_lt.mp fun h => hrecent ⟨hseen, h⟩
    norm_num at hexpiring hrecent'
    have havg : 0 < c.avgInt := by linarith
    have halpha : 0 ≤ (ofInt c.currInt.toNat - 7.0 * c.avgInt) / c.avgInt :=
      div_nonneg (by norm_num; linarith) havg.le
    have halpha' : (ofInt c.currInt.toNat - 7.0 * c.avgInt) / c.avgInt ≤ 1 := by
      rw [div_le_one havg]
      norm_num
      linarith
    exact add_nonneg (mul_nonneg halpha hdelay)
      (mul_nonneg (by norm_num at halpha' ⊢; linarith) hwarped)
  · exact hdelay
  · exact hdelay

theorem updateXcurr_bounds (hexp : ∀ x, 0 ≤ exp x) (c : NadaController ℚ) :
    0 ≤ (c.updateXcurr exp).xcurr ∧ (c.updateXcurr exp).xcurr ≤ 500 := by
  have hdelay := delaySignal_nonneg hexp c
  have hloss : 0 ≤ 10.0 * (c.plr / 0.01) * (c.plr / 0.01) := by
    rw [mul_assoc]
    exact mul_nonneg (by norm_num) (mul_self_nonneg _)
  unfold updateXcurr
  simp only
  split_ifs with hclip
  · norm_num
  · norm_num at hclip hloss ⊢
    exact ⟨by linarith, hclip⟩

theorem getPktLossInfo_le {b : SenderBasedController} {nLoss nPkt : UInt32}
    (h : b.getPktLossInfo = some (some (nLoss, nPkt))) : nLoss.toNat ≤ nPkt.toNat := by
  unfold SenderBasedController.getPktLossInfo at h
  split at h
  case isTrue => cases h
  case isFalse =>
    split at h
    case h_2 => cases h
    case h_1 front back _ _ =>
      simp only at h
      split at h
      case isTrue => cases h
      case isFalse =>
        cases h
        have hspan := (1 + back.sequence - front.sequence).toNat_lt
        rw [UInt32.toNat_ofNat', UInt16.toNat_toUInt32]
        omega

/-- The ratio is a mean of ratios. -/
theorem readMetrics_plr (hplr : 0 ≤ c.plr ∧ c.plr ≤ 1) (h : c.readMetrics = some d) :
    0 ≤ d.plr ∧ d.plr ≤ 1 := by
  obtain ⟨-, -, hsame | ⟨base, nLoss, nPkt, hinfo, hmean⟩⟩ := readMetrics_eq h
  · rwa [hsame]
  · have hpos : (0 : ℚ) ≤ ofInt nLoss.toNat / ofInt nPkt.toNat :=
      div_nonneg (Nat.cast_nonneg _) (Nat.cast_nonneg _)
    have hone : (ofInt nLoss.toNat / ofInt nPkt.toNat : ℚ) ≤ 1 := by
      refine div_le_one_of_le₀ ?_ (Nat.cast_nonneg _)
      change ((nLoss.toNat : ℤ) : ℚ) ≤ ((nPkt.toNat : ℤ) : ℚ)
      exact_mod_cast getPktLossInfo_le hinfo
    rw [hmean]
    norm_num
    constructor <;> linarith

theorem updateMetrics_bounded (hexp : ∀ x, 0 ≤ exp x) (hc : c.Bounded)
    (h : c.updateMetrics exp = some d) : d.Bounded := by
  obtain ⟨hsame, hxprev, e, he, hplr, hxcurr⟩ := updateMetrics_eq h
  refine
    { initBw := hsame.initBw.trans hc.initBw
      minBw := hsame.minBw.trans hc.minBw
      maxBw := hsame.maxBw.trans hc.maxBw
      currBw := by rw [hsame.currBw]; exact hc.currBw
      plr := by rw [hplr]; exact readMetrics_plr hc.plr he
      xcurr := ?_
      xprev := by rw [hxprev]; exact hc.xcurr }
  rcases hxcurr with hstays | ⟨e', -, hnew⟩
  · rw [hstays]
    exact hc.xcurr
  · rw [hnew]
    exact updateXcurr_bounds hexp e'

/-- The rate before it is clipped. -/
def proposed (deltaUs : UInt64) (c : NadaController ℚ) : ℚ :=
  if c.rampsUp then c.calcAcceleratedRampUp.currBw else (c.calcGradualRateUpdate ℚ deltaUs).currBw

theorem updateBw_eq (deltaUs : UInt64) (c : NadaController ℚ) :
    c.updateBw ℚ deltaUs = { c with currBw := max (min c.maxBw (c.proposed deltaUs)) c.minBw } := by
  unfold updateBw proposed
  rw [max_def_lt, min_def_lt]
  split <;> rfl

/-- The growth of the rate on the way up. -/
def gamma (rttUs : UInt64) : ℚ :=
  min (1 / 2) (50 / ((rttUs + nadaDeltaUs + nadaDfiltUs) / 1000).toNat)

theorem proposed_of_rampsUp (h : c.rampsUp) (deltaUs : UInt64) :
    c.proposed deltaUs = max c.currBw ((1 + gamma c.rttUs) * c.recvR) := by
  have hofInt : ∀ n : ℕ, (ofInt n : ℚ) = n := fun _ => rfl
  have hhalf : (0.5 : ℚ) = 1 / 2 := by norm_num
  have hfifty : (50.0 : ℚ) = 50 := by norm_num
  have hone : (1.0 : ℚ) = 1 := by norm_num
  rw [proposed, if_pos h, gamma, max_def_lt, min_def_lt]
  simp only [calcAcceleratedRampUp, hofInt, hhalf, hfifty, hone]

theorem proposed_of_gradual (h : ¬ c.rampsUp) (deltaUs : UInt64) :
    c.proposed deltaUs = c.currBw
      - c.currBw / 2 * (deltaUs.toNat / 1000 / 500) * ((c.xcurr - 10 * c.maxBw / c.currBw) / 500)
      - c.currBw * ((c.xcurr - c.xprev) / 500) := by
  rw [proposed, if_neg h, calcGradualRateUpdate]
  have hwiden : ∀ x : ℚ, (widen x : ℚ) = x := fun _ => rfl
  have hnarrow : ∀ x : ℚ, (narrow x : ℚ) = x := fun _ => rfl
  norm_num [ofInt, hwiden, hnarrow]
  ring

theorem updateBw_bounded (hc : c.Bounded) (deltaUs nowUs : UInt64) :
    Bounded { c.updateBw ℚ deltaUs with lastTimeCalcUs := nowUs } := by
  rw [updateBw_eq]
  refine { hc with currBw := ?_ }
  simp only [hc.minBw, hc.maxBw]
  exact ⟨le_max_right _ _, max_le (min_le_left _ _) (by norm_num)⟩

theorem processFeedback_bounded (hexp : ∀ x, 0 ≤ exp x) (hc : c.Bounded)
    {nowUs rxTimestampUs : UInt64} {sequence : UInt16} {ok : Bool}
    (h : c.processFeedback exp nowUs sequence rxTimestampUs = some (ok, d)) : d.Bounded := by
  rcases processFeedback_cases h with ⟨-, -, base, e, he, rfl⟩ | ⟨-, base, _, _, rfl⟩
  · exact updateBw_bounded (updateMetrics_bounded hexp (hc.withBase base) he) _ _
  · exact { hc with }

theorem step_bounded (hexp : ∀ x, 0 ≤ exp x) (hc : c.Bounded) {e : Event}
    (h : c.step exp e = some d) : d.Bounded := by
  cases e with
  | processSendPacket txTimestampUs sequence size =>
      obtain ⟨p, -, rfl⟩ := Option.map_eq_some_iff.mp h
      exact { hc with }
  | prunTransitHistory tarSeq =>
      obtain ⟨base, -, rfl⟩ := Option.map_eq_some_iff.mp h
      exact { hc with }
  | processFeedback nowUs sequence rxTimestampUs =>
      obtain ⟨⟨ok, c'⟩, hfeedback, rfl⟩ := Option.map_eq_some_iff.mp h
      exact processFeedback_bounded hexp hc hfeedback
  | updateLossRate lossQ8 =>
      cases h
      exact { hc with }
  | reset =>
      cases h
      refine { Bounded.new with currBw := ?_ }
      change 150000 ≤ c.initBw ∧ c.initBw ≤ 1500000
      rw [hc.initBw]
      norm_num

/-- A packet in the history was lost, or one waited in a queue. -/
def Congested (c : NadaController ℚ) : Prop :=
  0 < c.ploss ∨ ∃ r ∈ c.base.packetHistory, nadaQepsUs < r.owdUs - c.base.baseDelayUs

theorem congested_iff : c.Congested ↔ ¬ c.rampsUp := by
  rw [rampsUp, decide_eq_true_eq, Congested, not_and_or]
  refine or_congr ?_ ?_
  · rw [UInt32.lt_iff_toNat_lt, UInt32.toNat_zero, Nat.pos_iff_ne_zero, ne_eq, ← UInt32.toNat_inj,
      UInt32.toNat_zero]
  · push Not
    simp only [UInt64.not_le]

/-- The direction of a step of the gradual update. -/
theorem lt_of_proposed_lt (hc : c.Bounded) (h : ¬ c.rampsUp) {deltaUs : UInt64}
    (hlt : c.proposed deltaUs < c.currBw) :
    10 * c.maxBw < c.xcurr * c.currBw ∨ c.xprev < c.xcurr := by
  by_contra hcalm
  obtain ⟨hbelow, hfalls⟩ := not_or.mp hcalm
  have hpos : 0 < c.currBw := by linarith [hc.currBw.1]
  have hoffset : c.xcurr - 10 * c.maxBw / c.currBw ≤ 0 := by
    rw [sub_nonpos, le_div_iff₀ hpos]
    exact not_lt.mp hbelow
  have hfirst : c.currBw / 2 * (deltaUs.toNat / 1000 / 500)
      * ((c.xcurr - 10 * c.maxBw / c.currBw) / 500) ≤ 0 :=
    mul_nonpos_of_nonneg_of_nonpos (by positivity) (by linarith)
  have hsecond : c.currBw * ((c.xcurr - c.xprev) / 500) ≤ 0 :=
    mul_nonpos_of_nonneg_of_nonpos hpos.le (by linarith)
  rw [proposed_of_gradual h] at hlt
  linarith

theorem lt_of_lt_proposed (hc : c.Bounded) (h : ¬ c.rampsUp) {deltaUs : UInt64}
    (hlt : c.currBw < c.proposed deltaUs) :
    c.xcurr * c.currBw < 10 * c.maxBw ∨ c.xcurr < c.xprev := by
  by_contra hcalm
  obtain ⟨habove, hrises⟩ := not_or.mp hcalm
  have hpos : 0 < c.currBw := by linarith [hc.currBw.1]
  have hoffset : 0 ≤ c.xcurr - 10 * c.maxBw / c.currBw := by
    rw [sub_nonneg, div_le_iff₀ hpos]
    exact not_lt.mp habove
  have hfirst : 0 ≤ c.currBw / 2 * (deltaUs.toNat / 1000 / 500)
      * ((c.xcurr - 10 * c.maxBw / c.currBw) / 500) :=
    mul_nonneg (by positivity) (by linarith)
  have hsecond : 0 ≤ c.currBw * ((c.xcurr - c.xprev) / 500) :=
    mul_nonneg hpos.le (by linarith)
  rw [proposed_of_gradual h] at hlt
  linarith

/-- In every run of the controller the rate, the loss ratio and the signal stay in their ranges. A
feedback changes the rate only once per interval; it lowers it only if packets in the history were
lost or delayed, and the signal is above its reference or rises. If they were, it raises it only if
the signal is below its reference or falls, and else not above the growth of the receive rate. -/
theorem bounded_of_run (hexp : ∀ x, 0 ≤ exp x) {es : List Event}
    (hrun : Run.exec (step exp) {} es = some c) :
    c.Bounded ∧ ∀ nowUs sequence rxTimestampUs ok d,
      c.processFeedback exp nowUs sequence rxTimestampUs = some (ok, d) →
      (d.currBw ≠ c.currBw → nadaDeltaUs ≤ nowUs - c.lastTimeCalcUs) ∧
      (d.currBw < c.currBw → d.Congested ∧
        (10 * d.maxBw < d.xcurr * c.currBw ∨ d.xprev < d.xcurr)) ∧
      (c.currBw < d.currBw → d.Congested →
        d.xcurr * c.currBw < 10 * d.maxBw ∨ d.xcurr < d.xprev) ∧
      (c.currBw < d.currBw → ¬ d.Congested → d.currBw ≤ (1 + gamma d.rttUs) * d.recvR) := by
  have hc : c.Bounded :=
    Run.exec_invariant (fun _ _ _ hs hstep => step_bounded hexp hs hstep) Bounded.new hrun
  refine ⟨hc, fun nowUs sequence rxTimestampUs ok d h => ?_⟩
  rcases processFeedback_cases h with ⟨-, hdue, base, e, he, rfl⟩ | ⟨-, base, _, _, rfl⟩
  case inr =>
    exact ⟨fun hne => absurd rfl hne, fun hlt => absurd hlt (lt_irrefl _),
      fun hlt => absurd hlt (lt_irrefl _), fun hlt => absurd hlt (lt_irrefl _)⟩
  obtain ⟨hsame, -⟩ := updateMetrics_eq he
  have hebound : e.Bounded := updateMetrics_bounded hexp (hc.withBase base) he
  have hcurr : e.currBw = c.currBw := hsame.currBw
  have hlow := hebound.minBw ▸ hebound.currBw.1
  have hhigh := hebound.maxBw ▸ hebound.currBw.2
  rw [due, decide_eq_true_eq] at hdue
  rw [updateBw_eq, ← hcurr]
  have hraised (hlt : e.currBw <
      max (min e.maxBw (e.proposed (nowUs - c.lastTimeCalcUs))) e.minBw) :
      e.currBw < min e.maxBw (e.proposed (nowUs - c.lastTimeCalcUs)) :=
    (lt_max_iff.mp hlt).resolve_right (not_lt.mpr hlow)
  refine ⟨fun _ => hdue.2, fun hlt => ?_, fun hlt hcongested => ?_, fun hlt hcalm => ?_⟩
  · have hproposed : e.proposed (nowUs - c.lastTimeCalcUs) < e.currBw :=
      (min_lt_iff.mp ((le_max_left _ _).trans_lt hlt)).resolve_left (not_lt.mpr hhigh)
    have hgradual : ¬ e.rampsUp := fun hup => by
      rw [proposed_of_rampsUp hup] at hproposed
      exact absurd hproposed (not_lt.mpr (le_max_left _ _))
    exact ⟨congested_iff.mpr hgradual, lt_of_proposed_lt hebound hgradual hproposed⟩
  · exact lt_of_lt_proposed hebound (congested_iff.mp hcongested) (lt_min_iff.mp (hraised hlt)).2
  · have hup : e.rampsUp := not_not.mp (mt congested_iff.mpr hcalm)
    have hmin := hraised hlt
    have hproposed := (lt_min_iff.mp hmin).2
    rw [proposed_of_rampsUp hup] at hproposed hmin ⊢
    have hrecv : e.currBw < (1 + gamma e.rttUs) * e.recvR :=
      (lt_max_iff.mp hproposed).resolve_left (lt_irrefl _)
    rw [max_eq_right hrecv.le] at hmin ⊢
    change max (min e.maxBw _) e.minBw ≤ _
    exact max_le (min_le_right _ _) (hlow.trans hrecv.le)

/-- Three packets, acknowledged 120 ms after one another. -/
def threePackets : List Event :=
  [.processSendPacket 1000 7 100, .processFeedback 41000 7 21000,
    .processSendPacket 121000 8 100, .processFeedback 161000 8 141000,
    .processSendPacket 241000 9 100]

/-- The start of the exponential series. -/
def taylor (x : ℚ) : ℚ := 1 + x + x * x / 2

theorem taylor_nonneg (x : ℚ) : 0 ≤ taylor x := by
  rw [taylor]
  nlinarith [mul_self_nonneg (x + 1)]

theorem bounded_of_run_threePackets :
    ∃ c, Run.exec (step taylor) ({} : NadaController ℚ) threePackets = some c ∧ c.Bounded := by
  have hreturns : (Run.exec (step taylor) ({} : NadaController ℚ) threePackets).isSome = true := by
    decide +kernel
  obtain ⟨c, hc⟩ := Option.isSome_iff_exists.mp hreturns
  exact ⟨c, hc, (bounded_of_run taylor_nonneg hc).1⟩

end

end NadaController

end Zhuge
