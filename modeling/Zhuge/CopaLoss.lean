-- SUMMARY: Copa over exact numbers: where the acked and lost bytes are counted, the loss rate, and the delta.
import Zhuge.Lib.Batches
import Zhuge.Lib.Run
import Zhuge.TcpCopa

/-!
# Loss rate and delta

Acked and lost bytes collect in a report, the reports collect in a cycle of two round trips, and
a cycle gives a loss rate. The mode follows from the rate and the samples, and the delta from the
mode. Numbers of type `double` are exact rationals here.
-/

namespace Zhuge

/-- Copa with exact numbers. The fields of type `double` in `shared` are not used. -/
structure ExactCopa (F : Type) where
  shared : TcpCopa F
  deltaParam : ℚ
  prevLossRate : ℚ
  kCopaDefaultDelta : ℚ
  /-- The acked and lost bytes of the cycles so far. -/
  cycles : List (UInt32 × UInt32)
  /-- The modes of the reports so far, and the bytes they lost. -/
  reports : List (CopaMode × UInt32)

namespace ExactCopa

variable {F : Type}

/-! ## The report -/

/-- The loss rate of a cycle of two round trips. -/
def updateLossRate (now rttMin : Time) (s : ExactCopa F) : ExactCopa F :=
  if now > s.shared.prevLossCycle + rttMin + rttMin then
    let packets := s.shared.curNumLosses + s.shared.curNumAcked
    { s with
      prevLossRate :=
        if packets > 0 then s.shared.curNumLosses.toNat / packets.toNat else s.prevLossRate
      cycles := s.cycles ++ [(s.shared.curNumAcked, s.shared.curNumLosses)]
      shared := { s.shared with
        curNumLosses := 0
        curNumAcked := 0
        prevLossCycle := now } }
  else s

/-- `m_deltaParam`, at most the default. -/
def capDelta (delta : ℚ) (s : ExactCopa F) : ExactCopa F :=
  { s with deltaParam := if delta > s.kCopaDefaultDelta then s.kCopaDefaultDelta else delta }

def setMode (mode : CopaMode) (s : ExactCopa F) : ExactCopa F :=
  { s with shared := { s.shared with copaCurMode := mode } }

/-- The mode, by the loss rate and by the samples. -/
def updateMode (srtt rttMin : Time) (s : ExactCopa F) : ExactCopa F :=
  if s.prevLossRate ≥ 1 / 10 then s.setMode .tcpLoss
  else if s.shared.tcpDetected srtt rttMin then s.setMode .tcpCoop
  else { s.setMode .default with deltaParam := s.kCopaDefaultDelta }

/-- `m_deltaParam` in the mode. -/
def updateDelta (lost : UInt32) (s : ExactCopa F) : ExactCopa F :=
  if s.shared.copaCurMode = .default ∨ ¬ s.shared.copaModeSwitch then
    { s with deltaParam := s.kCopaDefaultDelta }
  else if s.shared.copaCurMode = .tcpCoop then
    s.capDelta (if lost > 0 then s.deltaParam * 2 else 1 / (1 + 1 / s.deltaParam))
  else s.capDelta (if lost > 0 then s.deltaParam * 2 else s.deltaParam)

/-- `ReportMeasurement`. -/
def reportMeasurement (now srtt rttMin : Time) (acked lost : UInt32) (s : ExactCopa F) :
    ExactCopa F :=
  let s := { s with shared := { s.shared with
    curNumAcked := s.shared.curNumAcked + acked
    curNumLosses := s.shared.curNumLosses + lost } }
  let s := ((s.updateLossRate now rttMin).updateMode srtt rttMin).updateDelta lost
  { s with reports := s.reports ++ [(s.shared.copaCurMode, lost)] }

/-! ## The call -/

/-- `increase_cwnd`: whether the target rate is at least the current one. A rate over zero
microseconds is infinite. -/
def increasesCwnd (tcb : TcpSocketState) (rtt rttMin rttStanding : Time) (s : ExactCopa F) : Bool :=
  let delayUs : UInt64 :=
    .ofInt (Time.getMicroSeconds (if s.shared.useRttStanding then rttStanding else rtt) -
      Time.getMicroSeconds rttMin)
  if delayUs = 0 then true
  else
    let standingUs := Time.getMicroSeconds rttStanding
    let targetUs : ℚ := delayUs.toNat * s.deltaParam
    targetUs = 0 ∨ standingUs ≠ 0 ∧
      (tcb.segmentSize.toNat * 1000000 / targetUs : ℚ) ≥ tcb.cWnd.toNat * 1000000 / standingUs

/-- `change`, with any conversion of a `double` to `uint32_t`. A division by zero gives it
`none`. -/
def change (convert : Option ℚ → UInt32) (tcb : TcpSocketState) (s : ExactCopa F) : UInt32 :=
  let product := TcpCopa.stepProduct (s.shared.ackedPackets tcb.segmentSize) tcb.segmentSize
    s.shared.velocityState.velocity
  let divisor : ℚ := s.deltaParam * tcb.cWnd.toNat
  min (convert (if divisor = 0 then none else some (product.toNat / divisor))) tcb.cWnd

/-- `CongControl` after the report. `none`: an assertion fails. -/
def updateWindow (flt : RttFilter F) (convert : Option ℚ → UInt32) (now : Time)
    (tcb : TcpSocketState) (increaseCwnd : Bool) (s : ExactCopa F) :
    Option (TcpSocketState × ExactCopa F) := do
  let shared ← (if increaseCwnd ∧ s.shared.isSlowStart then some s.shared
    else s.shared.checkAndUpdateDirection now tcb.lastRtt tcb.cWnd s.shared.reportAckedBytes)
  let s := { s with shared }
  let (cWnd, shared) ← s.shared.moveWindow now tcb increaseCwnd (s.change convert tcb)
  let (tcb, shared) := shared.finish flt now tcb cWnd
  some (tcb, { s with shared })

/-- `CongControl`. `none`: an assertion fails, or it divides by zero. -/
def congControl (flt : RttFilter F) (convert : Option ℚ → UInt32) (now : Time)
    (tcb : TcpSocketState) (rs : RateSample) (s : ExactCopa F) :
    Option (TcpSocketState × ExactCopa F) :=
  let srtt := tcb.lastRtt
  let s := { s with shared := s.shared.sample flt now tcb rs }
  let rttMin := flt.getBest s.shared.minRttFilter
  let rttStanding := flt.getBest s.shared.standingRttFilter
  if ¬ (now > 0 ∧ s.shared.lastReportTime + srtt / 2 < now) then some (tcb, s)
  else if rttMin = 0 ∨ rttStanding = 0 then none
  else if rttStanding < rttMin then some (tcb, s)
  else if tcb.segmentSize = 0 then none
  else
    let s := s.reportMeasurement now srtt rttMin s.shared.reportAckedBytes s.shared.reportLostBytes
    s.updateWindow flt convert now tcb (s.increasesCwnd tcb rs.rtt rttMin rttStanding)

/-! ## Runs -/

/-- The state after a call. -/
def step (flt : RttFilter F) (convert : Option ℚ → UInt32) (s : ExactCopa F)
    (c : TcpCopa.Call) : Option (ExactCopa F) :=
  (s.congControl flt convert c.now c.tcb c.rs).map Prod.snd

/-- A new connection, with the delta at its default. -/
def start (c : TcpCopa.Config F) (defaultDelta : ℚ) : ExactCopa F where
  shared := .init c
  deltaParam := defaultDelta
  prevLossRate := 0
  kCopaDefaultDelta := defaultDelta
  cycles := []
  reports := []

end ExactCopa

/-! ## The counters -/

/-- The counters of bytes, and the switch, which no call changes. -/
structure CopaCounters where
  curNumAcked : UInt32
  curNumLosses : UInt32
  reportAckedBytes : UInt32
  reportLostBytes : UInt32
  copaModeSwitch : Bool

namespace TcpCopa

variable {F : Type} {flt : RttFilter F} {now : Time} {tcb : TcpSocketState} {rs : RateSample}
  {s s' : TcpCopa F}

def counters (s : TcpCopa F) : CopaCounters where
  curNumAcked := s.curNumAcked
  curNumLosses := s.curNumLosses
  reportAckedBytes := s.reportAckedBytes
  reportLostBytes := s.reportLostBytes
  copaModeSwitch := s.copaModeSwitch

theorem counters_newRttSample (rtt rttMin now : Time) (s : TcpCopa F) :
    (s.newRttSample rtt rttMin now).counters = s.counters := by
  simp only [newRttSample, clearOldHist, counters, apply_ite curNumAcked, apply_ite curNumLosses,
    apply_ite reportAckedBytes, apply_ite reportLostBytes, apply_ite copaModeSwitch, ite_self]

theorem counters_sample (flt : RttFilter F) (now : Time) (tcb : TcpSocketState) (rs : RateSample)
    (s : TcpCopa F) : (s.sample flt now tcb rs).counters = { s.counters with
      reportAckedBytes := s.reportAckedBytes + rs.ackedSacked
      reportLostBytes := s.reportLostBytes + rs.bytesLoss } := by
  rw [sample, counters_newRttSample]
  rfl

theorem counters_checkAndUpdateDirection {srtt : Time} {cwndBytes ackedBytes : UInt32}
    (h : s.checkAndUpdateDirection now srtt cwndBytes ackedBytes = some s') :
    s'.counters = s.counters := by
  simp only [checkAndUpdateDirection] at h
  split_ifs at h
  all_goals
    cases h
    rfl

theorem counters_moveWindow {increaseCwnd : Bool} {change cWnd : UInt32}
    (h : s.moveWindow now tcb increaseCwnd change = some (cWnd, s')) :
    s'.counters = s.counters := by
  unfold moveWindow at h
  split_ifs at h with hup hslow hfirst helapsed
  · cases h
    rfl
  · obtain ⟨newCwnd, -, heq⟩ := Option.map_eq_some_iff.mp h
    cases heq
    rfl
  · cases h
    rfl
  · obtain ⟨newCwnd, -, heq⟩ := Option.map_eq_some_iff.mp h
    cases heq
    rfl
  all_goals
    cases h
    rfl

theorem counters_finish (cWnd : UInt32) (s : TcpCopa F) :
    (s.finish flt now tcb cWnd).2.counters =
      { s.counters with reportAckedBytes := 0, reportLostBytes := 0 } := rfl

end TcpCopa

namespace ExactCopa

open TcpCopa

variable {F : Type} {flt : RttFilter F} {convert : Option ℚ → UInt32} {c : Call}
  {s s' : ExactCopa F}

/-! ## What a call does -/

/-- What a call adds to the report. -/
def receive (flt : RttFilter F) (c : Call) (s : ExactCopa F) : ExactCopa F :=
  { s with shared := s.shared.sample flt c.now c.tcb c.rs }

/-- The report of a call. -/
def report (flt : RttFilter F) (c : Call) (s : ExactCopa F) : ExactCopa F :=
  s.reportMeasurement c.now c.tcb.lastRtt (flt.getBest s.shared.minRttFilter)
    s.shared.reportAckedBytes s.shared.reportLostBytes

theorem updateWindow_eq_some {now : Time} {tcb tcb' : TcpSocketState} {increaseCwnd : Bool}
    (h : s.updateWindow flt convert now tcb increaseCwnd = some (tcb', s')) :
    ∃ shared, shared.counters =
        { s.shared.counters with reportAckedBytes := 0, reportLostBytes := 0 } ∧
      s' = { s with shared } := by
  obtain ⟨turned, hturn, h⟩ := Option.bind_eq_some_iff.mp h
  obtain ⟨⟨cWnd, moved⟩, hmove, h⟩ := Option.bind_eq_some_iff.mp h
  have hturned : turned.counters = s.shared.counters := by
    split at hturn
    · cases hturn
      rfl
    · exact counters_checkAndUpdateDirection hturn
  cases h
  refine ⟨(moved.finish flt now tcb cWnd).2, ?_, rfl⟩
  rw [counters_finish, counters_moveWindow hmove, hturned]

/-- A call leaves what it received pending, or makes a report and clears it. -/
theorem step_cases (h : s.step flt convert c = some s') :
    s' = s.receive flt c ∨
      ∃ shared, shared.counters = { ((s.receive flt c).report flt c).shared.counters with
          reportAckedBytes := 0
          reportLostBytes := 0 } ∧
        s' = { (s.receive flt c).report flt c with shared } := by
  obtain ⟨⟨tcb', t⟩, hcall, rfl⟩ := Option.map_eq_some_iff.mp h
  dsimp only [congControl] at hcall
  split at hcall
  · cases hcall
    exact .inl rfl
  · split at hcall
    · cases hcall
    · split at hcall
      · cases hcall
        exact .inl rfl
      · split at hcall
        · cases hcall
        · exact .inr (updateWindow_eq_some hcall)

/-! ## The delta -/

/-- The delta is positive and not above its default. -/
structure DeltaBounded (s : ExactCopa F) : Prop where
  pos : 0 < s.deltaParam
  le : s.deltaParam ≤ s.kCopaDefaultDelta

theorem deltaBounded_capDelta {delta : ℚ} (hdelta : 0 < delta)
    (hdefault : 0 < s.kCopaDefaultDelta) : (s.capDelta delta).DeltaBounded := by
  unfold capDelta
  constructor <;> dsimp only <;> split_ifs with hgt
  · exact hdefault
  · exact hdelta
  · exact le_rfl
  · exact not_lt.mp hgt

theorem DeltaBounded.default_pos (h : s.DeltaBounded) : 0 < s.kCopaDefaultDelta :=
  h.pos.trans_le h.le

theorem DeltaBounded.updateDelta (h : s.DeltaBounded) (lost : UInt32) :
    (s.updateDelta lost).DeltaBounded := by
  have hdelta := h.pos
  have hdoubled : 0 < s.deltaParam * 2 := by positivity
  unfold ExactCopa.updateDelta
  split_ifs with hdefault hcoop hlost hlost
  · exact ⟨h.default_pos, le_rfl⟩
  · exact deltaBounded_capDelta hdoubled h.default_pos
  · exact deltaBounded_capDelta (by positivity) h.default_pos
  · exact deltaBounded_capDelta hdoubled h.default_pos
  · exact deltaBounded_capDelta hdelta h.default_pos

theorem updateMode_cases (srtt rttMin : Time) (s : ExactCopa F) :
    ∃ mode, s.updateMode srtt rttMin = s.setMode mode ∨
      s.updateMode srtt rttMin = { s.setMode mode with deltaParam := s.kCopaDefaultDelta } ∧
        mode = .default := by
  unfold updateMode
  split_ifs
  · exact ⟨.tcpLoss, .inl rfl⟩
  · exact ⟨.tcpCoop, .inl rfl⟩
  · exact ⟨.default, .inr ⟨rfl, rfl⟩⟩

theorem DeltaBounded.updateMode (h : s.DeltaBounded) (srtt rttMin : Time) :
    (s.updateMode srtt rttMin).DeltaBounded := by
  obtain ⟨mode, heq | ⟨heq, -⟩⟩ := updateMode_cases srtt rttMin s
  · rw [heq]
    exact ⟨h.pos, h.le⟩
  · rw [heq]
    exact ⟨h.default_pos, le_rfl⟩

/-- Without losses, cooperating adds one to the inverse of the delta. -/
theorem inv_deltaParam_updateDelta (h : s.DeltaBounded) (hmode : s.shared.copaCurMode = .tcpCoop)
    (hswitch : s.shared.copaModeSwitch = true) :
    1 / (s.updateDelta 0).deltaParam = 1 / s.deltaParam + 1 := by
  have hpos := h.pos
  have hlt : 1 / (1 + 1 / s.deltaParam) ≤ s.deltaParam := by
    rw [div_le_iff₀ (by positivity), mul_add, mul_one_div_cancel hpos.ne']
    linarith
  have hnot : ¬ (s.shared.copaCurMode = .default ∨ ¬ s.shared.copaModeSwitch) := by
    simp [hmode, hswitch]
  have hlossless : ¬ (0 : UInt32) > 0 := by decide
  rw [updateDelta, if_neg hnot, if_pos hmode, capDelta, if_neg hlossless]
  dsimp only
  rw [if_neg (not_lt.mpr (hlt.trans h.le)), one_div_one_div, add_comm]

/-! ## The report -/

/-- What the mode and the delta leave alone. -/
structure Ledger where
  counters : CopaCounters
  prevLossRate : ℚ
  cycles : List (UInt32 × UInt32)
  reports : List (CopaMode × UInt32)
  kCopaDefaultDelta : ℚ

def ledger (s : ExactCopa F) : Ledger where
  counters := s.shared.counters
  prevLossRate := s.prevLossRate
  cycles := s.cycles
  reports := s.reports
  kCopaDefaultDelta := s.kCopaDefaultDelta

theorem ledger_updateMode (srtt rttMin : Time) (s : ExactCopa F) :
    (s.updateMode srtt rttMin).ledger = s.ledger := by
  obtain ⟨mode, heq | ⟨heq, -⟩⟩ := updateMode_cases srtt rttMin s
  all_goals
    rw [heq]
    rfl

theorem shared_updateDelta (lost : UInt32) (s : ExactCopa F) :
    (s.updateDelta lost).shared = s.shared := by
  unfold updateDelta
  split_ifs <;> rfl

theorem ledger_updateDelta (lost : UInt32) (s : ExactCopa F) :
    (s.updateDelta lost).ledger = s.ledger := by
  unfold updateDelta
  split_ifs <;> rfl

/-- The counters with a report moved into the cycle. -/
def accrue (acked lost : UInt32) (s : ExactCopa F) : ExactCopa F :=
  { s with shared := { s.shared with
    curNumAcked := s.shared.curNumAcked + acked
    curNumLosses := s.shared.curNumLosses + lost } }

/-- A cycle goes on, or it is closed with what was counted in it. -/
theorem updateLossRate_cases (now rttMin : Time) (s : ExactCopa F) :
    s.updateLossRate now rttMin = s ∨
      (s.updateLossRate now rttMin).deltaParam = s.deltaParam ∧
      (s.updateLossRate now rttMin).ledger = { s.ledger with
        counters := { s.shared.counters with curNumAcked := 0, curNumLosses := 0 }
        prevLossRate :=
          if s.shared.curNumLosses + s.shared.curNumAcked > 0 then
            s.shared.curNumLosses.toNat / (s.shared.curNumLosses + s.shared.curNumAcked).toNat
          else s.prevLossRate
        cycles := s.cycles ++ [(s.shared.curNumAcked, s.shared.curNumLosses)] } := by
  unfold updateLossRate
  split
  · exact .inr ⟨rfl, rfl⟩
  · exact .inl rfl

/-- The cycle has no part in the delta. -/
theorem updateLossRate_frame (now rttMin : Time) (s : ExactCopa F) :
    (s.updateLossRate now rttMin).deltaParam = s.deltaParam ∧
      (s.updateLossRate now rttMin).kCopaDefaultDelta = s.kCopaDefaultDelta ∧
      (s.updateLossRate now rttMin).shared.copaModeSwitch = s.shared.copaModeSwitch ∧
      (s.updateLossRate now rttMin).reports = s.reports := by
  unfold updateLossRate
  split <;> exact ⟨rfl, rfl, rfl, rfl⟩

theorem reportMeasurement_spec (now srtt rttMin : Time) (acked lost : UInt32) (s : ExactCopa F) :
    ∃ mode, (s.reportMeasurement now srtt rttMin acked lost).ledger =
      { ((s.accrue acked lost).updateLossRate now rttMin).ledger with
        reports := s.reports ++ [(mode, lost)] } ∧
      (s.DeltaBounded → (s.reportMeasurement now srtt rttMin acked lost).DeltaBounded ∧
        (mode = .tcpCoop → lost = 0 → s.shared.copaModeSwitch = true →
          1 / (s.reportMeasurement now srtt rttMin acked lost).deltaParam =
            1 / s.deltaParam + 1)) := by
  obtain ⟨hdelta, hdefault, hswitch, hreports⟩ :=
    updateLossRate_frame now rttMin (s.accrue acked lost)
  have heq : s.reportMeasurement now srtt rttMin acked lost =
      let t := ((((s.accrue acked lost).updateLossRate now rttMin).updateMode srtt
        rttMin).updateDelta lost)
      { t with reports := t.reports ++ [(t.shared.copaCurMode, lost)] } := rfl
  rw [heq]
  generalize (s.accrue acked lost).updateLossRate now rttMin = t at *
  have hmode := updateMode_cases srtt rttMin t
  have hledger := ledger_updateMode srtt rttMin t
  have hmodeBounded := fun h : t.DeltaBounded => h.updateMode srtt rttMin
  generalize t.updateMode srtt rttMin = u at *
  have hfinal := (ledger_updateDelta lost u).trans hledger
  refine ⟨u.shared.copaCurMode, ?_, fun hbounded => ?_⟩
  · have hold : (u.updateDelta lost).reports = s.reports :=
      (congrArg Ledger.reports hfinal).trans hreports
    change { (u.updateDelta lost).ledger with
      reports := (u.updateDelta lost).reports ++
        [((u.updateDelta lost).shared.copaCurMode, lost)] } = _
    rw [hfinal, hold, shared_updateDelta]
  · have ht : t.DeltaBounded := by
      constructor
      · rw [hdelta]
        exact hbounded.pos
      · rw [hdelta, hdefault]
        exact hbounded.le
    have hlast := (hmodeBounded ht).updateDelta lost
    refine ⟨⟨hlast.pos, hlast.le⟩, fun hcoop hlost hon => ?_⟩
    have hsame : u.deltaParam = s.deltaParam := by
      rcases hmode with ⟨mode, rfl | ⟨rfl, rfl⟩⟩
      · exact hdelta
      · cases hcoop
    have hstill : u.shared.copaModeSwitch = true :=
      (congrArg (·.counters.copaModeSwitch) hledger).trans (hswitch.trans hon)
    rw [hlost]
    exact (inv_deltaParam_updateDelta (hmodeBounded ht) hcoop hstill).trans (by rw [hsame])

/-! ## Runs of the delta -/

/-- A call without a report leaves the delta alone; a report in which no bytes were lost, in
`TCPCoop` with the switch on, adds one to its inverse. -/
theorem DeltaBounded.step (h : s.DeltaBounded) (hstep : s.step flt convert c = some s') :
    s'.DeltaBounded ∧ s'.kCopaDefaultDelta = s.kCopaDefaultDelta ∧
      s'.shared.copaModeSwitch = s.shared.copaModeSwitch ∧
      (s'.reports = s.reports ∧ s'.deltaParam = s.deltaParam ∨
        ∃ report, s'.reports = s.reports ++ [report] ∧
          (report = (.tcpCoop, 0) → s.shared.copaModeSwitch = true →
            1 / s'.deltaParam = 1 / s.deltaParam + 1)) := by
  have hreceive : (s.receive flt c).shared.copaModeSwitch = s.shared.copaModeSwitch :=
    congrArg (·.copaModeSwitch) (counters_sample flt c.now c.tcb c.rs s.shared)
  rcases step_cases hstep with rfl | ⟨shared, hshared, rfl⟩
  · exact ⟨⟨h.pos, h.le⟩, rfl, hreceive, .inl ⟨rfl, rfl⟩⟩
  · have hbounded : (s.receive flt c).DeltaBounded := ⟨h.pos, h.le⟩
    obtain ⟨mode, hledger, hdelta⟩ := reportMeasurement_spec c.now c.tcb.lastRtt
      (flt.getBest (s.receive flt c).shared.minRttFilter)
      (s.receive flt c).shared.reportAckedBytes (s.receive flt c).shared.reportLostBytes
      (s.receive flt c)
    obtain ⟨hafter, hcoop⟩ := hdelta hbounded
    obtain ⟨-, hdefault, hswitch, -⟩ := updateLossRate_frame c.now
      (flt.getBest (s.receive flt c).shared.minRttFilter)
      ((s.receive flt c).accrue (s.receive flt c).shared.reportAckedBytes
        (s.receive flt c).shared.reportLostBytes)
    refine ⟨⟨hafter.pos, hafter.le⟩, ?_, ?_, .inr
      ⟨(mode, (s.receive flt c).shared.reportLostBytes), ?_, fun hreport hon => ?_⟩⟩
    · exact (congrArg Ledger.kCopaDefaultDelta hledger).trans hdefault
    · refine (congrArg (·.copaModeSwitch) hshared).trans (Eq.trans ?_ hreceive)
      exact (congrArg (·.counters.copaModeSwitch) hledger).trans hswitch
    · exact congrArg Ledger.reports hledger
    · obtain ⟨rfl, hlost⟩ := Prod.mk.inj hreport
      exact hcoop rfl hlost (hreceive.trans hon)

/-- What a run keeps, and how its reports move the delta. -/
theorem DeltaBounded.exec (h : s.DeltaBounded) {calls : List Call}
    (hrun : Run.exec (ExactCopa.step flt convert) s calls = some s') :
    s'.DeltaBounded ∧ s'.kCopaDefaultDelta = s.kCopaDefaultDelta ∧
      s'.shared.copaModeSwitch = s.shared.copaModeSwitch ∧
      ∃ new, s'.reports = s.reports ++ new ∧
        ((∀ report ∈ new, report = (.tcpCoop, 0)) → s.shared.copaModeSwitch = true →
          1 / s'.deltaParam = 1 / s.deltaParam + new.length) := by
  induction calls generalizing s with
  | nil =>
    cases hrun
    exact ⟨h, rfl, rfl, [], (List.append_nil _).symm, fun _ _ => by simp⟩
  | cons c calls ih =>
    obtain ⟨t, hstep, hrest⟩ := Run.exec_cons_eq_some.mp hrun
    obtain ⟨ht, hdefault, hswitch, hreport⟩ := h.step hstep
    obtain ⟨hs', hdefault', hswitch', new, hnew, hsum⟩ := ih ht hrest
    refine ⟨hs', hdefault'.trans hdefault, hswitch'.trans hswitch, ?_⟩
    rcases hreport with ⟨hsame, hdelta⟩ | ⟨report, hone, hadd⟩
    · refine ⟨new, hsame ▸ hnew, fun hall hon => ?_⟩
      rw [hsum hall (hswitch.trans hon), hdelta]
    · refine ⟨report :: new, ?_, fun hall hon => ?_⟩
      · rw [hnew, hone, List.append_assoc, List.singleton_append]
      · rw [List.forall_mem_cons] at hall
        rw [hsum hall.2 (hswitch.trans hon), hadd hall.1 hon, List.length_cons]
        push_cast
        ring

/-! ## Where the bytes are counted -/

def acked (calls : List Call) : ℕ := (calls.map (·.rs.ackedSacked.toNat)).sum

def lost (calls : List Call) : ℕ := (calls.map (·.rs.bytesLoss.toNat)).sum

theorem acked_append (calls calls' : List Call) :
    acked (calls ++ calls') = acked calls + acked calls' := by
  rw [acked, List.map_append, List.sum_append]
  rfl

theorem lost_append (calls calls' : List Call) :
    lost (calls ++ calls') = lost calls + lost calls' := by
  rw [lost, List.map_append, List.sum_append]
  rfl

/-- The closed cycles, the counters of the cycle and the counters of the report hold the bytes of
the calls in the closed batches, in the current batch and of those that are pending. -/
structure Counted (b : Batches Call) (s : ExactCopa F) : Prop where
  cycles : s.cycles.map (fun cycle => (cycle.1.toNat, cycle.2.toNat)) =
    b.closed.map fun calls => (acked calls, lost calls)
  curNumAcked : s.shared.curNumAcked.toNat = acked b.current
  curNumLosses : s.shared.curNumLosses.toNat = lost b.current
  reportAckedBytes : s.shared.reportAckedBytes.toNat = acked b.pending
  reportLostBytes : s.shared.reportLostBytes.toNat = lost b.pending

/-- The loss rate is a rate. -/
def RateBounded (s : ExactCopa F) : Prop := 0 ≤ s.prevLossRate ∧ s.prevLossRate ≤ 1

theorem toNat_add_of_lt {a b : UInt32} (h : a.toNat + b.toNat < 2 ^ 32) :
    (a + b).toNat = a.toNat + b.toNat := by
  rw [UInt32.toNat_add]
  exact Nat.mod_eq_of_lt h

/-- The loss rate at the end of a cycle. -/
def cycleRate (prev : ℚ) (acked lost : UInt32) : ℚ :=
  if lost + acked > 0 then lost.toNat / (lost + acked).toNat else prev

/-- A cycle has a rate between zero and one when its bytes can be added up. -/
theorem cycleRate_mem {prev : ℚ} (hprev : 0 ≤ prev ∧ prev ≤ 1) {acked lost : UInt32}
    (hfits : acked.toNat + lost.toNat < 2 ^ 32) :
    0 ≤ cycleRate prev acked lost ∧ cycleRate prev acked lost ≤ 1 := by
  unfold cycleRate
  split
  · rw [toNat_add_of_lt (by omega)]
    refine ⟨by positivity, div_le_one_of_le₀ ?_ (by positivity)⟩
    push_cast
    linarith [Nat.cast_nonneg (α := ℚ) acked.toNat]
  · exact hprev

section

variable {b : Batches Call}

/-- The totals of all calls bound those of the batches. -/
theorem Counted.le (h : Counted b s) :
    s.shared.curNumAcked.toNat + s.shared.reportAckedBytes.toNat ≤ acked b.items ∧
      s.shared.curNumLosses.toNat + s.shared.reportLostBytes.toNat ≤ lost b.items := by
  rw [h.curNumAcked, h.curNumLosses, h.reportAckedBytes, h.reportLostBytes, Batches.items,
    acked_append, acked_append, lost_append, lost_append]
  omega

/-- A call is pending at first. -/
theorem Counted.receive (h : Counted b s)
    (hfits : acked (b.items ++ [c]) + lost (b.items ++ [c]) < 2 ^ 32) (flt : RttFilter F) :
    Counted (b.push c) (s.receive flt c) := by
  have hcounters := counters_sample flt c.now c.tcb c.rs s.shared
  have hle := h.le
  have hacked : acked [c] = c.rs.ackedSacked.toNat := List.sum_singleton
  have hlost : lost [c] = c.rs.bytesLoss.toNat := List.sum_singleton
  rw [acked_append, lost_append, hacked, hlost] at hfits
  refine ⟨h.cycles, ?_, ?_, ?_, ?_⟩
  · exact (congrArg (·.curNumAcked.toNat) hcounters).trans h.curNumAcked
  · exact (congrArg (·.curNumLosses.toNat) hcounters).trans h.curNumLosses
  · refine (congrArg (·.reportAckedBytes.toNat) hcounters).trans ?_
    rw [Batches.push, acked_append, hacked, ← h.reportAckedBytes]
    exact toNat_add_of_lt (by omega)
  · refine (congrArg (·.reportLostBytes.toNat) hcounters).trans ?_
    rw [Batches.push, lost_append, hlost, ← h.reportLostBytes]
    exact toNat_add_of_lt (by omega)

/-- A report moves into the cycle, which may be closed. -/
theorem Counted.report (h : Counted b s) (hfits : acked b.items + lost b.items < 2 ^ 32)
    {shared : TcpCopa F}
    (hshared : shared.counters = { (s.report flt c).shared.counters with
      reportAckedBytes := 0
      reportLostBytes := 0 }) :
    (Counted b.flush { s.report flt c with shared } ∨
      Counted b.flush.close { s.report flt c with shared }) ∧
    (s.RateBounded → (s.report flt c).RateBounded) := by
  obtain ⟨hackedle, hlostle⟩ := h.le
  have hacked : (s.shared.curNumAcked + s.shared.reportAckedBytes).toNat =
      acked (b.current ++ b.pending) := by
    rw [toNat_add_of_lt (by omega), h.curNumAcked, h.reportAckedBytes, acked_append]
  have hlost : (s.shared.curNumLosses + s.shared.reportLostBytes).toNat =
      lost (b.current ++ b.pending) := by
    rw [toNat_add_of_lt (by omega), h.curNumLosses, h.reportLostBytes, lost_append]
  obtain ⟨mode, hledger, -⟩ := reportMeasurement_spec c.now c.tcb.lastRtt
    (flt.getBest s.shared.minRttFilter) s.shared.reportAckedBytes s.shared.reportLostBytes s
  change (s.report flt c).ledger = _ at hledger
  rcases updateLossRate_cases c.now (flt.getBest s.shared.minRttFilter)
    (s.accrue s.shared.reportAckedBytes s.shared.reportLostBytes) with hgoes | ⟨-, hcloses⟩
  · rw [hgoes] at hledger
    have hcounters := hshared.trans (congrArg (fun l : Ledger => { l.counters with
      reportAckedBytes := 0
      reportLostBytes := 0 }) hledger)
    have hcycles : (s.report flt c).cycles = s.cycles := congrArg Ledger.cycles hledger
    have hrate : (s.report flt c).prevLossRate = s.prevLossRate :=
      congrArg Ledger.prevLossRate hledger
    refine ⟨.inl ⟨?_, ?_, ?_, ?_, ?_⟩, fun hbounded => ?_⟩
    · exact (congrArg (List.map _) hcycles).trans h.cycles
    · exact (congrArg (·.curNumAcked.toNat) hcounters).trans hacked
    · exact (congrArg (·.curNumLosses.toNat) hcounters).trans hlost
    · exact congrArg (·.reportAckedBytes.toNat) hcounters
    · exact congrArg (·.reportLostBytes.toNat) hcounters
    · rw [RateBounded, hrate]
      exact hbounded
  · rw [hcloses] at hledger
    have hcounters := hshared.trans (congrArg (fun l : Ledger => { l.counters with
      reportAckedBytes := 0
      reportLostBytes := 0 }) hledger)
    have hcycles : (s.report flt c).cycles = s.cycles ++
        [(s.shared.curNumAcked + s.shared.reportAckedBytes,
          s.shared.curNumLosses + s.shared.reportLostBytes)] := congrArg Ledger.cycles hledger
    have hrate : (s.report flt c).prevLossRate = cycleRate s.prevLossRate
        (s.shared.curNumAcked + s.shared.reportAckedBytes)
        (s.shared.curNumLosses + s.shared.reportLostBytes) := congrArg Ledger.prevLossRate hledger
    refine ⟨.inr ⟨?_, ?_, ?_, ?_, ?_⟩, fun hbounded => ?_⟩
    · refine (congrArg (List.map _) hcycles).trans ?_
      rw [List.map_append, h.cycles, List.map_singleton, hacked, hlost, Batches.close,
        Batches.flush, List.map_append]
      rfl
    · exact congrArg (·.curNumAcked.toNat) hcounters
    · exact congrArg (·.curNumLosses.toNat) hcounters
    · exact congrArg (·.reportAckedBytes.toNat) hcounters
    · exact congrArg (·.reportLostBytes.toNat) hcounters
    · rw [RateBounded, hrate]
      refine cycleRate_mem hbounded ?_
      rw [toNat_add_of_lt (by omega), toNat_add_of_lt (by omega)]
      omega

/-- A call keeps the bytes of the calls before it and its own in place. -/
theorem Counted.step (h : Counted b s) (hrate : s.RateBounded)
    (hfits : acked (b.items ++ [c]) + lost (b.items ++ [c]) < 2 ^ 32)
    (hstep : s.step flt convert c = some s') :
    ∃ b' : Batches Call, b'.items = b.items ++ [c] ∧ Counted b' s' ∧ s'.RateBounded := by
  have hreceived := h.receive hfits flt
  rcases step_cases hstep with rfl | ⟨shared, hshared, rfl⟩
  · exact ⟨b.push c, Batches.items_push c b, hreceived, hrate⟩
  · rw [← Batches.items_push] at hfits
    obtain ⟨hcounted, hbounded⟩ := hreceived.report hfits hshared
    rcases hcounted with hcounted | hcounted
    · exact ⟨(b.push c).flush, by simp, hcounted, hbounded hrate⟩
    · exact ⟨(b.push c).flush.close, by simp, hcounted, hbounded hrate⟩

theorem Counted.exec (h : Counted b s) (hrate : s.RateBounded) {calls : List Call}
    (hfits : acked (b.items ++ calls) + lost (b.items ++ calls) < 2 ^ 32)
    (hrun : Run.exec (ExactCopa.step flt convert) s calls = some s') :
    ∃ b' : Batches Call, b'.items = b.items ++ calls ∧ Counted b' s' ∧ s'.RateBounded := by
  induction calls generalizing s b with
  | nil =>
    cases hrun
    exact ⟨b, (List.append_nil _).symm, h, hrate⟩
  | cons c calls ih =>
    obtain ⟨t, hstep, hrest⟩ := Run.exec_cons_eq_some.mp hrun
    rw [List.append_cons] at hfits ⊢
    have hfirst : acked (b.items ++ [c]) + lost (b.items ++ [c]) < 2 ^ 32 := by
      rw [acked_append (b.items ++ [c]), lost_append (b.items ++ [c])] at hfits
      omega
    obtain ⟨b₁, hitems, hcounted, hrate₁⟩ := h.step hrate hfirst hstep
    rw [← hitems] at hfits ⊢
    exact ih hcounted hrate₁ hfits hrest

end

/-- In every run each acked or lost byte is in one closed cycle, in the counters of the current one
or in those of the report; the loss rate is between zero and one, the delta is positive and at most
the default, and any reports without losses in `TCPCoop`, with the switch on, raise its inverse by
their number. -/
theorem accounting_run (flt : RttFilter F) (convert : Option ℚ → UInt32) (config : Config F)
    {defaultDelta : ℚ} (hdefault : 0 < defaultDelta) {calls : List Call}
    (hfits : acked calls + lost calls < 2 ^ 32)
    (hrun : Run.exec (step flt convert) (start config defaultDelta) calls = some s) :
    (∃ b : Batches Call, b.items = calls ∧ Counted b s) ∧
    (0 ≤ s.prevLossRate ∧ s.prevLossRate ≤ 1) ∧
    (0 < s.deltaParam ∧ s.deltaParam ≤ defaultDelta) ∧
    ∀ before after t, calls = before ++ after →
      Run.exec (step flt convert) (start config defaultDelta) before = some t →
      config.copaModeSwitch = true →
      ∀ reports, s.reports = t.reports ++ reports →
        (∀ report ∈ reports, report = (.tcpCoop, 0)) →
        1 / s.deltaParam = 1 / t.deltaParam + reports.length := by
  have hstart : (start config defaultDelta).DeltaBounded := ⟨hdefault, le_rfl⟩
  have hcounted : Counted .empty (start config defaultDelta) := ⟨rfl, rfl, rfl, rfl, rfl⟩
  obtain ⟨b, hitems, hb, hrate⟩ := hcounted.exec ⟨le_rfl, zero_le_one⟩ hfits hrun
  obtain ⟨hbounded, hdelta, -, -⟩ := hstart.exec hrun
  refine ⟨⟨b, hitems, hb⟩, hrate, ⟨hbounded.pos, hbounded.le.trans_eq hdelta⟩, ?_⟩
  intro before after t hcalls hbefore hon reports hreports hall
  obtain ⟨ht, -, hswitch, -⟩ := hstart.exec hbefore
  rw [hcalls] at hrun
  obtain ⟨t', ht', hafter⟩ := Run.exec_append_eq_some.mp hrun
  cases hbefore.symm.trans ht'
  obtain ⟨-, -, -, new, hnew, hsum⟩ := ht.exec hafter
  have hsame : reports = new := List.append_cancel_left (hreports.symm.trans hnew)
  rw [hsame] at hall ⊢
  exact hsum hall (hswitch.trans hon)

/-- A conversion that gives zero for numbers out of range. -/
def truncateOrZero (x : Option ℚ) : UInt32 :=
  (x.filter fun x => -1 < x ∧ x < 2 ^ 32).elim 0 fun x => .ofNat ⌊x⌋₊

/-- The round trip grows from 50 to 300 ms: the second report comes in `TCPCoop`. -/
theorem accounting_run_twoCalls :
    ∃ s t, Run.exec (step .least truncateOrZero) (start .byDefault (1 / 2))
        [.ofRtt 10000 50 1000 10000 1000, .ofRtt 20000 300 1000 10000 1000] = some s ∧
      Run.exec (step .least truncateOrZero) (start .byDefault (1 / 2))
        [.ofRtt 10000 50 1000 10000 1000] = some t ∧
      (∃ b : Batches Call, b.items =
        [.ofRtt 10000 50 1000 10000 1000, .ofRtt 20000 300 1000 10000 1000] ∧ Counted b s) ∧
      1 / s.deltaParam = 1 / t.deltaParam + 1 := by
  have hrun : (Run.exec (step .least truncateOrZero) (start .byDefault (1 / 2))
      [.ofRtt 10000 50 1000 10000 1000]).bind (fun t =>
        (step .least truncateOrZero t (.ofRtt 20000 300 1000 10000 1000)).map fun s =>
          decide (s.reports = t.reports ++ [(.tcpCoop, 0)])) = some true := by
    decide +kernel
  obtain ⟨t, ht, hrun⟩ := Option.bind_eq_some_iff.mp hrun
  obtain ⟨s, hs, hreports⟩ := Option.map_eq_some_iff.mp hrun
  have hexec : Run.exec (step .least truncateOrZero) (start .byDefault (1 / 2))
      ([.ofRtt 10000 50 1000 10000 1000] ++ [.ofRtt 20000 300 1000 10000 1000]) = some s := by
    refine Run.exec_append_eq_some.mpr ⟨t, ht, ?_⟩
    rw [Run.exec, hs]
    rfl
  have hhalf : (0 : ℚ) < 1 / 2 := by norm_num
  obtain ⟨hcounted, -, -, hdelta⟩ := accounting_run .least truncateOrZero .byDefault hhalf
    (by decide) hexec
  refine ⟨s, t, hexec, ht, hcounted, ?_⟩
  have hone := hdelta [.ofRtt 10000 50 1000 10000 1000] [.ofRtt 20000 300 1000 10000 1000] t rfl ht
    rfl [(.tcpCoop, 0)] (of_decide_eq_true hreports) (by simp)
  rw [hone]
  norm_num

end ExactCopa

end Zhuge
