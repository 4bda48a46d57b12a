-- SUMMARY: The Copa congestion control: what a call measures, how it turns, and how it moves the window.
import Zhuge.Lib.Binary64
import Zhuge.Time

/-!
# Copa

`CongControl` is called for every acknowledgement. Once per half of a round trip it
compares the rate of the window with a target rate, brings the direction and the
velocity up to date, and moves the window towards the target: by a step that is
proportional to the velocity, or by doubling it in slow start.

The filters for round-trip times are a parameter. Numbers of type `double` are
rationals that rounding leaves alone; none of them leaves the range of the type.
-/

namespace Zhuge

/-- `VelocityState::Direction`. -/
inductive Direction where
  | none
  | up
  | down
deriving DecidableEq

inductive CopaMode where
  | default
  | tcpCoop
  | tcpLoss
deriving DecidableEq

structure VelocityState where
  velocity : UInt64
  direction : Direction
  lastRecordedCwndBytes : UInt64
  lastCwndRecordTime : Time
  timeSinceDirection : Time
deriving DecidableEq

/-- The operations of a windowed filter, with times in microseconds. -/
structure RttFilter (F : Type) where
  setWindowLength : UInt64 → F → F
  update : Time → UInt64 → F → F
  getBest : F → Time
  reset : Time → UInt64 → F → F

/-- What `CongControl` reads of a rate sample. -/
structure RateSample where
  rtt : Time
  ackedSacked : UInt32
  bytesLoss : UInt32

structure TcpSocketState where
  lastRtt : Time
  segmentSize : UInt32
  cWnd : UInt32
  ssThresh : UInt32
deriving DecidableEq

structure TcpCopa (F : Type) where
  minRttFilter : F
  standingRttFilter : F
  useRttStanding : Bool
  isSlowStart : Bool
  deltaParam : Binary64
  lastCwndDoubleTime : Time
  velocityState : VelocityState
  /-- `copa_times` and `copa_rtts`, pushed and popped together. -/
  copaSamples : List (UInt64 × UInt64)
  copaIncrease : List UInt64
  copaNumIncrease : Int
  copaCurMode : CopaMode
  copaModeSwitch : Bool
  kCopaDefaultDelta : Binary64
  totalAckedBytes : UInt32
  curNumAcked : UInt32
  curNumLosses : UInt32
  reportAckedBytes : UInt32
  reportLostBytes : UInt32
  prevLossCycle : Time
  prevLossRate : Binary64
  lastReportTime : Time

namespace TcpCopa

variable {F : Type}

def kMinCwndSegment : UInt32 := 4

/-- `uint64_t (t.GetMicroSeconds ())`. -/
def toUs (t : Time) : UInt64 := .ofInt (Time.getMicroSeconds t)

/-- `AddAndCheckOverflow`. `none`: the assertion fails. -/
def addAndCheckOverflow (value toAdd : UInt32) : Option UInt32 :=
  if 0xffffffff - toAdd < value then none else some (value + toAdd)

/-! ## Samples -/

/-- `copa_max_time`. -/
def copaMaxTime : UInt64 := toUs (Time.milliSeconds 10000)

/-- The loop over the samples in `clear_old_hist`. -/
def dropOld (nowUs : UInt64) : List (UInt64 × UInt64) → List (UInt64 × UInt64)
  | sample :: next :: samples =>
    if nowUs > copaMaxTime ∧ sample.1 < nowUs - copaMaxTime then dropOld nowUs (next :: samples)
    else sample :: next :: samples
  | samples => samples

/-- `clear_old_hist`. -/
def clearOldHist (now : Time) (s : TcpCopa F) : TcpCopa F :=
  let tooMany := s.copaIncrease.length - 40
  { s with
    copaSamples := dropOld (toUs now) s.copaSamples
    copaNumIncrease := s.copaNumIncrease - tooMany
    copaIncrease := s.copaIncrease.drop tooMany }

/-- `new_rtt_sample`. -/
def newRttSample (rtt rttMin now : Time) (s : TcpCopa F) : TcpCopa F :=
  let s := { s with copaSamples := s.copaSamples ++ [(toUs now, toUs rtt)] }
  let increased :=
    match s.copaIncrease.getLast? with
    | none => true
    | some last => last < toUs now - 2 * toUs rttMin
  clearOldHist now
    (if increased then
      { s with
        copaNumIncrease := s.copaNumIncrease + 1
        copaIncrease := s.copaIncrease ++ [toUs now] }
    else s)

/-- `tcp_detected`. -/
def tcpDetected (srtt rttMin : Time) (s : TcpCopa F) : Bool :=
  match s.copaSamples.getLast? with
  | none => false
  | some back =>
    let recent := s.copaSamples.filter fun sample => sample.1 > back.1 - toUs srtt * 10
    let min1 := recent.foldl (fun least sample => min least sample.2) 0xffffffffffffffff
    let max1 := recent.foldl (fun most sample => max most sample.2) 0
    let thresh := toUs rttMin + (max1 - toUs rttMin) / 10 + toUs (Time.microSeconds 100)
    min1 > thresh

/-! ## The measurement -/

/-- The loss rate of a cycle of two round trips. -/
def updateLossRate (now rttMin : Time) (s : TcpCopa F) : TcpCopa F :=
  if now > s.prevLossCycle + rttMin + rttMin then
    let packets := s.curNumLosses + s.curNumAcked
    { s with
      prevLossRate :=
        if packets > 0 then .div (.ofNat s.curNumLosses.toNat) (.ofNat packets.toNat)
        else s.prevLossRate
      curNumLosses := 0
      curNumAcked := 0
      prevLossCycle := now }
  else s

/-- `1. / (1. + 1. / m_deltaParam)`, where one over zero is infinite. -/
def coopDelta (delta : Binary64) : Binary64 :=
  if delta.val = 0 then delta else .div (.ofNat 1) (.add (.ofNat 1) (.div (.ofNat 1) delta))

/-- `m_deltaParam`, at most the default. -/
def capDelta (delta : Binary64) (s : TcpCopa F) : TcpCopa F :=
  { s with
    deltaParam := if delta.val > s.kCopaDefaultDelta.val then s.kCopaDefaultDelta else delta }

/-- The mode, by the loss rate and by the samples. -/
def updateMode (srtt rttMin : Time) (s : TcpCopa F) : TcpCopa F :=
  if s.prevLossRate.val ≥ (Binary64.ofRat (1 / 10)).val then { s with copaCurMode := .tcpLoss }
  else if s.tcpDetected srtt rttMin then { s with copaCurMode := .tcpCoop }
  else { s with copaCurMode := .default, deltaParam := s.kCopaDefaultDelta }

/-- `m_deltaParam` in the mode. -/
def updateDelta (lost : UInt32) (s : TcpCopa F) : TcpCopa F :=
  let doubled := Binary64.mul s.deltaParam (.ofNat 2)
  if s.copaCurMode = .default ∨ ¬ s.copaModeSwitch then
    { s with deltaParam := s.kCopaDefaultDelta }
  else if s.copaCurMode = .tcpCoop then
    s.capDelta (if lost > 0 then doubled else coopDelta s.deltaParam)
  else s.capDelta (if lost > 0 then doubled else s.deltaParam)

/-- `ReportMeasurement`. -/
def reportMeasurement (now srtt rttMin : Time) (acked lost : UInt32) (s : TcpCopa F) :
    TcpCopa F :=
  let s := { s with
    curNumAcked := s.curNumAcked + acked
    curNumLosses := s.curNumLosses + lost }
  ((s.updateLossRate now rttMin).updateMode srtt rttMin).updateDelta lost

/-- `increase_cwnd`: whether the target rate is at least the current one. A rate over zero
microseconds is infinite. -/
def increasesCwnd (tcb : TcpSocketState) (rtt rttMin rttStanding : Time) (s : TcpCopa F) : Bool :=
  let delayUs : UInt64 :=
    .ofInt (Time.getMicroSeconds (if s.useRttStanding then rttStanding else rtt) -
      Time.getMicroSeconds rttMin)
  if delayUs = 0 then true
  else
    let standingUs := Time.getMicroSeconds rttStanding
    let targetUs := Binary64.mul (.ofNat delayUs.toNat) s.deltaParam
    let targetRate := Binary64.div
      (.mul (.ofNat tcb.segmentSize.toNat) (.ofNat 1000000)) targetUs
    let currentRate := Binary64.div
      (.mul (.ofNat tcb.cWnd.toNat) (.ofNat 1000000)) (.ofRat standingUs)
    targetUs.val = 0 ∨ standingUs ≠ 0 ∧ targetRate.val ≥ currentRate.val

/-! ## Direction and velocity -/

/-- `new_direction`: the way the window has gone since it was recorded. -/
def newDirection (cwndBytes : UInt32) (v : VelocityState) : Direction :=
  if cwndBytes.toUInt64 > v.lastRecordedCwndBytes then .up else .down

/-- The update of velocity and direction once per window. -/
def follow (eventTime srtt : Time) (newDirection : Direction) (v : VelocityState) :
    VelocityState :=
  if newDirection = v.direction ∧ eventTime - v.timeSinceDirection > 3 * srtt then
    { v with velocity := 2 * v.velocity }
  else if newDirection ≠ v.direction then
    { v with velocity := 1, timeSinceDirection := eventTime, direction := newDirection }
  else v

/-- `CheckAndUpdateDirection`. `none`: the assertion on the times fails. -/
def checkAndUpdateDirection (eventTime srtt : Time) (cwndBytes ackedBytes : UInt32)
    (s : TcpCopa F) : Option (TcpCopa F) :=
  let v := s.velocityState
  if v.lastCwndRecordTime = 0 then
    some { s with
      velocityState :=
        { v with
          lastCwndRecordTime := eventTime
          lastRecordedCwndBytes := cwndBytes.toUInt64 } }
  else if eventTime < v.lastCwndRecordTime then none
  else if s.totalAckedBytes + ackedBytes ≥ cwndBytes then
    some { s with
      totalAckedBytes := 0
      velocityState :=
        { follow eventTime srtt (newDirection cwndBytes v) v with
          lastCwndRecordTime := eventTime
          lastRecordedCwndBytes := cwndBytes.toUInt64 } }
  else some { s with totalAckedBytes := s.totalAckedBytes + ackedBytes }

/-- `ChangeDirection`. -/
def changeDirection (eventTime : Time) (newDirection : Direction) (cwndBytes : UInt32)
    (v : VelocityState) : VelocityState :=
  if newDirection = v.direction then v
  else
    { v with
      direction := newDirection
      velocity := 1
      timeSinceDirection := eventTime
      lastRecordedCwndBytes := cwndBytes.toUInt64 }

/-- The check for a sudden change of direction when the window is moved. -/
def turn (now : Time) (direction : Direction) (cwndBytes : UInt32) (v : VelocityState) :
    VelocityState :=
  if v.direction ≠ direction ∧ v.velocity > 1 then changeDirection now direction cwndBytes v
  else v

/-! ## The step -/

/-- `acked_packets`. -/
def ackedPackets (mss : UInt32) (s : TcpCopa F) : UInt32 := (s.reportAckedBytes + mss - 1) / mss

/-- `acked_packets * mss * mss * velocity`: the first two products have 32 bits. -/
def stepProduct (ackedPackets mss : UInt32) (velocity : UInt64) : UInt64 :=
  (ackedPackets * mss * mss).toUInt64 * velocity

/-- The quotient that `change` is made of, for a velocity. -/
def stepQuotient (tcb : TcpSocketState) (velocity : UInt64) (s : TcpCopa F) : Binary64 :=
  .div (.ofNat (stepProduct (s.ackedPackets tcb.segmentSize) tcb.segmentSize velocity).toNat)
    (.mul s.deltaParam (.ofNat tcb.cWnd.toNat))

/-- The conversion of a `double` to `uint32_t`. `none`: it is out of range. -/
def toUInt32? (x : Binary64) : Option UInt32 :=
  if -1 < x.val ∧ x.val < 2 ^ 32 then some (UInt32.ofNat ⌊x.val⌋₊) else none

/-- `change`. `none`: the conversion is not defined, also for a division by zero. -/
def change (tcb : TcpSocketState) (s : TcpCopa F) : Option UInt32 :=
  if (Binary64.mul s.deltaParam (.ofNat tcb.cWnd.toNat)).val = 0 then none
  else (toUInt32? (s.stepQuotient tcb s.velocityState.velocity)).map (min · tcb.cWnd)

/-! ## The call -/

/-- Lines up to `new_rtt_sample`: what every call does. -/
def sample (flt : RttFilter F) (now : Time) (tcb : TcpSocketState) (rs : RateSample)
    (s : TcpCopa F) : TcpCopa F :=
  let srttUs := UInt64.ofInt ((Time.getMicroSeconds tcb.lastRtt).tdiv 2)
  let s := { s with
    reportAckedBytes := s.reportAckedBytes + rs.ackedSacked
    reportLostBytes := s.reportLostBytes + rs.bytesLoss
    minRttFilter := flt.update rs.rtt (toUs now) s.minRttFilter
    standingRttFilter :=
      flt.update rs.rtt (toUs now) (flt.setWindowLength srttUs s.standingRttFilter) }
  newRttSample rs.rtt (flt.getBest s.minRttFilter) now s

/-- How far a call gets before it computes the step. -/
inductive Reach (F : Type) where
  | error
  | returns (s : TcpCopa F)
  | updates (increaseCwnd : Bool) (s : TcpCopa F)

/-- `CongControl` up to the computation of the step. -/
def measure (flt : RttFilter F) (now : Time) (tcb : TcpSocketState) (rs : RateSample)
    (s : TcpCopa F) : Reach F :=
  let srtt := tcb.lastRtt
  let s := s.sample flt now tcb rs
  let rttMin := flt.getBest s.minRttFilter
  let rttStanding := flt.getBest s.standingRttFilter
  if ¬ (now > 0 ∧ s.lastReportTime + srtt / 2 < now) then .returns s
  else if rttMin = 0 ∨ rttStanding = 0 then .error
  else if rttStanding < rttMin then .returns s
  else if tcb.segmentSize = 0 then .error
  else
    let s := s.reportMeasurement now srtt rttMin s.reportAckedBytes s.reportLostBytes
    let increaseCwnd := s.increasesCwnd tcb rs.rtt rttMin rttStanding
    if increaseCwnd ∧ s.isSlowStart then .updates increaseCwnd s
    else
      match s.checkAndUpdateDirection now srtt tcb.cWnd s.reportAckedBytes with
      | none => .error
      | some s => .updates increaseCwnd s

/-- The window update: the new window and the state. `none`: an overflow. -/
def moveWindow (now : Time) (tcb : TcpSocketState) (increaseCwnd : Bool) (change : UInt32)
    (s : TcpCopa F) : Option (UInt32 × TcpCopa F) :=
  let cwndBytes := tcb.cWnd
  if increaseCwnd then
    if s.isSlowStart then
      if s.lastCwndDoubleTime = 0 then some (cwndBytes, { s with lastCwndDoubleTime := now })
      else if now - s.lastCwndDoubleTime > tcb.lastRtt then
        (addAndCheckOverflow cwndBytes s.reportAckedBytes).map fun newCwnd =>
          (newCwnd, { s with lastCwndDoubleTime := now })
      else some (cwndBytes, s)
    else
      (addAndCheckOverflow cwndBytes change).map fun newCwnd =>
        (newCwnd, { s with velocityState := turn now .up cwndBytes s.velocityState })
  else
    let lowered := max (cwndBytes - change) (kMinCwndSegment * tcb.segmentSize)
    some (if s.isSlowStart then min (cwndBytes >>> 1) lowered else lowered,
      { s with
        velocityState := turn now .down cwndBytes s.velocityState
        isSlowStart := false })

/-- The end of a call: the states of the report interval are cleared. -/
def finish (flt : RttFilter F) (now : Time) (tcb : TcpSocketState) (cWnd : UInt32)
    (s : TcpCopa F) : TcpSocketState × TcpCopa F :=
  ({ tcb with cWnd, ssThresh := cWnd },
    { s with
      lastReportTime := now
      reportAckedBytes := 0
      reportLostBytes := 0
      standingRttFilter := flt.reset (Time.milliSeconds 1000) (toUs now) s.standingRttFilter })

/-- `CongControl` from the computation of the step on. -/
def updateWindow (flt : RttFilter F) (now : Time) (tcb : TcpSocketState) (increaseCwnd : Bool)
    (s : TcpCopa F) : Option (TcpSocketState × TcpCopa F) :=
  (s.change tcb).bind fun change =>
    (s.moveWindow now tcb increaseCwnd change).map fun (cWnd, s) => s.finish flt now tcb cWnd

/-- `CongControl`. `none`: an assertion fails, or the behaviour is not defined. -/
def congControl (flt : RttFilter F) (now : Time) (tcb : TcpSocketState) (rs : RateSample)
    (s : TcpCopa F) : Option (TcpSocketState × TcpCopa F) :=
  match s.measure flt now tcb rs with
  | .error => none
  | .returns s => some (tcb, s)
  | .updates increaseCwnd s => s.updateWindow flt now tcb increaseCwnd

/-! ## Runs -/

/-- A call, at a time and with a state of the socket. -/
structure Call where
  now : Time
  tcb : TcpSocketState
  rs : RateSample

/-- The state after a call. The socket may change its own state in between, so it comes with the
call. -/
def step (flt : RttFilter F) (s : TcpCopa F) (c : Call) : Option (TcpCopa F) :=
  (s.congControl flt c.now c.tcb c.rs).map Prod.snd

/-- The attributes, and the fields that the constructors leave uninitialised. -/
structure Config (F : Type) where
  minRttFilter : F
  standingRttFilter : F
  useRttStanding : Bool
  isSlowStart : Bool
  deltaParam : Binary64
  copaModeSwitch : Bool
  kCopaDefaultDelta : Binary64
  totalAckedBytes : UInt32

def init (c : Config F) : TcpCopa F where
  minRttFilter := c.minRttFilter
  standingRttFilter := c.standingRttFilter
  useRttStanding := c.useRttStanding
  isSlowStart := c.isSlowStart
  deltaParam := c.deltaParam
  lastCwndDoubleTime := 0
  velocityState := ⟨1, .none, 0, 0, 0⟩
  copaSamples := []
  copaIncrease := []
  copaNumIncrease := 0
  copaCurMode := .default
  copaModeSwitch := c.copaModeSwitch
  kCopaDefaultDelta := c.kCopaDefaultDelta
  totalAckedBytes := c.totalAckedBytes
  curNumAcked := 0
  curNumLosses := 0
  reportAckedBytes := 0
  reportLostBytes := 0
  prevLossCycle := 0
  prevLossRate := .ofNat 0
  lastReportTime := 0

/-! ## What a call can do -/

variable {flt : RttFilter F} {now : Time} {tcb tcb' : TcpSocketState} {rs : RateSample}
  {s s' : TcpCopa F}

theorem updateWindow_eq_some {increaseCwnd : Bool}
    (h : s.updateWindow flt now tcb increaseCwnd = some (tcb', s')) :
    ∃ change cWnd t, s.change tcb = some change ∧
      s.moveWindow now tcb increaseCwnd change = some (cWnd, t) ∧
      tcb' = { tcb with cWnd, ssThresh := cWnd } ∧ s' = (t.finish flt now tcb cWnd).2 := by
  obtain ⟨change, hchange, hmove⟩ := Option.bind_eq_some_iff.mp h
  obtain ⟨⟨cWnd, t⟩, ht, hfinish⟩ := Option.map_eq_some_iff.mp hmove
  cases hfinish
  exact ⟨change, cWnd, t, hchange, ht, rfl, rfl⟩

/-- A call that returns leaves the window alone, or gets to its update. -/
theorem congControl_cases (h : s.congControl flt now tcb rs = some (tcb', s')) :
    tcb' = tcb ∧ s.measure flt now tcb rs = .returns s' ∨
      ∃ increaseCwnd t, s.measure flt now tcb rs = .updates increaseCwnd t ∧
        t.updateWindow flt now tcb increaseCwnd = some (tcb', s') := by
  unfold congControl at h
  split at h
  · cases h
  · rename_i t hmeasure
    cases h
    exact .inl ⟨rfl, hmeasure⟩
  · rename_i increaseCwnd t hmeasure
    exact .inr ⟨increaseCwnd, t, hmeasure, h⟩

theorem congControl_of_updates {increaseCwnd : Bool} {t : TcpCopa F}
    (h : s.measure flt now tcb rs = .updates increaseCwnd t) :
    s.congControl flt now tcb rs = t.updateWindow flt now tcb increaseCwnd := by
  rw [congControl, h]

theorem addAndCheckOverflow_eq_some {value toAdd sum : UInt32}
    (h : addAndCheckOverflow value toAdd = some sum) :
    sum.toNat = value.toNat + toAdd.toNat := by
  unfold addAndCheckOverflow at h
  split_ifs at h with hover
  cases h
  have hvalue := value.toNat_lt
  have hadd := toAdd.toNat_lt
  have hle : toAdd ≤ 0xffffffff := by
    rw [UInt32.le_iff_toNat_le]
    change toAdd.toNat ≤ 4294967295
    omega
  rw [UInt32.lt_iff_toNat_lt, UInt32.toNat_sub_of_le _ _ hle] at hover
  change ¬ 4294967295 - toAdd.toNat < value.toNat at hover
  rw [UInt32.toNat_add]
  omega

/-- Moving the window up does not make it smaller and may turn the direction up, moving it down
always may turn it down. -/
theorem moveWindow_cases {increaseCwnd : Bool} {change cWnd : UInt32}
    (h : s.moveWindow now tcb increaseCwnd change = some (cWnd, s')) :
    increaseCwnd = true ∧ tcb.cWnd.toNat ≤ cWnd.toNat ∧
        (s'.velocityState = s.velocityState ∨
          s'.velocityState = turn now .up tcb.cWnd s.velocityState) ∨
      increaseCwnd = false ∧ s'.velocityState = turn now .down tcb.cWnd s.velocityState ∧
        cWnd =
          let lowered := max (tcb.cWnd - change) (kMinCwndSegment * tcb.segmentSize)
          if s.isSlowStart then min (tcb.cWnd >>> 1) lowered else lowered := by
  have hgrows : ∀ {toAdd sum : UInt32}, addAndCheckOverflow tcb.cWnd toAdd = some sum →
      tcb.cWnd.toNat ≤ sum.toNat := by
    intro toAdd sum hadd
    rw [addAndCheckOverflow_eq_some hadd]
    exact Nat.le_add_right _ _
  unfold moveWindow at h
  cases increaseCwnd with
  | true =>
      refine .inl ⟨rfl, ?_⟩
      simp only [if_true] at h
      split_ifs at h with hslow hfirst helapsed
      · cases h
        exact ⟨le_rfl, .inl rfl⟩
      · obtain ⟨newCwnd, hadd, hpair⟩ := Option.map_eq_some_iff.mp h
        cases hpair
        exact ⟨hgrows hadd, .inl rfl⟩
      · cases h
        exact ⟨le_rfl, .inl rfl⟩
      · obtain ⟨newCwnd, hadd, hpair⟩ := Option.map_eq_some_iff.mp h
        cases hpair
        exact ⟨hgrows hadd, .inr rfl⟩
  | false =>
      simp only [Bool.false_eq_true, if_false, Option.some.injEq, Prod.mk.injEq] at h
      obtain ⟨rfl, rfl⟩ := h
      exact .inr ⟨rfl, rfl, rfl⟩

end TcpCopa

/-! ## A connection to try the control on -/

/-- A filter that keeps the least time since its last reset, as the filters of the code do over
spans shorter than their windows. -/
def RttFilter.least : RttFilter Time where
  setWindowLength _ best := best
  update rtt _ best := if best = 0 ∨ rtt ≤ best then rtt else best
  getBest best := best
  reset rtt _ _ := rtt

/-- The attributes by their defaults. -/
def TcpCopa.Config.byDefault : TcpCopa.Config Time where
  minRttFilter := 0
  standingRttFilter := 0
  useRttStanding := false
  isSlowStart := true
  deltaParam := .ofRat (1 / 2)
  copaModeSwitch := true
  kCopaDefaultDelta := .ofRat (1 / 2)
  totalAckedBytes := 0

/-- A call with round trips of `rtt` milliseconds, without losses. -/
def TcpCopa.Call.ofRtt (ms rtt : Int) (mss cWnd acked : UInt32) : TcpCopa.Call :=
  ⟨Time.milliSeconds ms, ⟨Time.milliSeconds rtt, mss, cWnd, cWnd⟩, Time.milliSeconds rtt, acked, 0⟩

end Zhuge
