-- SUMMARY: How the sender groups acknowledged packets into bursts, and the feedback it ignores.
import Zhuge.SenderBasedController

/-!
# Bursts

The receiver reports the arrival of each packet. The sender groups the reports by send time:
a packet sent over 10 ms after the first one of a burst starts a new burst. A guard in front
of the grouping drops every report whose packet was sent too long after the start of the
current burst, and nothing but a report behind the guard moves that start.
-/

namespace Zhuge

/-- The part of `PacketSenderUdp` that the feedback works on, in microseconds. -/
structure BurstFeedback where
  firstFeedback : Bool := true
  groupId : UInt32 := 0
  groupstartTxTime : UInt64 := 0
  groupSize : Int32 := 0
  prevId : UInt16 := 0
  prevRxTime : UInt64 := 0
  prevGroupendId : UInt16 := 0
  prevGroupendRxTime : UInt64 := 0
  prevGroupSize : Int32 := 0
  prevPktsInFrame : UInt16 := 0
  currPktsInFrame : UInt16 := 0
  prevFrameTxTime : UInt64 := 0
  currFrameTxTime : UInt64 := 0
  prevFrameRxTime : UInt64 := 0
  currFrameRxTime : UInt64 := 0
  /-- Milliseconds. -/
  interval : UInt16
  interArrival : Int64 := 0
  interDeparture : UInt64 := 0
  interDelayVar : Int64 := 0
  interGroupSize : Int32 := 0
  controller : SenderBasedController := {}
deriving DecidableEq

namespace BurstFeedback

/-- The largest gap to the start of the burst, in microseconds. -/
def maxGap (s : BurstFeedback) : UInt64 := 20 * s.interval.toUInt64 * 1000

/-- The guard in front of the grouping. -/
def inTime (s : BurstFeedback) (txTime : UInt64) : Prop :=
  (lessThan s.groupstartTxTime txTime ∧ txTime - s.groupstartTxTime ≤ s.maxGap) ∨
    s.groupstartTxTime = txTime

instance (s : BurstFeedback) (txTime : UInt64) : Decidable (s.inTime txTime) :=
  inferInstanceAs (Decidable (_ ∨ _))

/-- The report to the controller about the burst that ends. The base class ignores all
metrics between bursts. `none` is a failing assertion or a division by zero. -/
def reportBurst (nowUs : UInt64) (id : UInt16) (rxTime : UInt64) (s : BurstFeedback) :
    Option BurstFeedback :=
  if s.groupId = 0 then some s
  else if s.prevPktsInFrame = 0 ∨ s.currPktsInFrame = 0 then none
  else
    let interArrival := (s.currFrameRxTime / s.currPktsInFrame.toUInt64
      - s.prevFrameRxTime / s.prevPktsInFrame.toUInt64).toInt64
    let interDeparture := s.currFrameTxTime / s.currPktsInFrame.toUInt64
      - s.prevFrameTxTime / s.prevPktsInFrame.toUInt64
    (s.controller.processFeedback nowUs id rxTime).map fun (_, controller) =>
      { s with
        interArrival
        interDeparture
        interDelayVar := (interArrival.toUInt64 - interDeparture).toInt64
        interGroupSize := s.groupSize - s.prevGroupSize
        controller }

/-- Switching to another burst. -/
def switchBurst (nowUs : UInt64) (id : UInt16) (txTime rxTime : UInt64) (s : BurstFeedback) :
    Option BurstFeedback := do
  let s ← s.reportBurst nowUs id rxTime
  let controller ← s.controller.prunTransitHistory s.prevGroupendId.toUInt32
  return { s with
    controller
    prevGroupSize := s.groupSize
    prevGroupendId := s.prevId
    prevGroupendRxTime := s.prevRxTime
    groupId := s.groupId + 1
    groupSize := 0
    groupstartTxTime := txTime
    prevFrameTxTime := s.currFrameTxTime
    prevFrameRxTime := s.currFrameRxTime
    prevPktsInFrame := s.currPktsInFrame
    currFrameTxTime := 0
    currFrameRxTime := 0
    currPktsInFrame := 0 }

/-- `m_group_size += size` for a 64-bit size and a 32-bit sum. -/
def addSize (groupSize : Int32) (size : UInt64) : Int32 :=
  groupSize + size.toUInt32.toInt32

/-- The packet is counted in the current burst. -/
def account (id : UInt16) (txTime rxTime : UInt64) (s : BurstFeedback) : BurstFeedback :=
  { s with
    currPktsInFrame := s.currPktsInFrame + 1
    currFrameTxTime := s.currFrameTxTime + txTime
    currFrameRxTime := s.currFrameRxTime + rxTime
    groupSize := addSize s.groupSize (s.controller.getPacketSize id)
    prevId := id
    prevRxTime := rxTime }

/-- The first report of all. Its times are not added up. -/
def firstItem (id : UInt16) (txTime rxTime : UInt64) (s : BurstFeedback) : BurstFeedback :=
  { s with
    prevId := id
    prevRxTime := rxTime
    groupId := 0
    groupSize := (s.controller.getPacketSize id).toUInt32.toInt32
    groupstartTxTime := txTime
    firstFeedback := false
    currPktsInFrame := 1 }

/-- One item of the list in a NETSTATE packet. -/
def onRecvTimeItem (nowUs : UInt64) (id : UInt16) (rxTime : UInt64) (s : BurstFeedback) :
    Option BurstFeedback :=
  let txTime := s.controller.getPacketTxTimestamp id
  if s.firstFeedback then some (s.firstItem id txTime rxTime)
  else if s.inTime txTime then
    if 10000 < txTime - s.groupstartTxTime then
      (s.switchBurst nowUs id txTime rxTime).map (account id txTime rxTime)
    else some (s.account id txTime rxTime)
  else some s

/-- What happens to a sender: it sends packets, and it receives NETSTATE packets, each of
which updates the loss rate before its items are processed one by one. -/
inductive Event
  | send (txTimestampUs : UInt64) (sequence : UInt16) (size : UInt32)
  | updateLossRate (lossQ8 : UInt8)
  | item (nowUs : UInt64) (id : UInt16) (rxTime : UInt64)

def step (s : BurstFeedback) : Event → Option BurstFeedback
  | .send txTimestampUs sequence size =>
    (s.controller.processSendPacket txTimestampUs sequence size).map fun (_, controller) =>
      { s with controller }
  | .updateLossRate lossQ8 => some { s with controller := s.controller.updateLossRate lossQ8 }
  | .item nowUs id rxTime => s.onRecvTimeItem nowUs id rxTime

/-! ## Which reports are accounted -/

/-- The report about packet `id` is part of the burst after the step: of the one before it, or
of a new one. -/
def Accounted (id : UInt16) (rxTime : UInt64) (s s' : BurstFeedback) : Prop :=
  let txTime := s.controller.getPacketTxTimestamp id
  let size := s.controller.getPacketSize id
  s'.prevId = id ∧
    ((s'.groupId = s.groupId ∧
        s'.currPktsInFrame = s.currPktsInFrame + 1 ∧
        s'.currFrameTxTime = s.currFrameTxTime + txTime ∧
        s'.currFrameRxTime = s.currFrameRxTime + rxTime ∧
        s'.groupSize = addSize s.groupSize size) ∨
      (s'.groupId = s.groupId + 1 ∧
        s'.currPktsInFrame = 1 ∧
        s'.currFrameTxTime = txTime ∧
        s'.currFrameRxTime = rxTime ∧
        s'.groupSize = addSize 0 size))

/-- The controller takes the report about the burst that ends. -/
def ReportReturns (nowUs : UInt64) (id : UInt16) (rxTime : UInt64) (s : BurstFeedback) : Prop :=
  s.groupId ≠ 0 → s.prevPktsInFrame ≠ 0 ∧ s.currPktsInFrame ≠ 0 ∧
    (s.controller.processFeedback nowUs id rxTime).isSome

/-- What the pruning leaves of the transit history. -/
def kept (s : BurstFeedback) : List PacketRecord :=
  s.controller.packetTransitHistory.dropWhile fun r =>
    r.sequence.toUInt32 < s.prevGroupendId.toUInt32

/-- The pruning stops at a record, and the size of the packet is found as before. -/
def PruningKeeps (id : UInt16) (s : BurstFeedback) : Prop :=
  s.kept ≠ [] ∧
    (SenderBasedController.getPacketSize id
        { s.controller with packetTransitHistory := s.kept }).toUInt32
      = (s.controller.getPacketSize id).toUInt32

/-- When a report is accounted: it is not the first one, its packet was sent at most
`20 * m_interval` ms after the start of the burst, and if it starts a new burst, then the
calls to the controller return and leave the record of the packet. -/
def AccountedWhen (nowUs : UInt64) (id : UInt16) (rxTime : UInt64) (s : BurstFeedback) : Prop :=
  let txTime := s.controller.getPacketTxTimestamp id
  if s.firstFeedback then txTime = 0 ∧ rxTime = 0
  else
    txTime - s.groupstartTxTime ≤ s.maxGap ∧
      (10000 < txTime - s.groupstartTxTime →
        s.ReportReturns nowUs id rxTime ∧ s.PruningKeeps id)

theorem maxGap_toNat (s : BurstFeedback) : s.maxGap.toNat = 20000 * s.interval.toNat := by
  have hlt := s.interval.toNat_lt
  simp only [maxGap, UInt64.toNat_mul, UInt16.toNat_toUInt64]
  have h20 : (20 : UInt64).toNat = 20 := rfl
  have h1000 : (1000 : UInt64).toNat = 1000 := rfl
  rw [h20, h1000]
  omega

/-- The guard is a bound on the gap. -/
theorem inTime_iff {s : BurstFeedback} {txTime : UInt64} :
    s.inTime txTime ↔ txTime - s.groupstartTxTime ≤ s.maxGap := by
  have hgap := s.maxGap_toNat
  have hinterval := s.interval.toNat_lt
  constructor
  · rintro (⟨-, hle⟩ | heq)
    · exact hle
    · rw [← heq, UInt64.sub_self]
      exact UInt64.zero_le
  · intro hle
    by_cases heq : s.groupstartTxTime = txTime
    · exact .inr heq
    · refine .inl ⟨?_, hle⟩
      rw [UInt64.le_iff_toNat_le] at hle
      have hpos : (txTime - s.groupstartTxTime).toNat ≠ 0 := by
        intro hzero
        have hsub : txTime - s.groupstartTxTime = 0 := UInt64.toNat_inj.mp hzero
        grind
      rw [lessThan_iff_time]
      omega

/-- The report about a burst touches the metrics and the controller. -/
theorem reportBurst_eq_some {nowUs : UInt64} {id : UInt16} {rxTime : UInt64}
    {s s' : BurstFeedback} (h : s.reportBurst nowUs id rxTime = some s') :
    ∃ interArrival interDeparture interDelayVar interGroupSize controller,
      controller.packetTransitHistory = s.controller.packetTransitHistory ∧
      s' = { s with
        interArrival := interArrival, interDeparture := interDeparture
        interDelayVar := interDelayVar, interGroupSize := interGroupSize
        controller := controller } := by
  simp only [reportBurst] at h
  split at h
  · cases h
    exact ⟨_, _, _, _, s.controller, rfl, rfl⟩
  · split at h
    · cases h
    · obtain ⟨⟨ok, controller⟩, hfb, rfl⟩ := Option.map_eq_some_iff.mp h
      exact ⟨_, _, _, _, controller,
        SenderBasedController.processFeedback_transitHistory hfb, rfl⟩

theorem reportBurst_isSome_iff {nowUs : UInt64} {id : UInt16} {rxTime : UInt64}
    {s : BurstFeedback} :
    (s.reportBurst nowUs id rxTime).isSome ↔ s.ReportReturns nowUs id rxTime := by
  simp only [reportBurst, ReportReturns]
  by_cases hgroup : s.groupId = 0
  · simp [hgroup]
  · rw [if_neg hgroup]
    by_cases hzero : s.prevPktsInFrame = 0 ∨ s.currPktsInFrame = 0
    · rw [if_pos hzero]
      simp only [Option.isSome_none, Bool.false_eq_true, false_iff]
      intro hall
      obtain ⟨hprev, hcurr, -⟩ := hall hgroup
      exact hzero.elim hprev hcurr
    · rw [if_neg hzero, Option.isSome_map]
      push Not at hzero
      simp [hgroup, hzero.1, hzero.2]

/-- Pruning after the report works on the transit history from before it. -/
theorem prunTransitHistory_eq {s : BurstFeedback} {controller : SenderBasedController}
    (h : controller.packetTransitHistory = s.controller.packetTransitHistory) :
    controller.prunTransitHistory s.prevGroupendId.toUInt32
      = if s.kept = [] then none
        else some { controller with packetTransitHistory := s.kept } := by
  simp only [SenderBasedController.prunTransitHistory, h, kept]
  split
  · next hnil => simp only [hnil, if_true]
  · next r rest hcons => simp only [hcons, List.cons_ne_nil, if_false]

/-- A new burst is empty and starts with the packet. -/
theorem switchBurst_eq_some {nowUs : UInt64} {id : UInt16} {txTime rxTime : UInt64}
    {s s' : BurstFeedback} (h : s.switchBurst nowUs id txTime rxTime = some s') :
    s.kept ≠ [] ∧ s'.controller.packetTransitHistory = s.kept ∧ s'.groupId = s.groupId + 1 ∧
      s'.groupSize = 0 ∧ s'.currPktsInFrame = 0 ∧ s'.currFrameTxTime = 0 ∧
      s'.currFrameRxTime = 0 := by
  obtain ⟨t, ht, hrest⟩ := Option.bind_eq_some_iff.mp h
  obtain ⟨_, _, _, _, controller, hhistory, rfl⟩ := reportBurst_eq_some ht
  obtain ⟨pruned, hprune, heq⟩ := Option.bind_eq_some_iff.mp hrest
  simp only [prunTransitHistory_eq hhistory] at hprune
  split at hprune
  · cases hprune
  · next hne =>
      cases hprune
      cases heq
      exact ⟨hne, rfl, rfl, rfl, rfl, rfl, rfl⟩

theorem switchBurst_isSome_iff {nowUs : UInt64} {id : UInt16} {txTime rxTime : UInt64}
    {s : BurstFeedback} :
    (s.switchBurst nowUs id txTime rxTime).isSome ↔
      s.ReportReturns nowUs id rxTime ∧ s.kept ≠ [] := by
  rw [← reportBurst_isSome_iff]
  simp only [switchBurst]
  cases ht : s.reportBurst nowUs id rxTime with
  | none => simp
  | some t =>
      obtain ⟨_, _, _, _, controller, hhistory, rfl⟩ := reportBurst_eq_some ht
      by_cases hempty : s.kept = []
      · simp [prunTransitHistory_eq hhistory, hempty]
      · simp [prunTransitHistory_eq hhistory, hempty]

/-- The size that a lookup finds depends on the transit history only. -/
theorem getPacketSize_congr {c d : SenderBasedController} {id : UInt16}
    (h : c.packetTransitHistory = d.packetTransitHistory) :
    c.getPacketSize id = d.getPacketSize id := by
  simp only [SenderBasedController.getPacketSize, h]

theorem not_accounted_self {id : UInt16} {rxTime : UInt64} {s : BurstFeedback} :
    ¬ Accounted id rxTime s s := by
  rintro ⟨-, ⟨-, hcount, -⟩ | ⟨hgroup, -⟩⟩
  · have h : s.currPktsInFrame ≠ s.currPktsInFrame + 1 := by grind
    exact h hcount
  · have h : s.groupId ≠ s.groupId + 1 := by grind
    exact h hgroup

theorem accounted_account (id : UInt16) (rxTime : UInt64) (s : BurstFeedback) :
    Accounted id rxTime s
      (s.account id (s.controller.getPacketTxTimestamp id) rxTime) :=
  ⟨rfl, .inl ⟨rfl, rfl, rfl, rfl, rfl⟩⟩

theorem addSize_zero_inj {a b : UInt64} : addSize 0 a = addSize 0 b ↔ a.toUInt32 = b.toUInt32 := by
  simp only [addSize, Int32.zero_add]
  constructor
  · intro h
    have h' := congrArg Int32.toUInt32 h
    simpa using h'
  · exact congrArg UInt32.toInt32

/-- The first packet of a new burst is accounted when its size is still found. -/
theorem accounted_switchBurst_iff {nowUs : UInt64} {id : UInt16} {rxTime : UInt64}
    {s t : BurstFeedback}
    (h : s.switchBurst nowUs id (s.controller.getPacketTxTimestamp id) rxTime = some t) :
    Accounted id rxTime s (t.account id (s.controller.getPacketTxTimestamp id) rxTime) ↔
      s.PruningKeeps id := by
  obtain ⟨hne, hhistory, hgroup, hsize, hcount, htx, hrx⟩ := switchBurst_eq_some h
  have hlookup : t.controller.getPacketSize id = SenderBasedController.getPacketSize id
      { s.controller with packetTransitHistory := s.kept } := getPacketSize_congr hhistory
  have hgroup' : s.groupId + 1 ≠ s.groupId := by grind
  simp only [Accounted, account, hgroup, hsize, hcount, htx, hrx, hlookup, PruningKeeps,
    UInt64.zero_add, true_and, addSize_zero_inj]
  simp [hgroup', hne]

/-- Before the first report the current burst is empty. -/
def EmptyAtFirst (s : BurstFeedback) : Prop :=
  s.firstFeedback → s.groupId = 0 ∧ s.groupSize = 0 ∧ s.currPktsInFrame = 0 ∧
    s.currFrameTxTime = 0 ∧ s.currFrameRxTime = 0

/-- The first report is never asked for again. -/
theorem firstFeedback_onRecvTimeItem {nowUs : UInt64} {id : UInt16} {rxTime : UInt64}
    {s s' : BurstFeedback} (h : s.onRecvTimeItem nowUs id rxTime = some s') :
    s'.firstFeedback = false := by
  simp only [onRecvTimeItem] at h
  split at h
  · cases h
    rfl
  · next hfirst =>
    have hfalse : s.firstFeedback = false := Bool.eq_false_iff.mpr hfirst
    split at h
    · split at h
      · obtain ⟨t, ht, rfl⟩ := Option.map_eq_some_iff.mp h
        obtain ⟨u, hu, hrest⟩ := Option.bind_eq_some_iff.mp ht
        obtain ⟨_, _, _, _, controller, -, rfl⟩ := reportBurst_eq_some hu
        obtain ⟨pruned, -, heq⟩ := Option.bind_eq_some_iff.mp hrest
        cases heq
        exact hfalse
      · cases h
        exact hfalse
    · cases h
      exact hfalse

theorem emptyAtFirst_step (s : BurstFeedback) (e : Event) (s' : BurstFeedback)
    (h : s.EmptyAtFirst) (hstep : s.step e = some s') : s'.EmptyAtFirst := by
  cases e with
  | send txTimestampUs sequence size =>
      obtain ⟨p, -, rfl⟩ := Option.map_eq_some_iff.mp hstep
      exact h
  | updateLossRate lossQ8 =>
      cases hstep
      exact h
  | item nowUs id rxTime =>
      intro hfirst
      rw [firstFeedback_onRecvTimeItem hstep] at hfirst
      cases hfirst

/-- The first report adds no times to its burst. -/
theorem accounted_firstItem_iff {id : UInt16} {rxTime : UInt64} {s : BurstFeedback}
    (h : s.EmptyAtFirst) (hfirst : s.firstFeedback) :
    Accounted id rxTime s (s.firstItem id (s.controller.getPacketTxTimestamp id) rxTime) ↔
      s.controller.getPacketTxTimestamp id = 0 ∧ rxTime = 0 := by
  obtain ⟨hgroup, hsize, hcount, htx, hrx⟩ := h hfirst
  have hadd (v : UInt64) : addSize 0 v = v.toUInt32.toInt32 := by simp [addSize]
  simp only [Accounted, firstItem, hgroup, hsize, hcount, htx, hrx, UInt64.zero_add, hadd]
  simp [eq_comm]

/-- In every state of a sender a report is accounted exactly when it is not the first one, its
packet was sent soon enough after the start of the burst, and the controller takes part. -/
theorem item_accounted_iff {interval : UInt16} {es : List Event} {s : BurstFeedback}
    (hrun : Run.exec step { interval } es = some s) (nowUs : UInt64) (id : UInt16)
    (rxTime : UInt64) :
    (∃ s', s.onRecvTimeItem nowUs id rxTime = some s' ∧ Accounted id rxTime s s') ↔
      s.AccountedWhen nowUs id rxTime := by
  have hempty : s.EmptyAtFirst :=
    Run.exec_invariant emptyAtFirst_step (fun _ => ⟨rfl, rfl, rfl, rfl, rfl⟩) hrun
  simp only [onRecvTimeItem, AccountedWhen]
  by_cases hfirst : s.firstFeedback
  · rw [if_pos hfirst, if_pos hfirst, ← accounted_firstItem_iff hempty hfirst]
    simp
  rw [if_neg hfirst, if_neg hfirst, ← inTime_iff]
  by_cases htime : s.inTime (s.controller.getPacketTxTimestamp id)
  swap
  · rw [if_neg htime]
    simp [htime, not_accounted_self]
  rw [if_pos htime]
  by_cases hswitch : 10000 < s.controller.getPacketTxTimestamp id - s.groupstartTxTime
  swap
  · rw [if_neg hswitch]
    simp [htime, hswitch, accounted_account]
  rw [if_pos hswitch]
  simp only [htime, hswitch, true_and, forall_const, Option.map_eq_some_iff]
  constructor
  · rintro ⟨s', ⟨t, ht, rfl⟩, hacc⟩
    have hsome := switchBurst_isSome_iff.mp (Option.isSome_of_mem ht)
    exact ⟨hsome.1, (accounted_switchBurst_iff ht).mp hacc⟩
  · rintro ⟨hreturns, hkeeps⟩
    obtain ⟨t, ht⟩ := Option.isSome_iff_exists.mp
      (switchBurst_isSome_iff.mpr ⟨hreturns, hkeeps.1⟩)
    exact ⟨_, ⟨t, ht, rfl⟩, (accounted_switchBurst_iff ht).mpr hkeeps⟩

/-- The sender after its first report, with a second packet under way. -/
def afterFirstItem (txTime : UInt64) : BurstFeedback :=
  { interval := 40, firstFeedback := false, groupSize := 1000, groupstartTxTime := 10
    prevRxTime := 50010, currPktsInFrame := 1
    controller :=
      { firstSend := false, lastSequence := 1
        inTransitPackets := [⟨0, 10, 1000, 0, 0⟩, ⟨1, txTime, 1000, 0, 0⟩]
        packetTransitHistory := [⟨0, 10, 1000, 0, 0⟩, ⟨1, txTime, 1000, 0, 0⟩] } }

/-- A second report within the gap. -/
theorem item_accounted_secondItem :
    ∃ s', (afterFirstItem 20).onRecvTimeItem 60000 1 55000 = some s' ∧
      Accounted 1 55000 (afterFirstItem 20) s' := by
  have hrun : Run.exec step { interval := 40 }
      [.send 10 0 1000, .send 20 1 1000, .item 51000 0 50010] = some (afterFirstItem 20) := by
    decide
  apply (item_accounted_iff hrun 60000 1 55000).mpr
  exact ⟨by decide, fun h => absurd h (by decide)⟩

/-- With 40 ms per frame, a packet sent 1 s after the start of the burst is ignored. -/
theorem item_ignored_after_outage :
    ¬ ∀ (interval : UInt16) (es : List Event) (s : BurstFeedback),
      Run.exec step { interval } es = some s → ∀ (nowUs : UInt64) (id : UInt16) (rxTime : UInt64),
        (∃ r ∈ s.controller.packetTransitHistory, r.sequence = id) →
        ¬ lessThan (s.controller.getPacketTxTimestamp id) s.groupstartTxTime →
        ∃ s', s.onRecvTimeItem nowUs id rxTime = some s' ∧ Accounted id rxTime s s' := by
  intro hall
  have hrun : Run.exec step { interval := 40 }
      [.send 10 0 1000, .item 51000 0 50010, .send 1000010 1 1000]
        = some (afterFirstItem 1000010) := by
    decide
  obtain ⟨s', hstep, hacc⟩ := hall _ _ _ hrun 1050010 1 1050000 (by decide) (by decide)
  have hsame : (afterFirstItem 1000010).onRecvTimeItem 1050010 1 1050000
      = some (afterFirstItem 1000010) := by
    decide
  cases hsame.symm.trans hstep
  exact not_accounted_self hacc

/-! ## An anchor that does not move -/

/-- A packet with this send time is either counted in the current burst or ignored. -/
def NoSwitch (s : BurstFeedback) (txTime : UInt64) : Prop :=
  txTime - s.groupstartTxTime ≤ 10000 ∨ s.maxGap < txTime - s.groupstartTxTime

theorem mem_transitHistory_send {txTimestampUs : UInt64} {sequence : UInt16} {size : UInt32}
    {c c' : SenderBasedController} {ok : Bool}
    (h : c.processSendPacket txTimestampUs sequence size = some (ok, c')) {r : PacketRecord}
    (hr : r ∈ c'.packetTransitHistory) :
    r ∈ c.packetTransitHistory ∨ r.txTimestampUs = txTimestampUs := by
  simp only [SenderBasedController.processSendPacket] at h
  split at h
  · cases h
    exact .inl hr
  · obtain ⟨history, hrecord, heq⟩ := Option.map_eq_some_iff.mp h
    cases heq
    simp only [SenderBasedController.recordSent] at hrecord
    split at hrecord
    · cases hrecord
    · cases hrecord
      rcases List.mem_append.mp hr with hr | hr
      · exact .inl hr
      · rw [List.mem_singleton.mp hr]
        exact .inr rfl

/-- A lookup finds a record or fails. -/
theorem getPacketTxTimestamp_cases (id : UInt16) (c : SenderBasedController) :
    (∃ r ∈ c.packetTransitHistory, c.getPacketTxTimestamp id = r.txTimestampUs) ∨
      c.getPacketTxTimestamp id = -1 := by
  unfold SenderBasedController.getPacketTxTimestamp
  split
  · next r hfound => exact .inl ⟨r, List.mem_reverse.mp (List.mem_of_find?_eq_some hfound), rfl⟩
  · exact .inr rfl

/-- The start of the burst is where it was, and no record can move it. -/
structure Anchored (s t : BurstFeedback) : Prop where
  firstFeedback : t.firstFeedback = false
  groupId : t.groupId = s.groupId
  groupstartTxTime : t.groupstartTxTime = s.groupstartTxTime
  interval : t.interval = s.interval
  records : ∀ r ∈ t.controller.packetTransitHistory, s.NoSwitch r.txTimestampUs

theorem Anchored.noSwitch {s t : BurstFeedback} (h : Anchored s t) {txTime : UInt64}
    (hs : s.NoSwitch txTime) : t.NoSwitch txTime := by
  simpa only [NoSwitch, maxGap, h.groupstartTxTime, h.interval] using hs

theorem Anchored.onRecvTimeItem {s t t' : BurstFeedback} (h : Anchored s t)
    (hfailed : s.NoSwitch (-1)) {nowUs : UInt64} {id : UInt16} {rxTime : UInt64}
    (hstep : t.onRecvTimeItem nowUs id rxTime = some t') : Anchored s t' := by
  have hlookup : t.NoSwitch (t.controller.getPacketTxTimestamp id) := by
    rcases getPacketTxTimestamp_cases id t.controller with ⟨r, hr, heq⟩ | heq
    · rw [heq]
      exact h.noSwitch (h.records r hr)
    · rw [heq]
      exact h.noSwitch hfailed
  simp only [BurstFeedback.onRecvTimeItem, h.firstFeedback, Bool.false_eq_true, if_false,
    inTime_iff] at hstep
  split at hstep
  · next hle =>
      have hnear := hlookup.resolve_right (UInt64.not_lt.mpr hle)
      rw [if_neg (UInt64.not_lt.mpr hnear)] at hstep
      cases hstep
      exact ⟨h.firstFeedback, h.groupId, h.groupstartTxTime, h.interval, h.records⟩
  · cases hstep
    exact h

theorem Anchored.step {s t t' : BurstFeedback} (h : Anchored s t) (hfailed : s.NoSwitch (-1))
    {e : Event} (hsend : ∀ tx sequence size, e = .send tx sequence size → s.NoSwitch tx)
    (hstep : t.step e = some t') : Anchored s t' := by
  cases e with
  | send tx sequence size =>
      obtain ⟨⟨ok, controller⟩, hprocess, rfl⟩ := Option.map_eq_some_iff.mp hstep
      refine ⟨h.firstFeedback, h.groupId, h.groupstartTxTime, h.interval, fun r hr => ?_⟩
      rcases mem_transitHistory_send hprocess hr with hold | hnew
      · exact h.records r hold
      · rw [hnew]
        exact hsend tx sequence size rfl
  | updateLossRate lossQ8 =>
      cases hstep
      exact ⟨h.firstFeedback, h.groupId, h.groupstartTxTime, h.interval, h.records⟩
  | item nowUs id rxTime => exact h.onRecvTimeItem hfailed hstep

/-- Once no packet on record and none sent later can start a new burst, none ever does, and
every report about a packet beyond the gap is ignored. -/
theorem ignored_from_then_on {s s' : BurstFeedback} {es : List Event}
    (hfirst : s.firstFeedback = false) (hfailed : s.NoSwitch (-1))
    (hrecords : ∀ r ∈ s.controller.packetTransitHistory, s.NoSwitch r.txTimestampUs)
    (hsends : ∀ tx sequence size, Event.send tx sequence size ∈ es → s.NoSwitch tx)
    (hrun : Run.exec step s es = some s') :
    s'.groupId = s.groupId ∧ s'.groupstartTxTime = s.groupstartTxTime ∧
      ∀ nowUs id rxTime, s.maxGap < s'.controller.getPacketTxTimestamp id - s.groupstartTxTime →
        s'.onRecvTimeItem nowUs id rxTime = some s' := by
  have hanchored : Anchored s s' := by
    refine Run.exec_invariant_mem (P := Anchored s) (fun t t' e he h hstep => ?_)
      ⟨hfirst, rfl, rfl, rfl, hrecords⟩ hrun
    exact h.step hfailed (fun tx sequence size heq => hsends tx sequence size (heq ▸ he)) hstep
  refine ⟨hanchored.groupId, hanchored.groupstartTxTime, fun nowUs id rxTime hfar => ?_⟩
  have hgap : s'.maxGap = s.maxGap := by simp only [maxGap, hanchored.interval]
  simp only [onRecvTimeItem, hanchored.firstFeedback, Bool.false_eq_true, if_false, inTime_iff,
    hgap, hanchored.groupstartTxTime]
  rw [if_neg (UInt64.not_le.mpr hfar)]

end BurstFeedback

end Zhuge
