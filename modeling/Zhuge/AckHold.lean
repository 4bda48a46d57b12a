-- SUMMARY: The acknowledgement hold of the Zhuge queue: each TCP acknowledgement is sent once, in order, within the cap.
import Zhuge.DeltaDelay
import Zhuge.Lib.Run

/-!
# Holding acknowledgements

The queue watches two streams. A downlink packet updates the history of delay
changes; an uplink TCP packet for the sender is held back by a sampled change
and then passed on. The model keeps the part of `NetworkQueueZhuge` that the two
callbacks share, and records every call of `SendPkt` that they schedule.
-/

namespace Zhuge

structure Ipv4Header where
  destination : UInt32
  protocol : UInt8

structure IpPacket where
  ipHdr : Ipv4Header
  body : List UInt8

structure NetworkQueueZhuge where
  wirtcEnable : Bool
  sendIP : UInt32
  isFirstAck : Bool
  lastAckArrv : Time
  lastAckSent : Time
  deltaAckDelay : DeltaDelay
  lastTotalDelayMs : UInt32
  lastQSizeByte : UInt32
  /-- The `SendPkt` events put on the simulator's calendar, the first one first. -/
  scheduled : List (Time × IpPacket)

namespace NetworkQueueZhuge

/-- `kMaxActualDelay`. -/
def maxActualDelay : Time := Time.milliSeconds 10

/-- The state after set-up. The last queue size is not initialised by the code. -/
def init (wirtcEnable : Bool) (sendIP lastQSizeByte : UInt32) : NetworkQueueZhuge where
  wirtcEnable := wirtcEnable
  sendIP := sendIP
  isFirstAck := true
  lastAckArrv := 0
  lastAckSent := 0
  deltaAckDelay := .init
  lastTotalDelayMs := 0
  lastQSizeByte := lastQSizeByte
  scheduled := []

/-- `SetAckDelay`, given the delay and the queue size that `CalculateTotalDelayMs` finds. The
difference of the two delays is read as a signed 32-bit number. -/
def setAckDelay (now : Time) (curTotalDelayMs curQSizeByte : UInt32) (s : NetworkQueueZhuge) :
    NetworkQueueZhuge :=
  let deltaAckDelay :=
    if curQSizeByte = 0 ∧ s.lastQSizeByte = 0 then s.deltaAckDelay
    else
      s.deltaAckDelay.addDeltaDelay now
        (Time.milliSeconds (curTotalDelayMs - s.lastTotalDelayMs).toInt32.toInt)
  { s with deltaAckDelay, lastTotalDelayMs := curTotalDelayMs, lastQSizeByte := curQSizeByte }

/-- `Simulator::Schedule` of `SendPkt`, `delay` from `now`. -/
def schedule (now delay : Time) (packet : IpPacket) (s : NetworkQueueZhuge) : NetworkQueueZhuge :=
  { s with scheduled := s.scheduled ++ [(now + delay, packet)] }

/-- The packets that `OnRecv_snddev` handles; it ignores all others. -/
def isTcpToSender (sendIP : UInt32) (packet : IpPacket) : Bool :=
  packet.ipHdr.destination == sendIP && packet.ipHdr.protocol == 6

/-- `OnRecv_snddev`. `none`: the assertion inside the sampling fails. -/
def onRecvSnddev (mulTime : Binary64 → Time → Time) (now : Time) (pick : ℕ) (packet : IpPacket)
    (s : NetworkQueueZhuge) : Option NetworkQueueZhuge :=
  if isTcpToSender s.sendIP packet then
    if s.isFirstAck then
      some (schedule now 0 packet
        { s with isFirstAck := false, lastAckArrv := now, lastAckSent := now })
    else
      let curAckArrv := now
      let curAckSent :=
        if curAckArrv > s.lastAckSent then curAckArrv
        else curAckArrv + (s.lastAckSent - s.lastAckArrv)
      let minDeltaDelay := if curAckArrv > s.lastAckSent then 0 else s.lastAckSent - curAckSent
      match s.deltaAckDelay.sampleDeltaDelay mulTime now pick minDeltaDelay with
      | none => none
      | some (deltaDelay, deltaAckDelay) =>
        let curAckSent := min (curAckArrv + maxActualDelay) (curAckSent + deltaDelay)
        let s := { s with deltaAckDelay, lastAckArrv := curAckArrv, lastAckSent := curAckSent }
        if s.wirtcEnable && curAckSent > curAckArrv then
          some (schedule now (curAckSent - curAckArrv) packet s)
        else some (schedule now 0 packet s)
  else some s

/-! ## Runs of the two streams -/

inductive Event where
  | downlink (curTotalDelayMs curQSizeByte : UInt32)
  | uplink (packet : IpPacket) (pick : ℕ)

/-- One callback at a point in time. -/
def step (mulTime : Binary64 → Time → Time) (s : NetworkQueueZhuge) :
    Time × Event → Option NetworkQueueZhuge
  | (now, .downlink curTotalDelayMs curQSizeByte) =>
    some (setAckDelay now curTotalDelayMs curQSizeByte s)
  | (now, .uplink packet pick) => onRecvSnddev mulTime now pick packet s

/-- The acknowledgements among the events, each with its time of arrival. -/
def arrivals (sendIP : UInt32) : List (Time × Event) → List (Time × IpPacket)
  | [] => []
  | (_, .downlink _ _) :: events => arrivals sendIP events
  | (now, .uplink packet _) :: events =>
    if isTcpToSender sendIP packet then (now, packet) :: arrivals sendIP events
    else arrivals sendIP events

/-- The acknowledgement that arrived is the one scheduled, neither early nor held
longer than the cap. -/
def HeldWithinCap (arrival sent : Time × IpPacket) : Prop :=
  sent.2 = arrival.2 ∧ arrival.1 ≤ sent.1 ∧ sent.1 ≤ arrival.1 + maxActualDelay

/-! ## The invariant -/

/-- What holds once all events up to `now` are handled. -/
structure Inv (now : Time) (s : NetworkQueueZhuge) : Prop where
  enabled : s.wirtcEnable = true
  delays : s.deltaAckDelay.Inv
  first : s.isFirstAck = true → s.scheduled = []
  arrv_le_now : s.isFirstAck = false → s.lastAckArrv ≤ now
  arrv_le_sent : s.isFirstAck = false → s.lastAckArrv ≤ s.lastAckSent
  sent_le_cap : s.isFirstAck = false → s.lastAckSent ≤ s.lastAckArrv + maxActualDelay
  scheduled_le : ∀ e ∈ s.scheduled, e.1 ≤ s.lastAckSent

theorem Inv.init (now : Time) (sendIP lastQSizeByte : UInt32) :
    Inv now (init true sendIP lastQSizeByte) := by
  constructor <;> simp [NetworkQueueZhuge.init, DeltaDelay.Inv.init]

theorem Inv.setAckDelay {before now : Time} (hnow : before ≤ now) {s : NetworkQueueZhuge}
    (h : Inv before s) (curTotalDelayMs curQSizeByte : UInt32) :
    Inv now (setAckDelay now curTotalDelayMs curQSizeByte s) where
  enabled := h.enabled
  delays := by
    simp only [NetworkQueueZhuge.setAckDelay]
    split
    · exact h.delays
    · exact h.delays.addDeltaDelay _ _
  first := h.first
  arrv_le_now hf := (h.arrv_le_now hf).trans hnow
  arrv_le_sent := h.arrv_le_sent
  sent_le_cap := h.sent_le_cap
  scheduled_le := h.scheduled_le

/-- The send time computed for an acknowledgement that is not the first: not before
its arrival, not before the previous one, not after the cap. -/
theorem curAckSent_bounds {lastAckArrv lastAckSent now res : Time}
    (harrv : lastAckArrv ≤ now) (hsent : lastAckArrv ≤ lastAckSent)
    (hcap : lastAckSent ≤ lastAckArrv + maxActualDelay)
    (hres : res = lastAckArrv - now ∨ 0 ≤ res) (hle : now ≤ lastAckSent) :
    now ≤ min (now + maxActualDelay) (now + (lastAckSent - lastAckArrv) + res) ∧
      lastAckSent ≤ min (now + maxActualDelay) (now + (lastAckSent - lastAckArrv) + res) := by
  have hmax : maxActualDelay = 10000000 := rfl
  rw [hmax] at hcap ⊢
  refine ⟨le_min ?_ ?_, le_min ?_ ?_⟩ <;> lia

/-- One acknowledgement: it is scheduled once, within the cap, and not before any
acknowledgement scheduled so far. -/
theorem onRecvSnddev_spec {mulTime : Binary64 → Time → Time}
    (hmul : DeltaDelay.FractionOfTime mulTime) {before now : Time} (hnow : before ≤ now)
    {s : NetworkQueueZhuge} (h : Inv before s) (pick : ℕ) {packet : IpPacket}
    (hpacket : isTcpToSender s.sendIP packet = true) :
    ∃ sent s', onRecvSnddev mulTime now pick packet s = some s' ∧ Inv now s' ∧
      s'.sendIP = s.sendIP ∧ s'.scheduled = s.scheduled ++ [(sent, packet)] ∧
      HeldWithinCap (now, packet) (sent, packet) ∧ ∀ e ∈ s.scheduled, e.1 ≤ sent := by
  have hmax : maxActualDelay = 10000000 := rfl
  unfold onRecvSnddev
  rw [if_pos hpacket]
  cases hfirst : s.isFirstAck with
  | true =>
      have hnone := h.first hfirst
      refine ⟨now, _, rfl, ⟨h.enabled, h.delays, by simp [schedule], fun _ => le_rfl,
        fun _ => le_rfl, fun _ => ?_, ?_⟩, rfl, ?_, ⟨rfl, le_rfl, ?_⟩, ?_⟩
      · simp only [schedule, hmax]; lia
      · simp [schedule, hnone]
      · simp [schedule]
      · dsimp only; lia
      · simp [hnone]
  | false =>
      have harrv := (h.arrv_le_now hfirst).trans hnow
      have hsent := h.arrv_le_sent hfirst
      have hcap := h.sent_le_cap hfirst
      simp only [Bool.false_eq_true, if_false]
      set base := if now > s.lastAckSent then now else now + (s.lastAckSent - s.lastAckArrv)
        with hbase
      set minDelta := if now > s.lastAckSent then 0 else s.lastAckSent - base with hminDelta
      have hmin : minDelta ≤ 0 := by
        rw [hminDelta, hbase]; split <;> lia
      obtain ⟨res, d, hsample, hd, hres⟩ :=
        DeltaDelay.sampleDeltaDelay_spec hmul h.delays now pick hmin
      -- the two branches of the source agree on these bounds
      have hbounds : now ≤ min (now + maxActualDelay) (base + res) ∧
          s.lastAckSent ≤ min (now + maxActualDelay) (base + res) := by
        by_cases hnew : now > s.lastAckSent
        · simp only [hbase, hminDelta, if_pos hnew] at hres ⊢
          refine ⟨le_min ?_ ?_, le_min ?_ ?_⟩ <;> lia
        · simp only [hbase, hminDelta, if_neg hnew] at hres ⊢
          exact curAckSent_bounds harrv hsent hcap (by lia) (by lia)
      obtain ⟨hearly, hprev⟩ := hbounds
      have hlate := min_le_left (now + maxActualDelay) (base + res)
      simp only [hsample]
      generalize min (now + maxActualDelay) (base + res) = sent at hearly hprev hlate ⊢
      have hinv : ∀ delay, now + delay = sent → Inv now (schedule now delay packet { s with
            isFirstAck := false
            deltaAckDelay := d
            lastAckArrv := now
            lastAckSent := sent }) := by
        intro delay hdelay
        refine ⟨h.enabled, hd, by simp [schedule], fun _ => le_rfl, fun _ => hearly,
          fun _ => hlate, fun e he => ?_⟩
        simp only [schedule, List.mem_append, List.mem_singleton] at he ⊢
        rcases he with he | rfl
        · exact (h.scheduled_le e he).trans hprev
        · exact hdelay.le
      have hprevious : ∀ e ∈ s.scheduled, e.1 ≤ sent :=
        fun e he => (h.scheduled_le e he).trans hprev
      split
      case isTrue hgt =>
        have hdelay : now + (sent - now) = sent := by lia
        exact ⟨sent, _, rfl, hinv _ hdelay, rfl, by simp [schedule, hdelay], ⟨rfl, hearly, hlate⟩,
          hprevious⟩
      case isFalse hle =>
        have hnotlater : ¬ sent > now := by simpa [h.enabled] using hle
        have hdelay : now + 0 = sent := by lia
        exact ⟨sent, _, rfl, hinv _ hdelay, rfl, by simp [schedule, ← hdelay],
          ⟨rfl, hearly, hlate⟩, hprevious⟩

/-! ## Whole runs -/

/-- The run lemma, from any state that meets the invariant: what is scheduled on top
of the old calendar matches the acknowledgements one to one, in order. -/
theorem exec_spec {mulTime : Binary64 → Time → Time} (hmul : DeltaDelay.FractionOfTime mulTime)
    {events : List (Time × Event)} (hsorted : events.Pairwise fun a b => a.1 ≤ b.1)
    {before : Time} (hbefore : ∀ e ∈ events, before ≤ e.1) {s : NetworkQueueZhuge}
    (h : Inv before s) (hordered : (s.scheduled.map Prod.fst).Pairwise (· ≤ ·)) :
    ∃ s' sent, Run.exec (step mulTime) s events = some s' ∧
      s'.scheduled = s.scheduled ++ sent ∧
      List.Forall₂ HeldWithinCap (arrivals s.sendIP events) sent ∧
      (s'.scheduled.map Prod.fst).Pairwise (· ≤ ·) := by
  induction events generalizing s before with
  | nil => exact ⟨s, [], rfl, by simp, .nil, hordered⟩
  | cons event events ih =>
      obtain ⟨now, event⟩ := event
      obtain ⟨hfirst, hrest⟩ := List.pairwise_cons.mp hsorted
      have hnow : before ≤ now := hbefore _ List.mem_cons_self
      have hskip : ∀ t, step mulTime s (now, event) = some t → Inv now t →
          t.sendIP = s.sendIP → t.scheduled = s.scheduled →
          arrivals s.sendIP ((now, event) :: events) = arrivals s.sendIP events →
          ∃ s' sent, Run.exec (step mulTime) s ((now, event) :: events) = some s' ∧
            s'.scheduled = s.scheduled ++ sent ∧
            List.Forall₂ HeldWithinCap (arrivals s.sendIP ((now, event) :: events)) sent ∧
            (s'.scheduled.map Prod.fst).Pairwise (· ≤ ·) := by
        intro t ht hinv hip hsched harr
        obtain ⟨s', sent, hrun, heq, hall, hord⟩ :=
          ih hrest hfirst hinv (by rw [hsched]; exact hordered)
        rw [hip] at hall
        exact ⟨s', sent, Run.exec_cons_eq_some.mpr ⟨t, ht, hrun⟩, by rw [heq, hsched],
          by rw [harr]; exact hall, hord⟩
      cases event with
      | downlink curTotalDelayMs curQSizeByte =>
          exact hskip _ rfl (h.setAckDelay hnow _ _) rfl rfl rfl
      | uplink packet pick =>
          by_cases hpacket : isTcpToSender s.sendIP packet = true
          · obtain ⟨sent, t, ht, hinv, hip, hsched, hheld, hprev⟩ :=
              onRecvSnddev_spec hmul hnow h pick hpacket
            have hord : (t.scheduled.map Prod.fst).Pairwise (· ≤ ·) := by
              rw [hsched, List.map_append, List.pairwise_append]
              refine ⟨hordered, by simp, ?_⟩
              simpa using fun a p hp => hprev (a, p) hp
            obtain ⟨s', rest, hrun, heq, hall, hord'⟩ := ih hrest hfirst hinv hord
            refine ⟨s', (sent, packet) :: rest, Run.exec_cons_eq_some.mpr ⟨t, ht, hrun⟩,
              by simp [heq, hsched], ?_, hord'⟩
            rw [hip] at hall
            simpa [arrivals, hpacket] using ⟨hheld, hall⟩
          · refine hskip s ?_ ⟨h.enabled, h.delays, h.first,
              fun hf => (h.arrv_le_now hf).trans hnow, h.arrv_le_sent, h.sent_le_cap,
              h.scheduled_le⟩ rfl rfl ?_
            · simp [step, onRecvSnddev, hpacket]
            · simp [arrivals, hpacket]

/-- In every run of the two streams, each acknowledgement is scheduled exactly once, at
most the cap after its arrival and not before it; the send times keep the order of
arrival; and no assertion fails. -/
theorem acks_held_in_order {mulTime : Binary64 → Time → Time}
    (hmul : DeltaDelay.FractionOfTime mulTime) (sendIP lastQSizeByte : UInt32)
    (events : List (Time × Event)) (hsorted : events.Pairwise fun a b => a.1 ≤ b.1) :
    ∃ s, Run.exec (step mulTime) (init true sendIP lastQSizeByte) events = some s ∧
      List.Forall₂ HeldWithinCap (arrivals sendIP events) s.scheduled ∧
      (s.scheduled.map Prod.fst).Pairwise (· ≤ ·) := by
  obtain ⟨before, hbefore⟩ : ∃ before : Time, ∀ e ∈ events, before ≤ e.1 := by
    cases events with
    | nil => exact ⟨0, by simp⟩
    | cons e es =>
        exact ⟨e.1, List.forall_mem_cons.mpr ⟨le_rfl, (List.pairwise_cons.mp hsorted).1⟩⟩
  obtain ⟨s, sent, hrun, heq, hall, hord⟩ :=
    exec_spec hmul hsorted hbefore (Inv.init before sendIP lastQSizeByte) (by simp [init])
  exact ⟨s, hrun, by simpa [heq, init] using hall, hord⟩

/-- Three acknowledgements around two downlink packets. -/
def threeAcks : List (Time × Event) :=
  let ack : IpPacket := ⟨⟨7, 6⟩, [1, 2, 3]⟩
  [(0, .uplink ack 0), (1000, .downlink 4 1500), (2000, .uplink ack 3), (3000, .downlink 2 0),
    (4000, .uplink ack 8)]

theorem acks_held_in_order_threeAcks :
    ∃ s, Run.exec (step DeltaDelay.floorMul) (init true 7 0) threeAcks = some s ∧
      List.Forall₂ HeldWithinCap (arrivals 7 threeAcks) s.scheduled ∧
      (s.scheduled.map Prod.fst).Pairwise (· ≤ ·) :=
  acks_held_in_order .floorMul 7 0 threeAcks (by simp [threeAcks])

end NetworkQueueZhuge

end Zhuge
