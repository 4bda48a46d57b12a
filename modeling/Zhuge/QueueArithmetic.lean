-- SUMMARY: The arithmetic of the Zhuge queue is safe: divisors are positive, bounds hold, and the scan of the queue never wraps.
import Zhuge.DequeueRate
import Zhuge.ZhugeQueue

/-!
# Safe arithmetic

The divisors of `UpdateTxRate` are differences of slot counts, and
`CalculateTotalDelayMs` subtracts packet sizes from the byte count of the device's
queue before it looks at the packet. Both are guarded only by facts established
elsewhere: the list never outgrows the window, and a byte count is the sum of the
sizes behind it.
-/

namespace Zhuge

/-! ## The bounds of the estimator -/

namespace TxEstimator

variable {Pkt : Type}

/-- What every tick establishes. -/
structure Bounded (s : TxEstimator) : Prop where
  length_le : s.txBytesList.length ≤ s.kTxBytesListWindow.toNat
  min_le_rate : kMinTxRateBps.toNat ≤ s.curTxRateBps.toNat
  delay_le : s.curTxDelayUs.toNat ≤ 1000 * s.kTxBytesListWindow.toNat

theorem dequeueDelay_le {s : TxEstimator}
    (h : s.txBytesList.length ≤ s.kTxBytesListWindow.toNat) :
    s.dequeueDelay.toNat ≤ 1000 * s.kTxBytesListWindow.toNat := by
  have hwindow := s.kTxBytesListWindow.toNat_lt
  simp only [dequeueDelay]
  split_ifs with hbusy
  · rw [UInt32.toNat_ofNat']
    calc _ ≤ _ := Nat.mod_le _ _
      _ ≤ 1000 * (s.txBytesList.length - (SlotSums.ofList s.txBytesList).txIdleSlotSum.toNat) :=
        Nat.div_le_self _ _
      _ ≤ 1000 * s.kTxBytesListWindow.toNat := by omega
  · rw [UInt32.toNat_ofNat', Nat.mod_eq_of_lt (by omega)]
    omega

/-- Updating the rates keeps the bounds, and needs only those on the list and the delay. -/
theorem Bounded.rates {s : TxEstimator}
    (hlength : s.txBytesList.length ≤ s.kTxBytesListWindow.toNat)
    (hdelay : s.curTxDelayUs.toNat ≤ 1000 * s.kTxBytesListWindow.toNat) : s.rates.Bounded := by
  unfold TxEstimator.rates
  split_ifs with hidle
  · refine ⟨hlength, ?_, dequeueDelay_le hlength⟩
    rw [UInt32.toNat_max]
    exact le_max_right _ _
  · refine ⟨hlength, ?_, hdelay⟩
    rw [UInt32.toNat_max]
    exact le_max_right _ _

theorem Bounded.tick {s : TxEstimator} (h : s.Bounded) (ops : HeaderOps Pkt) (head : Option Pkt)
    (o : Observation Pkt) : (s.tick ops head o).Bounded := by
  have hwindow := (pushSlot_head ops head o s).2
  apply Bounded.rates (length_pushSlot_le o _)
  rw [hwindow]
  cases head with
  | none => exact h.delay_le
  | some pkt =>
      simp only [Option.elim_some, updateHead]
      split <;> exact h.delay_le

end TxEstimator

namespace ZhugeQueue

/-- The bounds along a run. -/
theorem Bounded.step {s s' : ZhugeQueue} {e : Event} (hmode : s.mode = 1)
    (hs : s.toTxEstimator.Bounded) (h : s.step e = some s') : s'.toTxEstimator.Bounded := by
  by_cases htick : ∃ o, e = .updateTxRate o
  · obtain ⟨o, rfl⟩ := htick
    cases (step_updateTxRate (.inl hmode)).symm.trans h
    exact hs.tick _ _ _
  · obtain ⟨id, ipaddr, hest⟩ := step_keeps_tick (fun o ho => htick ⟨o, ho⟩) h
    rw [hest]
    exact ⟨hs.length_le, hs.min_le_rate, hs.delay_le⟩

/-! ## The scan of the queue -/

/-- The bytes of some packets. -/
def bytesOf (frames : List LinkFrame) : ℕ := (frames.map fun frame => frame.size.toNat).sum

/-- The subtractions of the scan, what is subtracted last. -/
def scanSubtractions (sendPort : UInt16) (curQSizeByte : UInt32) :
    List LinkFrame → List (UInt32 × UInt32)
  | [] => []
  | tailpkt :: frames =>
    (curQSizeByte, tailpkt.size) ::
      if tailpkt.packet.isUdpFrom sendPort then []
      else scanSubtractions sendPort (curQSizeByte - tailpkt.size) frames

/-- The subtractions on `m_curQSizeByte` in `CalculateTotalDelayMs`. -/
def subtractions (extraByte : UInt32) (o : Observation LinkFrame) (s : ZhugeQueue) :
    List (UInt32 × UInt32) :=
  let device := o.device s.mode
  if extraByte > o.qdiscBytes then
    scanSubtractions s.sendPort device.nBytes device.items.reverse
  else [(o.qdiscBytes + device.nBytes, extraByte)]

/-- The counters of the queues count what the queues hold, and the bits fit 32 bits. -/
structure Counts (o : Observation LinkFrame) : Prop where
  nBytes_eq : o.dlQueue.nBytes.toNat = bytesOf o.dlQueue.items
  bits_lt : 8 * (o.qdiscBytes.toNat + o.dlQueue.nBytes.toNat) < 2 ^ 32

@[simp] theorem bytesOf_cons (frame : LinkFrame) (frames : List LinkFrame) :
    bytesOf (frame :: frames) = frame.size.toNat + bytesOf frames := rfl

@[simp] theorem bytesOf_reverse (frames : List LinkFrame) :
    bytesOf frames.reverse = bytesOf frames := by
  simp [bytesOf, List.sum_reverse]

section Scan

variable {sendPort : UInt16} {frames : List LinkFrame} {curQSizeByte : UInt32}

/-- What is left to subtract from is always the bytes of the packets not seen yet. -/
theorem toNat_sub_size {frame : LinkFrame} (h : curQSizeByte.toNat = bytesOf (frame :: frames)) :
    frame.size ≤ curQSizeByte ∧ (curQSizeByte - frame.size).toNat = bytesOf frames := by
  have hle : frame.size ≤ curQSizeByte := by
    rw [UInt32.le_iff_toNat_le, h, bytesOf_cons]
    exact Nat.le_add_right _ _
  refine ⟨hle, ?_⟩
  rw [UInt32.toNat_sub_of_le _ _ hle, h, bytesOf_cons, Nat.add_sub_cancel_left]

theorem scanSubtractions_fit (h : curQSizeByte.toNat = bytesOf frames) :
    ∀ sub ∈ scanSubtractions sendPort curQSizeByte frames, sub.2 ≤ sub.1 := by
  induction frames generalizing curQSizeByte with
  | nil => simp [scanSubtractions]
  | cons tailpkt frames ih =>
      obtain ⟨hle, hrest⟩ := toNat_sub_size h
      simp only [scanSubtractions, List.forall_mem_cons]
      refine ⟨hle, ?_⟩
      split_ifs
      · simp
      · exact ih hrest

/-- A queue without a packet of the flow is scanned to its front. -/
theorem scanTail_of_none (h : curQSizeByte.toNat = bytesOf frames)
    (hnone : ∀ frame ∈ frames, frame.packet.isUdpFrom sendPort = false) :
    (scanTail sendPort curQSizeByte frames).toNat = 0 := by
  induction frames generalizing curQSizeByte with
  | nil => exact h
  | cons tailpkt frames ih =>
      obtain ⟨htailpkt, hnone⟩ := List.forall_mem_cons.mp hnone
      simp only [scanTail, htailpkt, Bool.false_eq_true, if_false]
      exact ih (toNat_sub_size h).2 hnone

/-- Otherwise the scan stops at the last packet of the flow, with the bytes ahead of it. -/
theorem scanTail_of_last {behind ahead : List LinkFrame} {last : LinkFrame}
    (h : curQSizeByte.toNat = bytesOf (behind ++ last :: ahead))
    (hlast : last.packet.isUdpFrom sendPort = true)
    (hbehind : ∀ frame ∈ behind, frame.packet.isUdpFrom sendPort = false) :
    (scanTail sendPort curQSizeByte (behind ++ last :: ahead)).toNat = bytesOf ahead := by
  induction behind generalizing curQSizeByte with
  | nil =>
      simp only [List.nil_append, scanTail, hlast, if_true]
      exact (toNat_sub_size h).2
  | cons tailpkt behind ih =>
      obtain ⟨htailpkt, hbehind⟩ := List.forall_mem_cons.mp hbehind
      simp only [List.cons_append, scanTail, htailpkt, Bool.false_eq_true, if_false]
      exact ih (toNat_sub_size h).2 hbehind

end Scan

/-! ## Safety -/

/-- What `CalculateTotalDelayMs` is to do with the byte counts: no subtraction wraps, and with more
extra bytes than the queueing discipline holds, the bytes ahead of the flow's last UDP packet in
the device's queue are found, or none without such a packet. The flow is known by its port. -/
structure FindsAhead (extraByte : UInt32) (o : Observation LinkFrame) (s : ZhugeQueue) : Prop where
  no_wrap : ∀ sub ∈ s.subtractions extraByte o, sub.2 ≤ sub.1
  ahead_of_last : extraByte > o.qdiscBytes → ∀ ahead last behind,
    o.dlQueue.items = ahead ++ last :: behind → last.packet.isUdpFrom s.sendPort = true →
    (∀ frame ∈ behind, frame.packet.isUdpFrom s.sendPort = false) →
    ∃ curQSizeByte, s.queueAhead extraByte o = some curQSizeByte ∧
      curQSizeByte.toNat = bytesOf ahead
  without_one : extraByte > o.qdiscBytes →
    (∀ frame ∈ o.dlQueue.items, frame.packet.isUdpFrom s.sendPort = false) →
    s.queueAhead extraByte o = some 0

theorem device_dlQueue {s : ZhugeQueue} (hmode : s.mode = 1) (o : Observation LinkFrame) :
    o.device s.mode = o.dlQueue := by
  simp [Observation.device, hmode]

/-- With more extra bytes than the queueing discipline holds, the device's queue is scanned. -/
theorem queueAhead_of_gt {s : ZhugeQueue} {o : Observation LinkFrame} {extraByte : UInt32}
    (hmode : s.mode = 1) (hextra : extraByte > o.qdiscBytes) :
    s.queueAhead extraByte o =
      some (scanTail s.sendPort o.dlQueue.nBytes o.dlQueue.items.reverse) := by
  rw [queueAhead, device_dlQueue hmode, if_pos hextra]

theorem FindsAhead.of_counts {s : ZhugeQueue} {o : Observation LinkFrame} (hmode : s.mode = 1)
    (h : Counts o) (extraByte : UInt32) : FindsAhead extraByte o s where
  no_wrap := by
    simp only [subtractions, device_dlQueue hmode]
    split_ifs with hextra
    · exact scanSubtractions_fit (h.nBytes_eq.trans (bytesOf_reverse _).symm)
    · -- the sum of the two counts fits, so it is at least the first of them
      have hbits := h.bits_lt
      have hle := UInt32.le_iff_toNat_le.mp (UInt32.not_lt.mp hextra)
      rw [List.forall_mem_singleton]
      change extraByte ≤ o.qdiscBytes + o.dlQueue.nBytes
      rw [UInt32.le_iff_toNat_le, UInt32.toNat_add, Nat.mod_eq_of_lt (by omega)]
      exact hle.trans (Nat.le_add_right _ _)
  ahead_of_last := by
    intro hextra ahead last behind hitems hlast hbehind
    have hcount := h.nBytes_eq
    have hreverse : o.dlQueue.items.reverse = behind.reverse ++ last :: ahead.reverse := by
      simp [hitems]
    rw [← bytesOf_reverse, hreverse] at hcount
    refine ⟨_, queueAhead_of_gt hmode hextra, ?_⟩
    rw [hreverse, scanTail_of_last hcount hlast (by simpa using hbehind), bytesOf_reverse]
  without_one := by
    intro hextra hnone
    rw [queueAhead_of_gt hmode hextra]
    apply congrArg some
    apply UInt32.toNat.inj
    exact scanTail_of_none (h.nBytes_eq.trans (bytesOf_reverse _).symm) (by simpa using hnone)

/-- In mode 1, in every state that ticks, packets and feedback lead to: the next tick returns, so
nothing is divided by zero; the list fits the window; the rate is at least the minimum and the
delay at most the window; and whatever the queues hold, the bytes ahead are found without a
subtraction that wraps. -/
theorem arithmetic_safe (c : Config) {events : List Event} {s : ZhugeQueue}
    (hrun : Run.exec step (init 1 c) events = some s) :
    (∀ o, ∃ s', s.step (.updateTxRate o) = some s') ∧ s.toTxEstimator.Bounded ∧
      ∀ extraByte o, Counts o → s.FindsAhead extraByte o := by
  obtain ⟨hmode, hbounded⟩ : s.mode = 1 ∧ s.toTxEstimator.Bounded := by
    apply Run.exec_invariant (P := fun s => s.mode = 1 ∧ s.toTxEstimator.Bounded) _ _ hrun
    · rintro t e t' ⟨hmode, ht⟩ hstep
      exact ⟨(mode_step (.inr hmode) hstep).trans hmode, Bounded.step hmode ht hstep⟩
    · exact ⟨rfl, Nat.zero_le _, le_rfl, Nat.zero_le _⟩
  exact ⟨fun o => ⟨_, step_updateTxRate (.inl hmode)⟩, hbounded,
    fun extraByte o ho => .of_counts hmode ho extraByte⟩

/-- Packet 5 is marked and waits in the device's queue when packet 6 is tallied. -/
theorem arithmetic_safe_twoPackets :
    ∃ s, Run.exec step (init 1 .udpFlow)
        [.recvRcvdev 0 (.ofFlow 5) (.waiting []), .updateTxRate (.waiting [.ofFlow 5]),
          .recvRcvdev 0 (.ofFlow 6) (.waiting [.ofFlow 5])] = some s ∧
      s.toTxEstimator.Bounded ∧
      s.FindsAhead s.extraBytes (.waiting [.ofFlow 5, .ofFlow 6]) := by
  obtain ⟨s, hs⟩ : ∃ s, Run.exec step (init 1 .udpFlow)
      [.recvRcvdev 0 (.ofFlow 5) (.waiting []), .updateTxRate (.waiting [.ofFlow 5]),
        .recvRcvdev 0 (.ofFlow 6) (.waiting [.ofFlow 5])] = some s := ⟨_, rfl⟩
  obtain ⟨-, hbounded, hfinds⟩ := arithmetic_safe .udpFlow hs
  exact ⟨s, hs, hbounded, hfinds _ _ ⟨by decide, by decide⟩⟩

end ZhugeQueue

end Zhuge
