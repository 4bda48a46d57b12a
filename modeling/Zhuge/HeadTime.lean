-- SUMMARY: When the time at the head of the queue is the number of ticks that saw the same packet there.
import Zhuge.ZhugeQueue

/-!
# The time at the head of the queue

A tick compares the packet at the head with the one it remembers, by identification
and destination, and counts a millisecond when they are the same. `OnRecv_rcvdev`
writes the header of every packet of the flow into the same two fields, so a packet
that arrives between two ticks can restart the count, or start it a tick early.
-/

namespace Zhuge

/-- The queue, with what the ticks so far saw at the head, the latest first. -/
structure HeadLog where
  queue : ZhugeQueue
  heads : List (Option DownlinkPacket)

/-- The packet at the head of the device's queue. -/
def Observation.head (o : Observation LinkFrame) : Option DownlinkPacket :=
  o.dlHead.map (·.packet)

namespace HeadLog

/-- What a handler sees of the head. Only a tick looks. -/
def looks : ZhugeQueue.Event → List (Option DownlinkPacket)
  | .updateTxRate o => [o.head]
  | _ => []

def step (a : HeadLog) (e : ZhugeQueue.Event) : Option HeadLog :=
  (a.queue.step e).map fun queue => { queue, heads := looks e ++ a.heads }

/-- The number of ticks right before the last one that saw the same packet. -/
def headTime : List (Option DownlinkPacket) → ℕ
  | some packet :: earlier => (earlier.takeWhile (· = some packet)).length
  | _ => 0

/-- `m_curQHeadTimeMs` is the time at the head, a millisecond a tick. -/
def Measures (a : HeadLog) : Prop := a.queue.curQHeadTimeMs.toNat = headTime a.heads

/-- The condition on a tick: the header remembered last is that of the packet at the head, and one
more millisecond can be counted, exactly if the tick before saw this packet. -/
def CountsOn (a : HeadLog) : ZhugeQueue.Event → Prop
  | .updateTxRate o =>
    ∀ packet ∈ o.head,
      ((a.queue.lastHeadId = packet.identification ∧
          a.queue.lastHeadDstAddr = packet.destination ∧
          a.queue.curQHeadTimeMs.toNat + 1 < 2 ^ 32) ↔
        a.heads.head? = some (some packet))
  | _ => True

/-! ## The time by its recursion -/

theorem headTime_cons_same (packet : DownlinkPacket) (earlier : List (Option DownlinkPacket)) :
    headTime (some packet :: some packet :: earlier) = headTime (some packet :: earlier) + 1 := by
  simp [headTime]

theorem headTime_cons_of_ne {packet : DownlinkPacket} {heads : List (Option DownlinkPacket)}
    (h : heads.head? ≠ some (some packet)) : headTime (some packet :: heads) = 0 := by
  cases heads with
  | nil => rfl
  | cons head earlier =>
      have hne : head ≠ some packet := by simpa using h
      simp [headTime, hne]

end HeadLog

namespace TxEstimator

variable {Pkt : Type} (ops : HeaderOps Pkt)

@[simp] theorem curQHeadTimeMs_rates (s : TxEstimator) :
    s.rates.curQHeadTimeMs = s.curQHeadTimeMs := by
  unfold rates
  split <;> rfl

/-- The time at the head after a tick: counted on for the packet that is remembered. -/
theorem curQHeadTimeMs_tick (head : Option Pkt) (o : Observation Pkt) (s : TxEstimator) :
    (s.tick ops head o).curQHeadTimeMs =
      head.elim 0 fun pkt =>
        if s.lastHeadId = ops.identification pkt ∧ s.lastHeadDstAddr = ops.destination pkt then
          s.curQHeadTimeMs + 1
        else 0 := by
  simp only [tick, curQHeadTimeMs_rates, pushSlot]
  cases head with
  | none => rfl
  | some pkt =>
      have hms : UInt32.ofNat (Time.getMilliSeconds kTxBytesListInterval).toNat = 1 := by decide
      simp only [Option.elim_some, updateHead, hms]
      split_ifs with hnew hsame hsame
      · exact absurd hnew (by simp [hsame])
      · rfl
      · rfl
      · exact absurd ⟨Eq.symm (not_not.mp (not_or.mp hnew).1),
          Eq.symm (not_not.mp (not_or.mp hnew).2)⟩ hsame

end TxEstimator

namespace HeadLog

variable {a b : HeadLog}

theorem headOf_device (o : Observation LinkFrame) :
    headOf LinkFrame.ops 1 o = o.dlHead.map LinkFrame.removeLinkHeader := rfl

/-- Counting a millisecond in 32 bits. -/
theorem toNat_add_one (n : UInt32) : (n + 1).toNat = (n.toNat + 1) % 2 ^ 32 := by
  rw [UInt32.toNat_add]
  rfl

/-- The count of a tick is right exactly if it goes on where it should. -/
theorem count_eq_headTime_iff {known : Prop} [Decidable known] {packet : DownlinkPacket}
    {heads : List (Option DownlinkPacket)} {count : UInt32}
    (hcount : count.toNat = headTime heads) :
    (if known then count + 1 else 0).toNat = headTime (some packet :: heads) ↔
      (known ∧ count.toNat + 1 < 2 ^ 32 ↔ heads.head? = some (some packet)) := by
  have hlt := count.toNat_lt
  by_cases hsame : heads.head? = some (some packet)
  · obtain ⟨earlier, rfl⟩ := List.head?_eq_some_iff.mp hsame
    rw [headTime_cons_same, ← hcount, apply_ite UInt32.toNat, toNat_add_one]
    simp only [hsame, iff_true, UInt32.toNat_zero]
    split_ifs with hknown
    · simp only [hknown, true_and]
      omega
    · simp [hknown]
  · rw [headTime_cons_of_ne hsame, apply_ite UInt32.toNat, toNat_add_one]
    simp only [hsame, iff_false, UInt32.toNat_zero]
    split_ifs with hknown
    · simp only [hknown, true_and]
      omega
    · simp [hknown]

/-- A tick measures the time exactly if it counts on where it should. -/
theorem measures_tick_iff (hmode : a.queue.mode = 1) (ha : a.Measures) {o : Observation LinkFrame}
    (h : a.step (.updateTxRate o) = some b) : b.Measures ↔ a.CountsOn (.updateTxRate o) := by
  simp only [step, ZhugeQueue.step_updateTxRate (.inl hmode), Option.map_some,
    Option.some.injEq] at h
  subst h
  simp only [Measures, looks, List.singleton_append, TxEstimator.curQHeadTimeMs_tick, hmode,
    headOf_device, CountsOn, Observation.head]
  cases o.dlHead with
  | none => simp [headTime]
  | some frame =>
      have hid : LinkFrame.ops.identification frame.removeLinkHeader =
        frame.packet.identification := rfl
      have hdst : LinkFrame.ops.destination frame.removeLinkHeader =
        frame.packet.destination := rfl
      simp only [Option.map_some, Option.elim_some, Option.mem_some_iff, forall_eq', hid, hdst]
      rw [count_eq_headTime_iff ha, and_assoc]

/-- The other handlers neither look at the head nor count. -/
theorem measures_step_iff (hmode : a.queue.mode = 1) (ha : a.Measures) {e : ZhugeQueue.Event}
    (h : a.step e = some b) : b.Measures ↔ a.CountsOn e := by
  have hother : (∀ o, e ≠ .updateTxRate o) → looks e = [] → b.Measures := by
    intro htick hlooks
    obtain ⟨queue, hqueue, rfl⟩ := Option.map_eq_some_iff.mp h
    obtain ⟨id, ipaddr, hest⟩ := ZhugeQueue.step_keeps_tick htick hqueue
    have htime : queue.curQHeadTimeMs = a.queue.curQHeadTimeMs := by
      rw [hest]
      rfl
    simpa only [Measures, hlooks, List.nil_append, htime] using ha
  cases e with
  | updateTxRate o => exact measures_tick_iff hmode ha h
  | recvRcvdev now packet o => exact iff_of_true (hother (by simp) rfl) trivial
  | sendback now o => exact iff_of_true (hother (by simp) rfl) trivial

/-! ## Runs -/

def init (c : ZhugeQueue.Config) : HeadLog := ⟨.init 1 c, []⟩

/-- In mode 1, over any ticks, packets and feedback, the time at the head is measured after every
tick if and only if every tick counts on exactly where the tick before saw the same packet. -/
theorem measures_iff_countsOn (c : ZhugeQueue.Config) (events : List ZhugeQueue.Event) :
    Run.Always step Measures (init c) events ↔ Run.Each step CountsOn (init c) events := by
  apply Run.always_iff_each (I := fun a => a.queue.mode = 1)
  · intro a e b hmode hstep
    obtain ⟨queue, hqueue, rfl⟩ := Option.map_eq_some_iff.mp hstep
    exact (ZhugeQueue.mode_step (.inr hmode) hqueue).trans hmode
  · intro a e b hmode ha hstep
    exact measures_step_iff hmode ha hstep
  · intro a e hmode hout
    cases e with
    | updateTxRate o =>
        exact ⟨_, congrArg (Option.map _) (ZhugeQueue.step_updateTxRate (.inl hmode))⟩
    | _ => exact absurd trivial hout
  · rfl
  · rfl

/-! ### A packet that arrives between two ticks -/

/-- Packet 5 waits at the head; packet 6 arrives between two ticks, and the count starts again. -/
theorem not_measures_arrival :
    ¬ Run.Always step Measures (init .udpFlow)
      [.updateTxRate (.waiting [.ofFlow 5]), .updateTxRate (.waiting [.ofFlow 5]),
        .recvRcvdev 0 (.ofFlow 6) (.waiting [.ofFlow 5]),
        .updateTxRate (.waiting [.ofFlow 5])] := by
  intro h
  obtain ⟨a, ha, htime, hticks⟩ : ∃ a, Run.exec step (init .udpFlow)
      [.updateTxRate (.waiting [.ofFlow 5]), .updateTxRate (.waiting [.ofFlow 5]),
        .recvRcvdev 0 (.ofFlow 6) (.waiting [.ofFlow 5]),
        .updateTxRate (.waiting [.ofFlow 5])] = some a ∧
      a.queue.curQHeadTimeMs = 0 ∧ headTime a.heads = 2 := ⟨_, rfl, by decide, by decide⟩
  have hmeasures := h.exec ha
  rw [Measures, htime, hticks] at hmeasures
  exact absurd hmeasures (by decide)

end HeadLog

end Zhuge
