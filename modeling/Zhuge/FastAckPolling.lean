-- SUMMARY: When FastAck polls once per interval and drains what it has polled.
import Zhuge.FastAckOrder

/-!
# Polling

`CheckAck` takes the device's list over into `m_Qseq` and calls `CreateAckPkt`, whose
loop counts an index up while it pops the front of the queue that bounds the index:
half of the queue is left. In any mode but 0 the branch for the mode polls, and the
code after the branch polls once more.
-/

namespace Zhuge

namespace NetworkQueueFastAck

/-! ## The rounds of the loop -/

/-- The packets that the loop of `CreateAckPkt` examines from the round `index` on. -/
def rounds (index : ℕ) : List Segment → List Segment
  | [] => []
  | pktToAck :: qseq =>
    if index < qseq.length + 1 then pktToAck :: rounds (index + 1) qseq else []

/-- The loop examines the packets of its rounds, in order, and leaves the rest. -/
theorem createAckLoop_eq (index : ℕ) (s : NetworkQueueFastAck) (qseq : List Segment) :
    createAckLoop index s qseq =
      { (rounds index qseq).foldl (fun s pktToAck => s.examine pktToAck) s with
        qseq := qseq.drop (rounds index qseq).length } := by
  induction qseq generalizing index s with
  | nil => rfl
  | cons pktToAck qseq ih =>
      unfold createAckLoop rounds
      split_ifs
      · rw [ih]
        rfl
      · rfl

/-- These are the first half of the queue, rounded up. -/
theorem rounds_eq_take (index : ℕ) (qseq : List Segment) :
    rounds index qseq = qseq.take ((qseq.length + 1 - index) / 2) := by
  induction qseq generalizing index with
  | nil => simp [rounds]
  | cons pktToAck qseq ih =>
      rw [rounds, List.length_cons]
      split_ifs with hindex
      · have hhalf :
            (qseq.length + 1 + 1 - index) / 2 = (qseq.length + 1 - (index + 1)) / 2 + 1 := by
          omega
        rw [ih, hhalf, List.take_succ_cons]
      · have hhalf : (qseq.length + 1 + 1 - index) / 2 = 0 := by omega
        rw [hhalf, List.take_zero]

/-- The loop drains the queue exactly if there is at most one packet in it. -/
theorem drop_rounds_eq_nil_iff (qseq : List Segment) :
    qseq.drop (rounds 0 qseq).length = [] ↔ qseq.length ≤ 1 := by
  rw [List.drop_eq_nil_iff, rounds_eq_take, List.length_take]
  omega

theorem rounds_of_length_le {qseq : List Segment} (h : qseq.length ≤ 1) : rounds 0 qseq = qseq := by
  rw [rounds_eq_take]
  exact List.take_of_length_le (by omega)

/-- The packets that one `CheckAck` examines. -/
def examinedBy (packetList : List Segment) (s : NetworkQueueFastAck) : List Segment :=
  let s := s.collect packetList
  rounds 0 s.qseq ++ if s.mode = 0 then [] else rounds 0 s.ackAndSchedule.qseq

/-! ## What a poll does -/

theorem qseq_createAckLoop (index : ℕ) (s : NetworkQueueFastAck) (qseq : List Segment) :
    (createAckLoop index s qseq).qseq = qseq.drop (rounds index qseq).length := by
  rw [createAckLoop_eq]

theorem qseq_ackAndSchedule (s : NetworkQueueFastAck) :
    s.ackAndSchedule.qseq = s.qseq.drop (rounds 0 s.qseq).length := by
  simp only [ackAndSchedule, createAckPkt]
  split_ifs with hempty
  · rw [qseq_createAckLoop]
  · have hnil : s.qseq = [] := by simpa using hempty
    simp [hnil]

/-- In any mode but 0 there is one more `CheckAck` afterwards than before. -/
theorem pendingChecks_checkAck (packetList : List Segment) {s : NetworkQueueFastAck}
    (hpending : s.pendingChecks = 1) :
    (s.checkAck packetList).pendingChecks = if s.mode = 0 then 1 else 2 := by
  obtain ⟨_, _, _, _, _, _, hcheck⟩ := checkAck_frame packetList s
  rw [hcheck, hpending]
  exact Nat.zero_add _

theorem qseq_checkAck (packetList : List Segment) {s : NetworkQueueFastAck} (hmode : s.mode = 0)
    (hqseq : s.qseq = []) :
    (s.checkAck packetList).qseq = packetList.drop (rounds 0 packetList).length := by
  have hmode' : (s.collect packetList).mode = 0 := hmode
  have hqseq' : (s.collect packetList).qseq = packetList := by simp [collect, hqseq]
  rw [checkAck, if_pos hmode', qseq_ackAndSchedule, hqseq']

theorem examinedBy_eq (packetList : List Segment) {s : NetworkQueueFastAck} (hmode : s.mode = 0)
    (hqseq : s.qseq = []) : s.examinedBy packetList = rounds 0 packetList := by
  have hmode' : (s.collect packetList).mode = 0 := hmode
  have hqseq' : (s.collect packetList).qseq = packetList := by simp [collect, hqseq]
  rw [examinedBy, if_pos hmode', hqseq', List.append_nil]

end NetworkQueueFastAck

/-! ## Runs with a log -/

/-- The queue and its device, with the packets that `CreateAckPkt` has examined. -/
structure PollLog where
  link : FastAckLink
  examined : List Segment

namespace PollLog

/-- What a handler examines. -/
def examines (a : PollLog) : FastAckLink.Event → List Segment
  | .checkAck => a.link.queue.examinedBy a.link.packetList
  | _ => []

def step (a : PollLog) (e : FastAckLink.Event) : Option PollLog :=
  (a.link.step e).map fun link => { link, examined := a.examined ++ a.examines e }

/-- One `CheckAck` is pending, and every packet taken from the device's list has been examined
once and in order: with what is still on the list, this is what was transmitted. -/
structure Polls (a : PollLog) : Prop where
  pending : a.link.queue.pendingChecks = 1
  drained : a.link.queue.qseq = []
  examined : a.examined ++ a.link.packetList = a.link.transmitted

/-- The condition on `CheckAck`: mode 0, and at most one packet to take. -/
def TakesAtMostOne (a : PollLog) : FastAckLink.Event → Prop
  | .checkAck => a.link.queue.mode = 0 ∧ a.link.packetList.length ≤ 1
  | _ => True

instance (a : PollLog) : (e : FastAckLink.Event) → Decidable (a.TakesAtMostOne e)
  | .checkAck => inferInstanceAs (Decidable (_ ∧ _))
  | .recvRcvdev _ _ => .isTrue trivial
  | .transmit _ => .isTrue trivial
  | .recvSnddev _ => .isTrue trivial

variable {a b : PollLog}

/-- A `CheckAck` polls once and drains exactly if it meets the condition. -/
theorem polls_checkAck_iff (ha : a.Polls) (h : a.step .checkAck = some b) :
    b.Polls ↔ a.TakesAtMostOne .checkAck := by
  obtain ⟨link, hlink, rfl⟩ := Option.map_eq_some_iff.mp h
  simp only [FastAckLink.step] at hlink
  split_ifs at hlink
  cases hlink
  have hpending := NetworkQueueFastAck.pendingChecks_checkAck a.link.packetList ha.pending
  by_cases hmode : a.link.queue.mode = 0
  · have hqseq := NetworkQueueFastAck.qseq_checkAck a.link.packetList hmode ha.drained
    constructor
    · intro hb
      refine ⟨hmode, ?_⟩
      rw [← NetworkQueueFastAck.drop_rounds_eq_nil_iff, ← hqseq]
      exact hb.drained
    · rintro ⟨-, hlength⟩
      refine ⟨hpending.trans (if_pos hmode), ?_, ?_⟩
      · exact hqseq.trans ((NetworkQueueFastAck.drop_rounds_eq_nil_iff _).mpr hlength)
      · rw [List.append_nil, examines, NetworkQueueFastAck.examinedBy_eq _ hmode ha.drained,
          NetworkQueueFastAck.rounds_of_length_le hlength]
        exact ha.examined
  · refine iff_of_false (fun hb => ?_) fun hone => hmode hone.1
    rw [if_neg hmode] at hpending
    exact absurd (hpending.symm.trans hb.pending) (by decide)

theorem polls_step_iff (ha : a.Polls) {e : FastAckLink.Event} (h : a.step e = some b) :
    b.Polls ↔ a.TakesAtMostOne e := by
  cases e with
  | checkAck => exact polls_checkAck_iff ha h
  | recvRcvdev now packet =>
      cases h
      obtain ⟨_, _, _, _, _, hrecv⟩ :=
        NetworkQueueFastAck.onRecvRcvdev_frame now packet a.link.queue
      simp only [hrecv]
      refine iff_of_true ⟨ha.pending, ha.drained, ?_⟩ trivial
      simpa [examines] using ha.examined
  | transmit packet =>
      cases h
      refine iff_of_true ⟨ha.pending, ha.drained, ?_⟩ trivial
      simp [examines, ← ha.examined]
  | recvSnddev packet =>
      cases h
      obtain ⟨_, _, _, _, _, _, hrecv⟩ :=
        NetworkQueueFastAck.onRecvSnddev_frame packet a.link.queue
      simp only [hrecv]
      refine iff_of_true ⟨ha.pending, ha.drained, ?_⟩ trivial
      simpa [examines] using ha.examined

/-- After `InitSocket`. -/
def init (mode : Int) (ccCreate : Bool) (sendIP recvIP : UInt32) (lastAckId : UInt16)
    (dupNumber : UInt32) : PollLog :=
  ⟨.init (.init mode ccCreate sendIP recvIP lastAckId dupNumber), []⟩

/-- In both modes, over any packets and polls: one `CheckAck` is pending between the handlers and
every packet taken is examined at once, if and only if every `CheckAck` runs in mode 0 and takes
at most one packet. -/
theorem polls_iff_takesAtMostOne (mode : Int) (ccCreate : Bool) (sendIP recvIP : UInt32)
    (lastAckId : UInt16) (dupNumber : UInt32) (events : List FastAckLink.Event) :
    Run.Always step Polls (init mode ccCreate sendIP recvIP lastAckId dupNumber) events ↔
      Run.Each step TakesAtMostOne (init mode ccCreate sendIP recvIP lastAckId dupNumber)
        events := by
  apply Run.always_iff_each (I := fun a => 0 < a.link.queue.pendingChecks)
  · intro a e b ha hstep
    obtain ⟨link, hlink, rfl⟩ := Option.map_eq_some_iff.mp hstep
    exact FastAckLink.pendingChecks_pos_step ha hlink
  · exact fun a e b _ ha hstep => polls_step_iff ha hstep
  · intro a e ha hout
    cases e with
    | checkAck => exact ⟨_, congrArg (Option.map _) (if_neg ha.ne')⟩
    | _ => exact absurd trivial hout
  · exact Nat.one_pos
  · exact ⟨rfl, rfl, rfl⟩

/-- A data segment for the client, of 1000 bytes. -/
private def segmentAt (pos : ℕ) : Segment := ⟨2, 6, 1020, 16, 20, pos⟩

/-- Two packets in one interval are too many in mode 0, and in mode 1 a poll without packets
already schedules two more. -/
theorem not_polls_twoPackets :
    ¬ Run.Always step Polls (init 0 true 1 2 0 0)
        [.transmit (segmentAt 1), .transmit (segmentAt 1001), .checkAck] ∧
      ¬ Run.Always step Polls (init 1 true 1 2 0 0) [.checkAck] := by
  constructor
  · intro h
    obtain ⟨a, ha, hqseq⟩ : ∃ a, Run.exec step (init 0 true 1 2 0 0)
        [.transmit (segmentAt 1), .transmit (segmentAt 1001), .checkAck] = some a ∧
        a.link.queue.qseq = [segmentAt 1001] := ⟨_, rfl, rfl⟩
    have hdrained := (h.exec ha).drained
    rw [hqseq] at hdrained
    exact absurd hdrained (List.cons_ne_nil _ _)
  · intro h
    obtain ⟨a, ha, hpending⟩ : ∃ a, Run.exec step (init 1 true 1 2 0 0) [.checkAck] = some a ∧
        a.link.queue.pendingChecks = 2 := ⟨_, rfl, rfl⟩
    exact absurd (hpending.symm.trans (h.exec ha).pending) (by decide)

end PollLog

end Zhuge
