-- SUMMARY: When the bytes that Sendback counts as ahead of the marked packet leave out exactly those that came later.
import Zhuge.Lib.Run
import Zhuge.ZhugeQueue

/-!
# The bytes ahead of the marked packet

While a packet is marked, `OnRecv_rcvdev` tallies the packets that come after it, and
`Sendback` takes the tally off what the queues hold. The queueing discipline counts
every packet with its IP header, and the tally leaves the header out or misses the
packet altogether. Each packet that comes later so counts as ahead in part.
-/

namespace Zhuge

/-- The bytes of numbered packets. -/
def lineBytes {α : Type} (size : α → UInt32) (line : List (ℕ × α)) : ℕ :=
  (line.map fun entry => (size entry.2).toNat).sum

@[simp] theorem lineBytes_nil {α : Type} (size : α → UInt32) : lineBytes size [] = 0 := rfl

@[simp] theorem lineBytes_cons {α : Type} (size : α → UInt32) (entry : ℕ × α)
    (line : List (ℕ × α)) :
    lineBytes size (entry :: line) = (size entry.2).toNat + lineBytes size line := rfl

@[simp] theorem lineBytes_append {α : Type} (size : α → UInt32) (line rest : List (ℕ × α)) :
    lineBytes size (line ++ rest) = lineBytes size line + lineBytes size rest := by
  simp [lineBytes]

/-- The bytes up to a number and those after it. -/
theorem lineBytes_filter_add {α : Type} (size : α → UInt32) (marked : ℕ) (line : List (ℕ × α)) :
    lineBytes size (line.filter (·.1 ≤ marked)) + lineBytes size (line.filter (marked < ·.1)) =
      lineBytes size line := by
  induction line with
  | nil => rfl
  | cons entry line ih =>
      rcases Nat.lt_or_ge marked entry.1 with hlater | hearlier
      · simp only [List.filter_cons, hlater, not_le.mpr hlater, decide_true, decide_false, if_true,
          Bool.false_eq_true, if_false, lineBytes_cons]
        omega
      · simp only [List.filter_cons, hearlier, not_lt.mpr hearlier, decide_true, decide_false,
          if_true, Bool.false_eq_true, if_false, lineBytes_cons]
        omega

namespace ZhugeQueue

/-! ## Marking and tallying -/

/-- Whether `OnRecv_rcvdev` marks the packet. -/
def marks (packet : DownlinkPacket) (s : ZhugeQueue) : Bool :=
  packet.isBetween s.sendIP s.recvIP && packet.isUdpFrom s.sendPort && !s.scheduleFlag

variable {packet : DownlinkPacket} {s : ZhugeQueue}

theorem toNat_bodySize_lt (packet : DownlinkPacket) :
    packet.bodySize.toNat < packet.size.toNat := by
  obtain ⟨hmin, hle⟩ := packet.header_mem
  have hmin' : 20 ≤ packet.ipHeaderSize.toNat := UInt32.le_iff_toNat_le.mp hmin
  have hle' := UInt32.le_iff_toNat_le.mp hle
  rw [DownlinkPacket.bodySize, UInt32.toNat_sub_of_le _ _ hle]
  omega

theorem toNat_size_sub_lt (packet : DownlinkPacket) :
    (packet.size - 20).toNat < packet.size.toNat := by
  obtain ⟨hmin, hle⟩ := packet.header_mem
  have hsize := UInt32.le_trans hmin hle
  have hsize' := UInt32.le_iff_toNat_le.mp hsize
  rw [UInt32.toNat_sub_of_le _ _ hsize]
  exact Nat.sub_lt (lt_of_lt_of_le (by decide) hsize') (by decide)

/-- A packet that is marked starts the tally. -/
theorem recvNoTcp_of_marks (h : s.marks packet = true) :
    s.recvNoTcp packet = (s.note packet).mark packet := by
  simp only [marks, DownlinkPacket.isUdpFrom, Bool.and_eq_true, Bool.not_eq_true', beq_iff_eq] at h
  obtain ⟨⟨hhosts, hprotocol, hport⟩, hflag⟩ := h
  have hport' : packet.sourcePort = (s.note packet).sendPort := hport
  have hflag' : (s.note packet).scheduleFlag = false := hflag
  rw [recvNoTcp, if_pos hhosts, if_pos hprotocol, recvUdp, if_neg (not_not.mpr hport'), hflag']
  rfl

theorem tally_feedback (bytes : UInt32) (s : ZhugeQueue) :
    (s.tally bytes).scheduleFlag = s.scheduleFlag ∧
      (s.tally bytes).pendingSendbacks = s.pendingSendbacks ∧
      (s.scheduleFlag = true → (s.tally bytes).extraBytes = s.extraBytes + bytes) := by
  unfold tally
  split_ifs with hflag
  · exact ⟨rfl, rfl, fun _ => rfl⟩
  · exact ⟨rfl, rfl, fun h => absurd h hflag⟩

/-- Any other packet keeps the mark, and the tally grows by less than the packet's size. -/
theorem recvNoTcp_of_not_marks (h : s.marks packet = false) :
    (s.recvNoTcp packet).scheduleFlag = s.scheduleFlag ∧
      (s.recvNoTcp packet).pendingSendbacks = s.pendingSendbacks ∧
      ∃ bytes : UInt32, bytes.toNat < packet.size.toNat ∧
        (s.scheduleFlag = true → (s.recvNoTcp packet).extraBytes = s.extraBytes + bytes) := by
  have hbody := toNat_bodySize_lt packet
  unfold recvNoTcp
  split_ifs with hhosts hprotocol
  · -- UDP between the two hosts, tallied without its header
    have htally : (s.note packet).recvUdp packet = (s.note packet).tally packet.bodySize := by
      unfold recvUdp
      split_ifs with hport hflag
      · rfl
      · rfl
      · have hflag' : s.scheduleFlag = false := Bool.eq_false_iff.mpr hflag
        have hport' : packet.sourcePort = s.sendPort := not_not.mp hport
        simp [marks, DownlinkPacket.isUdpFrom, hhosts, hprotocol, hport', hflag'] at h
    rw [htally]
    obtain ⟨hflag, hpending, hextra⟩ := tally_feedback packet.bodySize (s.note packet)
    exact ⟨hflag, hpending, packet.bodySize, hbody, hextra⟩
  · -- another protocol, not tallied at all
    exact ⟨rfl, rfl, 0, Nat.zero_lt_of_lt hbody, fun _ => (UInt32.add_zero _).symm⟩
  · obtain ⟨hflag, hpending, hextra⟩ := tally_feedback (packet.size - 20) s
    exact ⟨hflag, hpending, _, toNat_size_sub_lt packet, hextra⟩

theorem recvNoTcp_setup (packet : DownlinkPacket) (s : ZhugeQueue) :
    (s.recvNoTcp packet).mode = s.mode ∧ (s.recvNoTcp packet).ccCreate = s.ccCreate := by
  obtain ⟨_, _, _, _, _, _, _, hrecv⟩ := recvNoTcp_frame packet s
  rw [hrecv]
  exact ⟨rfl, rfl⟩

/-- A `Sendback` with slots to go by finds a packet and sets `m_curQSizeByte`. -/
theorem sendback_estimates {now : Time} {o : Observation LinkFrame} {s' : ZhugeQueue}
    (h : s.sendback now o = some s') (hslots : s.txBytesList ≠ []) :
    ∃ curQSizeByte, s.unmark.queueAhead s.extraBytes o = some curQSizeByte ∧
      s.sndbackPkt ≠ none ∧ s'.curQSizeByte = curQSizeByte := by
  obtain ⟨hempty, -⟩ | ⟨curQSizeByte, delay, pkt, -, hahead, hpkt, rfl⟩ := sendback_cases h
  · exact absurd hempty hslots
  · obtain ⟨_, _, _, hanswer⟩ := answer_frame now delay pkt { s.unmark with curQSizeByte }
    rw [hanswer]
    exact ⟨curQSizeByte, hahead, by simp [hpkt], rfl⟩

end ZhugeQueue

/-! ## The queues around the object -/

/-- The object between the queueing discipline and the device, both first in, first out. The
packets are numbered as they arrive. -/
structure QueueLink where
  queue : ZhugeQueue
  qdisc : List (ℕ × DownlinkPacket)
  device : List (ℕ × LinkFrame)
  /-- `GetTotalReceivedBytes` of the device's queue. -/
  totalReceivedBytes : UInt32
  arrivals : ℕ
  /-- The number of the packet marked last. -/
  marked : ℕ

namespace QueueLink

def qdiscBytes (a : QueueLink) : ℕ := lineBytes DownlinkPacket.size a.qdisc

def deviceBytes (a : QueueLink) : ℕ := lineBytes LinkFrame.size a.device

/-- The queues as the handlers see them. -/
def observation (a : QueueLink) : Observation LinkFrame where
  dlQueue :=
    { items := a.device.map Prod.snd
      totalReceivedBytes := a.totalReceivedBytes
      nBytes := UInt32.ofNat a.deviceBytes }
  wmq := ⟨[], 0, 0⟩
  qdiscBytes := UInt32.ofNat a.qdiscBytes

inductive Event where
  | tick
  | arrive (now : Time) (packet : DownlinkPacket)
  /-- A packet moves from the queueing discipline to the device, behind a link header. -/
  | dequeue (linkHeaderSize : UInt32)
  | transmit
  | sendback (now : Time)

/-- A packet arrives: the object sees it and the queueing discipline stores it. -/
def arrive (now : Time) (packet : DownlinkPacket) (a : QueueLink) : Option QueueLink :=
  (a.queue.step (.recvRcvdev now packet a.observation)).map fun queue =>
    { a with
      queue
      qdisc := a.qdisc ++ [(a.arrivals, packet)]
      arrivals := a.arrivals + 1
      marked := if a.queue.marks packet then a.arrivals else a.marked }

/-- A frame enters the device's queue. -/
def enqueue (number : ℕ) (frame : LinkFrame) (a : QueueLink) : QueueLink :=
  { a with
    device := a.device ++ [(number, frame)]
    totalReceivedBytes := a.totalReceivedBytes + frame.size }

/-- One event. `none`: a handler ends with an error, there is nothing to move, or the count of the
bytes in a queue would not fit 32 bits. -/
def step (a : QueueLink) : Event → Option QueueLink
  | .tick => (a.queue.step (.updateTxRate a.observation)).map fun queue => { a with queue }
  | .arrive now packet =>
    if a.qdiscBytes + packet.size.toNat < 2 ^ 32 then a.arrive now packet else none
  | .dequeue linkHeaderSize =>
    match a.qdisc with
    | [] => none
    | (number, packet) :: qdisc =>
      let frame : LinkFrame := ⟨linkHeaderSize, packet⟩
      if a.deviceBytes + frame.size.toNat < 2 ^ 32 then
        some ({ a with qdisc }.enqueue number frame)
      else none
  | .transmit =>
    match a.device with
    | [] => none
    | _ :: device => some { a with device }
  | .sendback now => (a.queue.step (.sendback now a.observation)).map fun queue => { a with queue }

/-- The object after `Setup` without TCP, and empty queues. -/
def init (c : ZhugeQueue.Config) : QueueLink where
  queue := .init 1 { c with ccCreate := false }
  qdisc := []
  device := []
  totalReceivedBytes := 0
  arrivals := 0
  marked := 0

/-! ## What is ahead, and what came later -/

/-- The marked packet is still in the queueing discipline. -/
def MarkedQueued (a : QueueLink) : Prop := a.marked ∈ a.qdisc.map Prod.fst

instance (a : QueueLink) : Decidable a.MarkedQueued := inferInstanceAs (Decidable (_ ∈ _))

/-- The bytes still queued of packets that arrived no later than the marked one. -/
def bytesUpToMarked (a : QueueLink) : ℕ :=
  lineBytes DownlinkPacket.size (a.qdisc.filter (·.1 ≤ a.marked)) +
    lineBytes LinkFrame.size (a.device.filter (·.1 ≤ a.marked))

/-- The packets in the queueing discipline that arrived after the marked one. -/
def later (a : QueueLink) : List (ℕ × DownlinkPacket) := a.qdisc.filter (a.marked < ·.1)

/-- A `Sendback` with slots to go by that finds the marked packet in the queueing discipline sets
`m_curQSizeByte` to the bytes that arrived no later. -/
def ExcludesLater (a : QueueLink) : Event → Prop
  | .sendback now =>
    ∀ s', a.queue.step (.sendback now a.observation) = some s' → a.queue.txBytesList ≠ [] →
      a.MarkedQueued → s'.curQSizeByte.toNat = a.bytesUpToMarked
  | _ => True

def AtMostOnePending (a : QueueLink) : Prop := a.queue.pendingSendbacks ≤ 1

/-- The condition on such a `Sendback`: no packet has arrived after the marked one, and the bytes
up to it fit 32 bits. -/
def NothingLater (a : QueueLink) : Event → Prop
  | .sendback _ =>
    a.queue.pendingSendbacks ≠ 0 → a.queue.sndbackPkt ≠ none → a.queue.txBytesList ≠ [] →
      a.MarkedQueued → a.later = [] ∧ a.bytesUpToMarked < 2 ^ 32
  | _ => True

instance (a : QueueLink) : (e : Event) → Decidable (a.NothingLater e)
  | .sendback _ => inferInstanceAs (Decidable (_ → _))
  | .tick => .isTrue trivial
  | .arrive _ _ => .isTrue trivial
  | .dequeue _ => .isTrue trivial
  | .transmit => .isTrue trivial

/-! ## The invariant -/

/-- The numbers in line, from the packet that leaves first to the next one to arrive. -/
def numbers (a : QueueLink) : List ℕ :=
  a.device.map Prod.fst ++ (a.qdisc.map Prod.fst ++ [a.arrivals])

/-- What every event keeps. While the marked packet is in the queueing discipline, the tally is at
least a byte per packet short of what came later. -/
structure Consistent (a : QueueLink) : Prop where
  mode : a.queue.mode = 1
  noTcp : a.queue.ccCreate = false
  pending : a.queue.pendingSendbacks = if a.queue.scheduleFlag then 1 else 0
  sorted : a.numbers.Pairwise (· < ·)
  qdisc_lt : a.qdiscBytes < 2 ^ 32
  device_lt : a.deviceBytes < 2 ^ 32
  marked_lt : a.queue.scheduleFlag = true → a.marked < a.arrivals
  tally : a.queue.scheduleFlag = true → a.MarkedQueued →
    a.queue.extraBytes.toNat + a.later.length ≤ lineBytes DownlinkPacket.size a.later

variable {a b : QueueLink} {now : Time}

/-- The next number is the largest. -/
theorem pairwise_concat_succ {line : List ℕ} {n : ℕ} (h : (line ++ [n]).Pairwise (· < ·)) :
    (line ++ [n] ++ [n + 1]).Pairwise (· < ·) := by
  refine List.pairwise_append.mpr ⟨h, List.pairwise_singleton _ _, ?_⟩
  intro m hm k hk
  rw [List.mem_singleton.mp hk, Nat.lt_succ_iff]
  rcases List.mem_append.mp hm with hm | hm
  · exact ((List.pairwise_append.mp h).2.2 m hm n (List.mem_singleton_self n)).le
  · exact (List.mem_singleton.mp hm).le

/-- The packets after the marked one are among those the queueing discipline holds. -/
theorem later_le_qdiscBytes (a : QueueLink) :
    lineBytes DownlinkPacket.size a.later ≤ a.qdiscBytes :=
  (Nat.le_add_left _ _).trans_eq (lineBytes_filter_add _ a.marked a.qdisc)

/-- Every packet in the queueing discipline has arrived. -/
theorem Consistent.lt_arrivals (ha : a.Consistent) : ∀ entry ∈ a.qdisc, entry.1 < a.arrivals := by
  intro entry hentry
  have hsorted := (List.pairwise_append.mp ha.sorted).2.1
  exact (List.pairwise_append.mp hsorted).2.2 _ (List.mem_map_of_mem hentry) _
    (List.mem_singleton_self _)

/-- Frames in the device are ahead of what is in the queueing discipline. -/
theorem Consistent.device_lt_marked (ha : a.Consistent) (hmarked : a.MarkedQueued) :
    ∀ entry ∈ a.device, entry.1 < a.marked := by
  intro entry hentry
  exact (List.pairwise_append.mp ha.sorted).2.2 _ (List.mem_map_of_mem hentry) _
    (List.mem_append_left _ hmarked)

theorem Consistent.tick (ha : a.Consistent) (h : a.step .tick = some b) : b.Consistent := by
  obtain ⟨queue, hqueue, rfl⟩ := Option.map_eq_some_iff.mp h
  have hmode := ZhugeQueue.mode_step (.inr ha.mode) hqueue
  cases ZhugeQueue.eq_tick_of_step (.inr ha.mode) hqueue
  exact { ha with mode := hmode.trans ha.mode }

/-- The tally grows by less than the packet that arrives. -/
theorem Consistent.arrive (ha : a.Consistent) {packet : DownlinkPacket}
    (hfit : a.qdiscBytes + packet.size.toNat < 2 ^ 32) (h : a.arrive now packet = some b) :
    b.Consistent := by
  obtain ⟨queue, hqueue, rfl⟩ := Option.map_eq_some_iff.mp h
  cases (ZhugeQueue.onRecvRcvdev_eq ha.noTcp).symm.trans hqueue
  obtain ⟨hmode, hcc⟩ := ZhugeQueue.recvNoTcp_setup packet a.queue
  have hsorted : (a.device.map Prod.fst ++ a.qdisc.map Prod.fst ++ [a.arrivals]).Pairwise
      (· < ·) := by
    simpa [QueueLink.numbers] using ha.sorted
  have hnumbers : (a.device.map Prod.fst ++ ((a.qdisc ++ [(a.arrivals, packet)]).map Prod.fst ++
      [a.arrivals + 1])).Pairwise (· < ·) := by
    simpa using pairwise_concat_succ hsorted
  have hbytes : lineBytes DownlinkPacket.size (a.qdisc ++ [(a.arrivals, packet)]) < 2 ^ 32 := by
    simpa [qdiscBytes] using hfit
  cases hmarks : a.queue.marks packet with
  | true =>
      have hflag : a.queue.scheduleFlag = false := by
        simp only [ZhugeQueue.marks, Bool.and_eq_true, Bool.not_eq_true'] at hmarks
        exact hmarks.2
      have hpending := ha.pending
      rw [hflag] at hpending
      rw [ZhugeQueue.recvNoTcp_of_marks hmarks] at hmode hcc ⊢
      refine ⟨hmode.trans ha.mode, hcc.trans ha.noTcp, congrArg (· + 1) hpending, hnumbers, hbytes,
        ha.device_lt, fun _ => Nat.lt_succ_self _, fun _ _ => ?_⟩
      -- nothing has come after the packet that is marked now
      have hnone : (a.qdisc ++ [(a.arrivals, packet)]).filter (a.arrivals < ·.1) = [] := by
        simp only [List.filter_eq_nil_iff, List.mem_append, List.mem_singleton, decide_eq_true_eq]
        rintro entry (hentry | rfl)
        · exact (ha.lt_arrivals entry hentry).not_gt
        · exact Nat.lt_irrefl _
      simp only [later, if_true, hnone]
      exact Nat.le_refl _
  | false =>
      obtain ⟨hflag, hpending, bytes, hlt, hextra⟩ :=
        ZhugeQueue.recvNoTcp_of_not_marks hmarks
      simp only [Bool.false_eq_true, if_false]
      refine ⟨hmode.trans ha.mode, hcc.trans ha.noTcp, ?_, hnumbers, hbytes, ha.device_lt, ?_, ?_⟩
      · rw [hflag, hpending]
        exact ha.pending
      · intro hset
        exact (ha.marked_lt (hflag ▸ hset)).trans (Nat.lt_succ_self _)
      · intro hset hqueued
        rw [hflag] at hset
        have hmarked := ha.marked_lt hset
        have hqueued' : a.MarkedQueued := by
          simpa [MarkedQueued, hmarked.ne] using hqueued
        have htally := ha.tally hset hqueued'
        have hlater : (a.qdisc ++ [(a.arrivals, packet)]).filter (a.marked < ·.1) =
            a.later ++ [(a.arrivals, packet)] := by
          simp [later, hmarked]
        have hle := a.later_le_qdiscBytes
        change _ + ((a.qdisc ++ [(a.arrivals, packet)]).filter (a.marked < ·.1)).length ≤
          lineBytes _ ((a.qdisc ++ [(a.arrivals, packet)]).filter (a.marked < ·.1))
        rw [hlater, hextra hset, UInt32.toNat_add, Nat.mod_eq_of_lt (by omega), lineBytes_append,
          List.length_append]
        simp only [lineBytes_cons, lineBytes_nil, List.length_singleton]
        omega

/-- The front of the queueing discipline moves to the back of the device. -/
theorem Consistent.dequeue (ha : a.Consistent) {linkHeaderSize : UInt32}
    (h : a.step (.dequeue linkHeaderSize) = some b) : b.Consistent := by
  simp only [step] at h
  split at h
  · cases h
  · rename_i number packet qdisc hqdisc
    have hbytes : a.qdiscBytes = packet.size.toNat + lineBytes DownlinkPacket.size qdisc := by
      rw [qdiscBytes, hqdisc, lineBytes_cons]
    have hqdisc_lt := ha.qdisc_lt
    have hsorted := ha.sorted
    rw [numbers, hqdisc, List.map_cons, List.cons_append] at hsorted
    split_ifs at h with hfit
    cases h
    refine ⟨ha.mode, ha.noTcp, ha.pending, ?_, ?_, ?_, ha.marked_lt, ?_⟩
    · simpa [numbers, enqueue] using hsorted
    · change lineBytes DownlinkPacket.size qdisc < 2 ^ 32
      omega
    · simpa [deviceBytes, enqueue] using hfit
    · -- a packet that leaves ahead of the marked one is not a later one
      intro hset hqueued
      have hahead : number < a.marked :=
        (List.pairwise_cons.mp (List.pairwise_append.mp hsorted).2.1).1 _
          (List.mem_append_left _ hqueued)
      have hqueued' : a.MarkedQueued := by
        rw [MarkedQueued, hqdisc]
        exact List.mem_cons_of_mem _ hqueued
      have hlater : a.later = qdisc.filter (a.marked < ·.1) := by
        rw [later, hqdisc, List.filter_cons_of_neg]
        simpa using hahead.le
      have htally := ha.tally hset hqueued'
      rwa [hlater] at htally

theorem Consistent.transmit (ha : a.Consistent) (h : a.step .transmit = some b) :
    b.Consistent := by
  simp only [step] at h
  split at h
  · cases h
  · rename_i number device hdevice
    cases h
    have hsorted := ha.sorted
    have hbytes : a.deviceBytes = number.2.size.toNat + lineBytes LinkFrame.size device := by
      rw [deviceBytes, hdevice, lineBytes_cons]
    have hdevice_lt := ha.device_lt
    rw [numbers, hdevice, List.map_cons, List.cons_append] at hsorted
    refine { ha with sorted := (List.pairwise_cons.mp hsorted).2, device_lt := ?_ }
    change lineBytes LinkFrame.size device < 2 ^ 32
    omega

/-- A `Sendback` takes the only event off the calendar. -/
theorem Consistent.sendback (ha : a.Consistent) (h : a.step (.sendback now) = some b) :
    b.Consistent := by
  obtain ⟨queue, hqueue, rfl⟩ := Option.map_eq_some_iff.mp h
  have hmode := ZhugeQueue.mode_step (.inr ha.mode) hqueue
  have hunmark : a.queue.pendingSendbacks - 1 = 0 := by
    rw [ha.pending]
    split_ifs <;> rfl
  obtain ⟨hcc, hflag, hpending⟩ : queue.ccCreate = false ∧ queue.scheduleFlag = false ∧
      queue.pendingSendbacks = 0 := by
    simp only [ZhugeQueue.step] at hqueue
    split_ifs at hqueue
    obtain ⟨-, rfl⟩ | ⟨curQSizeByte, delay, pkt, -, -, -, rfl⟩ :=
      ZhugeQueue.sendback_cases hqueue
    · exact ⟨ha.noTcp, rfl, hunmark⟩
    · obtain ⟨_, _, _, hanswer⟩ := ZhugeQueue.answer_frame now delay pkt
        { a.queue.unmark with curQSizeByte }
      rw [hanswer]
      exact ⟨ha.noTcp, rfl, hunmark⟩
  refine ⟨hmode.trans ha.mode, hcc, ?_, ha.sorted, ha.qdisc_lt, ha.device_lt, ?_, ?_⟩
  · rw [hpending, hflag]
    rfl
  · intro hset
    exact absurd hset (by simp [hflag])
  · intro hset
    exact absurd hset (by simp [hflag])

theorem Consistent.step {e : Event} (ha : a.Consistent) (h : a.step e = some b) :
    b.Consistent := by
  cases e with
  | tick => exact ha.tick h
  | arrive now packet =>
      simp only [QueueLink.step] at h
      split_ifs at h with hfit
      exact ha.arrive hfit h
  | dequeue linkHeaderSize => exact ha.dequeue h
  | transmit => exact ha.transmit h
  | sendback now => exact ha.sendback h

theorem consistent_init (c : ZhugeQueue.Config) : (init c).Consistent where
  mode := rfl
  noTcp := rfl
  pending := rfl
  sorted := List.pairwise_singleton _ _
  qdisc_lt := Nat.two_pow_pos 32
  device_lt := Nat.two_pow_pos 32
  marked_lt := fun hset => nomatch hset
  tally := fun hset => nomatch hset

/-! ## The estimate -/

/-- What is queued is what arrived up to the marked packet and what came later. -/
theorem Consistent.bytesUpToMarked_add (ha : a.Consistent) (hqueued : a.MarkedQueued) :
    a.bytesUpToMarked + lineBytes DownlinkPacket.size a.later = a.qdiscBytes + a.deviceBytes := by
  have hdevice : a.device.filter (·.1 ≤ a.marked) = a.device := by
    simpa [List.filter_eq_self] using
      fun number frame hmem => (ha.device_lt_marked hqueued (number, frame) hmem).le
  have hqdisc := lineBytes_filter_add DownlinkPacket.size a.marked a.qdisc
  rw [bytesUpToMarked, hdevice, qdiscBytes, deviceBytes, later]
  omega

/-- While the marked packet is in the queueing discipline, the tally is taken off the whole. -/
theorem Consistent.queueAhead_eq (ha : a.Consistent) (hset : a.queue.scheduleFlag = true)
    (hqueued : a.MarkedQueued) :
    ∃ curQSizeByte,
      a.queue.unmark.queueAhead a.queue.extraBytes a.observation = some curQSizeByte ∧
        curQSizeByte.toNat =
          (a.qdiscBytes + a.deviceBytes - a.queue.extraBytes.toNat) % 2 ^ 32 := by
  have htally := ha.tally hset hqueued
  have hqdisc := ha.qdisc_lt
  have hdevice := ha.device_lt
  have hle := a.later_le_qdiscBytes
  have hcount : (UInt32.ofNat a.qdiscBytes).toNat = a.qdiscBytes := by
    rw [UInt32.toNat_ofNat', Nat.mod_eq_of_lt hqdisc]
  have hnot : ¬ a.queue.extraBytes > a.observation.qdiscBytes := by
    rw [gt_iff_lt, UInt32.lt_iff_toNat_lt]
    change ¬ (UInt32.ofNat a.qdiscBytes).toNat < _
    omega
  have hmode : a.queue.unmark.mode = 1 := ha.mode
  refine ⟨max (UInt32.ofNat a.qdiscBytes + UInt32.ofNat a.deviceBytes - a.queue.extraBytes) 0,
    ?_, ?_⟩
  · rw [ZhugeQueue.queueAhead, if_neg hnot, if_pos (.inr hmode)]
    simp [Observation.device, hmode, observation]
  · rw [UInt32.toNat_max, UInt32.toNat_zero, Nat.max_zero, UInt32.toNat_sub, UInt32.toNat_add,
      UInt32.toNat_ofNat', UInt32.toNat_ofNat']
    have hextra := a.queue.extraBytes.toNat_lt
    omega

/-- The bytes of a tally that is short, reduced to 32 bits, are those up to the marked packet
exactly if nothing came later. -/
theorem sub_mod_eq_iff {upTo later extra count : ℕ} (hshort : extra + count ≤ later)
    (hempty : count = 0 → later = 0) (hlater : later < 2 ^ 32) :
    (upTo + later - extra) % 2 ^ 32 = upTo ↔ count = 0 ∧ upTo < 2 ^ 32 := by
  constructor
  · intro heq
    omega
  · rintro ⟨hcount, hfit⟩
    have hnone := hempty hcount
    rw [show upTo + later - extra = upTo by omega, Nat.mod_eq_of_lt hfit]

/-- A `Sendback` leaves out what came later exactly if nothing did. -/
theorem excludesLater_iff (ha : a.Consistent) (e : Event) :
    a.ExcludesLater e ↔ a.NothingLater e := by
  cases e with
  | sendback now =>
      by_cases hestimates : a.queue.pendingSendbacks ≠ 0 ∧ a.queue.sndbackPkt ≠ none ∧
          a.queue.txBytesList ≠ [] ∧ a.MarkedQueued
      · obtain ⟨hpending, hpkt, hslots, hqueued⟩ := hestimates
        have hset : a.queue.scheduleFlag = true := by
          by_contra hclear
          exact hpending (ha.pending.trans (if_neg hclear))
        obtain ⟨curQSizeByte, hahead, hbytes⟩ := ha.queueAhead_eq hset hqueued
        have hestimate : a.ExcludesLater (.sendback now) ↔
            curQSizeByte.toNat = a.bytesUpToMarked := by
          obtain ⟨pkt, hpkt'⟩ := Option.ne_none_iff_exists'.mp hpkt
          obtain ⟨t, ht⟩ := ZhugeQueue.sendback_isSome (.inr ha.mode) hpkt' now a.observation
          have hstep : a.queue.step (.sendback now a.observation) = some t :=
            (if_neg hpending).trans ht
          obtain ⟨found, hfound, -, ht'⟩ := ZhugeQueue.sendback_estimates ht hslots
          cases hahead.symm.trans hfound
          constructor
          · intro hexcludes
            exact ht' ▸ hexcludes t hstep hslots hqueued
          · intro heq s' hs' _ _
            cases hstep.symm.trans hs'
            rw [ht', heq]
        have hempty : a.later.length = 0 → lineBytes DownlinkPacket.size a.later = 0 := by
          intro hnone
          rw [List.length_eq_zero_iff.mp hnone, lineBytes_nil]
        rw [hestimate, hbytes, ← ha.bytesUpToMarked_add hqueued,
          sub_mod_eq_iff (ha.tally hset hqueued) hempty
            (a.later_le_qdiscBytes.trans_lt ha.qdisc_lt),
          List.length_eq_zero_iff]
        exact ⟨fun hnone _ _ _ _ => hnone, fun h => h hpending hpkt hslots hqueued⟩
      · refine iff_of_true ?_ ?_
        · intro s' hs' hslots hqueued
          simp only [ZhugeQueue.step] at hs'
          split_ifs at hs' with hpending
          obtain ⟨-, -, hpkt, -⟩ := ZhugeQueue.sendback_estimates hs' hslots
          exact absurd ⟨hpending, hpkt, hslots, hqueued⟩ hestimates
        · intro hpending hpkt hslots hqueued
          exact absurd ⟨hpending, hpkt, hslots, hqueued⟩ hestimates
  | _ => exact Iff.rfl

/-- In mode 1 without TCP, over any arrivals, dequeues, ticks and feedback: every `Sendback` that
finds the marked packet in the queueing discipline counts the bytes that arrived no later, and at
most one `Sendback` is ever pending, if and only if at every such `Sendback` no packet has arrived
after the marked one (and the bytes fit 32 bits). -/
theorem excludesLater_iff_nothingLater (c : ZhugeQueue.Config) (events : List Event) :
    Run.Each QueueLink.step ExcludesLater (init c) events ∧
        Run.Always QueueLink.step AtMostOnePending (init c) events ↔
      Run.Each QueueLink.step NothingLater (init c) events := by
  have hkeeps : ∀ a e b, Consistent a → a.step e = some b → b.Consistent :=
    fun a e b ha hstep => ha.step hstep
  have hpending : Run.Always QueueLink.step AtMostOnePending (init c) events := by
    apply (Run.always_of_invariant hkeeps (consistent_init c) events).mono
    intro a ha
    rw [AtMostOnePending, ha.pending]
    split_ifs <;> decide
  rw [and_iff_left hpending]
  exact Run.each_iff hkeeps (fun a e ha => excludesLater_iff ha e) (consistent_init c) events

/-- Packet 6 comes a moment after packet 5, and is as long. Of its 1028 bytes, 20 count as ahead. -/
theorem not_excludesLater_twoPackets :
    ¬ (Run.Each QueueLink.step ExcludesLater (init .udpFlow)
        [.tick, .arrive 0 (.ofFlow 5), .arrive 0 (.ofFlow 6), .sendback 1000000] ∧
      Run.Always QueueLink.step AtMostOnePending (init .udpFlow)
        [.tick, .arrive 0 (.ofFlow 5), .arrive 0 (.ofFlow 6), .sendback 1000000]) := by
  rintro ⟨h, -⟩
  obtain ⟨a, ha, s', hs', hslots, hqueued, hbytes, hupTo⟩ : ∃ a,
      Run.exec QueueLink.step (init .udpFlow)
        [.tick, .arrive 0 (.ofFlow 5), .arrive 0 (.ofFlow 6)] = some a ∧
      ∃ s', a.queue.step (.sendback 1000000 a.observation) = some s' ∧
        a.queue.txBytesList ≠ [] ∧ a.MarkedQueued ∧ s'.curQSizeByte = 1048 ∧
        a.bytesUpToMarked = 1028 :=
    ⟨_, rfl, _, rfl, by decide, by decide, by rfl, by rfl⟩
  have hlast : Run.Each QueueLink.step ExcludesLater a [.sendback 1000000] :=
    h.of_append_right ha
  have hexcludes := hlast.1 s' hs' hslots hqueued
  rw [hbytes, hupTo] at hexcludes
  exact absurd hexcludes (by decide)

end QueueLink

end Zhuge
