-- SUMMARY: When the early acknowledgements of FastAck are cumulative: covered by what was transmitted, and in order.
import Zhuge.FastAck

/-!
# Cumulative acknowledgements

An acknowledgement of position `n` tells the sender that the client has every byte
before `n`. FastAck acknowledges the end of whichever segment it finds transmitted,
so its acknowledgements keep that meaning as long as no segment is answered across
a gap, longer than it is, or once more after later bytes.
-/

namespace Zhuge

/-! ## The transmitted part of the stream -/

/-- Byte `n` has been transmitted to the client. -/
def Covered (recvIP : UInt32) (transmitted : List Segment) (n : ℕ) : Prop :=
  ∃ seg ∈ transmitted, seg.isTcpTo recvIP ∧ seg.pos ≤ n ∧ n < seg.pos + seg.dataSize

instance (recvIP : UInt32) (transmitted : List Segment) (n : ℕ) :
    Decidable (Covered recvIP transmitted n) :=
  inferInstanceAs (Decidable (∃ seg ∈ transmitted, _))

theorem Covered.append {recvIP : UInt32} {transmitted : List Segment} {n : ℕ}
    (h : Covered recvIP transmitted n) (more : List Segment) :
    Covered recvIP (transmitted ++ more) n := by
  obtain ⟨seg, hseg, hcover⟩ := h
  exact ⟨seg, List.mem_append_left more hseg, hcover⟩

/-- Only finitely many bytes are covered. -/
theorem exists_not_covered (recvIP : UInt32) (transmitted : List Segment) :
    ∃ n, 1 ≤ n ∧ ¬ Covered recvIP transmitted n := by
  let ends := transmitted.map fun seg => seg.pos + seg.dataSize
  refine ⟨ends.sum + 1, by omega, ?_⟩
  rintro ⟨seg, hseg, -, -, hlt⟩
  have hle : seg.pos + seg.dataSize ≤ ends.sum :=
    List.le_sum_of_mem (List.mem_map_of_mem hseg)
  omega

/-- The first byte of the stream, from 1 on, that no transmitted segment covers. -/
def firstUncovered (recvIP : UInt32) (transmitted : List Segment) : ℕ :=
  Nat.find (exists_not_covered recvIP transmitted)

theorem le_firstUncovered_iff {recvIP : UInt32} {transmitted : List Segment} {a : ℕ} :
    a ≤ firstUncovered recvIP transmitted ↔
      ∀ n, 1 ≤ n → n < a → Covered recvIP transmitted n := by
  simp only [firstUncovered, Nat.le_find_iff, not_and, not_not]
  exact forall_congr' fun n => forall_comm

theorem firstUncovered_append (recvIP : UInt32) (transmitted more : List Segment) :
    firstUncovered recvIP transmitted ≤ firstUncovered recvIP (transmitted ++ more) :=
  le_firstUncovered_iff.mpr fun n hn hlt =>
    (le_firstUncovered_iff.mp le_rfl n hn hlt).append more

/-! ## What is to hold of the acknowledgements -/

structure AcksCumulative (recvIP : UInt32) (transmitted : List Segment) (acks : List FastAck) :
    Prop where
  numbered : ∀ ack ∈ acks, ack.ackNumber = UInt32.ofNat ack.pos
  covered : ∀ ack ∈ acks, ack.pos ≤ firstUncovered recvIP transmitted
  nondecreasing : acks.Pairwise fun ack later => ack.pos ≤ later.pos

namespace AcksCumulative

variable {recvIP : UInt32} {transmitted : List Segment} {acks : List FastAck}

theorem nil : AcksCumulative recvIP transmitted [] := by
  constructor <;> simp

theorem transmit (h : AcksCumulative recvIP transmitted acks) (more : List Segment) :
    AcksCumulative recvIP (transmitted ++ more) acks where
  numbered := h.numbered
  covered ack hack := (h.covered ack hack).trans (firstUncovered_append _ _ _)
  nondecreasing := h.nondecreasing

/-- One more acknowledgement keeps the meaning exactly if its position is covered and no
earlier acknowledgement is beyond it. -/
theorem concat_iff {ack : FastAck} (hnumber : ack.ackNumber = UInt32.ofNat ack.pos) :
    AcksCumulative recvIP transmitted (acks ++ [ack]) ↔
      AcksCumulative recvIP transmitted acks ∧ ack.pos ≤ firstUncovered recvIP transmitted ∧
        ∀ earlier ∈ acks, earlier.pos ≤ ack.pos := by
  constructor
  · rintro ⟨hnumbered, hcovered, hsorted⟩
    obtain ⟨hsorted, -, hlast⟩ := List.pairwise_append.mp hsorted
    exact ⟨⟨fun a ha => hnumbered a (List.mem_append_left _ ha),
      fun a ha => hcovered a (List.mem_append_left _ ha), hsorted⟩,
      hcovered ack (by simp), fun a ha => hlast a ha ack (by simp)⟩
  · rintro ⟨⟨hnumbered, hcovered, hsorted⟩, hnew, hlast⟩
    refine ⟨?_, ?_, ?_⟩
    · simpa [or_imp, forall_and] using ⟨hnumbered, hnumber⟩
    · simpa [or_imp, forall_and] using ⟨hcovered, hnew⟩
    · simpa [List.pairwise_append] using ⟨hsorted, hlast⟩

end AcksCumulative

namespace NetworkQueueFastAck

/-! ## When an answer is cumulative -/

/-- The length that `examine` answers a segment with, if it does. -/
def answered (pktToAck : Segment) (s : NetworkQueueFastAck) : Option UInt16 :=
  if pktToAck.isTcpTo s.recvIP ∧ pktToAck.seq ≠ s.lastAckNumber then
    (s.remembered pktToAck.seq).map (·.2)
  else none

/-- A segment that is answered leaves no gap before it, is remembered with bytes that were
transmitted, and does not end before an acknowledged byte. -/
structure InSequence (transmitted : List Segment) (pktToAck : Segment) (length : UInt16)
    (s : NetworkQueueFastAck) : Prop where
  no_gap : ∀ n, 1 ≤ n → n < pktToAck.pos → Covered s.recvIP transmitted n
  length_covered : ∀ n, 1 ≤ n → pktToAck.pos ≤ n → n < pktToAck.pos + length.toNat →
    Covered s.recvIP transmitted n
  not_before : ∀ ack ∈ s.acks, ack.pos ≤ pktToAck.pos + length.toNat

/-- The condition on one round. -/
def RoundInSequence (transmitted : List Segment) (pktToAck : Segment) (s : NetworkQueueFastAck) :
    Prop :=
  ∀ length ∈ s.answered pktToAck, s.InSequence transmitted pktToAck length

/-- The condition on the rounds of `createAckLoop`. -/
def LoopInSequence (transmitted : List Segment) (index : ℕ) (s : NetworkQueueFastAck) :
    List Segment → Prop
  | [] => True
  | pktToAck :: qseq =>
    index < qseq.length + 1 → s.RoundInSequence transmitted pktToAck ∧
      LoopInSequence transmitted (index + 1) (s.examine pktToAck) qseq

/-- The condition on `CheckAck`: on its loop, and in any mode but 0 on the second loop, too. -/
def ChecksInSequence (transmitted packetList : List Segment) (s : NetworkQueueFastAck) : Prop :=
  let s := s.collect packetList
  s.LoopInSequence transmitted 0 s.qseq ∧
    (s.mode ≠ 0 → s.ackAndSchedule.LoopInSequence transmitted 0 s.ackAndSchedule.qseq)

/-! ## What a round does to the acknowledgements -/

/-- A round changes the acknowledgements and what is remembered for them. -/
theorem examine_frame (pktToAck : Segment) (s : NetworkQueueFastAck) :
    ∃ lastAckId lastAckNumber sndTimeHistory sndLengthHistory acks, s.examine pktToAck =
      { s with lastAckId, lastAckNumber, sndTimeHistory, sndLengthHistory, acks } := by
  unfold examine
  split_ifs
  · cases s.remembered pktToAck.seq <;> exact ⟨_, _, _, _, _, rfl⟩
  · cases s.remembered pktToAck.seq <;> exact ⟨_, _, _, _, _, rfl⟩
  · exact ⟨_, _, _, _, _, rfl⟩

theorem recvIP_examine (pktToAck : Segment) (s : NetworkQueueFastAck) :
    (s.examine pktToAck).recvIP = s.recvIP := by
  obtain ⟨_, _, _, _, _, hexamine⟩ := examine_frame pktToAck s
  rw [hexamine]

theorem acks_examine_of_none {pktToAck : Segment} {s : NetworkQueueFastAck}
    (h : s.answered pktToAck = none) : (s.examine pktToAck).acks = s.acks := by
  unfold examine
  split_ifs with htcp hlast
  · cases s.remembered pktToAck.seq <;> rfl
  · have hnone : s.remembered pktToAck.seq = none := by
      simpa [answered, htcp, hlast] using h
    simp [hnone]
  · rfl

/-- The number in the header is the position modulo 2³². -/
theorem ofNat_pos_add (seg : Segment) (length : UInt16) :
    seg.seq + length.toUInt32 = UInt32.ofNat (seg.pos + length.toNat) := by
  have hlength : length.toUInt32 = UInt32.ofNat length.toNat := by
    apply UInt32.toNat.inj
    have hlt := length.toNat_lt
    rw [UInt16.toNat_toUInt32, UInt32.toNat_ofNat', Nat.mod_eq_of_lt (by omega)]
  rw [UInt32.ofNat_add, Segment.seq, hlength]

theorem acks_examine_of_some {pktToAck : Segment} {length : UInt16} {s : NetworkQueueFastAck}
    (h : s.answered pktToAck = some length) :
    ∃ ack, (s.examine pktToAck).acks = s.acks ++ [ack] ∧
      ack.ackNumber = UInt32.ofNat ack.pos ∧ ack.pos = pktToAck.pos + length.toNat := by
  unfold answered at h
  split_ifs at h with hanswer
  obtain ⟨⟨i, length⟩, hremembered, rfl⟩ := Option.map_eq_some_iff.mp h
  have hexamine : s.examine pktToAck = (s.createAck pktToAck length).forget i := by
    simp [examine, hanswer.1, hanswer.2, hremembered]
  rw [hexamine]
  exact ⟨_, rfl, ofNat_pos_add pktToAck length, rfl⟩

/-- A round keeps the acknowledgements cumulative exactly if the segment is in sequence. -/
theorem acksCumulative_examine_iff (transmitted : List Segment) (pktToAck : Segment)
    (s : NetworkQueueFastAck) :
    AcksCumulative s.recvIP transmitted (s.examine pktToAck).acks ↔
      AcksCumulative s.recvIP transmitted s.acks ∧ s.RoundInSequence transmitted pktToAck := by
  cases hanswered : s.answered pktToAck with
  | none => simp [acks_examine_of_none hanswered, RoundInSequence, hanswered]
  | some length =>
      obtain ⟨ack, hacks, hnumber, hpos⟩ := acks_examine_of_some hanswered
      simp only [hacks, AcksCumulative.concat_iff hnumber, RoundInSequence, hanswered,
        Option.mem_some_iff, forall_eq', le_firstUncovered_iff, hpos]
      apply and_congr_right
      intro _
      constructor
      · rintro ⟨hcovered, hbefore⟩
        exact ⟨fun n hn hlt => hcovered n hn (by omega), fun n hn _ hlt => hcovered n hn hlt,
          hbefore⟩
      · rintro ⟨hgap, hlength, hbefore⟩
        refine ⟨fun n hn hlt => ?_, hbefore⟩
        rcases Nat.lt_or_ge n pktToAck.pos with hpos | hpos
        · exact hgap n hn hpos
        · exact hlength n hn hpos hlt

/-! ## The loops of one `CheckAck` -/

/-- The rounds change what one changes, and the queue. -/
theorem createAckLoop_frame (index : ℕ) (s : NetworkQueueFastAck) (qseq : List Segment) :
    ∃ lastAckId lastAckNumber sndTimeHistory sndLengthHistory left acks,
      createAckLoop index s qseq =
        { s with
          lastAckId, lastAckNumber, sndTimeHistory, sndLengthHistory, qseq := left, acks } := by
  induction qseq generalizing index s with
  | nil => exact ⟨_, _, _, _, _, _, rfl⟩
  | cons pktToAck qseq ih =>
      unfold createAckLoop
      split_ifs
      · obtain ⟨_, _, _, _, _, hexamine⟩ := examine_frame pktToAck s
        obtain ⟨_, _, _, _, _, _, hloop⟩ := ih (index + 1) (s.examine pktToAck)
        rw [hloop, hexamine]
        exact ⟨_, _, _, _, _, _, rfl⟩
      · exact ⟨_, _, _, _, _, _, rfl⟩

theorem acksCumulative_createAckLoop_iff (transmitted : List Segment) (index : ℕ)
    (s : NetworkQueueFastAck) (qseq : List Segment) :
    AcksCumulative s.recvIP transmitted (createAckLoop index s qseq).acks ↔
      AcksCumulative s.recvIP transmitted s.acks ∧
        LoopInSequence transmitted index s qseq := by
  induction qseq generalizing index s with
  | nil => simp [createAckLoop, LoopInSequence]
  | cons pktToAck qseq ih =>
      unfold createAckLoop LoopInSequence
      split_ifs with hindex
      · have hrest := ih (index + 1) (s.examine pktToAck)
        rw [recvIP_examine] at hrest
        rw [hrest, acksCumulative_examine_iff, and_assoc]
        simp [hindex]
      · simp [hindex]

/-- With the loop goes one more event on the calendar. -/
theorem ackAndSchedule_frame (s : NetworkQueueFastAck) :
    ∃ lastAckId lastAckNumber sndTimeHistory sndLengthHistory qseq acks, s.ackAndSchedule =
      { s with
        lastAckId, lastAckNumber, sndTimeHistory, sndLengthHistory, qseq, acks
        pendingChecks := s.pendingChecks + 1 } := by
  unfold ackAndSchedule
  split_ifs
  · obtain ⟨_, _, _, _, _, _, hloop⟩ := createAckLoop_frame 0 s s.qseq
    rw [createAckPkt, hloop]
    exact ⟨_, _, _, _, _, _, rfl⟩
  · exact ⟨_, _, _, _, _, _, rfl⟩

theorem recvIP_ackAndSchedule (s : NetworkQueueFastAck) :
    s.ackAndSchedule.recvIP = s.recvIP := by
  obtain ⟨_, _, _, _, _, _, hack⟩ := ackAndSchedule_frame s
  rw [hack]

theorem acksCumulative_ackAndSchedule_iff (transmitted : List Segment)
    (s : NetworkQueueFastAck) :
    AcksCumulative s.recvIP transmitted s.ackAndSchedule.acks ↔
      AcksCumulative s.recvIP transmitted s.acks ∧ s.LoopInSequence transmitted 0 s.qseq := by
  rw [← acksCumulative_createAckLoop_iff]
  unfold ackAndSchedule
  split_ifs with hempty
  · rfl
  · have hnil : s.qseq = [] := by simpa using hempty
    simp [hnil, createAckLoop]

/-- `CheckAck` takes its event off the calendar and puts one there, or two in any mode but 0. -/
theorem checkAck_frame (packetList : List Segment) (s : NetworkQueueFastAck) :
    ∃ lastAckId lastAckNumber sndTimeHistory sndLengthHistory qseq acks,
      s.checkAck packetList =
        { s with
          lastAckId, lastAckNumber, sndTimeHistory, sndLengthHistory, qseq, acks
          pendingChecks := s.pendingChecks - 1 + if s.mode = 0 then 1 else 2 } := by
  have hmode : (s.collect packetList).mode = s.mode := rfl
  obtain ⟨_, _, _, _, _, _, hfirst⟩ := ackAndSchedule_frame (s.collect packetList)
  rw [checkAck, hmode]
  split_ifs
  · rw [hfirst]
    exact ⟨_, _, _, _, _, _, rfl⟩
  · obtain ⟨_, _, _, _, _, _, hsecond⟩ :=
      ackAndSchedule_frame (s.collect packetList).ackAndSchedule
    rw [hsecond, hfirst]
    exact ⟨_, _, _, _, _, _, rfl⟩

theorem recvIP_checkAck (packetList : List Segment) (s : NetworkQueueFastAck) :
    (s.checkAck packetList).recvIP = s.recvIP := by
  obtain ⟨_, _, _, _, _, _, hcheck⟩ := checkAck_frame packetList s
  rw [hcheck]

/-- `CheckAck` keeps the acknowledgements cumulative exactly if all it answers is in sequence. -/
theorem acksCumulative_checkAck_iff (transmitted packetList : List Segment)
    (s : NetworkQueueFastAck) :
    AcksCumulative s.recvIP transmitted (s.checkAck packetList).acks ↔
      AcksCumulative s.recvIP transmitted s.acks ∧
        s.ChecksInSequence transmitted packetList := by
  have hfirst := acksCumulative_ackAndSchedule_iff transmitted (s.collect packetList)
  have hsecond := acksCumulative_ackAndSchedule_iff transmitted
    (s.collect packetList).ackAndSchedule
  rw [recvIP_ackAndSchedule] at hsecond
  simp only [checkAck, ChecksInSequence]
  split_ifs with hmode
  · simpa [hmode] using hfirst
  · rw [← and_assoc]
    simpa [hmode] using hsecond.trans (and_congr_left' hfirst)

/-! ## The other handlers -/

theorem pendingChecks_checkAck_pos (packetList : List Segment) (s : NetworkQueueFastAck) :
    0 < (s.checkAck packetList).pendingChecks := by
  obtain ⟨_, _, _, _, _, _, hcheck⟩ := checkAck_frame packetList s
  rw [hcheck]
  dsimp only
  split_ifs <;> omega

/-- A segment changes what is remembered of the stream, and the cache. -/
theorem onRecvRcvdev_frame (now : Time) (packet : Segment) (s : NetworkQueueFastAck) :
    ∃ sndTimeHistory sndLengthHistory highestSeq expAckNumber cache,
      s.onRecvRcvdev now packet =
        { s with sndTimeHistory, sndLengthHistory, highestSeq, expAckNumber, cache } := by
  unfold onRecvRcvdev
  split_ifs <;> exact ⟨_, _, _, _, _, rfl⟩

theorem retransmit_frame (seq : UInt32) (s : NetworkQueueFastAck) :
    ∃ cache retransmitted, s.retransmit seq = { s with cache, retransmitted } := by
  unfold retransmit
  split <;> exact ⟨_, _, rfl⟩

theorem trimCache_frame (s : NetworkQueueFastAck) :
    ∃ cache, s.trimCache = { s with cache } := by
  unfold trimCache
  split <;> exact ⟨_, rfl⟩

/-- A packet of the client changes what is known of its acknowledgements, the cache, and what is
sent on. -/
theorem onRecvSnddev_frame (packet : ClientPacket) (s : NetworkQueueFastAck) :
    ∃ rxWinSize lastRcvAck dupNumber cache forwarded retransmitted, s.onRecvSnddev packet =
      { s with rxWinSize, lastRcvAck, dupNumber, cache, forwarded, retransmitted } := by
  simp only [onRecvSnddev]
  split_ifs
  · obtain ⟨_, _, hretransmit⟩ := retransmit_frame packet.ackNumber
      { s with rxWinSize := packet.windowSize, dupNumber := s.dupNumber + 1 }
    rw [hretransmit]
    exact ⟨_, _, _, _, _, _, rfl⟩
  · exact ⟨_, _, _, _, _, _, rfl⟩
  · obtain ⟨_, htrim⟩ := trimCache_frame
      { s with rxWinSize := packet.windowSize, dupNumber := 1 }
    rw [htrim]
    exact ⟨_, _, _, _, _, _, rfl⟩
  all_goals exact ⟨_, _, _, _, _, _, rfl⟩

end NetworkQueueFastAck

/-! ## Runs -/

namespace FastAckLink

/-- The acknowledgements sent so far are cumulative. -/
def Cumulative (s : FastAckLink) : Prop :=
  AcksCumulative s.queue.recvIP s.transmitted s.queue.acks

/-- The condition on one handler. -/
def InSequence (s : FastAckLink) : Event → Prop
  | .checkAck => s.queue.ChecksInSequence s.transmitted s.packetList
  | _ => True

def init (queue : NetworkQueueFastAck) : FastAckLink := ⟨queue, [], []⟩

theorem pendingChecks_pos_step {s s' : FastAckLink} {e : Event}
    (hs : 0 < s.queue.pendingChecks) (h : step s e = some s') : 0 < s'.queue.pendingChecks := by
  cases e with
  | recvRcvdev now packet =>
      obtain rfl := Option.some.inj h
      obtain ⟨_, _, _, _, _, hrecv⟩ :=
        NetworkQueueFastAck.onRecvRcvdev_frame now packet s.queue
      rwa [hrecv]
  | transmit packet =>
      obtain rfl := Option.some.inj h
      exact hs
  | checkAck =>
      simp only [step, hs.ne', if_false, Option.some.injEq] at h
      obtain rfl := h
      exact NetworkQueueFastAck.pendingChecks_checkAck_pos _ _
  | recvSnddev packet =>
      obtain rfl := Option.some.inj h
      obtain ⟨_, _, _, _, _, _, hrecv⟩ := NetworkQueueFastAck.onRecvSnddev_frame packet s.queue
      rwa [hrecv]

/-- A handler keeps the acknowledgements cumulative exactly if what it answers is in sequence. -/
theorem cumulative_step_iff {s s' : FastAckLink} {e : Event} (hs : s.Cumulative)
    (h : step s e = some s') : s'.Cumulative ↔ s.InSequence e := by
  cases e with
  | recvRcvdev now packet =>
      obtain rfl := Option.some.inj h
      obtain ⟨_, _, _, _, _, hrecv⟩ :=
        NetworkQueueFastAck.onRecvRcvdev_frame now packet s.queue
      simpa only [Cumulative, InSequence, hrecv, iff_true] using hs
  | transmit packet =>
      obtain rfl := Option.some.inj h
      exact iff_of_true (hs.transmit [packet]) trivial
  | checkAck =>
      simp only [step] at h
      split_ifs at h
      obtain rfl := Option.some.inj h
      have hcheck := NetworkQueueFastAck.acksCumulative_checkAck_iff s.transmitted s.packetList
        s.queue
      simpa only [Cumulative, InSequence, NetworkQueueFastAck.recvIP_checkAck] using
        hcheck.trans (and_iff_right hs)
  | recvSnddev packet =>
      obtain rfl := Option.some.inj h
      obtain ⟨_, _, _, _, _, _, hrecv⟩ := NetworkQueueFastAck.onRecvSnddev_frame packet s.queue
      simpa only [Cumulative, InSequence, hrecv, iff_true] using hs

/-- The second thousand bytes of a stream to client 2. -/
private def secondSegment : Segment := ⟨2, 6, 1020, 16, 20, 1001⟩

end FastAckLink

end Zhuge
