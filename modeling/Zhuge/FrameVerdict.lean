-- SUMMARY: The sender counts frames as finished or timed out by a deadline that the constructor left unset.
import Zhuge.VideoDecoder
import Zhuge.WireTrip

/-!
# Finished and timed-out frames

For a frame acknowledgement the sender compares against `m_delay_ddl`. The constructor
initialises that member from the member `delay_ddl`, which is declared behind it and is
assigned in the body only, so `m_delay_ddl` holds what the memory held before.
-/

namespace Zhuge

/-- The members of `PacketSenderUdp` that frame acknowledgements are judged with, in the
order of their declarations. -/
structure FrameCounts where
  mDelayDdl : Time
  finishedFrameCnt : UInt64
  timeoutFrameCnt : UInt64
  excludeTenFinishedFrameCnt : UInt64
  delayDdl : Time

/-- The encode time that the decoder reports for a frame after these packets, each
received over the wire. -/
def reportedEncodeTime (pkt : DataPacket) (others : List DataPacket) : Time :=
  (others.foldl (fun frame p => frame.addPacket p.received)
    (VideoFrame.new pkt.received)).encodeTime

/-- The frame acknowledgement as the sender receives it. -/
def frameAckReceived (frameId : UInt32) (encodeTime : Time) : FrameAckPacket :=
  .ofHeader (FrameAckPacketHeader.quantised ⟨frameId, encodeTime⟩)

/-- A frame acknowledgement: when it arrives, and the data packets of its frame, which all
carry the time at which the frame was encoded. -/
structure FrameAckArrival where
  now : Time
  encodeTime : Time
  pkt : DataPacket
  others : List DataPacket
  encoded : 0 ≤ encodeTime ∧ encodeTime ≤ now
  sameFrame : ∀ p ∈ pkt :: others, p.frameId = pkt.frameId ∧ p.encodeTime = encodeTime

def FrameAckArrival.packet (a : FrameAckArrival) : FrameAckPacket :=
  frameAckReceived a.pkt.frameId (reportedEncodeTime a.pkt a.others)

namespace FrameCounts

/-- The constructor, on memory that holds `memory` where `delay_ddl` will be. -/
def new (memory delayDdl : Time) : FrameCounts where
  -- copied from `delay_ddl` before that member exists
  mDelayDdl := memory
  finishedFrameCnt := 0
  timeoutFrameCnt := 0
  excludeTenFinishedFrameCnt := 0
  delayDdl := delayDdl

/-- The branch for `FRAME_ACK_PKT` of `OnSocketRecv_sender`. -/
def onFrameAck (now : Time) (pkt : FrameAckPacket) (s : FrameCounts) : FrameCounts :=
  if now - pkt.frameEncodeTime ≤ s.mDelayDdl + Time.milliSeconds 1 then
    { s with
      finishedFrameCnt := s.finishedFrameCnt + 1
      excludeTenFinishedFrameCnt :=
        if pkt.frameId ≥ 10 then s.excludeTenFinishedFrameCnt + 1
        else s.excludeTenFinishedFrameCnt }
  else { s with timeoutFrameCnt := s.timeoutFrameCnt + 1 }

def receive (s : FrameCounts) (a : FrameAckArrival) : FrameCounts := s.onFrameAck a.now a.packet

/-- One more finished frame, and no other change to the two counts. -/
def Finished (s s' : FrameCounts) : Prop :=
  s'.finishedFrameCnt = s.finishedFrameCnt + 1 ∧ s'.timeoutFrameCnt = s.timeoutFrameCnt

/-- One more frame that timed out. -/
def TimedOut (s s' : FrameCounts) : Prop :=
  s'.finishedFrameCnt = s.finishedFrameCnt ∧ s'.timeoutFrameCnt = s.timeoutFrameCnt + 1

/-- The frame is judged by the deadline `ddl`, up to the millisecond that the wire drops. -/
structure Judged (ddl : Time) (a : FrameAckArrival) (s s' : FrameCounts) : Prop where
  inTime : a.now - a.encodeTime ≤ ddl → Finished s s'
  late : a.now - a.encodeTime > ddl + Time.milliSeconds 1 → TimedOut s s'
  one : Finished s s' ∧ ¬ TimedOut s s' ∨ TimedOut s s' ∧ ¬ Finished s s'
  excludeTen : s'.excludeTenFinishedFrameCnt = s.excludeTenFinishedFrameCnt +
    if a.pkt.frameId ≥ 10 ∧ s'.finishedFrameCnt ≠ s.finishedFrameCnt then 1 else 0

/-! ## The time on its way -/

theorem encodeTime_foldl_addPacket {time : Time} {others : List DataPacket} {frame : VideoFrame}
    (hframe : frame.encodeTime = time)
    (hothers : ∀ p ∈ others, p.encodeTime.truncMilli = time) :
    (others.foldl (fun frame p => frame.addPacket p.received) frame).encodeTime = time := by
  induction others generalizing frame with
  | nil => exact hframe
  | cons p others ih =>
    rw [List.foldl_cons]
    apply ih
    · have hp : p.received.encodeTime = time := hothers p List.mem_cons_self
      simp only [VideoFrame.addPacket, hp, hframe, ite_self]
    · exact fun q hq => hothers q (List.mem_cons_of_mem p hq)

theorem truncMicro_truncMilli (t : Time) : t.truncMilli.truncMicro = t.truncMilli := by
  have hmicros : t.truncMilli = t.getMilliSeconds * 1000 * 1000 := by
    rw [Time.truncMilli, Time.milliSeconds, mul_assoc]
    rfl
  rw [hmicros, Time.truncMicro, Time.microSeconds, Time.getMicroSeconds,
    Int.mul_tdiv_cancel _ (by decide)]

/-- The decoder takes the least of equal times, and the second codec drops nothing more. -/
theorem packet_frameEncodeTime (a : FrameAckArrival) :
    a.packet.frameEncodeTime = a.encodeTime.truncMilli := by
  have htime : ∀ p ∈ a.pkt :: a.others, p.encodeTime.truncMilli = a.encodeTime.truncMilli :=
    fun p hp => by rw [(a.sameFrame p hp).2]
  have hpkt : a.pkt.received.encodeTime = a.encodeTime.truncMilli := htime _ List.mem_cons_self
  have hreported : reportedEncodeTime a.pkt a.others = a.encodeTime.truncMilli := by
    apply encodeTime_foldl_addPacket
    · simp only [VideoFrame.new, VideoFrame.addPacket, ite_self, hpkt]
    · exact fun p hp => htime p (List.mem_cons_of_mem _ hp)
  change (reportedEncodeTime a.pkt a.others).truncMicro = _
  rw [hreported, truncMicro_truncMilli]

theorem truncMilli_bounds {t : Time} (h : 0 ≤ t) :
    t.truncMilli ≤ t ∧ t < t.truncMilli + Time.milliSeconds 1 := by
  have hdiv : ∀ n : Int, n / 1000000 * 1000000 ≤ n ∧ n < n / 1000000 * 1000000 + 1 * 1000000 :=
    fun n => by omega
  simp only [Time.truncMilli, Time.milliSeconds, Time.getMilliSeconds]
  rw [Int.tdiv_eq_ediv_of_nonneg h]
  exact hdiv t

/-! ## The verdict -/

theorem receive_cases (s : FrameCounts) (a : FrameAckArrival) :
    (a.now - a.encodeTime.truncMilli ≤ s.mDelayDdl + Time.milliSeconds 1 ∧
      Finished s (s.receive a)) ∨
    (s.mDelayDdl + Time.milliSeconds 1 < a.now - a.encodeTime.truncMilli ∧
      TimedOut s (s.receive a)) := by
  unfold receive onFrameAck
  rw [packet_frameEncodeTime]
  split
  case isTrue h => exact .inl ⟨h, rfl, rfl⟩
  case isFalse h => exact .inr ⟨not_le.mp h, rfl, rfl⟩

theorem not_finished_of_timedOut {s s' : FrameCounts} (h : TimedOut s s') : ¬ Finished s s' :=
  fun hfinished => by
    have hcount := hfinished.1.symm.trans h.1
    simp at hcount

theorem receive_excludeTen (s : FrameCounts) (a : FrameAckArrival) :
    (s.receive a).excludeTenFinishedFrameCnt = s.excludeTenFinishedFrameCnt +
      if a.pkt.frameId ≥ 10 ∧ (s.receive a).finishedFrameCnt ≠ s.finishedFrameCnt
      then 1 else 0 := by
  have hframe : a.packet.frameId = a.pkt.frameId := rfl
  have hnew : s.finishedFrameCnt + 1 ≠ s.finishedFrameCnt := by simp
  unfold receive onFrameAck
  rw [hframe]
  by_cases hin : a.now - a.packet.frameEncodeTime ≤ s.mDelayDdl + Time.milliSeconds 1
  · by_cases hten : a.pkt.frameId ≥ 10
    · simp [hin, hten, hnew]
    · simp [hin, hten]
  · simp [hin]

/-- One frame is judged right exactly when the two deadlines tell the same of it. -/
theorem judged_receive_iff {s : FrameCounts} {a : FrameAckArrival} (ddl : Time) :
    Judged ddl a s (s.receive a) ↔
      (a.now - a.encodeTime ≤ ddl →
        a.now - a.encodeTime.truncMilli ≤ s.mDelayDdl + Time.milliSeconds 1) ∧
      (a.now - a.encodeTime > ddl + Time.milliSeconds 1 →
        s.mDelayDdl + Time.milliSeconds 1 < a.now - a.encodeTime.truncMilli) := by
  rcases receive_cases s a with ⟨hle, hfinished⟩ | ⟨hlt, htimedOut⟩
  · have hnot : ¬ TimedOut s (s.receive a) := fun h => not_finished_of_timedOut h hfinished
    constructor
    · intro h
      exact ⟨fun _ => hle, fun hlate => absurd (h.late hlate) hnot⟩
    · rintro ⟨-, hlate⟩
      exact {
        inTime := fun _ => hfinished
        late := fun h => absurd (hlate h) (not_lt.mpr hle)
        one := .inl ⟨hfinished, hnot⟩
        excludeTen := receive_excludeTen s a }
  · have hnot : ¬ Finished s (s.receive a) := not_finished_of_timedOut htimedOut
    constructor
    · intro h
      exact ⟨fun hin => absurd (h.inTime hin) hnot, fun _ => hlt⟩
    · rintro ⟨hin, -⟩
      exact {
        inTime := fun h => absurd (hin h) (not_le.mpr hlt)
        late := fun _ => htimedOut
        one := .inr ⟨htimedOut, hnot⟩
        excludeTen := receive_excludeTen s a }

theorem mDelayDdl_receive (s : FrameCounts) (a : FrameAckArrival) :
    (s.receive a).mDelayDdl = s.mDelayDdl := by
  unfold receive onFrameAck
  split <;> rfl

theorem mDelayDdl_foldl (earlier : List FrameAckArrival) (s : FrameCounts) :
    (earlier.foldl receive s).mDelayDdl = s.mDelayDdl := by
  induction earlier generalizing s with
  | nil => rfl
  | cons a earlier ih => rw [List.foldl_cons, ih, mDelayDdl_receive]

end FrameCounts

/-- A frame of one packet. -/
def FrameAckArrival.single (now encodeTime : Time) (h : 0 ≤ encodeTime ∧ encodeTime ≤ now) :
    FrameAckArrival where
  now := now
  encodeTime := encodeTime
  pkt := { DataPacket.new 0 1 1 0 with encodeTime := encodeTime }
  others := []
  encoded := h
  sameFrame := by simp [DataPacket.new]

namespace FrameCounts

/-- What two deadlines a nanosecond apart say of a time that is cut to milliseconds. -/
theorem same_verdict {memory ddl now e cut : Int} (hlow : 0 ≤ ddl → ddl - 1 ≤ memory)
    (hhigh : memory ≤ max ddl (-1000000 - 1)) (hcut : cut ≤ e ∧ e < cut + 1000000)
    (hnow : e ≤ now) :
    (now - e ≤ ddl → now - cut ≤ memory + 1000000) ∧
      (now - e > ddl + 1000000 → memory + 1000000 < now - cut) := by
  constructor
  · intro hin
    have := hlow (by omega)
    omega
  · intro hlate
    omega

/-- Two frames tell that the deadlines are a nanosecond apart at most. -/
theorem bounds_of_judged {memory ddl : Int}
    (h : ∀ a, Judged ddl a (new memory ddl) ((new memory ddl).receive a)) :
    (0 ≤ ddl → ddl - 1 ≤ memory) ∧ memory ≤ max ddl (-1000000 - 1) := by
  have hverdict := fun a => (judged_receive_iff ddl).mp (h a)
  constructor
  · intro hnonneg
    -- encoded just before a millisecond is over, acknowledged at the deadline
    have hnow : 999999 ≤ ddl + 999999 := by omega
    have hin : ddl + 999999 - 0 ≤ memory + 1000000 :=
      (hverdict (.single (ddl + 999999) 999999 ⟨by decide, hnow⟩)).1
        (by simp [FrameAckArrival.single])
    omega
  · -- encoded with a millisecond, acknowledged as soon as that counts as late
    have hlate : max 0 (ddl + 1000001) - 0 > ddl + 1000000 := by omega
    have hout : memory + 1000000 < max 0 (ddl + 1000001) - 0 :=
      (hverdict (.single (max 0 (ddl + 1000001)) 0 ⟨le_refl _, le_max_left _ _⟩)).2 hlate
    omega

/-- The sender judges all frames by the configured deadline exactly when the memory held
that deadline already, or a nanosecond less. -/
theorem judged_iff (memory delayDdl : Time) :
    (∀ (earlier : List FrameAckArrival) (a : FrameAckArrival),
      Judged delayDdl a (earlier.foldl receive (new memory delayDdl))
        ((earlier.foldl receive (new memory delayDdl)).receive a)) ↔
      (0 ≤ delayDdl → delayDdl - 1 ≤ memory) ∧
      memory ≤ max delayDdl (-Time.milliSeconds 1 - 1) := by
  constructor
  · intro h
    exact bounds_of_judged fun a => h [] a
  · rintro ⟨hlow, hhigh⟩ earlier a
    rw [judged_receive_iff, mDelayDdl_foldl]
    exact same_verdict hlow hhigh (truncMilli_bounds a.encoded.1) a.encoded.2

/-- A deadline of 100 ms and memory that is zero: a frame acknowledged 50 ms after it was
encoded times out. -/
theorem not_judged_zero_memory :
    ¬ ∀ (memory delayDdl : Time) (earlier : List FrameAckArrival) (a : FrameAckArrival),
      Judged delayDdl a (earlier.foldl receive (new memory delayDdl))
        ((earlier.foldl receive (new memory delayDdl)).receive a) := by
  intro h
  have hin := (h 0 (Time.milliSeconds 100) [] (.single (Time.milliSeconds 50) 0 (by decide))).inTime
    (by decide)
  exact absurd hin.1 (by decide)

end FrameCounts

end Zhuge
