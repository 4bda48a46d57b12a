-- SUMMARY: The encoder in front of the service: whatever rates are asked, the frames that come out are acknowledged in full.
import Zhuge.AckedFrames
import Zhuge.EncoderLoop

/-!
# Streaming

The frames of the service are those of the encoder. They always fit, so what the client
acknowledges is in full without a condition on the frames.
-/

namespace Zhuge

/-- `GameServer::SendFrame` runs. -/
def Service.Event.sendsFrame : Service.Event → Bool
  | .sendFrame .. => true
  | _ => false

structure Streaming where
  loop : EncoderLoop
  service : Service

namespace Streaming

inductive Event where
  | encodeFrame (now : Time) (policy : FECPolicy) (statistic : NetStat)
  | updateBitrate (now : Time) (sendingRateBps : UInt32)
  /-- What the sender and the client do, other than to send a frame. -/
  | service (event : Service.Event)

def Event.now : Event → Time
  | .encodeFrame now .. => now
  | .updateBitrate now _ => now
  | .service event => event.now

/-- A server with a frame every `interval` milliseconds, and its client. -/
def start (interval : UInt16) (now memory senderDdl delayDdl : Time) (fps : UInt16) :
    Option Streaming :=
  (EncoderLoop.start interval now).map fun loop => ⟨loop, .new memory senderDdl delayDdl fps⟩

/-- One step. `none`: one of the parts does not return, or the simulator runs another event. -/
def step (network : Network) (s : Streaming) : Event → Option Streaming
  | .encodeFrame now policy statistic => do
    let loop ← s.loop.step (.encodeFrame now)
    let size ← s.loop.encoder.frameSize
    let service ← s.service.step network (.sendFrame now policy statistic size)
    some ⟨loop, service⟩
  | .updateBitrate now sendingRateBps =>
    (s.loop.step (.updateBitrate now sendingRateBps)).map fun loop => { s with loop }
  | .service event =>
    if event.sendsFrame then none
    else (s.service.step network event).map fun service => { s with service }

theorem fits_and_sizes {s s' : Service} {e : Service.Event} (hframe : ¬ e.sendsFrame)
    (h : s.step Network.ideal e = some s') : e.Fits ∧ s'.sizes = s.sizes := by
  cases e with
  | sendFrame now policy statistic size => exact absurd rfl hframe
  | sendPacket now =>
      cases h
      exact ⟨trivial, rfl⟩
  | checkRetransmission now policy statistic iteration =>
      obtain ⟨sender, -, rfl⟩ := Option.map_eq_some_iff.mp h
      exact ⟨trivial, rfl⟩
  | deliverPacket now pick sent =>
      simp only [Service.step] at h
      split at h
      · cases h
        exact ⟨trivial, rfl⟩
      · obtain ⟨receiver, -, rfl⟩ := Option.map_eq_some_iff.mp h
        exact ⟨trivial, rfl⟩
  | deliverAck now ack =>
      simp only [Service.step] at h
      split at h <;> cases h <;> exact ⟨trivial, rfl⟩
  | deliverFrameAck now ack =>
      simp only [Service.step] at h
      split at h <;> cases h <;> exact ⟨trivial, rfl⟩

/-- The encoder follows the rate, and the frames of the service are its frames. -/
structure Linked (delayDdl : Time) (fps : UInt16) (s : Streaming) : Prop where
  tuned : s.loop.Tuned
  sound : s.service.Sound
  framed : s.service.Framed delayDdl fps
  sizes : s.service.sizes = s.loop.frames.map (·.size)

namespace Linked

variable {delayDdl : Time} {fps : UInt16} {s s' : Streaming}

theorem start {interval : UInt16} {now memory senderDdl : Time}
    (h : start interval now memory senderDdl delayDdl fps = some s) : s.Linked delayDdl fps := by
  obtain ⟨loop, hloop, rfl⟩ := Option.map_eq_some_iff.mp h
  refine ⟨.start hloop, .new memory senderDdl delayDdl fps, .new memory senderDdl, ?_⟩
  exact (congrArg (List.map (·.size)) (EncoderLoop.frames_start hloop)).symm

theorem encodeFrame (h : s.Linked delayDdl fps) {now : Time} (hnow : now.InRange)
    {policy : FECPolicy} {statistic : NetStat} {size : UInt32}
    (hsize : s.loop.encoder.frameSize = some size) {service : Service}
    (hstep : s.service.step Network.ideal (.sendFrame now policy statistic size) = some service) :
    Linked delayDdl fps ⟨s.loop.encodeFrame size, service⟩ := by
  have hfits : size.toNat ≤ 65535 * 1406 := by
    rcases h.tuned.frameSize hsize with ⟨-, rfl⟩ | ⟨rate, -, hfollows⟩
    · exact Nat.zero_le _
    · exact hfollows.fits.2.trans (by decide)
  refine ⟨h.tuned.encodeFrame hsize,
    h.sound.step (e := .sendFrame now policy statistic size) hnow hstep,
    h.framed.step h.sound (e := .sendFrame now policy statistic size) hnow hfits hstep, ?_⟩
  obtain ⟨server, -, rfl⟩ := Option.map_eq_some_iff.mp hstep
  simp only [EncoderLoop.encodeFrame, h.sizes]
  split
  · rfl
  · rw [List.map_append]
    rfl

/-- A step of the service that sends no frame. -/
theorem service (h : s.Linked delayDdl fps) {e : Service.Event} (hnow : e.now.InRange)
    (hframe : ¬ e.sendsFrame) {service : Service}
    (hstep : s.service.step Network.ideal e = some service) :
    Linked delayDdl fps { s with service } := by
  obtain ⟨hfits, hsizes⟩ := fits_and_sizes hframe hstep
  exact ⟨h.tuned, h.sound.step hnow hstep, h.framed.step h.sound hnow hfits hstep,
    hsizes.trans h.sizes⟩

theorem step (h : s.Linked delayDdl fps) {e : Event} (hnow : e.now.InRange)
    (hstep : s.step Network.ideal e = some s') : s'.Linked delayDdl fps := by
  cases e with
  | encodeFrame now policy statistic =>
      obtain ⟨loop, hloop, hrest⟩ := Option.bind_eq_some_iff.mp hstep
      obtain ⟨size, hsize, hrest⟩ := Option.bind_eq_some_iff.mp hrest
      obtain ⟨service, hservice, hrest⟩ := Option.bind_eq_some_iff.mp hrest
      cases hrest
      obtain ⟨size', hsize', rfl⟩ := EncoderLoop.step_encodeFrame hloop
      cases hsize.symm.trans hsize'
      exact h.encodeFrame hnow hsize hservice
  | updateBitrate now sendingRateBps =>
      obtain ⟨loop, hloop, rfl⟩ := Option.map_eq_some_iff.mp hstep
      refine ⟨h.tuned.step hloop, h.sound, h.framed, h.sizes.trans ?_⟩
      obtain ⟨-, hsome⟩ := Option.ite_none_right_eq_some.mp hloop
      cases hsome
      rfl
  | service event =>
      obtain ⟨hframe, hsome⟩ := Option.ite_none_left_eq_some.mp hstep
      obtain ⟨service, hservice, rfl⟩ := Option.map_eq_some_iff.mp hsome
      exact h.service hnow hframe hservice

end Linked

/-- A step over bytes is one over objects. -/
theorem step_overBytes (P : Type) [PacketBuffer P] [LawfulPacketBuffer P] {s : Streaming}
    (h : s.service.Sound) (e : Event) :
    s.step (Network.overBytes P) e = s.step Network.ideal e := by
  cases e with
  | encodeFrame now policy statistic => rfl
  | updateBitrate now sendingRateBps => rfl
  | service event => simp only [step, h.step_overBytes P event]

/-- In every run, over bytes and whatever rates are asked, the client acknowledges frames of the
encoder in their order, each when it has decoded all its packets. -/
theorem streams_in_full (P : Type) [PacketBuffer P] [LawfulPacketBuffer P] {interval : UInt16}
    {now memory senderDdl delayDdl : Time} {fps : UInt16} {events : List Event}
    {first s : Streaming} (hclock : ∀ e ∈ events, e.now.InRange)
    (hstart : start interval now memory senderDdl delayDdl fps = some first)
    (hrun : Run.exec (step (Network.overBytes P)) first events = some s)
    (hcount : s.loop.frames.length < 2 ^ 32) :
    s.service.sizes = s.loop.frames.map (·.size) ∧ s.service.AckedInFull := by
  have h : s.Linked delayDdl fps := by
    refine Run.exec_invariant_mem (fun t t' e he ht hstep => ?_) (Linked.start hstart) hrun
    rw [step_overBytes P ht.sound] at hstep
    exact ht.step (hclock e he) hstep
  refine ⟨h.sizes, h.framed.ackedInFull h.sound ?_⟩
  rwa [h.sizes, List.length_map]

/-- The encoder makes two frames, whose four packets arrive out of order. -/
def twoFramesEvents : List Event :=
  [.encodeFrame 0 PacketSenderUdp.singlePolicy PacketSenderUdp.quietStat,
    .encodeFrame (.microSeconds 16129) PacketSenderUdp.singlePolicy PacketSenderUdp.quietStat,
    .encodeFrame (.microSeconds 32258) PacketSenderUdp.singlePolicy PacketSenderUdp.quietStat,
    .updateBitrate (.milliSeconds 40) 1000000,
    .encodeFrame (.microSeconds 48387) PacketSenderUdp.singlePolicy PacketSenderUdp.quietStat,
    .encodeFrame (.microSeconds 64516) PacketSenderUdp.singlePolicy PacketSenderUdp.quietStat]
    ++ List.replicate 4 (.service (.sendPacket (.microSeconds 64516)))
    ++ [1, 0, 3, 2].map fun sent => .service (.deliverPacket (.milliSeconds 70) 0 sent)

theorem streams_in_full_twoFrames : ∃ first s,
    start 16 0 0 0 (.milliSeconds 100) 60 = some first ∧
    Run.exec (step (Network.overBytes (List UInt8))) first twoFramesEvents = some s ∧
    s.service.receiver.decoder.ackedIds = [1] ∧
    s.service.sizes = s.loop.frames.map (·.size) ∧ s.service.AckedInFull := by
  obtain ⟨first, hstart, s, hrun, hids, hcount⟩ : ∃ first,
      start 16 0 0 0 (.milliSeconds 100) 60 = some first ∧ ∃ s,
      Run.exec (step (Network.overBytes (List UInt8))) first twoFramesEvents = some s ∧
      s.service.receiver.decoder.ackedIds = [1] ∧ s.loop.frames.length < 2 ^ 32 := by
    decide +kernel
  exact ⟨first, s, hstart, hrun, hids,
    streams_in_full (List UInt8) (by decide) hstart hrun hcount⟩

end Streaming

end Zhuge
