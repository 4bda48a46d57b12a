-- SUMMARY: The whole service over a network of bytes: server, client and what each does with a packet that arrives.
import Zhuge.FrameVerdict
import Zhuge.GenuineDelivery
import Zhuge.EncodeTimes
import Zhuge.PerfectPath

/-!
# The service

The game server cuts frames into packets, the client puts them together again, and both answer
over the network. Whatever was sent may arrive at any time, any number of times, or never. A
network is a function on packets: over bytes a packet is serialised, and read again.
-/

namespace Zhuge

/-- What arrives of a packet; `none` where the reader has no instance for it. -/
abbrev Network := NetworkPacket → Option NetworkPacket

/-- Packets travel as bytes. -/
def Network.overBytes (P : Type) [PacketBuffer P] : Network := fun pkt =>
  NetworkPacket.toInstance (pkt.toNetPacket : P)

/-- Packets travel as objects, and lose what no header carries. -/
def Network.ideal : Network := fun pkt => some pkt.received

structure Service where
  server : GameServer
  counts : FrameCounts
  receiver : PacketReceiverUdp
  /-- The sizes of the frames sent so far. -/
  sizes : List UInt32

/-- The frame acknowledgements that the decoder asked for. -/
def VideoDecoder.frameAcks (d : VideoDecoder) : List FrameAckPacket :=
  d.log.filterMap fun
    | .replyFrameAck frameId encodeTime => some ⟨.init, frameId, encodeTime⟩
    | _ => none

namespace Service

inductive Event where
  | sendFrame (now : Time) (policy : FECPolicy) (statistic : NetStat) (dataSize : UInt32)
  | sendPacket (now : Time)
  | checkRetransmission (now : Time) (policy : FECPolicy) (statistic : NetStat)
      (iteration : PacketSenderUdp.Iteration)
  /-- The packet sent as number `sent` arrives at the client. -/
  | deliverPacket (now : Time) (pick sent : ℕ)
  /-- The acknowledgement sent as number `ack` arrives at the server. -/
  | deliverAck (now : Time) (ack : ℕ)
  /-- The frame acknowledgement sent as number `ack` arrives at the server. -/
  | deliverFrameAck (now : Time) (ack : ℕ)

def Event.now : Event → Time
  | .sendFrame now .. => now
  | .sendPacket now => now
  | .checkRetransmission now .. => now
  | .deliverPacket now .. => now
  | .deliverAck now _ => now
  | .deliverFrameAck now _ => now

/-- `memory` is what the sender's memory held before its constructor ran. -/
def new (memory senderDdl delayDdl : Time) (fps : UInt16) : Service where
  server := .new senderDdl
  counts := .new memory senderDdl
  receiver := .new delayDdl fps
  sizes := []

/-- `OnSocketRecv_receiver`, without the statistics of the network. -/
def onSocketRecvReceiver (now : Time) (pick : ℕ) (pkt : NetworkPacket) (s : Service) :
    Option Service :=
  match pkt with
  | .video pkt =>
    (s.receiver.receiveUdpPacket ⟨now, pick, pkt.setRcvTime now⟩).map fun receiver =>
      { s with receiver }
  | _ => some s

/-- `OnSocketRecv_sender`, without the statistics of the network. `none`: the assertion on the
type of the packet fails. -/
def onSocketRecvSender (now : Time) (pkt : NetworkPacket) (s : Service) : Option Service :=
  match pkt with
  | .ack pkt => some { s with server.sender := s.server.sender.rcvACKPacket pkt }
  | .frameAck pkt => some { s with counts := s.counts.onFrameAck now pkt }
  | .netState _ => some s
  | .video _ => none

/-- One step. `none`: one of the parties does not return. -/
def step (network : Network) (s : Service) : Event → Option Service
  | .sendFrame now policy statistic dataSize =>
    (s.server.sendFrame policy statistic now dataSize).map fun server => { s with
      server
      sizes := if dataSize = 0 then s.sizes else s.sizes ++ [dataSize] }
  | .sendPacket now => some { s with server.sender := s.server.sender.sendPacket now }
  | .checkRetransmission now policy statistic iteration =>
    (s.server.sender.checkRetransmission iteration policy statistic now).map fun sender =>
      { s with server.sender := sender }
  | .deliverPacket now pick sent =>
    match s.server.sender.sent[sent]? with
    | none => some s
    | some pkt => (network (.video pkt)).bind (s.onSocketRecvReceiver now pick)
  | .deliverAck now ack =>
    match s.receiver.acks[ack]? with
    | none => some s
    | some pkt => (network (.ack pkt)).bind (s.onSocketRecvSender now)
  | .deliverFrameAck now ack =>
    match s.receiver.decoder.frameAcks[ack]? with
    | none => some s
    | some pkt => (network (.frameAck pkt)).bind (s.onSocketRecvSender now)

/-! ## What every state keeps -/

/-- Both parties speak of the sender's packets only, at times that the wire can carry. -/
structure Sound (s : Service) : Prop where
  traced : ∃ frames, s.server.sender.Traced frames [] ∧ ∀ frame ∈ frames, Time.InRange frame.2
  honest : s.server.sender.Honest Time.InRange
  faithful : s.receiver.Faithful Time.InRange s.server.sender.names
  times : s.receiver.decoder.TimesMeet fun _ time => Time.InRange time

theorem Sound.new (memory senderDdl delayDdl : Time) (fps : UInt16) :
    (new memory senderDdl delayDdl fps).Sound where
  traced := ⟨[], .new senderDdl, List.forall_mem_nil _⟩
  honest := .new senderDdl
  faithful := .new delayDdl fps
  times := .new delayDdl fps

namespace Sound

variable {s s' : Service} {now : Time}

/-- A step of the sender that keeps the names of its packets, or adds some. -/
theorem ofSender (h : s.Sound) {sender : PacketSenderUdp} {server : GameServer}
    {sizes : List UInt32} (hserver : server.sender = sender)
    (htraced : ∃ frames, sender.Traced frames [] ∧ ∀ frame ∈ frames, Time.InRange frame.2)
    (hhonest : sender.Honest Time.InRange) (hnames : s.server.sender.names ⊆ sender.names) :
    Sound { s with server, sizes } := by
  subst hserver
  exact ⟨htraced, hhonest, h.faithful.mono hnames, h.times⟩

theorem sendFrame (h : s.Sound) (hnow : Time.InRange now) {policy : FECPolicy}
    {statistic : NetStat} {dataSize : UInt32} {server : GameServer} (sizes : List UInt32)
    (hrun : s.server.sendFrame policy statistic now dataSize = some server) :
    Sound { s with server, sizes } := by
  obtain ⟨frames, htraced, htimes⟩ := h.traced
  unfold GameServer.sendFrame at hrun
  split at hrun
  · cases hrun
    exact h.ofSender rfl h.traced h.honest (List.Subset.refl _)
  · obtain ⟨sender, hcreate, hrun⟩ := Option.bind_eq_some_iff.mp hrun
    cases hrun
    obtain ⟨hhonest, _, batches, _, -, -, hnames⟩ := h.honest.createFrame hnow hcreate
    refine h.ofSender rfl ⟨_, htraced.createFrame hcreate, ?_⟩ hhonest ?_
    · exact List.forall_mem_append.mpr ⟨htimes, List.forall_mem_singleton.mpr hnow⟩
    · rw [hnames]
      exact List.subset_append_left _ _

theorem inRange_truncMilli (t : Time) (h : t.InRange) : t.truncMilli.InRange :=
  h.tdiv_mul (by decide)

/-- What the server sent, the format can hold, and its packets vouch for. -/
theorem sent (h : s.Sound) {pkt : VideoPacket} (hpkt : pkt ∈ s.server.sender.sent) :
    (NetworkPacket.video pkt).Encodable ∧
      pkt.Vouched Time.InRange s.server.sender.names := by
  obtain ⟨frames, htraced, htimes⟩ := h.traced
  have hhonest := h.honest.sent pkt hpkt
  have hsource := htraced.sent pkt hpkt
  cases pkt with
  | data pkt =>
      have htime : pkt.encodeTime.InRange := htimes _ (htraced.sources _ hsource).2
      exact ⟨htime, htime, hhonest⟩
  | dupFec pkt => exact hhonest.elim
  | fec pkt => exact ⟨⟨hhonest.1, hhonest.2.length_le⟩, hhonest⟩

theorem acks (h : s.Sound) {ack : AckPacket} (hack : ack ∈ s.receiver.acks) :
    (NetworkPacket.ack ack).Encodable :=
  (h.faithful.acks ack hack).1.trans (by decide)

theorem frameAcks (h : s.Sound) {ack : FrameAckPacket} (hack : ack ∈ s.receiver.decoder.frameAcks) :
    (NetworkPacket.frameAck ack).Encodable := by
  obtain ⟨event, hevent, heq⟩ := List.mem_filterMap.mp hack
  cases event with
  | discard frameId => cases heq
  | decode frameId => cases heq
  | replyFrameAck frameId encodeTime =>
      cases heq
      exact h.times.acks frameId encodeTime hevent

theorem receive (h : s.Sound) {pkt : VideoPacket} (hpkt : pkt ∈ s.server.sender.sent) {pick : ℕ}
    {receiver : PacketReceiverUdp}
    (hrun : s.receiver.receiveUdpPacket ⟨now, pick, pkt.received.setRcvTime now⟩
      = some receiver) : Sound { s with receiver } := by
  have hfaithful := h.faithful.step ((h.sent hpkt).2.received inRange_truncMilli now) hrun
  refine ⟨h.traced, h.honest, hfaithful, ?_⟩
  obtain ⟨out, group, -, hdecode, hhanded, -⟩ := PacketReceiverUdp.receiveUdpPacket_output hrun
  refine h.times.decodeDataPacket (fun p hp => (hfaithful.handed p ?_).1) hdecode
  rw [hhanded]
  exact List.mem_append_right _ hp

/-- One step over the ideal network. -/
theorem step (h : s.Sound) {e : Event} (hnow : e.now.InRange)
    (hrun : s.step Network.ideal e = some s') : s'.Sound := by
  obtain ⟨frames, htraced, htimes⟩ := h.traced
  cases e with
  | sendFrame now policy statistic dataSize =>
      obtain ⟨server, hserver, rfl⟩ := Option.map_eq_some_iff.mp hrun
      exact h.sendFrame hnow _ hserver
  | sendPacket now =>
      cases hrun
      obtain ⟨hhonest, hnames⟩ := h.honest.sendPacket htraced now
      exact h.ofSender rfl ⟨frames, htraced.sendPacket now, htimes⟩ hhonest
        (hnames ▸ List.Subset.refl _)
  | checkRetransmission now policy statistic iteration =>
      obtain ⟨sender, hsender, rfl⟩ := Option.map_eq_some_iff.mp hrun
      obtain ⟨hhonest, hnames⟩ := h.honest.checkRetransmission htraced hnow hsender
      exact h.ofSender rfl ⟨frames, htraced.checkRetransmission hsender, htimes⟩ hhonest
        (hnames ▸ List.Subset.refl _)
  | deliverPacket now pick sent =>
      simp only [Service.step] at hrun
      split at hrun
      · cases hrun
        exact h
      case h_2 pkt hpkt =>
        obtain ⟨receiver, hreceive, rfl⟩ := Option.map_eq_some_iff.mp hrun
        exact h.receive (List.mem_of_getElem? hpkt) hreceive
  | deliverAck now ack =>
      simp only [Service.step] at hrun
      split at hrun
      · cases hrun
        exact h
      case h_2 pkt hpkt =>
        cases hrun
        obtain ⟨hhonest, hnames⟩ := h.honest.rcvACKPacket (.ofHeader pkt.header)
        exact h.ofSender rfl ⟨frames, htraced.rcvACKPacket _, htimes⟩ hhonest
          (hnames ▸ List.Subset.refl _)
  | deliverFrameAck now ack =>
      simp only [Service.step] at hrun
      split at hrun
      · cases hrun
        exact h
      · cases hrun
        exact ⟨h.traced, h.honest, h.faithful, h.times⟩

/-! ## Bytes -/

variable (P : Type) [PacketBuffer P] [LawfulPacketBuffer P]

theorem overBytes_eq {pkt : NetworkPacket} (h : pkt.Encodable) :
    Network.overBytes P pkt = Network.ideal pkt :=
  NetworkPacket.toInstance_toNetPacket h

/-- Whatever arrives, the bytes say the same as the objects. -/
theorem step_overBytes (h : s.Sound) (e : Event) :
    s.step (Network.overBytes P) e = s.step Network.ideal e := by
  cases e with
  | sendFrame now policy statistic dataSize => rfl
  | sendPacket now => rfl
  | checkRetransmission now policy statistic iteration => rfl
  | deliverPacket now pick sent =>
      simp only [Service.step]
      split
      · rfl
      case h_2 pkt hpkt => rw [overBytes_eq P (h.sent (List.mem_of_getElem? hpkt)).1]
  | deliverAck now ack =>
      simp only [Service.step]
      split
      · rfl
      case h_2 pkt hpkt => rw [overBytes_eq P (h.acks (List.mem_of_getElem? hpkt))]
  | deliverFrameAck now ack =>
      simp only [Service.step]
      split
      · rfl
      case h_2 pkt hpkt => rw [overBytes_eq P (h.frameAcks (List.mem_of_getElem? hpkt))]

end Sound

/-- From a sound state on, a run over bytes is one over objects. -/
theorem Sound.exec_eq (P : Type) [PacketBuffer P] [LawfulPacketBuffer P] {s : Service}
    (h : s.Sound) {events : List Event} (hclock : ∀ e ∈ events, e.now.InRange) :
    Run.exec (Service.step (Network.overBytes P)) s events =
      Run.exec (Service.step Network.ideal) s events := by
  induction events generalizing s with
  | nil => rfl
  | cons e events ih =>
      obtain ⟨hnow, hrest⟩ := List.forall_mem_cons.mp hclock
      simp only [Run.exec, h.step_overBytes P e]
      cases hstep : s.step Network.ideal e with
      | none => rfl
      | some s' => exact ih (h.step hnow hstep) hrest

/-- A frame of two packets; the first is lost, and the last arrives twice. -/
def lossEvents : List Event :=
  [.sendFrame 0 PacketSenderUdp.singlePolicy PacketSenderUdp.quietStat 1407, .sendPacket 0,
    .sendPacket 0, .deliverPacket 0 0 1, .deliverPacket 0 0 1, .deliverAck 0 0]

theorem lossEvents_inRange : ∀ e ∈ lossEvents, e.now.InRange := by
  decide

/-- What holds in every state of a run over bytes. -/
theorem sound_of_exec {P : Type} [PacketBuffer P] [LawfulPacketBuffer P]
    {memory senderDdl delayDdl : Time} {fps : UInt16} {events : List Event} {s : Service}
    (hclock : ∀ e ∈ events, e.now.InRange)
    (hrun : Run.exec (step (Network.overBytes P)) (new memory senderDdl delayDdl fps) events
      = some s) : s.Sound := by
  rw [(Sound.new memory senderDdl delayDdl fps).exec_eq P hclock] at hrun
  exact Run.exec_invariant_mem (fun t t' e he ht hstep => ht.step (hclock e he) hstep)
    (Sound.new memory senderDdl delayDdl fps) hrun

/-- Whatever is lost, repeated or late, and whatever FEC puts together again: the client decodes
only packets that the sender made, and acknowledges only packets that it decoded. -/
theorem handed_genuine (P : Type) [PacketBuffer P] [LawfulPacketBuffer P]
    {memory senderDdl delayDdl : Time} {fps : UInt16} {events : List Event} {s : Service}
    (hclock : ∀ e ∈ events, e.now.InRange)
    (hrun : Run.exec (step (Network.overBytes P)) (new memory senderDdl delayDdl fps) events
      = some s) :
    (∀ pkt ∈ s.receiver.handed, ∃ made ∈ s.server.sender.heap, made.name = pkt.name) ∧
      ∀ ack ∈ s.receiver.acks, ∀ info ∈ ack.pktInfos, ∃ pkt ∈ s.receiver.handed,
        pkt.groupInfo = info := by
  have h := sound_of_exec hclock hrun
  exact ⟨fun pkt hpkt => List.mem_map.mp (h.faithful.handed pkt hpkt).2,
    fun ack hack => (h.faithful.acks ack hack).2⟩

theorem handed_genuine_loss : ∃ s,
    Run.exec (step (Network.overBytes (List UInt8))) (new 0 0 (.milliSeconds 100) 60) lossEvents
      = some s ∧ s.receiver.handed ≠ [] ∧
    (∀ pkt ∈ s.receiver.handed, ∃ made ∈ s.server.sender.heap, made.name = pkt.name) ∧
      ∀ ack ∈ s.receiver.acks, ∀ info ∈ ack.pktInfos, ∃ pkt ∈ s.receiver.handed,
        pkt.groupInfo = info := by
  obtain ⟨s, hrun, hhanded⟩ : ∃ s, Run.exec (step (Network.overBytes (List UInt8)))
      (new 0 0 (.milliSeconds 100) 60) lossEvents = some s ∧ s.receiver.handed ≠ [] := by
    decide +kernel
  exact ⟨s, hrun, hhanded, handed_genuine (List UInt8) lossEvents_inRange hrun⟩

end Service

end Zhuge
