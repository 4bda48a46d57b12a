-- SUMMARY: A frame that the client acknowledges was sent, and every one of its packets was decoded.
import Zhuge.FrameAcks
import Zhuge.Service

/-!
# Acknowledged frames

The decoder counts packets, and believes what they say of their frame. What the packets say is
true, so a full count is every packet of the frame.
-/

namespace Zhuge

/-- How many packets a frame of so many bytes takes. -/
def pktCount (dataSize : UInt32) : ℕ := (dataSize.toNat + 1405) / 1406

/-- What the place of a packet says of its frame is so. -/
structure PktOrigin.OfFrame (origin : PktOrigin) (i : ℕ) (dataSize : UInt32) : Prop where
  frameId : origin.frameId = .ofNat i
  framePktNum : origin.framePktNum.toNat = pktCount dataSize
  pktIdInFrame : ∃ k < pktCount dataSize, origin.pktIdInFrame = .ofNat k

/-- A packet of one of the frames. -/
def PktOrigin.InFrames (origin : PktOrigin) (sizes : List UInt32) : Prop :=
  ∃ i dataSize, sizes[i]? = some dataSize ∧ origin.OfFrame i dataSize

theorem PktOrigin.InFrames.append {origin : PktOrigin} {sizes : List UInt32}
    (h : origin.InFrames sizes) (dataSize : UInt32) : origin.InFrames (sizes ++ [dataSize]) := by
  obtain ⟨i, size, hsize, hof⟩ := h
  refine ⟨i, size, ?_, hof⟩
  rw [List.getElem?_append_left (List.getElem?_eq_some_iff.mp hsize).1]
  exact hsize

/-- The packets that a frame is cut into. -/
theorem ofFrame_packet (now : Time) (i : ℕ) {dataSize : UInt32}
    (hmax : dataSize.toNat ≤ 65535 * 1406) {k : ℕ} (hk : k < pktCount dataSize) :
    ((frameArgs (.ofNat i) dataSize).packet now k).origin.OfFrame i dataSize where
  frameId := rfl
  framePktNum := dataPktNum_frameArgs (.ofNat i) hmax
  pktIdInFrame := ⟨k, hk, zero_add _⟩

namespace VideoDecoder

/-- As many packets of a frame as it has are all of them. -/
theorem AllReceived.every {given : List DataPacket} {frameId : UInt32} {n : ℕ} (hn : n < 65536)
    (hgiven : ∀ pkt ∈ given, pkt.frameId = frameId →
      pkt.framePktNum.toNat = n ∧ ∃ k < n, pkt.pktIdInFrame = .ofNat k)
    (h : AllReceived given frameId) {k : ℕ} (hk : k < n) :
    ∃ pkt ∈ given, pkt.frameId = frameId ∧ pkt.pktIdInFrame.toNat = k := by
  obtain ⟨frame, hfilled, hcard⟩ := h
  obtain ⟨first, hfirst, hframe, hnum⟩ := hfilled.expects
  rw [← hnum, (hgiven first hfirst hframe).1] at hcard
  have hsub : idsInFrame given frameId ⊆ (Finset.range n).image UInt16.ofNat := by
    intro id hid
    obtain ⟨pkt, hpkt, rfl⟩ := List.mem_map.mp (List.mem_toFinset.mp hid)
    obtain ⟨hmem, heq⟩ := List.mem_filter.mp hpkt
    obtain ⟨j, hj, hid⟩ := (hgiven pkt hmem (by simpa using heq)).2
    exact Finset.mem_image.mpr ⟨j, Finset.mem_range.mpr hj, hid.symm⟩
  have hle : ((Finset.range n).image UInt16.ofNat).card ≤ n :=
    Finset.card_image_le.trans (Finset.card_range n).le
  have heq : frame.pkts = (Finset.range n).image UInt16.ofNat :=
    Finset.eq_of_subset_of_card_le (hfilled.subset.trans hsub) (hle.trans hcard)
  have hmem : UInt16.ofNat k ∈ idsInFrame given frameId := by
    apply hfilled.subset
    rw [heq]
    exact Finset.mem_image.mpr ⟨k, Finset.mem_range.mpr hk, rfl⟩
  obtain ⟨pkt, hpkt, hid⟩ := List.mem_map.mp (List.mem_toFinset.mp hmem)
  obtain ⟨hpkt, hframeId⟩ := List.mem_filter.mp hpkt
  refine ⟨pkt, hpkt, by simpa using hframeId, ?_⟩
  rw [hid, UInt16.toNat_ofNat', Nat.mod_eq_of_lt (hk.trans hn)]

end VideoDecoder

namespace Service

/-- No frame needs more packets than a packet can say. -/
def Event.Fits : Event → Prop
  | .sendFrame _ _ _ dataSize => dataSize.toNat ≤ 65535 * 1406
  | _ => True

instance (e : Event) : Decidable e.Fits := by
  cases e <;> unfold Event.Fits <;> infer_instance

/-- The acknowledged frames are in order, and each was sent and is decoded with all packets. -/
structure AckedInFull (s : Service) : Prop where
  increasing : s.receiver.decoder.ackedIds.Pairwise (· < ·)
  decoded : ∀ frameId ∈ s.receiver.decoder.ackedIds, ∃ dataSize,
    s.sizes[frameId.toNat]? = some dataSize ∧ ∀ k < pktCount dataSize,
      ∃ pkt ∈ s.receiver.handed, pkt.frameId = frameId ∧ pkt.pktIdInFrame.toNat = k

/-- Every packet is of a frame that was sent, and the decoder has seen what it was handed. -/
structure Framed (delayDdl : Time) (fps : UInt16) (s : Service) : Prop where
  frameId : s.server.frameId = .ofNat s.sizes.length
  fits : ∀ dataSize ∈ s.sizes, dataSize.toNat ≤ 65535 * 1406
  names : ∀ name ∈ s.server.sender.names, name.origin.InFrames s.sizes
  decoder : VideoDecoder.decodeDataPacket s.receiver.handed (.new delayDdl fps)
    = some s.receiver.decoder

namespace Framed

variable {delayDdl : Time} {fps : UInt16} {s s' : Service} {now : Time}

theorem new (memory senderDdl : Time) :
    (new memory senderDdl delayDdl fps).Framed delayDdl fps where
  frameId := rfl
  fits := List.forall_mem_nil _
  names := List.forall_mem_nil _
  decoder := rfl

/-- A step of the sender that makes no data packets. -/
theorem ofSender (h : s.Framed delayDdl fps) {sender : PacketSenderUdp}
    (hnames : sender.names = s.server.sender.names) :
    Framed delayDdl fps { s with server.sender := sender } :=
  ⟨h.frameId, h.fits, hnames ▸ h.names, h.decoder⟩

theorem sendFrame (h : s.Framed delayDdl fps) (hs : s.Sound) (hnow : now.InRange)
    {policy : FECPolicy} {statistic : NetStat} {dataSize : UInt32}
    (hmax : dataSize.toNat ≤ 65535 * 1406) {server : GameServer}
    (hrun : s.server.sendFrame policy statistic now dataSize = some server) :
    Framed delayDdl fps { s with
      server
      sizes := if dataSize = 0 then s.sizes else s.sizes ++ [dataSize] } := by
  unfold GameServer.sendFrame at hrun
  split at hrun
  case isTrue hzero =>
    cases hrun
    rw [if_pos hzero]
    exact h
  case isFalse hpos =>
    obtain ⟨sender, hcreate, hrun⟩ := Option.bind_eq_some_iff.mp hrun
    cases hrun
    obtain ⟨-, ids, batches, pkts, hcut, hmade, hnames⟩ := hs.honest.createFrame hnow hcreate
    rw [if_neg hpos]
    refine ⟨?_, List.forall_mem_append.mpr ⟨h.fits, List.forall_mem_singleton.mpr hmax⟩, ?_,
      h.decoder⟩
    · change s.server.frameId + 1 = _
      rw [h.frameId, List.length_append, List.length_singleton, UInt32.ofNat_add]
      rfl
    · intro name hname
      change name ∈ sender.names at hname
      rw [hnames] at hname
      rcases List.mem_append.mp hname with hold | hnew
      · exact (h.names name hold).append dataSize
      obtain ⟨pkt, hpkt, rfl⟩ := List.mem_map.mp hnew
      refine ⟨s.sizes.length, dataSize, List.getElem?_concat_length, ?_⟩
      -- What a packet says of its frame, numbering leaves as it was cut.
      let place (p : DataPacket) := (p.frameId, p.framePktNum, p.pktIdInFrame)
      have hplaces := hmade.map_field (f := place) fun _ _ _ _ => rfl
      have hcutAll : cutPackets now (frameArgs s.server.frameId dataSize) = some _ :=
        cutPackets_eq (by change 0 < 1406; norm_num)
          (by change dataSize.toNat + 1406 ≤ 2 ^ 32; omega)
      rw [hcut, packetCount_frameArgs] at hcutAll
      cases hcutAll
      have hmem : place pkt ∈ (batches.flatMap (·.dataPkts)).map place :=
        List.mem_map.mpr ⟨pkt, hpkt, rfl⟩
      rw [hplaces, List.map_map] at hmem
      obtain ⟨k, hk, heq⟩ := List.mem_map.mp hmem
      have hof := ofFrame_packet now s.sizes.length hmax (List.mem_range.mp hk)
      rw [← h.frameId] at hof
      obtain ⟨hframe, hrest⟩ := Prod.ext_iff.mp heq
      obtain ⟨hnum, hid⟩ := Prod.ext_iff.mp hrest
      obtain ⟨j, hj, hplace⟩ := hof.pktIdInFrame
      exact ⟨hframe.symm.trans hof.frameId,
        (congrArg UInt16.toNat hnum).symm.trans hof.framePktNum, j, hj, hid.symm.trans hplace⟩

theorem receive (h : s.Framed delayDdl fps) {a : Arrival} {receiver : PacketReceiverUdp}
    (hrun : s.receiver.receiveUdpPacket a = some receiver) :
    Framed delayDdl fps { s with receiver } := by
  obtain ⟨out, group, -, hdecode, hhanded, -⟩ := PacketReceiverUdp.receiveUdpPacket_output hrun
  refine ⟨h.frameId, h.fits, h.names, ?_⟩
  change Run.exec _ _ receiver.handed = _
  rw [hhanded]
  exact Run.exec_append_eq_some.mpr ⟨_, h.decoder, hdecode⟩

theorem step (h : s.Framed delayDdl fps) (hs : s.Sound) {e : Event} (hnow : e.now.InRange)
    (hfits : e.Fits) (hrun : s.step Network.ideal e = some s') : s'.Framed delayDdl fps := by
  obtain ⟨frames, htraced, -⟩ := hs.traced
  cases e with
  | sendFrame now policy statistic dataSize =>
      obtain ⟨server, hserver, rfl⟩ := Option.map_eq_some_iff.mp hrun
      exact h.sendFrame hs hnow hfits hserver
  | sendPacket now =>
      cases hrun
      exact h.ofSender (hs.honest.sendPacket htraced now).2
  | checkRetransmission now policy statistic iteration =>
      obtain ⟨sender, hsender, rfl⟩ := Option.map_eq_some_iff.mp hrun
      exact h.ofSender (hs.honest.checkRetransmission htraced hnow hsender).2
  | deliverPacket now pick sent =>
      simp only [Service.step] at hrun
      split at hrun
      · cases hrun
        exact h
      · obtain ⟨receiver, hreceive, rfl⟩ := Option.map_eq_some_iff.mp hrun
        exact h.receive hreceive
  | deliverAck now ack =>
      simp only [Service.step] at hrun
      split at hrun
      · cases hrun
        exact h
      case h_2 pkt hpkt =>
        cases hrun
        exact h.ofSender (hs.honest.rcvACKPacket (.ofHeader pkt.header)).2
  | deliverFrameAck now ack =>
      simp only [Service.step] at hrun
      split at hrun
      · cases hrun
        exact h
      · cases hrun
        exact ⟨h.frameId, h.fits, h.names, h.decoder⟩

/-- The packets that the decoder was handed are of the frames that were sent. -/
theorem handed (h : s.Framed delayDdl fps) (hs : s.Sound) {pkt : DataPacket}
    (hpkt : pkt ∈ s.receiver.handed) : pkt.origin.InFrames s.sizes :=
  h.names _ (hs.faithful.handed pkt hpkt).2

/-- Before the ids of frames come round, a packet's frame id says which frame it is of. -/
theorem ofFrame (h : s.Framed delayDdl fps) (hs : s.Sound) (hcount : s.sizes.length < 2 ^ 32)
    {pkt : DataPacket} (hpkt : pkt ∈ s.receiver.handed) : ∃ dataSize,
      s.sizes[pkt.frameId.toNat]? = some dataSize ∧
      pkt.origin.OfFrame pkt.frameId.toNat dataSize := by
  obtain ⟨i, dataSize, hsize, hof⟩ := h.handed hs hpkt
  have hi := (List.getElem?_eq_some_iff.mp hsize).1
  have hid : pkt.frameId.toNat = i := by
    rw [show pkt.frameId = .ofNat i from hof.frameId, UInt32.toNat_ofNat',
      Nat.mod_eq_of_lt (hi.trans hcount)]
  exact ⟨dataSize, hid ▸ hsize, hid ▸ hof⟩

theorem allReceived (h : s.Framed delayDdl fps) (hs : s.Sound) (hcount : s.sizes.length < 2 ^ 32) :
    s.receiver.decoder.ackedIds.Pairwise (· < ·) ∧ ∀ frameId ∈ s.receiver.decoder.ackedIds,
      VideoDecoder.AllReceived s.receiver.handed frameId := by
  have hframe : ∀ pkt ∈ s.receiver.handed, pkt.frameId.toNat < 2 ^ 32 - 1 := by
    intro pkt hpkt
    obtain ⟨dataSize, hsize, -⟩ := h.ofFrame hs hcount hpkt
    have := (List.getElem?_eq_some_iff.mp hsize).1
    omega
  have hacks := (VideoDecoder.AcksInOrder.new delayDdl fps).exec hframe h.decoder
  exact ⟨hacks.increasing, hacks.acked⟩

theorem ackedInFull (h : s.Framed delayDdl fps) (hs : s.Sound) (hcount : s.sizes.length < 2 ^ 32) :
    s.AckedInFull := by
  obtain ⟨hincreasing, hall⟩ := h.allReceived hs hcount
  refine ⟨hincreasing, fun frameId hacked => ?_⟩
  obtain ⟨first, hfirst, hframe, -⟩ := (hall frameId hacked).choose_spec.1.expects
  obtain ⟨dataSize, hsize, -⟩ := h.ofFrame hs hcount hfirst
  rw [hframe] at hsize
  refine ⟨dataSize, hsize, fun k hk => (hall frameId hacked).every ?_ ?_ hk⟩
  · have := h.fits dataSize (List.mem_of_getElem? hsize)
    rw [pktCount]
    omega
  · intro pkt hpkt hid
    obtain ⟨size, hsize', hof⟩ := h.ofFrame hs hcount hpkt
    rw [hid, hsize] at hsize'
    cases hsize'
    exact ⟨hof.framePktNum, hof.pktIdInFrame⟩

end Framed

/-- As long as the ids of frames do not come round, the client acknowledges frames in the order in
which they were sent, each once, and only when it has decoded all of the frame's packets. -/
theorem acked_in_full (P : Type) [PacketBuffer P] [LawfulPacketBuffer P]
    {memory senderDdl delayDdl : Time} {fps : UInt16} {events : List Event} {s : Service}
    (hclock : ∀ e ∈ events, e.now.InRange) (hfits : ∀ e ∈ events, e.Fits)
    (hrun : Run.exec (step (Network.overBytes P)) (new memory senderDdl delayDdl fps) events
      = some s) (hcount : s.sizes.length < 2 ^ 32) : s.AckedInFull := by
  rw [(Sound.new memory senderDdl delayDdl fps).exec_eq P hclock] at hrun
  obtain ⟨hs, h⟩ := Run.exec_invariant_mem
    (P := fun t => t.Sound ∧ t.Framed delayDdl fps)
    (fun t t' e he ht hstep => ⟨ht.1.step (hclock e he) hstep,
      ht.2.step ht.1 (hclock e he) (hfits e he) hstep⟩)
    ⟨Sound.new memory senderDdl delayDdl fps, .new memory senderDdl⟩ hrun
  exact h.ackedInFull hs hcount

/-- Two frames of one packet and of two. -/
def twoFrameEvents : List Event :=
  [.sendFrame 0 PacketSenderUdp.singlePolicy PacketSenderUdp.quietStat 1406, .sendPacket 0,
    .deliverPacket 0 0 0,
    .sendFrame 0 PacketSenderUdp.singlePolicy PacketSenderUdp.quietStat 1407, .sendPacket 0,
    .sendPacket 0, .deliverPacket 0 0 2, .deliverPacket 0 0 1]

theorem acked_in_full_twoFrames : ∃ s,
    Run.exec (step (Network.overBytes (List UInt8))) (new 0 0 (.milliSeconds 100) 60)
      twoFrameEvents = some s ∧ s.receiver.decoder.ackedIds = [1] ∧ s.AckedInFull := by
  obtain ⟨s, hrun, hids, hcount⟩ : ∃ s, Run.exec (step (Network.overBytes (List UInt8)))
      (new 0 0 (.milliSeconds 100) 60) twoFrameEvents = some s ∧
      s.receiver.decoder.ackedIds = [1] ∧ s.sizes.length < 2 ^ 32 := by
    decide +kernel
  exact ⟨s, hrun, hids, acked_in_full (List UInt8) (by decide) (by decide) hrun hcount⟩

end Service

end Zhuge
