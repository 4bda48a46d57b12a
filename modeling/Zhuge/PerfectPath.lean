-- SUMMARY: Over a path that loses nothing and keeps the order, the frames that the server sends are played one after another, each at its last data packet.
import Zhuge.BuiltGroup
import Zhuge.SentSources
import Zhuge.StreamOrder

/-!
# The perfect path

What the server sends is a stream in order, whatever the sizes of the groups and the number of
their FEC packets. So a receiver that gets all of it plays all the frames.
-/

namespace Zhuge

/-! ## Streams but for times and global ids -/

/-- The packet without what sending and the path change. -/
def VideoPacket.core : VideoPacket → VideoPacket
  | .data pkt => .data { pkt with toVideoPacketMeta := .init, encodeTime := 0, globalId := 0 }
  | .dupFec pkt => .dupFec { pkt with toVideoPacketMeta := .init, encodeTime := 0, globalId := 0 }
  | .fec pkt => .fec { pkt with toVideoPacketMeta := .init, encodeTime := 0, globalId := 0 }

theorem VideoPacket.core_received (rcvTime : Time) (pkt : VideoPacket) :
    (pkt.received.setRcvTime rcvTime).core = pkt.core := by
  cases pkt <;> rfl

namespace Stream

variable {p p' : Place} {pkts pkts' : List VideoPacket}

theorem core (h : Stream p pkts p') : Stream p (pkts.map (·.core)) p' := by
  induction h with
  | nil p => exact .nil p
  | group groupDataNum _ ih => exact .group groupDataNum ih
  | data hframe hgroup hat _ ih =>
      exact .data ⟨hframe.1, hframe.2, hframe.3, hframe.4⟩ ⟨hgroup.1, hgroup.2⟩
        ⟨hat.1, hat.2, hat.3, hat.4⟩ ih
  | fec hfull hgroup hbatch hgenuine _ ih =>
    exact .fec hfull ⟨hgroup.1, hgroup.2⟩ hbatch hgenuine ih

theorem of_core (h : Stream p (pkts.map (·.core)) p') : Stream p pkts p' := by
  generalize hcore : pkts.map (·.core) = cores at h
  induction h generalizing pkts with
  | nil p =>
      obtain rfl := List.map_eq_nil_iff.mp hcore
      exact .nil p
  | group groupDataNum _ ih => exact .group groupDataNum (ih hcore)
  | data hframe hgroup hat _ ih =>
      obtain ⟨pkt, pkts, rfl, hpkt, hrest⟩ := List.map_eq_cons_iff.mp hcore
      cases pkt with
      | data pkt =>
          cases hpkt
          exact .data ⟨hframe.1, hframe.2, hframe.3, hframe.4⟩ ⟨hgroup.1, hgroup.2⟩
            ⟨hat.1, hat.2, hat.3, hat.4⟩ (ih hrest)
      | dupFec pkt => cases hpkt
      | fec pkt => cases hpkt
  | fec hfull hgroup hbatch hgenuine _ ih =>
      obtain ⟨pkt, pkts, rfl, hpkt, hrest⟩ := List.map_eq_cons_iff.mp hcore
      cases pkt with
      | data pkt => cases hpkt
      | dupFec pkt => cases hpkt
      | fec pkt =>
          cases hpkt
          exact .fec hfull ⟨hgroup.1, hgroup.2⟩ hbatch hgenuine (ih hrest)

/-- Packets that differ in times and global ids only make the same streams. -/
theorem congr (h : Stream p pkts p') (hcore : pkts'.map (·.core) = pkts.map (·.core)) :
    Stream p pkts' p' :=
  of_core (hcore ▸ h.core)

end Stream

/-! ## The groups of a frame make a stream -/

/-- The packets are consecutive ones of a frame of `num` packets, from the `i`-th on. -/
def FrameRun (frame : ℕ) (num : UInt16) (i : ℕ) (pkts : List DataPacket) : Prop :=
  ∀ k (hk : k < pkts.length), pkts[k].frameId.toNat = frame ∧ pkts[k].framePktNum = num ∧
    pkts[k].pktIdInFrame.toNat = i + k

theorem FrameRun.of_append {frame : ℕ} {num : UInt16} {i : ℕ} {pkts pkts' : List DataPacket}
    (h : FrameRun frame num i (pkts ++ pkts')) :
    FrameRun frame num i pkts ∧ FrameRun frame num (i + pkts.length) pkts' := by
  constructor
  · intro k hk
    have hat := h k (by rw [List.length_append]; omega)
    rwa [List.getElem_append_left hk] at hat
  · intro k hk
    have hat := h (pkts.length + k) (by rw [List.length_append]; omega)
    rw [List.getElem_append_right (Nat.le_add_right _ _)] at hat
    simp only [Nat.add_sub_cancel_left] at hat
    rwa [add_assoc]

theorem FrameRun.of_cons {frame : ℕ} {num : UInt16} {i : ℕ} {pkt : DataPacket}
    {pkts : List DataPacket} (h : FrameRun frame num i (pkt :: pkts)) :
    (pkt.frameId.toNat = frame ∧ pkt.framePktNum = num ∧ pkt.pktIdInFrame.toNat = i) ∧
      FrameRun frame num (i + 1) pkts := by
  have happend : FrameRun frame num i ([pkt] ++ pkts) := h
  exact ⟨h 0 (Nat.succ_pos _), happend.of_append.2⟩

/-- The place in a frame of `num` packets when the first `i` of them came. -/
def FrameCursor.within (frame : ℕ) (num : UInt16) (i : ℕ) : FrameCursor :=
  if i = num.toNat then ⟨frame + 1, 0, 0⟩
  else if i = 0 then ⟨frame, 0, 0⟩
  else ⟨frame, i, num⟩

theorem FrameCursor.within_next {frame : ℕ} {num : UInt16} {i : ℕ} {pkt : DataPacket}
    (hframe : pkt.frameId.toNat = frame) (hnum : pkt.framePktNum = num)
    (hid : pkt.pktIdInFrame.toNat = i) (hlt : i < num.toNat) :
    (within frame num i).Next pkt ∧
      (within frame num i).advance pkt = within frame num (i + 1) := by
  subst hnum
  have hcursor : within frame pkt.framePktNum i
      = if i = 0 then ⟨frame, 0, 0⟩ else ⟨frame, i, pkt.framePktNum⟩ := if_neg hlt.ne
  rw [hcursor, advance, hid, within]
  by_cases hzero : i = 0
  · subst hzero
    rw [if_pos rfl]
    exact ⟨⟨hframe, hid, hlt, fun h => absurd h (lt_irrefl 0)⟩, rfl⟩
  · rw [if_neg hzero]
    exact ⟨⟨hframe, hid, hlt, fun _ => rfl⟩, rfl⟩

/-- The data packets of a group in the place they are sent to. -/
structure Fits (p : Place) (k : ℕ) (pkt : DataPacket) : Prop where
  sameGroup : p.SameGroup pkt.toVideoPacketHeader
  position : pkt.At p.groupDataNum (p.inGroup + k)

theorem stream_data {frame : ℕ} {num : UInt16} {i : ℕ} {pkts : List DataPacket} {p : Place}
    (hrun : FrameRun frame num i pkts) (hcursor : p.cursor = .within frame num i)
    (hnum : i + pkts.length ≤ num.toNat) (hfits : ∀ k (hk : k < pkts.length), Fits p k pkts[k]) :
    ∃ p', Stream p (pkts.map .data) p' ∧ p'.groups = p.groups ∧
      p'.groupDataNum = p.groupDataNum ∧ p'.inGroup = p.inGroup + pkts.length ∧
      p'.cursor = .within frame num (i + pkts.length) ∧ p.origins ⊆ p'.origins ∧
      ∀ pkt ∈ pkts, pkt.origin ∈ p'.origins := by
  induction pkts generalizing p i with
  | nil => exact ⟨p, .nil p, rfl, rfl, rfl, hcursor, Finset.Subset.refl _, by simp⟩
  | cons pkt pkts ih =>
      rw [List.length_cons] at hnum
      obtain ⟨⟨hframe, hframeNum, hid⟩, hrest⟩ := hrun.of_cons
      obtain ⟨hnext, hadvance⟩ := FrameCursor.within_next hframe hframeNum hid (by omega)
      rw [← hcursor] at hnext hadvance
      have hat := hfits 0 (Nat.succ_pos _)
      obtain ⟨p', hstream, hgroups, hsize, hin, hcursor', hsub, horigins⟩ :=
        ih (p := p.advance pkt) hrest hadvance (by omega) fun k hk => by
          have hlater := hfits (k + 1) (Nat.succ_lt_succ hk)
          refine ⟨⟨hlater.1.1, hlater.1.2⟩, ?_⟩
          have hposition : p.inGroup + (k + 1) = p.inGroup + 1 + k := by omega
          exact hposition ▸ hlater.position
      refine ⟨p', .data hnext hat.sameGroup hat.position hstream, hgroups, hsize, ?_, ?_, ?_, ?_⟩
      · rw [hin, List.length_cons, add_comm pkts.length, ← add_assoc]
        rfl
      · rw [hcursor', List.length_cons, add_assoc, add_comm 1]
      · exact (Finset.subset_insert _ _).trans hsub
      · exact List.forall_mem_cons.mpr ⟨hsub (Finset.mem_insert_self _ _), horigins⟩

/-- The FEC packets behind a full group. -/
theorem stream_fec {p : Place} {pkts : List FECPacket} (hfull : p.inGroup = p.groupDataNum.toNat)
    (hpkts : ∀ pkt ∈ pkts, p.SameGroup pkt.toVideoPacketHeader ∧ 0 < pkt.batchDataNum ∧
      pkt.Genuine p.origins) : Stream p (pkts.map .fec) p := by
  induction pkts with
  | nil => exact .nil p
  | cons pkt pkts ih =>
      obtain ⟨⟨hgroup, hbatch, hgenuine⟩, hrest⟩ := List.forall_mem_cons.mp hpkts
      exact .fec hfull hgroup hbatch hgenuine (ih hrest)

/-- A group, from its first data packet to its last FEC packet. -/
theorem stream_group {frame : ℕ} {num : UInt16} {i : ℕ} {fecRate : Binary64} {now : Time}
    {ids ids' : SenderIds} {pkts data : List DataPacket} {fec : List FECPacket} {p : Place}
    (hlen : pkts.length ≤ 65535)
    (hbatch : createPacketBatch fecRate true 0 false now ids pkts = some (ids', data, fec))
    (hgroup : ids.groupId.toNat = p.groups) (hrun : FrameRun frame num i pkts)
    (hcursor : p.cursor = .within frame num i) (hnum : i + pkts.length ≤ num.toNat) :
    ∃ p', Stream p (FirstBatch.packets ⟨data, fec⟩) p' ∧ p'.groups = p.groups + 1 ∧
      p'.cursor = .within frame num (i + pkts.length) := by
  have hw := GroupWellFormed.first rfl hlen hbatch
  have hb := hw.batches _ (List.mem_singleton_self _)
  obtain ⟨-, -, f, -, hdata⟩ := createPacketBatch_first_eq_some hbatch
  have hlength : data.length = pkts.length := by rw [hdata, List.length_mapIdx]
  have hrun' : FrameRun frame num i data := by
    intro k hk
    simp only [hdata, List.getElem_mapIdx]
    exact hrun k (hlength ▸ hk)
  have hsame : ∀ pkt ∈ FirstBatch.packets ⟨data, fec⟩,
      (p.beginGroup (.ofNat data.length)).SameGroup pkt.header := by
    intro pkt hpkt
    obtain ⟨hid, hsize⟩ := hb.sameGroup hpkt
    exact ⟨by rw [hid, hgroup]; rfl, hsize⟩
  have hfits : ∀ k (hk : k < data.length), Fits (p.beginGroup (.ofNat data.length)) k data[k] := by
    intro k hk
    refine ⟨hsame _ (List.mem_append_left _ (List.mem_map_of_mem (List.getElem_mem hk))), ?_⟩
    have hposition : (p.beginGroup (.ofNat data.length)).inGroup + k = k := zero_add k
    rw [hposition]
    refine ⟨hk.trans_eq hw.dataNum_toNat.symm, hw.pktIdInGroup_toNat hk,
      hb.pktIdInBatch_toNat hk, ?_⟩
    exact (hb.batch _ (List.mem_append_left _ (List.mem_map_of_mem (List.getElem_mem hk)))).2
  have hbegin : (p.beginGroup (.ofNat data.length)).cursor = .within frame num i := hcursor
  obtain ⟨p', hstream, hgroups, hsize, hin, hcursor', -, horigins⟩ :=
    stream_data hrun' hbegin (hlength ▸ hnum) hfits
  refine ⟨p', .group _ (hstream.append (stream_fec ?_ ?_)), hgroups, hlength ▸ hcursor'⟩
  · rw [hin, hsize]
    exact (Nat.zero_add _).trans hw.dataNum_toNat.symm
  · intro pkt hpkt
    have hmem : VideoPacket.fec pkt ∈ FirstBatch.packets ⟨data, fec⟩ :=
      List.mem_append_right _ (List.mem_map_of_mem hpkt)
    refine ⟨⟨(hsame _ hmem).1.trans hgroups.symm, (hsame _ hmem).2.trans hsize.symm⟩, ?_, ?_⟩
    · have hnum : pkt.batchDataNum = .ofNat data.length := (hb.batch _ hmem).2
      rw [hnum]
      exact hb.dataNum_pos
    · intro digest hdigest
      rw [(hb.fec pkt hpkt).2.2] at hdigest
      obtain ⟨d, hd, rfl⟩ := List.mem_map.mp hdigest
      exact horigins d hd

/-- All groups of a frame, or of what is left of one. -/
theorem stream_groups {frame : ℕ} {num : UInt16} {i : ℕ} {now : Time} {ids ids' : SenderIds}
    {pkts : List DataPacket} {batches : List FirstBatch} {p : Place}
    (h : Groups now ids pkts ids' batches) (hids : ids.groupId = .ofNat p.groups)
    (hgroups : p.groups + batches.length ≤ 2 ^ 32) (hrun : FrameRun frame num i pkts)
    (hcursor : p.cursor = .within frame num i) (hnum : i + pkts.length ≤ num.toNat) :
    ∃ p', Stream p (batches.flatMap (·.packets)) p' ∧ p'.groups = p.groups + batches.length ∧
      p'.cursor = .within frame num (i + pkts.length) := by
  induction h generalizing i p with
  | nil ids => exact ⟨p, .nil p, rfl, hcursor⟩
  | @cons fecRate ids ids₁ ids₂ chunk pkts data fec batches hlen hbatch _ ih =>
      rw [List.length_cons] at hgroups
      rw [List.length_append] at hnum
      obtain ⟨hfirst, hrest⟩ := hrun.of_append
      have hid : ids.groupId.toNat = p.groups := by
        rw [hids, UInt32.toNat_ofNat_of_lt' (by simp only [UInt32.size]; omega)]
      obtain ⟨q, hstream, hq, hcursor'⟩ :=
        stream_group hlen hbatch hid hfirst hcursor (by omega)
      have hids' : ids₁.groupId = .ofNat q.groups := by
        rw [(createPacketBatch_first_eq_some hbatch).2.1, hids, hq, UInt32.ofNat_add]
        rfl
      obtain ⟨p', hstream', hp', hcursor''⟩ :=
        ih hids' (by omega) hrest hcursor' (by omega)
      refine ⟨p', hstream.append hstream', ?_, ?_⟩
      · rw [hp', hq, List.length_cons]
        omega
      · rw [hcursor'', List.length_append, add_assoc]

theorem frameRun_framePackets (now : Time) (frameId : UInt32) {dataSize : UInt32}
    (hmax : dataSize.toNat ≤ 65535 * 1406) :
    FrameRun frameId.toNat (frameArgs frameId dataSize).dataPktNum 0
      (framePackets now frameId dataSize) := by
  intro k hk
  rw [framePackets, List.length_map, List.length_range] at hk
  simp only [framePackets, List.getElem_map, List.getElem_range]
  refine ⟨rfl, rfl, ?_⟩
  have hid : ((frameArgs frameId dataSize).packet now k).pktIdInFrame = .ofNat k := zero_add _
  rw [hid, zero_add]
  exact UInt16.toNat_ofNat_of_lt' (by simp only [UInt16.size]; omega)

/-- A whole frame. -/
theorem stream_frame {now : Time} {frameId dataSize : UInt32} {ids ids' : SenderIds}
    {batches : List FirstBatch} {p : Place} (hpos : 0 < dataSize)
    (hmax : dataSize.toNat ≤ 65535 * 1406)
    (h : Groups now ids (framePackets now frameId dataSize) ids' batches)
    (hids : ids.groupId = .ofNat p.groups) (hgroups : p.groups + batches.length ≤ 2 ^ 32)
    (hcursor : p.cursor = ⟨frameId.toNat, 0, 0⟩) :
    ∃ p', Stream p (batches.flatMap (·.packets)) p' ∧ p'.groups = p.groups + batches.length ∧
      p'.cursor = ⟨frameId.toNat + 1, 0, 0⟩ := by
  have hnum := dataPktNum_frameArgs frameId hmax
  have hsize := UInt32.lt_iff_toNat_lt.mp hpos
  rw [UInt32.toNat_zero] at hsize
  have hlength : (framePackets now frameId dataSize).length
      = (frameArgs frameId dataSize).dataPktNum.toNat := by
    rw [framePackets, List.length_map, List.length_range, hnum]
  have hbegin : p.cursor = .within frameId.toNat (frameArgs frameId dataSize).dataPktNum 0 := by
    rw [hcursor, FrameCursor.within, if_neg (by omega), if_pos rfl]
  obtain ⟨p', hstream, hp', hcursor'⟩ := stream_groups h hids hgroups
    (frameRun_framePackets now frameId hmax) hbegin (by omega)
  refine ⟨p', hstream, hp', ?_⟩
  rw [hcursor', zero_add, hlength, FrameCursor.within, if_pos rfl]

/-! ## The server -/

/-- What happens at the server. -/
inductive ServerEvent where
  | sendFrame (now : Time) (policy : FECPolicy) (statistic : NetStat) (dataSize : UInt32)
  | sendPacket (now : Time)

/-- A frame is not empty and not too long for a 16-bit number of packets, and the policy never
asks for groups of no packets. -/
def ServerEvent.Valid : ServerEvent → Prop
  | .sendFrame _ policy _ dataSize => 0 < dataSize ∧ dataSize.toNat ≤ 65535 * 1406 ∧
      ∀ call q, 0 < (policy call q).fecGroupSize
  | .sendPacket _ => True

/-- The number of frames among the events. -/
def frameCount (events : List ServerEvent) : ℕ :=
  events.countP fun
    | .sendFrame .. => true
    | .sendPacket _ => false

namespace GameServer

def new (delayDdl : Time) : GameServer := ⟨0, .new delayDdl⟩

def step (g : GameServer) : ServerEvent → Option GameServer
  | .sendFrame now policy statistic dataSize => g.sendFrame policy statistic now dataSize
  | .sendPacket now => some { g with sender := g.sender.sendPacket now }

end GameServer

namespace PacketSenderUdp

/-- All that was sent, and behind it all that is in the queue. -/
def output (s : PacketSenderUdp) : List VideoPacket :=
  s.sent ++ s.queue.flatMap fun frame => frame.packetsInFrame.map s.content

/-- The first packet of the queue went to the socket. -/
structure Pops (s s' : PacketSenderUdp) : Prop where
  ids : s'.ids = s.ids
  sendGroupCnt : s'.sendGroupCnt = s.sendGroupCnt
  heap : s'.heap.length = s.heap.length
  content : ∀ pkt, (s'.content pkt).core = (s.content pkt).core
  moved : ∃ frame frames pkt pkts sent, s.queue = frame :: frames ∧
    frame.packetsInFrame = pkt :: pkts ∧ s'.sent = s.sent ++ [sent] ∧
    sent.core = (s.content pkt).core ∧
    s'.queue = if pkts.isEmpty then frames else { frame with packetsInFrame := pkts } :: frames

theorem sendPacket_pops (now : Time) (s : PacketSenderUdp) :
    s.sendPacket now = s ∨ Pops s (s.sendPacket now) := by
  unfold sendPacket
  split
  · exact .inl rfl
  case h_2 frame frames hqueue =>
    split
    · exact .inl rfl
    case h_2 pkt pkts hpkts =>
      refine .inr ?_
      cases pkt with
      | data ref =>
          have hcore : ∀ ref', (VideoPacket.data ((s.update ref fun pkt => { pkt with
              sendTime := now
              globalId := s.ipidCounter }).deref ref')).core
              = (VideoPacket.data (s.deref ref')).core :=
            deref_update_field (fun pkt => (VideoPacket.data pkt).core) rfl
          refine ⟨rfl, rfl, List.length_modify .., ?_, frame, frames, .data ref, pkts, _, hqueue,
            hpkts, rfl, hcore ref, rfl⟩
          intro pkt
          cases pkt with
          | data ref' => exact hcore ref'
          | fec fec => rfl
      | fec fec =>
          refine ⟨rfl, rfl, rfl, ?_, frame, frames, .fec fec, pkts, _, hqueue, hpkts, rfl, rfl, rfl⟩
          intro pkt
          cases pkt <;> rfl

namespace Pops

variable {s s' : PacketSenderUdp}

/-- The packet keeps its place. -/
theorem core_output (h : Pops s s') : s'.output.map (·.core) = s.output.map (·.core) := by
  obtain ⟨frame, frames, pkt, pkts, sent, hqueue, hpkts, hsent, hcore, hqueue'⟩ := h.moved
  have hrest : s'.queue.flatMap (fun frame => frame.packetsInFrame.map s'.content)
      = pkts.map s'.content ++ frames.flatMap fun frame => frame.packetsInFrame.map s'.content := by
    rw [hqueue']
    cases pkts <;> rfl
  have hmap : ∀ pkts : List QueuedPkt,
      (pkts.map s'.content).map (·.core) = (pkts.map s.content).map (·.core) := by
    intro pkts
    rw [List.map_map, List.map_map]
    exact List.map_congr_left fun pkt _ => h.content pkt
  rw [output, hrest, hsent, output, hqueue, List.flatMap_cons, hpkts]
  simp only [List.map_append, List.map_cons, List.map_flatMap, hmap, hcore,
    List.append_assoc, List.nil_append, List.cons_append]

theorem refs (h : Pops s s') {frame' : PacketFrame} (hframe : frame' ∈ s'.queue) {ref : PktRef}
    (href : .data ref ∈ frame'.packetsInFrame) :
    ∃ frame ∈ s.queue, .data ref ∈ frame.packetsInFrame := by
  obtain ⟨frame, frames, pkt, pkts, sent, hqueue, hpkts, -, -, hqueue'⟩ := h.moved
  rw [hqueue'] at hframe
  rw [hqueue]
  split at hframe
  · exact ⟨frame', List.mem_cons_of_mem _ hframe, href⟩
  · rcases List.mem_cons.mp hframe with rfl | hframe
    · exact ⟨frame, List.mem_cons_self, by rw [hpkts]; exact List.mem_cons_of_mem _ href⟩
    · exact ⟨frame', List.mem_cons_of_mem _ hframe, href⟩

end Pops

theorem core_packets_queuedGroup (now : Time) (batches : List FirstBatch) :
    ((batches.map (queuedGroup now)).flatMap (·.packets)).map (·.core)
      = (batches.flatMap (·.packets)).map (·.core) := by
  rw [List.flatMap_map, List.map_flatMap, List.map_flatMap]
  apply List.flatMap_congr
  intro b _
  simp only [FirstBatch.packets, queuedGroup, List.map_append, List.map_map]
  rfl

/-- A frame is queued behind everything else. -/
theorem core_output_of_queues {now : Time} {ids : SenderIds} {batches : List FirstBatch}
    {s s' : PacketSenderUdp} (h : Queues now ids batches s s')
    (hrefs : ∀ frame ∈ s.queue, ∀ ref, .data ref ∈ frame.packetsInFrame → ref < s.heap.length) :
    s'.output.map (·.core) = (s.output ++ batches.flatMap (·.packets)).map (·.core) := by
  have hold : s.queue.flatMap (fun frame => frame.packetsInFrame.map s'.content)
      = s.queue.flatMap fun frame => frame.packetsInFrame.map s.content := by
    refine List.flatMap_congr fun frame hframe => List.map_congr_left fun pkt hpkt => ?_
    cases pkt with
    | data ref =>
        have hlt := hrefs frame hframe ref hpkt
        simp only [content, deref, h.heap, List.getD_eq_getElem?_getD,
          List.getElem?_append_left hlt]
    | fec pkt => rfl
  have hnew : (queuedBatches now s.heap.length batches).map s'.content
      = (batches.map (queuedGroup now)).flatMap (·.packets) := by
    have hheap : s'.heap = s.heap ++ queuedData now batches ++ [] := by
      rw [List.append_nil, h.heap]
    exact content_queuedBatches hheap
  rw [output, h.sent, h.queue, List.flatMap_append, List.flatMap_singleton, hold, queuedFrame, hnew,
    ← List.append_assoc, List.map_append, core_packets_queuedGroup, ← List.map_append]
  rfl

end PacketSenderUdp

/-! ## Runs of the server -/

namespace GameServer

open PacketSenderUdp

/-- The server has sent and queued so many frames, and they make a stream. -/
structure Streams (frames : ℕ) (g : GameServer) : Prop where
  frameId : g.frameId = .ofNat frames
  groupId : g.sender.ids.groupId = .ofNat g.sender.sendGroupCnt
  le : frames ≤ g.sender.sendGroupCnt
  refs : ∀ frame ∈ g.sender.queue, ∀ ref, .data ref ∈ frame.packetsInFrame →
    ref < g.sender.heap.length
  stream : g.sender.sendGroupCnt ≤ 2 ^ 32 → ∃ p, Stream .start g.sender.output p ∧
    p.groups = g.sender.sendGroupCnt ∧ p.cursor = ⟨frames, 0, 0⟩

theorem Streams.new (delayDdl : Time) : Streams 0 (.new delayDdl) where
  frameId := rfl
  groupId := rfl
  le := le_rfl
  refs := fun _ h => absurd h List.not_mem_nil
  stream := fun _ => ⟨.start, .nil _, rfl, rfl⟩

theorem Streams.sendPacket {frames : ℕ} {g : GameServer} (h : g.Streams frames) (now : Time) :
    Streams frames { g with sender := g.sender.sendPacket now } := by
  rcases sendPacket_pops now g.sender with hsame | hpops
  · rw [hsame]
    exact h
  · refine ⟨h.frameId, ?_, ?_, ?_, ?_⟩
    · exact hpops.ids ▸ hpops.sendGroupCnt ▸ h.groupId
    · exact hpops.sendGroupCnt ▸ h.le
    · intro frame' hframe ref href
      obtain ⟨frame, hmem, href⟩ := hpops.refs hframe href
      exact hpops.heap ▸ h.refs frame hmem ref href
    · intro hle
      rw [hpops.sendGroupCnt] at hle ⊢
      obtain ⟨p, hstream, hp⟩ := h.stream hle
      exact ⟨p, hstream.congr hpops.core_output, hp⟩

theorem Streams.sendFrame {frames : ℕ} {g : GameServer} (h : g.Streams frames) (now : Time)
    {policy : FECPolicy} (statistic : NetStat) {dataSize : UInt32} (hpos : 0 < dataSize)
    (hmax : dataSize.toNat ≤ 65535 * 1406) (hpolicy : ∀ call q, 0 < (policy call q).fecGroupSize) :
    ∃ g', g.sendFrame policy statistic now dataSize = some g' ∧ g'.Streams (frames + 1) := by
  obtain ⟨ids, batches, sender, hmade, hsend, hqueues⟩ :=
    sendFrame_queues statistic now g hpos hmax hpolicy
  have hbatches : 0 < batches.length := hmade.length_pos (framePackets_length_pos now _ hpos)
  refine ⟨_, hsend, ?_, ?_, ?_, ?_, ?_⟩
  · change g.frameId + 1 = _
    rw [h.frameId, UInt32.ofNat_add]
    rfl
  · change sender.ids.groupId = .ofNat sender.sendGroupCnt
    rw [hqueues.ids, hqueues.sendGroupCnt, hmade.ids_eq, h.groupId, UInt32.ofNat_add]
  · change frames + 1 ≤ sender.sendGroupCnt
    rw [hqueues.sendGroupCnt]
    exact Nat.add_le_add h.le hbatches
  · intro frame hframe ref href
    change ref < sender.heap.length
    rw [hqueues.heap, List.length_append]
    rcases List.mem_append.mp (hqueues.queue ▸ hframe) with hold | hnew
    · exact (h.refs frame hold ref href).trans_le (Nat.le_add_right _ _)
    · rw [List.mem_singleton.mp hnew] at href
      rw [queuedData, List.length_map]
      exact lt_of_mem_queuedBatches href
  · intro hle
    change sender.sendGroupCnt ≤ 2 ^ 32 at hle
    rw [hqueues.sendGroupCnt] at hle
    obtain ⟨p, hstream, hp, hcursor⟩ := h.stream (by omega)
    have hle' := h.le
    have hid : g.frameId.toNat = frames := by
      rw [h.frameId, UInt32.toNat_ofNat_of_lt' (by simp only [UInt32.size]; omega)]
    rw [← hp] at hle
    obtain ⟨p', hframe, hp', hcursor'⟩ := stream_frame hpos hmax hmade (hp ▸ h.groupId) hle
      (hid.symm ▸ hcursor)
    refine ⟨p', (hstream.append hframe).congr (core_output_of_queues hqueues h.refs), ?_, ?_⟩
    · exact (hp'.trans (congrArg (· + batches.length) hp)).trans hqueues.sendGroupCnt.symm
    · rw [hcursor', hid]

theorem Streams.exec {events : List ServerEvent} (hvalid : ∀ e ∈ events, e.Valid) {frames : ℕ}
    {g : GameServer} (h : g.Streams frames) :
    ∃ g', Run.exec step g events = some g' ∧ g'.Streams (frames + frameCount events) := by
  induction events generalizing frames g with
  | nil => exact ⟨g, rfl, h⟩
  | cons e events ih =>
      obtain ⟨hfirst, hrest⟩ := List.forall_mem_cons.mp hvalid
      cases e with
      | sendFrame now policy statistic dataSize =>
          obtain ⟨hpos, hmax, hpolicy⟩ := hfirst
          obtain ⟨g₁, hsend, h₁⟩ := h.sendFrame now statistic hpos hmax hpolicy
          obtain ⟨g', hrun, h'⟩ := ih hrest h₁
          refine ⟨g', Run.exec_cons_eq_some.mpr ⟨g₁, hsend, hrun⟩, ?_⟩
          rw [frameCount, List.countP_cons_of_pos rfl, add_comm (List.countP _ _), ← add_assoc]
          exact h'
      | sendPacket now =>
          obtain ⟨g', hrun, h'⟩ := ih hrest (h.sendPacket now)
          refine ⟨g', Run.exec_cons_eq_some.mpr ⟨_, rfl, hrun⟩, ?_⟩
          rw [frameCount, List.countP_cons_of_neg (by simp)]
          exact h'

end GameServer

/-! ## What the receiver plays -/

/-- The frames played so far, in order, each of them whole and none of them discarded. -/
structure VideoDecoder.Played (ids : List UInt32) (d : VideoDecoder) : Prop where
  playedIds : d.playedIds = ids
  nodup : ids.Nodup
  keys : ∀ k, k ∈ d.playedFrames ↔ k ∈ ids
  whole : ∀ k v, d.playedFrames.lookup k = some v → ∃ frame, v = some frame ∧ frame.isComplete
  kept : ∀ k, .discard k ∉ d.log

theorem VideoDecoder.InOrder.played {c : FrameCursor} {d : VideoDecoder} (h : d.InOrder c) :
    d.Played ((List.range c.frame).map .ofNat) where
  playedIds := h.playback.ids
  nodup := h.playback.ids ▸ h.playback.nodup_playedIds
  keys := by
    intro k
    rw [h.playback.keys, List.mem_map]
    constructor
    · exact fun hk => ⟨k.toNat, List.mem_range.mpr hk, UInt32.ofNat_toNat⟩
    · rintro ⟨n, hn, rfl⟩
      have hlt := List.mem_range.mp hn
      rwa [toNat_ofNat (hlt.trans_le h.playback.le)]
  whole := h.whole
  kept := h.kept

/-- The packet arrives, at any time. -/
def Arrives (pkt : VideoPacket) (a : Arrival) : Prop :=
  ∃ rcvTime, a.pkt = pkt.received.setRcvTime rcvTime

theorem core_of_arrives {pkts : List VideoPacket} {arrivals : List Arrival}
    (h : List.Forall₂ Arrives pkts arrivals) :
    (arrivals.map (·.pkt)).map (·.core) = pkts.map (·.core) := by
  induction h with
  | nil => rfl
  | cons hfirst _ ih =>
      obtain ⟨rcvTime, ha⟩ := hfirst
      simp only [List.map_cons, ih, ha, VideoPacket.core_received]

/-- Whatever part of what the server has sent arrived so far: the frames whose last data packet
arrived were played, in the order in which they were sent. -/
structure GameServer.PlaysInOrder (delayDdl : Time) (fps : UInt16) (frames : ℕ) (g : GameServer) :
    Prop where
  plays : ∀ pkts arrivals, pkts <+: g.sender.sent → List.Forall₂ Arrives pkts arrivals →
    ∃ r, Run.exec PacketReceiverUdp.receiveUdpPacket (.new delayDdl fps) arrivals = some r ∧
      r.decoder.Played (finishedFrames pkts)
  inOrder : ∀ pkts, pkts <+: g.sender.sent →
    finishedFrames pkts <+: (List.range frames).map .ofNat
  all : g.sender.queue = [] → finishedFrames g.sender.sent = (List.range frames).map .ofNat

theorem GameServer.Streams.playsInOrder {delayDdl : Time} {fps : UInt16} {frames : ℕ}
    {g : GameServer} (h : g.Streams frames) (hinterval : 1000 / fps ≠ 0)
    (hdeadline : ((1000 / fps : UInt16).toNat : Int) ≤ delayDdl.getMilliSeconds)
    (hgroups : g.sender.sendGroupCnt ≤ 2 ^ 32) : g.PlaysInOrder delayDdl fps frames := by
  obtain ⟨p, hstream, -, hcursor⟩ := h.stream hgroups
  have hfinished : finishedFrames g.sender.output = (List.range frames).map .ofNat := by
    obtain ⟨n, hn, hall⟩ := hstream.finishedFrames_eq
    have hframes : frames = n := by
      rw [hcursor] at hn
      exact hn.trans (zero_add n)
    rw [hall, hframes, List.range_eq_range']
    rfl
  have houtput : g.sender.sent <+: g.sender.output := List.prefix_append _ _
  refine ⟨?_, ?_, ?_⟩
  · intro pkts arrivals hpkts harrive
    obtain ⟨rest, hrest⟩ := hpkts.trans houtput
    obtain ⟨q, hfirst, -⟩ := Stream.of_append (hrest ▸ hstream)
    obtain ⟨r, hrun, hr⟩ := (PacketReceiverUdp.InOrder.new hinterval hdeadline).exec
      (hfirst.congr (core_of_arrives harrive)) rfl
    refine ⟨r, hrun, ?_⟩
    obtain ⟨n, hn, hids⟩ := hfirst.finishedFrames_eq
    have hplayed := hr.decoder.played
    rw [hn] at hplayed
    rw [hids]
    simpa [Place.start, List.range_eq_range'] using hplayed
  · intro pkts hpkts
    rw [← hfinished]
    exact (hpkts.trans houtput).filterMap _
  · intro hqueue
    rw [← hfinished, PacketSenderUdp.output, hqueue, List.flatMap_nil, List.append_nil]

/-- Sending composed with receiving is the identity on frames, if the deadline is at least a
frame interval and the 32-bit numbers of the groups do not come round. -/
theorem frames_played_in_order {senderDdl delayDdl : Time} {fps : UInt16}
    (hinterval : 1000 / fps ≠ 0)
    (hdeadline : ((1000 / fps : UInt16).toNat : Int) ≤ delayDdl.getMilliSeconds)
    {events : List ServerEvent} (hvalid : ∀ e ∈ events, e.Valid) :
    ∃ g, Run.exec GameServer.step (.new senderDdl) events = some g ∧
      (g.sender.sendGroupCnt ≤ 2 ^ 32 →
        g.PlaysInOrder delayDdl fps (frameCount events)) := by
  obtain ⟨g, hrun, h⟩ := (GameServer.Streams.new senderDdl).exec hvalid
  rw [zero_add] at h
  exact ⟨g, hrun, h.playsInOrder hinterval hdeadline⟩

/-- A frame of two packets is sent. -/
def twoPacketEvents : List ServerEvent :=
  [.sendFrame 0 PacketSenderUdp.singlePolicy PacketSenderUdp.quietStat 1407, .sendPacket 0,
    .sendPacket 0]

theorem twoPacketEvents_valid : ∀ e ∈ twoPacketEvents, e.Valid := by
  simp only [twoPacketEvents, List.forall_mem_cons]
  exact ⟨⟨by decide, by decide, fun _ _ => (by decide : (0 : UInt16) < 1)⟩, trivial, trivial, nofun⟩

theorem frames_played_in_order_twoPackets :
    ∃ g, Run.exec GameServer.step (.new 0) twoPacketEvents = some g ∧
      (g.sender.sendGroupCnt ≤ 2 ^ 32 → g.PlaysInOrder (.milliSeconds 100) 60 1) :=
  frames_played_in_order (by decide) (by decide) twoPacketEvents_valid

/-- The packet arrives at once. -/
def arrival (pkt : VideoPacket) : Arrival := ⟨0, 0, pkt.received.setRcvTime 0⟩

/-- With a deadline of 10 ms and a frame every 16 ms, the decoder discards the frame that the
first packet to arrive belongs to. -/
theorem frames_not_played_in_order :
    ¬ ∀ (senderDdl delayDdl : Time) (fps : UInt16) (events : List ServerEvent),
      (∀ e ∈ events, e.Valid) → ∃ g, Run.exec GameServer.step (.new senderDdl) events = some g ∧
        g.PlaysInOrder delayDdl fps (frameCount events) := by
  intro hclaim
  obtain ⟨g, hrun, hplays⟩ := hclaim 0 (.milliSeconds 10) 60 twoPacketEvents twoPacketEvents_valid
  obtain ⟨g', hrun', r', hexec', hdiscard⟩ : ∃ g', Run.exec GameServer.step (.new 0) twoPacketEvents
      = some g' ∧ ∃ r', Run.exec PacketReceiverUdp.receiveUdpPacket (.new (.milliSeconds 10) 60)
        (g'.sender.sent.map arrival) = some r' ∧ .discard 0 ∈ r'.decoder.log := by
    decide +kernel
  cases hrun.symm.trans hrun'
  obtain ⟨r, hexec, hplayed⟩ := hplays.plays g.sender.sent (g.sender.sent.map arrival)
    (List.prefix_refl _)
    (List.forall₂_map_right_iff.mpr (List.forall₂_same.mpr fun pkt _ => ⟨0, rfl⟩))
  cases hexec.symm.trans hexec'
  exact hplayed.kept 0 hdiscard

end Zhuge
