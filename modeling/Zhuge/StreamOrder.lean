-- SUMMARY: A receiver that gets a stream of frames in sending order hands over every data packet as it arrives, and plays every frame at its last one.
import Zhuge.AckReply
import Zhuge.FrameOrder
import Zhuge.GroupOrder

/-!
# Streams in order

A stream goes through the frames, and through the groups of each frame; in a group the data
packets come first. How far it has come is all that the receiver's state depends on, apart
from the groups that timed out in between.
-/

namespace Zhuge

/-! ## Streams -/

/-- How far a stream has come. -/
structure Place where
  cursor : FrameCursor
  /-- The number of groups begun, the one under way included. -/
  groups : ℕ
  groupDataNum : UInt16
  /-- The data packets of this group that came: how many, and which. -/
  inGroup : ℕ
  origins : Finset PktOrigin

namespace Place

def start : Place := ⟨⟨0, 0, 0⟩, 0, 0, 0, ∅⟩

def beginGroup (groupDataNum : UInt16) (p : Place) : Place :=
  { p with
    groups := p.groups + 1
    groupDataNum := groupDataNum
    inGroup := 0
    origins := ∅ }

def advance (pkt : DataPacket) (p : Place) : Place :=
  { p with
    cursor := p.cursor.advance pkt
    inGroup := p.inGroup + 1
    origins := insert pkt.origin p.origins }

end Place

/-- The packet belongs to the group under way. -/
structure Place.SameGroup (p : Place) (h : VideoPacketHeader) : Prop where
  groupId : h.groupId.toNat + 1 = p.groups
  groupDataNum : h.groupDataNum = p.groupDataNum

/-- The packets lead from one place to another. -/
inductive Stream : Place → List VideoPacket → Place → Prop
  | nil (p : Place) : Stream p [] p
  | group {p p' : Place} {pkts : List VideoPacket} (groupDataNum : UInt16)
      (hrest : Stream (p.beginGroup groupDataNum) pkts p') : Stream p pkts p'
  | data {p p' : Place} {pkt : DataPacket} {pkts : List VideoPacket} (hframe : p.cursor.Next pkt)
      (hgroup : p.SameGroup pkt.toVideoPacketHeader) (hat : pkt.At p.groupDataNum p.inGroup)
      (hrest : Stream (p.advance pkt) pkts p') : Stream p (.data pkt :: pkts) p'
  | fec {p p' : Place} {pkt : FECPacket} {pkts : List VideoPacket}
      (hfull : p.inGroup = p.groupDataNum.toNat) (hgroup : p.SameGroup pkt.toVideoPacketHeader)
      (hbatch : 0 < pkt.batchDataNum) (hgenuine : pkt.Genuine p.origins)
      (hrest : Stream p pkts p') : Stream p (.fec pkt :: pkts) p'

namespace Stream

variable {p p' q : Place} {pkts pkts' : List VideoPacket}

theorem append (h : Stream p pkts p') (h' : Stream p' pkts' q) : Stream p (pkts ++ pkts') q := by
  induction h with
  | nil p => exact h'
  | group groupDataNum _ ih => exact .group groupDataNum (ih h')
  | data hframe hgroup hat _ ih => exact .data hframe hgroup hat (ih h')
  | fec hfull hgroup hbatch hgenuine _ ih => exact .fec hfull hgroup hbatch hgenuine (ih h')

/-- A stream can be broken off anywhere. -/
theorem of_append (h : Stream p (pkts ++ pkts') q) :
    ∃ p', Stream p pkts p' ∧ Stream p' pkts' q := by
  generalize hall : pkts ++ pkts' = all at h
  induction h generalizing pkts with
  | nil p =>
      obtain ⟨rfl, rfl⟩ := List.append_eq_nil_iff.mp hall
      exact ⟨p, .nil p, .nil p⟩
  | group groupDataNum _ ih =>
      obtain ⟨p', hfirst, hrest⟩ := ih hall
      exact ⟨p', .group groupDataNum hfirst, hrest⟩
  | @data p p' pkt rest hframe hgroup hat hstream ih =>
      cases pkts with
      | nil =>
          rw [List.nil_append] at hall
          exact ⟨p, .nil p, hall ▸ .data hframe hgroup hat hstream⟩
      | cons first pkts =>
          obtain ⟨rfl, hrest⟩ := List.cons_eq_cons.mp hall
          obtain ⟨p', hfirst, hrest⟩ := ih hrest
          exact ⟨p', .data hframe hgroup hat hfirst, hrest⟩
  | @fec p p' pkt rest hfull hgroup hbatch hgenuine hstream ih =>
      cases pkts with
      | nil =>
          rw [List.nil_append] at hall
          exact ⟨p, .nil p, hall ▸ .fec hfull hgroup hbatch hgenuine hstream⟩
      | cons first pkts =>
          obtain ⟨rfl, hrest⟩ := List.cons_eq_cons.mp hall
          obtain ⟨p', hfirst, hrest⟩ := ih hrest
          exact ⟨p', .fec hfull hgroup hbatch hgenuine hfirst, hrest⟩

end Stream

/-! ## Frames that are finished -/

/-- The frame that the packet is the last data packet of. -/
def VideoPacket.finishes : VideoPacket → Option UInt32
  | .data pkt =>
    if pkt.pktIdInFrame.toNat + 1 = pkt.framePktNum.toNat then some pkt.frameId else none
  | .dupFec _ | .fec _ => none

/-- The frames whose last data packet is among the packets, in order. -/
def finishedFrames (pkts : List VideoPacket) : List UInt32 := pkts.filterMap (·.finishes)

theorem finishedFrames_cons_some {pkt : VideoPacket} {frameId : UInt32}
    (h : pkt.finishes = some frameId) (pkts : List VideoPacket) :
    finishedFrames (pkt :: pkts) = frameId :: finishedFrames pkts :=
  List.filterMap_cons_some h

theorem finishedFrames_cons_none {pkt : VideoPacket} (h : pkt.finishes = none)
    (pkts : List VideoPacket) : finishedFrames (pkt :: pkts) = finishedFrames pkts :=
  List.filterMap_cons_none h

/-- The frames of a stream are finished in order. -/
theorem Stream.finishedFrames_eq {p p' : Place} {pkts : List VideoPacket} (h : Stream p pkts p') :
    ∃ n, p'.cursor.frame = p.cursor.frame + n ∧
      finishedFrames pkts = (List.range' p.cursor.frame n).map .ofNat := by
  induction h with
  | nil p => exact ⟨0, rfl, rfl⟩
  | group _ _ ih => exact ih
  | @data p p' pkt pkts hframe _ _ _ ih =>
      obtain ⟨n, hn, hrest⟩ := ih
      have hid : pkt.frameId = .ofNat p.cursor.frame := by
        rw [← hframe.frameId, UInt32.ofNat_toNat]
      by_cases hlast : pkt.pktIdInFrame.toNat + 1 = pkt.framePktNum.toNat
      · have hcursor : (p.advance pkt).cursor = ⟨p.cursor.frame + 1, 0, 0⟩ := if_pos hlast
        rw [hcursor] at hn hrest
        refine ⟨n + 1, by rw [hn, add_assoc, add_comm 1], ?_⟩
        have hfinishes : (VideoPacket.data pkt).finishes = some pkt.frameId := if_pos hlast
        rw [finishedFrames_cons_some hfinishes, hrest, List.range'_succ, List.map_cons, hid]
      · have hcursor : (p.advance pkt).cursor
            = ⟨p.cursor.frame, p.cursor.inFrame + 1, pkt.framePktNum⟩ := if_neg hlast
        rw [hcursor] at hn hrest
        refine ⟨n, hn, ?_⟩
        have hfinishes : (VideoPacket.data pkt).finishes = none := if_neg hlast
        rw [finishedFrames_cons_none hfinishes, hrest]
  | fec _ _ _ _ _ ih => exact ih

/-! ## The receiver -/

namespace PacketReceiverUdp

variable {p p' : Place} {r r' : PacketReceiverUdp} {a : Arrival}

/-- What the receiver may hold of the group under way. -/
def Holds (p : Place) (groupId : UInt32) (g : PacketGroup) : Prop :=
  (∃ emitted, g.Sound groupId p.origins p.groupDataNum emitted) ∧
    (p.inGroup < p.groupDataNum.toNat → g.Filling p.groupDataNum p.inGroup)

/-- The receiver has got the stream up to this place. -/
structure InOrder (p : Place) (r : PacketReceiverUdp) : Prop where
  decoder : r.decoder.InOrder p.cursor
  past : ∀ o ∈ p.origins, p.cursor.Past o.frameId o.pktIdInFrame
  groups : ∀ k g, r.incompleteGroups.lookup k = some g → k.toNat < p.groups
  current : ∀ k g, r.incompleteGroups.lookup k = some g → k.toNat + 1 = p.groups → Holds p k g

theorem InOrder.new {delayDdl : Time} {fps : UInt16} (hinterval : 1000 / fps ≠ 0)
    (hdeadline : ((1000 / fps : UInt16).toNat : Int) ≤ delayDdl.getMilliSeconds) :
    InOrder .start (.new delayDdl fps) where
  decoder := .new hinterval hdeadline
  past := fun _ h => absurd h (Finset.notMem_empty _)
  groups := fun _ _ h => by cases h
  current := fun _ _ h => by cases h

theorem InOrder.beginGroup (h : InOrder p r) (groupDataNum : UInt16) :
    InOrder (p.beginGroup groupDataNum) r where
  decoder := h.decoder
  past := fun _ h => absurd h (Finset.notMem_empty _)
  groups := fun k g hk => Nat.lt_succ_of_lt (h.groups k g hk)
  current := fun k g hk hlast => absurd (h.groups k g hk) (by
    have hlast : k.toNat + 1 = p.groups + 1 := hlast
    omega)

/-- The group that a packet of the group under way is added to. -/
theorem InOrder.groupOf (h : InOrder p r) {pkt : VideoPacket} (hgroup : p.SameGroup pkt.header) :
    Holds p pkt.header.groupId (r.groupOf pkt) := by
  unfold PacketReceiverUdp.groupOf
  cases hlookup : r.incompleteGroups.lookup pkt.header.groupId with
  | none =>
      refine ⟨⟨[], ?_⟩, fun _ => .new _ _ _⟩
      rw [hgroup.groupDataNum]
      exact .new _ _
  | some g => exact h.current _ g hlookup hgroup.groupId

/-- The receiver's step, once it is known what the group and the decoder do. -/
theorem InOrder.step (h : InOrder p r) (hgroup : p.SameGroup a.pkt.header)
    {out : List DataPacket} {g : PacketGroup} {decoder : VideoDecoder}
    (hreceive : (r.groupOf a.pkt).receive a.now a.pick a.pkt = some (out, g))
    (hdecode : r.decoder.decodeDataPacket out = some decoder)
    (hgroups : p'.groups = p.groups) (hdecoder : decoder.InOrder p'.cursor)
    (hpast : ∀ o ∈ p'.origins, p'.cursor.Past o.frameId o.pktIdInFrame)
    (hholds : Holds p' a.pkt.header.groupId g) :
    ∃ r', r.receiveUdpPacket a = some r' ∧ InOrder p' r' := by
  refine ⟨_, receiveUdpPacket_eq_some.mpr ⟨out, g, decoder, hreceive, hdecode, rfl⟩, ?_, hpast,
    ?_, ?_⟩
  · rw [(sameOutput_fileGroups ..).decoder]
    exact hdecoder
  · intro k g' hk
    have hinsert := lookup_fileGroups hk
    rw [beforeFiling, Dict.lookup_insert_eq] at hinsert
    rw [hgroups]
    split at hinsert
    case isTrue heq =>
      rw [heq, ← hgroup.groupId]
      exact Nat.lt_succ_self _
    case isFalse => exact h.groups k g' hinsert
  · intro k g' hk hlast
    have hinsert := lookup_fileGroups hk
    rw [beforeFiling, Dict.lookup_insert_eq] at hinsert
    split at hinsert
    case isTrue heq =>
      cases hinsert
      rw [heq]
      exact hholds
    case isFalse hne =>
      -- the group under way is the one of the packet
      rw [hgroups, ← hgroup.groupId] at hlast
      exact absurd (UInt32.toNat_inj.mp (Nat.succ.inj hlast)) hne

/-- A data packet is handed over as it arrives. -/
theorem InOrder.data (h : InOrder p r) (now : Time) (pick : ℕ) {pkt : DataPacket}
    (hframe : p.cursor.Next pkt) (hgroup : p.SameGroup pkt.toVideoPacketHeader)
    (hat : pkt.At p.groupDataNum p.inGroup) :
    ∃ r', r.receiveUdpPacket ⟨now, pick, .data pkt⟩ = some r' ∧ InOrder (p.advance pkt) r' := by
  have hheader : p.SameGroup (VideoPacket.data pkt).header := hgroup
  obtain ⟨⟨emitted, hsound⟩, hfilling⟩ := h.groupOf hheader
  have hgenuine : (VideoPacket.data pkt).Genuine pkt.groupId (insert pkt.origin p.origins) := by
    refine ⟨?_, rfl, Finset.mem_insert_self _ _⟩
    change 0 < pkt.batchDataNum
    rw [hat.batchDataNum, UInt16.lt_iff_toNat_lt]
    exact Nat.zero_lt_of_lt hat.lt
  obtain ⟨out, g, hreceive, hsound'⟩ :=
    (hsound.mono (Finset.subset_insert pkt.origin p.origins)).receive now pick hgenuine
  obtain ⟨rfl, hnext⟩ := (hfilling hat.lt).receive hat hreceive
  obtain ⟨decoder, hstep, hdecoder⟩ := h.decoder.next hframe
  have hdecode : r.decoder.decodeDataPacket [pkt] = some decoder :=
    Run.exec_cons_eq_some.mpr ⟨decoder, hstep, rfl⟩
  refine h.step hheader hreceive hdecode rfl hdecoder ?_ ⟨⟨_, hsound'⟩, hnext⟩
  intro o ho
  rcases Finset.mem_insert.mp ho with rfl | ho
  · exact hframe.past_advance
  · exact (h.past o ho).advance pkt

/-- An FEC packet brings nothing new. -/
theorem InOrder.fec (h : InOrder p r) (now : Time) (pick : ℕ) {pkt : FECPacket}
    (hfull : p.inGroup = p.groupDataNum.toNat) (hgroup : p.SameGroup pkt.toVideoPacketHeader)
    (hbatch : 0 < pkt.batchDataNum) (hgenuine : pkt.Genuine p.origins) :
    ∃ r', r.receiveUdpPacket ⟨now, pick, .fec pkt⟩ = some r' ∧ InOrder p r' := by
  have hheader : p.SameGroup (VideoPacket.fec pkt).header := hgroup
  have hgenuine' : (VideoPacket.fec pkt).Genuine pkt.groupId p.origins := ⟨hbatch, hgenuine⟩
  obtain ⟨⟨emitted, hsound⟩, -⟩ := h.groupOf hheader
  obtain ⟨out, g, hreceive, hsound'⟩ := hsound.receive now pick hgenuine'
  have hpast : ∀ pkt ∈ out, p.cursor.Past pkt.frameId pkt.pktIdInFrame := fun pkt hpkt =>
    h.past _ (hsound'.genuine pkt (List.mem_append_right _ hpkt)).2
  obtain ⟨decoder, hdecode, hdecoder⟩ := h.decoder.pasts hpast
  exact h.step hheader hreceive hdecode rfl hdecoder h.past
    ⟨⟨_, hsound'⟩, fun hlt => absurd hfull hlt.ne⟩

/-- A stream arrives without loss. -/
theorem InOrder.exec (h : InOrder p r) {pkts : List VideoPacket} (hstream : Stream p pkts p')
    {arrivals : List Arrival} (harrive : arrivals.map (·.pkt) = pkts) :
    ∃ r', Run.exec receiveUdpPacket r arrivals = some r' ∧ InOrder p' r' := by
  induction hstream generalizing r arrivals with
  | nil p =>
      obtain rfl := List.map_eq_nil_iff.mp harrive
      exact ⟨r, rfl, h⟩
  | group groupDataNum _ ih => exact ih (h.beginGroup groupDataNum) harrive
  | data hframe hgroup hat _ ih =>
      obtain ⟨⟨now, pick, pkt⟩, arrivals, rfl, rfl, hrest⟩ := List.map_eq_cons_iff.mp harrive
      obtain ⟨r₁, hstep, h₁⟩ := h.data now pick hframe hgroup hat
      obtain ⟨r', hrun, h'⟩ := ih h₁ hrest
      exact ⟨r', Run.exec_cons_eq_some.mpr ⟨r₁, hstep, hrun⟩, h'⟩
  | fec hfull hgroup hbatch hgenuine _ ih =>
      obtain ⟨⟨now, pick, pkt⟩, arrivals, rfl, rfl, hrest⟩ := List.map_eq_cons_iff.mp harrive
      obtain ⟨r₁, hstep, h₁⟩ := h.fec now pick hfull hgroup hbatch hgenuine
      obtain ⟨r', hrun, h'⟩ := ih h₁ hrest
      exact ⟨r', Run.exec_cons_eq_some.mpr ⟨r₁, hstep, hrun⟩, h'⟩

end PacketReceiverUdp

end Zhuge
