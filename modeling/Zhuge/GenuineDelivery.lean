-- SUMMARY: A receiver that gets packets of one sender hands out and acknowledges packets of that sender only.
import Zhuge.AckReply
import Zhuge.GroupClasses
import Zhuge.GroupDelivery
import Zhuge.SentNames

/-!
# Genuine delivery

What comes out of a group is the packet that arrived, or a digest of an FEC packet that arrived
in the same group. Both speak of packets of the sender, and so does every acknowledgement.
-/

namespace Zhuge

/-- The packet is one of those with the names, or speaks of them, and its time meets `Q`. -/
def VideoPacket.Vouched (Q : Time → Prop) (names : List PktName) : VideoPacket → Prop
  | .data pkt | .dupFec pkt => Q pkt.encodeTime ∧ pkt.name ∈ names
  | .fec pkt => Q pkt.encodeTime ∧ pkt.Speaks names

/-- The trip over the wire changes none of what a packet says. -/
theorem VideoPacket.Vouched.received {Q : Time → Prop} (hQ : ∀ t, Q t → Q t.truncMilli)
    {names : List PktName} {pkt : VideoPacket} (h : pkt.Vouched Q names) (rcvTime : Time) :
    (pkt.received.setRcvTime rcvTime).Vouched Q names := by
  cases pkt with
  | data pkt => exact ⟨hQ _ h.1, h.2⟩
  | dupFec pkt => exact ⟨hQ _ h.1, h.2⟩
  | fec fec => exact ⟨hQ _ h.1, h.2.length_le, h.2.digests⟩

/-! ## One group -/

namespace PacketGroup

variable {Q : Time → Prop} {names : List PktName} {g g' : PacketGroup} {pkt : VideoPacket}
  {now : Time} {pick : ℕ} {out : List DataPacket}

/-- The FEC packets of the group belong to it and speak of packets with these names. -/
def Speaks (Q : Time → Prop) (names : List PktName) (g : PacketGroup) : Prop :=
  g.KeepsFec fun fec => fec.groupId = g.groupId ∧ Q fec.encodeTime ∧ fec.Speaks names

theorem Speaks.mono {names' : List PktName} (h : g.Speaks Q names) (hsub : names ⊆ names') :
    g.Speaks Q names' := fun k b hb i fec hfec => by
  obtain ⟨hid, htime, hspeaks⟩ := h k b hb i fec hfec
  exact ⟨hid, htime, hspeaks.mono hsub⟩

theorem fecMeets_of_vouched (hpkt : pkt.Vouched Q names) (hgroup : pkt.header.groupId = g.groupId) :
    pkt.FecMeets fun fec => fec.groupId = g.groupId ∧ Q fec.encodeTime ∧ fec.Speaks names := by
  cases pkt with
  | data pkt => trivial
  | dupFec pkt => trivial
  | fec fec => exact ⟨hgroup, hpkt⟩

theorem Speaks.receive (h : g.Speaks Q names) (hpkt : pkt.Vouched Q names)
    (hgroup : pkt.header.groupId = g.groupId) (hreceive : g.receive now pick pkt = some (out, g')) :
    g'.Speaks Q names := by
  unfold Speaks
  rw [(receive_eq_some hreceive).1.groupId]
  exact KeepsFec.receive h (fecMeets_of_vouched hpkt hgroup) hreceive

/-- What comes out: the packet that arrived, perhaps, and what one FEC packet of the group stands
in for. -/
theorem Quiet.out_eq (hquiet : g.Quiet) {P : FECPacket → Prop} (hfec : g.KeepsFec P)
    (hpkt : pkt.FecMeets P) (h : g.receive now pick pkt = some (out, g')) :
    ∃ waiting recovered, out = waiting ++ recovered ∧
      (waiting = [] ∨ ∃ q, waiting = [q] ∧ pkt.IsData q) ∧
      (recovered = [] ∨ ∃ fec, P fec ∧ recovered.length ≤ fec.dataPkts.length ∧
        ∀ p ∈ recovered, p.encodeTime = fec.encodeTime ∧
          ∃ d ∈ fec.dataPkts, p.name = ⟨g.groupId, d.origin⟩) := by
  obtain ⟨-, ⟨-, hout, -⟩ | ⟨huseful, b, complete, b', hb, hcheck, hout, -⟩⟩ := receive_eq_some h
  · rw [hquiet.undecoded] at hout
    exact ⟨[], [], hout, .inl rfl, .inl rfl⟩
  · have hwaiting := undecodedPkts_batchWith (fun k b hk => (hquiet.batches k b hk).1) hb
    rw [hquiet.undecoded, List.nil_append] at hout
    obtain ⟨-, -, rfl⟩ | ⟨-, -, rfl⟩ | ⟨-, -, -, fec, hpick, rfl⟩ :=
      PacketBatch.checkComplete_eq_some hcheck
    · exact ⟨b'.undecodedPkts, [], hout.trans (List.append_nil _).symm, hwaiting, .inl rfl⟩
    · exact ⟨b'.undecodedPkts, [], hout.trans (List.append_nil _).symm, hwaiting, .inl rfl⟩
    · have hlookup := Dict.lookup_of_mem_entries (List.mem_of_getElem? hpick)
      refine ⟨b.undecodedPkts, _, hout, hwaiting,
        .inr ⟨fec.2, hfec.batchWith hpkt hb _ _ hlookup, ?_, fun p hp => ?_⟩⟩
      · rw [PacketBatch.recovered, List.length_map]
        exact List.length_filter_le _ _
      · obtain ⟨d, hd, rfl⟩ := List.mem_map.mp hp
        refine ⟨rfl, d, (List.mem_filter.mp hd).1, ?_⟩
        rw [DataPacket.name, PacketBatch.ofDigest_origin, PacketBatch.ofDigest_groupId]
        exact congrArg (PktName.mk · d.origin) (recordPacket_groupId pkt g)

/-- Only packets with the names come out, and not more than an acknowledgement can hold. -/
theorem Quiet.out_genuine (hquiet : g.Quiet) (hspeaks : g.Speaks Q names)
    (hpkt : pkt.Vouched Q names) (hgroup : pkt.header.groupId = g.groupId)
    (h : g.receive now pick pkt = some (out, g')) :
    (∀ p ∈ out, Q p.encodeTime ∧ p.name ∈ names) ∧ out.length ≤ 65536 := by
  obtain ⟨waiting, recovered, rfl, hwaiting, hrecovered⟩ :=
    hquiet.out_eq hspeaks (fecMeets_of_vouched hpkt hgroup) h
  have hfirst : (∀ p ∈ waiting, Q p.encodeTime ∧ p.name ∈ names) ∧ waiting.length ≤ 1 := by
    rcases hwaiting with rfl | ⟨q, rfl, hq⟩
    · exact ⟨List.forall_mem_nil _, Nat.zero_le _⟩
    · refine ⟨List.forall_mem_singleton.mpr ?_, le_rfl⟩
      cases pkt with
      | data pkt => rw [show q = pkt from hq]; exact hpkt
      | dupFec pkt => rw [show q = pkt from hq]; exact hpkt
      | fec fec => exact hq.elim
  have hrest : (∀ p ∈ recovered, Q p.encodeTime ∧ p.name ∈ names) ∧ recovered.length ≤ 65535 := by
    rcases hrecovered with rfl | ⟨fec, ⟨hid, htime, hspeaks⟩, hlen, hall⟩
    · exact ⟨List.forall_mem_nil _, Nat.zero_le _⟩
    · refine ⟨fun p hp => ?_, hlen.trans hspeaks.length_le⟩
      obtain ⟨hencode, d, hd, hname⟩ := hall p hp
      rw [hencode, hname, ← hid]
      exact ⟨htime, hspeaks.digests d hd⟩
  refine ⟨List.forall_mem_append.mpr ⟨hfirst.1, hrest.1⟩, ?_⟩
  have := hfirst.2
  have := hrest.2
  rw [List.length_append]
  omega

end PacketGroup

/-! ## The receiver -/

namespace PacketReceiverUdp

variable {Q : Time → Prop} {names : List PktName} {r r' : PacketReceiverUdp} {a : Arrival}

/-- All that the receiver holds, handed over and acknowledged is of packets with these names. -/
structure Faithful (Q : Time → Prop) (names : List PktName) (r : PacketReceiverUdp) : Prop where
  quiet : r.Quiet
  keys : r.KeyedById
  groups : ∀ k g, r.incompleteGroups.lookup k = some g → g.Speaks Q names
  handed : ∀ pkt ∈ r.handed, Q pkt.encodeTime ∧ pkt.name ∈ names
  acks : ∀ ack ∈ r.acks, ack.pktInfos.length ≤ 65536 ∧
    ∀ info ∈ ack.pktInfos, ∃ pkt ∈ r.handed, pkt.groupInfo = info

theorem Faithful.new (delayDdl : Time) (fps : UInt16) : (new delayDdl fps).Faithful Q names where
  quiet := .new delayDdl fps
  keys := .new delayDdl fps
  groups := fun _ _ h => by cases h
  handed := fun _ h => by cases h
  acks := fun _ h => by cases h

theorem Faithful.mono {names' : List PktName} (h : r.Faithful Q names) (hsub : names ⊆ names') :
    r.Faithful Q names' :=
  { h with
    groups := fun k g hg => (h.groups k g hg).mono hsub
    handed := fun pkt hpkt => ⟨(h.handed pkt hpkt).1, hsub (h.handed pkt hpkt).2⟩ }

theorem Faithful.groupOf (h : r.Faithful Q names) (pkt : VideoPacket) :
    (r.groupOf pkt).Speaks Q names := by
  unfold PacketReceiverUdp.groupOf
  cases hlookup : r.incompleteGroups.lookup pkt.header.groupId with
  | none => exact PacketGroup.KeepsFec.new _ _ _
  | some g => exact h.groups _ g hlookup

theorem Faithful.step (h : r.Faithful Q names) (hpkt : a.pkt.Vouched Q names)
    (hstep : r.receiveUdpPacket a = some r') : r'.Faithful Q names := by
  obtain ⟨out, group, hreceive, -, hhanded, hacks⟩ := receiveUdpPacket_output hstep
  have hid : a.pkt.header.groupId = (r.groupOf a.pkt).groupId := (h.keys.groupOf a.pkt).symm
  obtain ⟨hgenuine, hlength⟩ :=
    (h.quiet.groupOf a.pkt).out_genuine (h.groupOf a.pkt) hpkt hid hreceive
  refine ⟨h.quiet.step hstep, h.keys.step hstep, ?_, ?_, ?_⟩
  · intro k g hk
    obtain ⟨out', group', decoder, hreceive', -, rfl⟩ := receiveUdpPacket_eq_some.mp hstep
    have hinsert := lookup_fileGroups hk
    simp only [beforeFiling, Dict.lookup_insert_eq] at hinsert
    split at hinsert
    · cases hinsert
      exact (h.groupOf a.pkt).receive hpkt hid hreceive'
    · exact h.groups k g hinsert
  · rw [hhanded]
    exact List.forall_mem_append.mpr ⟨h.handed, hgenuine⟩
  · rw [hacks, hhanded]
    intro ack hack
    rcases List.mem_append.mp hack with hack | hack
    · obtain ⟨hlen, hinfos⟩ := h.acks ack hack
      refine ⟨hlen, fun info hinfo => ?_⟩
      obtain ⟨pkt, hmem, heq⟩ := hinfos info hinfo
      exact ⟨pkt, List.mem_append_left _ hmem, heq⟩
    · rw [List.mem_singleton.mp hack]
      refine ⟨by rwa [ackFor, List.length_map], fun info hinfo => ?_⟩
      obtain ⟨pkt, hmem, heq⟩ := List.mem_map.mp hinfo
      exact ⟨pkt, List.mem_append_right _ hmem, heq⟩

end PacketReceiverUdp

end Zhuge
