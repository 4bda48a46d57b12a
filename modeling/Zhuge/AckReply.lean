-- SUMMARY: Which arriving data packets the reply acknowledges: those that their group and their batch have not decoded yet.
import Zhuge.GroupRecovery
import Zhuge.PktHistory
import Zhuge.Receiver

/-!
# Replies to data packets

The receiver acknowledges what an arriving packet makes available. A packet that arrives a
second time while its group is incomplete makes nothing available, so the reply is empty.
-/

namespace Zhuge

/-- The group and the batch have not decoded the packet's ids. -/
def PacketGroup.Takes (g : PacketGroup) (pkt : DataPacket) : Prop :=
  pkt.batchId ∉ g.completeBatches ∧ pkt.pktIdInGroup ∉ g.decodedPkts ∧
    ∀ b ∈ g.incompleteBatches.lookup pkt.batchId, pkt.pktIdInBatch ∉ b.decodedPkts

instance (g : PacketGroup) (pkt : DataPacket) : Decidable (g.Takes pkt) :=
  inferInstanceAs (Decidable (_ ∧ _ ∧ _))

/-- The packet's group is not among the incomplete ones, or takes the packet. -/
def PacketReceiverUdp.Takes (r : PacketReceiverUdp) (pkt : DataPacket) : Prop :=
  ∀ g ∈ r.incompleteGroups.lookup pkt.groupId, g.Takes pkt

instance (r : PacketReceiverUdp) (pkt : DataPacket) : Decidable (r.Takes pkt) :=
  inferInstanceAs (Decidable (∀ g ∈ r.incompleteGroups.lookup pkt.groupId, g.Takes pkt))

/-! ## Groups between packets -/

/-- Nothing waits to be handed out, and no open batch is complete. -/
structure PacketGroup.Quiet (g : PacketGroup) : Prop where
  undecoded : g.undecodedPkts = []
  batches : ∀ k b, g.incompleteBatches.lookup k = some b →
    b.undecodedPkts = [] ∧ b.held < b.dataNum.toNat

namespace PacketGroup

theorem Quiet.new (groupId : UInt32) (dataNum : UInt16) (encodeTime : Time) :
    (new groupId dataNum encodeTime).Quiet :=
  ⟨rfl, fun _ _ h => by cases h⟩

/-- The batch a packet is added to holds no more packets than it needs. -/
theorem Quiet.held_le {g : PacketGroup} (h : g.Quiet) {pkt : VideoPacket} {b : PacketBatch}
    (hb : g.batchWith pkt = some b) : b.held ≤ b.dataNum.toNat := by
  obtain ⟨b₀, rfl, hlookup | ⟨-, rfl, hpos⟩⟩ := batchWith_eq_some hb
  · have hheld := PacketBatch.held_addPacket_le pkt b₀
    have hlt := (h.batches _ b₀ hlookup).2
    rw [PacketBatch.addPacket_dataNum]
    omega
  · have hheld := PacketBatch.held_addPacket_le pkt (.empty pkt)
    have hnum : 0 < pkt.header.batchDataNum.toNat := UInt16.lt_iff_toNat_lt.mp hpos
    have hempty : (PacketBatch.empty pkt).held = 0 := rfl
    have hdata : (PacketBatch.empty pkt).dataNum = pkt.header.batchDataNum := rfl
    rw [PacketBatch.addPacket_dataNum, hdata]
    omega

theorem Quiet.receive {g g' : PacketGroup} (h : g.Quiet) {now : Time} {pick : ℕ}
    {pkt : VideoPacket} {out : List DataPacket}
    (hreceive : g.receive now pick pkt = some (out, g')) : g'.Quiet := by
  obtain ⟨hempty, ⟨-, -, hincomplete, -⟩ |
    ⟨-, b, complete, b', hb, hcheck, -, hincomplete, -⟩⟩ := receive_eq_some hreceive
  · exact ⟨hempty.undecoded, by rw [hincomplete]; exact h.batches⟩
  · refine ⟨hempty.undecoded, ?_⟩
    intro k b'' hk
    rw [hincomplete] at hk
    cases complete with
    | true =>
        simp only [if_true, Dict.lookup_erase_eq] at hk
        split at hk
        · cases hk
        · exact h.batches k b'' hk
    | false =>
        simp only [Bool.false_eq_true, if_false, Dict.lookup_insert_eq] at hk
        split at hk
        case isFalse => exact h.batches k b'' hk
        case isTrue =>
          cases hk
          obtain ⟨hlt, hcase⟩ | ⟨-, hcase⟩ | ⟨i, fec, -, hcase⟩ :=
            PacketBatch.checkComplete_cases (h.held_le hb) now pick
              (g.recordPacket pkt).toPacketGroupIds
          all_goals
            rw [hcase] at hcheck
            cases hcheck
          exact ⟨rfl, hlt⟩

theorem checkComplete_undecodedPkts {b b' : PacketBatch} {now : Time} {pick : ℕ}
    {group : PacketGroupIds} {complete : Bool}
    (h : b.checkComplete now pick group = some (complete, b')) :
    ∀ p ∈ b.undecodedPkts, p ∈ b'.undecodedPkts := by
  intro p hp
  unfold PacketBatch.checkComplete at h
  split at h
  case isFalse => cases h; exact hp
  case isTrue =>
    split at h
    case isTrue => cases h; exact hp
    case isFalse =>
      split at h
      · cases h
      · cases h; exact List.mem_append_left _ hp

/-- A packet that the group takes is handed out. -/
theorem Takes.mem_out {g g' : PacketGroup} {pkt : DataPacket} (h : g.Takes pkt) {now : Time}
    {pick : ℕ} {out : List DataPacket}
    (hreceive : g.receive now pick (.data pkt) = some (out, g')) : pkt ∈ out := by
  obtain ⟨-, ⟨huseless, -⟩ | ⟨-, b, complete, b', hb, hcheck, hout, -⟩⟩ :=
    receive_eq_some hreceive
  · exact absurd huseless (not_or.mpr ⟨h.1, h.2.1⟩)
  · rw [hout]
    refine List.mem_append_right _ (checkComplete_undecodedPkts hcheck pkt ?_)
    obtain ⟨b₀, rfl, hlookup | ⟨-, rfl, -⟩⟩ := batchWith_eq_some hb
    · have hnot : (VideoPacket.data pkt).header.pktIdInBatch ∉ b₀.decodedPkts :=
        h.2.2 b₀ hlookup
      rw [PacketBatch.addPacket, if_neg hnot]
      simp [PacketBatch.storeData]
    · simp [PacketBatch.addPacket, PacketBatch.empty, PacketBatch.storeData]

/-- A packet that the group does not take makes nothing available. -/
theorem Quiet.out_eq_nil {g g' : PacketGroup} (hquiet : g.Quiet) {pkt : DataPacket}
    (h : ¬ g.Takes pkt) {now : Time} {pick : ℕ} {out : List DataPacket}
    (hreceive : g.receive now pick (.data pkt) = some (out, g')) : out = [] := by
  obtain ⟨-, ⟨-, hout, -⟩ | ⟨huseful, b, complete, b', hb, hcheck, hout, -⟩⟩ :=
    receive_eq_some hreceive
  · exact hout.trans hquiet.undecoded
  · -- the batch has decoded the packet's id, so it stays as it is
    obtain ⟨hopen, hdecoded⟩ := not_or.mp huseful
    obtain ⟨b₀, hlookup, hmem⟩ : ∃ b₀, g.incompleteBatches.lookup pkt.batchId = some b₀ ∧
        pkt.pktIdInBatch ∈ b₀.decodedPkts := by
      by_contra hnone
      exact h ⟨hopen, hdecoded, fun b₀ hb₀ hmem => hnone ⟨b₀, hb₀, hmem⟩⟩
    obtain ⟨hundecoded, hlt⟩ := hquiet.batches _ b₀ hlookup
    have hlookup' : g.incompleteBatches.lookup (VideoPacket.data pkt).header.batchId
        = some b₀ := hlookup
    have hmem' : (VideoPacket.data pkt).header.pktIdInBatch ∈ b₀.decodedPkts := hmem
    simp only [PacketGroup.batchWith, hlookup', PacketBatch.addPacket, if_pos hmem',
      Option.some.injEq] at hb
    subst hb
    simp only [PacketBatch.checkComplete, if_neg (not_le.mpr hlt), Option.some.injEq,
      Prod.mk.injEq] at hcheck
    rw [hout, hquiet.undecoded, ← hcheck.2, hundecoded]
    rfl

end PacketGroup

namespace PacketReceiverUdp

/-! ## Reachable states -/

/-- All incomplete groups are quiet. -/
def Quiet (r : PacketReceiverUdp) : Prop :=
  ∀ k g, r.incompleteGroups.lookup k = some g → g.Quiet

theorem Quiet.groupOf {r : PacketReceiverUdp} (h : r.Quiet) (pkt : VideoPacket) :
    (r.groupOf pkt).Quiet := by
  unfold PacketReceiverUdp.groupOf
  cases hlookup : r.incompleteGroups.lookup pkt.header.groupId with
  | none => exact .new _ _ _
  | some g => exact h _ g hlookup

/-- Filing groups only takes groups out. -/
theorem lookup_checkTimeouts {r : PacketReceiverUdp} {rcvTime : Time} {k : UInt32}
    {g : PacketGroup} (h : (r.checkTimeouts rcvTime).incompleteGroups.lookup k = some g) :
    r.incompleteGroups.lookup k = some g := by
  revert h
  unfold checkTimeouts
  refine List.foldlRecOn (motive := fun s : PacketReceiverUdp =>
    s.incompleteGroups.lookup k = some g → r.incompleteGroups.lookup k = some g) _ _ id ?_
  intro s hs entry _ hk
  unfold checkTimeout at hk
  split at hk
  case isFalse => exact hs hk
  case isTrue =>
    simp only [Dict.lookup_erase_eq] at hk
    split at hk
    · cases hk
    · exact hs hk

theorem lookup_fileGroups {r : PacketReceiverUdp} {groupId : UInt32} {group : PacketGroup}
    {rcvTime : Time} {k : UInt32} {g : PacketGroup}
    (h : (r.fileGroups groupId group rcvTime).incompleteGroups.lookup k = some g) :
    r.incompleteGroups.lookup k = some g := by
  unfold fileGroups at h
  split at h
  · exact h
  · split at h
    · exact h
    · have hcheck := lookup_checkTimeouts h
      unfold PacketReceiverUdp.checkComplete at hcheck
      split at hcheck
      case isFalse => exact hcheck
      case isTrue =>
        simp only [Dict.lookup_erase_eq] at hcheck
        split at hcheck
        · cases hcheck
        · exact hcheck

theorem Quiet.step {r r' : PacketReceiverUdp} (h : r.Quiet) {a : Arrival}
    (hstep : r.receiveUdpPacket a = some r') : r'.Quiet := by
  obtain ⟨decodePkts, group, decoder, hreceive, -, rfl⟩ := receiveUdpPacket_eq_some.mp hstep
  intro k g hk
  have hinsert := lookup_fileGroups hk
  simp only [beforeFiling, Dict.lookup_insert_eq] at hinsert
  split at hinsert
  · cases hinsert
    exact (h.groupOf a.pkt).receive hreceive
  · exact h k g hinsert

theorem Quiet.exec {r r' : PacketReceiverUdp} (h : r.Quiet) {arrivals : List Arrival}
    (hrun : Run.exec receiveUdpPacket r arrivals = some r') : r'.Quiet :=
  Run.exec_invariant (fun _ _ _ h hstep => h.step hstep) h hrun

theorem Quiet.new (delayDdl : Time) (fps : UInt16) : (new delayDdl fps).Quiet := by
  intro k g hk
  cases hk

/-! ## The reply -/

theorem groupOf_takes (r : PacketReceiverUdp) (pkt : DataPacket) :
    (r.groupOf (.data pkt)).Takes pkt ↔ r.Takes pkt := by
  unfold PacketReceiverUdp.groupOf PacketReceiverUdp.Takes
  have hid : (VideoPacket.data pkt).header.groupId = pkt.groupId := rfl
  rw [hid]
  cases hlookup : r.incompleteGroups.lookup pkt.groupId with
  | none => simp [PacketGroup.Takes, PacketGroup.new]
  | some g => simp

/-- What the claim says of a reply: it names the packet, so that the packet is gone from the
sender's history once the reply was received. -/
def Repairs (ack : AckPacket) (pkt : DataPacket) : Prop :=
  pkt.groupInfo ∈ ack.pktInfos ∧ ∀ (V : Type) (history : PktHistory V),
    (history.rcvACKPacket (.ofHeader ack.header)).find pkt.groupInfo = none

/-- In every reachable state, the reply to a data packet repairs a lost acknowledgement if and
only if the packet's group is not among the incomplete ones, or takes the packet. -/
theorem repairs_iff_takes {delayDdl : Time} {fps : UInt16} {arrivals : List Arrival}
    {r r' : PacketReceiverUdp}
    (hrun : Run.exec receiveUdpPacket (new delayDdl fps) arrivals = some r) {now : Time}
    {pick : ℕ} {pkt : DataPacket} (hstep : r.receiveUdpPacket ⟨now, pick, .data pkt⟩ = some r') :
    ∃ ack, r'.acks = r.acks ++ [ack] ∧ (Repairs ack pkt ↔ r.Takes pkt) := by
  obtain ⟨out, group, hreceive, -, -, hacks⟩ := receiveUdpPacket_output hstep
  refine ⟨_, hacks, ?_⟩
  rw [← groupOf_takes]
  constructor
  · intro hrepairs
    by_contra hnot
    have hquiet := ((Quiet.new delayDdl fps).exec hrun).groupOf (.data pkt)
    rw [hquiet.out_eq_nil hnot hreceive] at hrepairs
    exact List.not_mem_nil hrepairs.1
  · intro htakes
    have hmem : pkt.groupInfo ∈
        (ackFor out (VideoPacket.data pkt).header.globalId).pktInfos :=
      List.mem_map_of_mem (htakes.mem_out hreceive)
    refine ⟨hmem, fun V history => ?_⟩
    rw [PktHistory.find_rcvACKPacket]
    exact if_pos hmem

/-- The first packet of a group. -/
theorem repairs_iff_takes_firstBatch :
    ∃ r r' : PacketReceiverUdp,
      r.receiveUdpPacket ⟨9, 0, .data firstBatch.dataPkts[0]⟩ = some r' ∧
      ∃ ack, r'.acks = r.acks ++ [ack] ∧
        (Repairs ack firstBatch.dataPkts[0] ↔ r.Takes firstBatch.dataPkts[0]) := by
  have hstep : ((new (.milliSeconds 100) 30).receiveUdpPacket
      ⟨9, 0, .data firstBatch.dataPkts[0]⟩).isSome := by decide +kernel
  obtain ⟨r', hr'⟩ := Option.isSome_iff_exists.mp hstep
  exact ⟨_, r', hr', repairs_iff_takes (Run.exec_nil _) hr'⟩

/-- The first of two packets of a group arrives, its acknowledgement is lost, and it arrives
again as a retransmission. The second reply is empty. -/
theorem not_repaired :
    ¬ ∀ (delayDdl : Time) (fps : UInt16) (arrivals : List Arrival) (r r' : PacketReceiverUdp)
      (now : Time) (pick : ℕ) (pkt : DataPacket),
      Run.exec receiveUdpPacket (new delayDdl fps) arrivals = some r →
      r.receiveUdpPacket ⟨now, pick, .data pkt⟩ = some r' →
      ∃ ack, r'.acks = r.acks ++ [ack] ∧ Repairs ack pkt := by
  intro hclaim
  obtain ⟨r, hrun, r', hstep, hacks⟩ : ∃ r, Run.exec receiveUdpPacket (new (.milliSeconds 100) 30)
      [⟨9, 0, .data firstBatch.dataPkts[0]⟩] = some r ∧
      ∃ r', r.receiveUdpPacket ⟨70, 0, .data rtxBatch.dataPkts[0]⟩ = some r' ∧
        r'.acks = r.acks ++ [ackFor [] 0] := by
    decide +kernel
  obtain ⟨ack, hack, hrepairs⟩ := hclaim _ _ _ r r' _ _ _ hrun hstep
  rw [hacks] at hack
  obtain rfl := List.append_cancel_left hack |> List.singleton_inj.mp
  exact List.not_mem_nil hrepairs.1

end PacketReceiverUdp

end Zhuge
