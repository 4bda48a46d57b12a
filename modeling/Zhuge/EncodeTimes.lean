-- SUMMARY: The encode times at the receiver are those of the frames, unless an FEC packet built later stands in for a data packet or opens a group.
import Zhuge.AckReply
import Zhuge.GroupClasses
import Zhuge.GroupDelivery
import Zhuge.SentSources

/-!
# Encode times

A data packet carries the time of its frame's `CreateFrame` through all its retransmissions. An
FEC packet carries the time at which its own batch was created, and hands that time on to the
data packets recovered from it.
-/

namespace Zhuge

/-! ## The decoder -/

namespace VideoDecoder

variable {Q : UInt32 → Time → Prop} {d d' : VideoDecoder}

/-- The encode times of all frames, and those in the frame acknowledgements, meet `Q`. -/
structure TimesMeet (Q : UInt32 → Time → Prop) (d : VideoDecoder) : Prop where
  unplayed : ∀ id frame, d.unplayedFrames.lookup id = some frame → Q id frame.encodeTime
  played : ∀ id frame, d.playedFrames.lookup id = some (some frame) → Q id frame.encodeTime
  acks : ∀ id time, .replyFrameAck id time ∈ d.log → Q id time

namespace TimesMeet

theorem new (delayDdl : Time) (fps : UInt16) : TimesMeet Q (.new delayDdl fps) where
  unplayed := fun _ _ h => by cases h
  played := fun _ _ h => by cases h
  acks := fun _ _ h => by cases h

/-- A frame, or a null pointer in its place, moves over to the played ones. -/
theorem move (h : TimesMeet Q d) {idx : UInt32} {frame : Option VideoFrame}
    (hframe : ∀ f ∈ frame, Q idx f.encodeTime)
    (hunplayed : d'.unplayedFrames = d.unplayedFrames.erase idx)
    (hplayed : d'.playedFrames = d.playedFrames.insert idx frame)
    (hacks : ∀ id time, .replyFrameAck id time ∈ d'.log → Q id time) : TimesMeet Q d' := by
  refine ⟨fun id f hlookup => ?_, fun id f hlookup => ?_, hacks⟩
  · rw [hunplayed, Dict.lookup_erase_eq] at hlookup
    split at hlookup
    · cases hlookup
    · exact h.unplayed id f hlookup
  · rw [hplayed, Dict.lookup_insert_eq] at hlookup
    split at hlookup
    case isTrue heq =>
      cases heq
      exact hframe f (Option.some.inj hlookup)
    case isFalse => exact h.played id f hlookup

theorem decodeFrame (h : TimesMeet Q d) {idx : UInt32} {frame : VideoFrame}
    (hframe : Q idx frame.encodeTime) : TimesMeet Q (d.decodeFrame idx frame) := by
  refine h.move (fun f (hf : f ∈ some frame) => ?_) rfl rfl (fun id time hmem => ?_)
  · cases hf
    exact hframe
  · rcases List.mem_append.mp hmem with hmem | hmem
    · exact h.acks id time hmem
    · cases List.mem_singleton.mp hmem

theorem playRound (h : TimesMeet Q d) {idx : UInt32} {frame : VideoFrame}
    (hlookup : d.unplayedFrames.lookup idx = some frame) (reply : Bool) :
    TimesMeet Q (d.playRound reply idx frame) := by
  have hframe := h.unplayed idx frame hlookup
  have hdecode := h.decodeFrame hframe
  cases reply with
  | false => exact hdecode
  | true =>
      refine ⟨hdecode.unplayed, hdecode.played, fun id time hmem => ?_⟩
      rcases List.mem_append.mp hmem with hmem | hmem
      · exact hdecode.acks id time hmem
      · cases List.mem_singleton.mp hmem
        exact hframe

theorem playFrom (h : TimesMeet Q d) (reply : Bool) (idx : UInt32) :
    TimesMeet Q (d.playFrom reply idx) := by
  obtain ⟨-, hmeet, -⟩ := playFrom_rule (P := fun _ d => TimesMeet Q d) reply idx d h
    fun idx d frame hmeet _ hlookup _ => hmeet.playRound hlookup reply
  exact hmeet

theorem discardFrame (h : TimesMeet Q d) (idx : UInt32) : TimesMeet Q (d.discardFrame idx) := by
  refine h.move (fun f hf => h.unplayed idx f hf) rfl rfl (fun id time hmem => ?_)
  rcases List.mem_append.mp hmem with hmem | hmem
  · exact h.acks id time hmem
  · cases List.mem_singleton.mp hmem

theorem discardLoop (h : TimesMeet Q d) (rounds : ℕ) (idx : UInt32) :
    TimesMeet Q (d.discardLoop rounds idx) := by
  induction rounds generalizing idx d with
  | zero => exact h
  | succ rounds ih => exact ih ((h.discardFrame idx).playFrom false (idx + 1)) (idx + 1)

theorem storePacket (h : TimesMeet Q d) {pkt : DataPacket} (hpkt : Q pkt.frameId pkt.encodeTime) :
    TimesMeet Q (d.storePacket pkt) := by
  refine ⟨fun id f hlookup => ?_, h.played, h.acks⟩
  simp only [VideoDecoder.storePacket, Dict.lookup_insert_eq] at hlookup
  split at hlookup
  case isFalse => exact h.unplayed id f hlookup
  case isTrue heq =>
    cases heq
    cases hold : d.unplayedFrames.lookup pkt.frameId with
    | none =>
        rw [hold] at hlookup
        cases hlookup
        simpa only [VideoFrame.new, VideoFrame.addPacket, ite_self] using hpkt
    | some frame =>
        rw [hold] at hlookup
        cases hlookup
        simp only [VideoFrame.addPacket]
        split
        · exact hpkt
        · exact h.unplayed _ frame hold

theorem decodePacket (h : TimesMeet Q d) {pkt : DataPacket} (hpkt : Q pkt.frameId pkt.encodeTime)
    (hrun : d.decodePacket pkt = some d') : TimesMeet Q d' := by
  unfold VideoDecoder.decodePacket at hrun
  split at hrun
  · cases hrun
    exact h
  · obtain ⟨d₁, hdiscard, rfl⟩ := Option.map_eq_some_iff.mp hrun
    have hmeet : TimesMeet Q d₁ := by
      unfold discardExpired at hdiscard
      simp only at hdiscard
      split at hdiscard
      · cases hdiscard
      · split at hdiscard
        · cases hdiscard
        · cases hdiscard
          exact h.discardLoop _ _
    have hstored := hmeet.storePacket hpkt
    unfold playStored
    split
    · exact hstored
    case h_2 frame hlookup =>
      split
      · split
        · exact hstored.decodeFrame (hstored.unplayed _ frame hlookup)
        · split
          · exact hstored.playFrom true _
          · exact hstored
      · exact hstored

theorem decodeDataPacket (h : TimesMeet Q d) {pkts : List DataPacket}
    (hpkts : ∀ pkt ∈ pkts, Q pkt.frameId pkt.encodeTime)
    (hrun : d.decodeDataPacket pkts = some d') : TimesMeet Q d' :=
  Run.exec_invariant_mem (fun _ _ pkt hpkt hmeet hstep => hmeet.decodePacket (hpkts pkt hpkt) hstep)
    h hrun

theorem mono {Q' : UInt32 → Time → Prop} (h : TimesMeet Q d)
    (hQ : ∀ id time, Q id time → Q' id time) :
    TimesMeet Q' d where
  unplayed id frame hlookup := hQ _ _ (h.unplayed id frame hlookup)
  played id frame hlookup := hQ _ _ (h.played id frame hlookup)
  acks id time hmem := hQ _ _ (h.acks id time hmem)

end TimesMeet

end VideoDecoder

/-! ## One group -/

namespace PacketGroup

variable {g g' : PacketGroup} {pkt : VideoPacket} {now : Time} {pick : ℕ} {out : List DataPacket}

/-- When the packet arrives, its batch is completed by the FEC packet, which stands in for the
missing data packet `d`. -/
def StandsIn (g : PacketGroup) (a : Arrival) (fec : FECPacket) (d : DataPktDigest) : Prop :=
  ¬ g.isUseless a.pkt ∧ ∃ b ∈ g.batchWith a.pkt,
    b.dataNum.toNat ≤ b.held ∧ Dict.size b.dataPkts ≠ b.dataNum.toNat ∧
    fec ∈ (b.fecPkts.entries[a.pick % Dict.size b.fecPkts]?).map (·.2) ∧
    d ∈ fec.dataPkts ∧ d.pktIdInBatch ∉ b.dataPkts

/-- The group keeps the earliest time. -/
theorem receive_encodeTime (h : g.receive now pick pkt = some (out, g')) :
    g'.encodeTime = if pkt.header.encodeTime < g.encodeTime then pkt.header.encodeTime
      else g.encodeTime := by
  have hrecord : (g.recordPacket pkt).encodeTime = if pkt.header.encodeTime < g.encodeTime
      then pkt.header.encodeTime else g.encodeTime := by
    simp only [recordPacket]
    split
    · obtain ⟨a, b, c, d, heq⟩ := countPacket_eq pkt (g.initGroup pkt)
      rw [heq]
      rfl
    · obtain ⟨a, b, c, d, heq⟩ := countPacket_eq pkt g
      rw [heq]
  rw [← hrecord]
  simp only [receive, addPacket, Option.bind_eq_bind, Option.map_eq_some_iff] at h
  obtain ⟨g₁, hadd, hout⟩ := h
  rw [← (Prod.mk.inj hout).2]
  split at hadd
  · cases hadd
    rfl
  · obtain ⟨b, -, hadd⟩ := Option.bind_eq_some_iff.mp hadd
    obtain ⟨⟨complete, b'⟩, -, hadd⟩ := Option.bind_eq_some_iff.mp hadd
    cases hadd
    cases complete <;> rfl

/-- What comes out is the packet that arrived, or was recovered from the FEC packet that
stands in for it. -/
theorem Quiet.out_cases (hquiet : g.Quiet) (h : g.receive now pick pkt = some (out, g'))
    {p : DataPacket} (hp : p ∈ out) : pkt.IsData p ∨ ∃ fec d, g.StandsIn ⟨now, pick, pkt⟩ fec d ∧
      p.frameId = d.frameId ∧ p.encodeTime = fec.encodeTime := by
  obtain ⟨-, ⟨-, hout, -⟩ | ⟨huseful, b, complete, b', hb, hcheck, hout, -⟩⟩ := receive_eq_some h
  · rw [hout, hquiet.undecoded] at hp
    cases hp
  · have hwaiting : p ∈ b.undecodedPkts → pkt.IsData p := by
      intro hp
      obtain hnone | ⟨q, hone, hdata⟩ :=
        undecodedPkts_batchWith (fun k b hk => (hquiet.batches k b hk).1) hb
      · rw [hnone] at hp
        cases hp
      · rw [hone] at hp
        rw [List.mem_singleton.mp hp]
        exact hdata
    rw [hout, hquiet.undecoded, List.nil_append] at hp
    obtain ⟨-, -, rfl⟩ | ⟨-, -, rfl⟩ | ⟨hheld, hdata, -, fec, hpick, rfl⟩ :=
      PacketBatch.checkComplete_eq_some hcheck
    · exact .inl (hwaiting hp)
    · exact .inl (hwaiting hp)
    · rcases List.mem_append.mp hp with hp | hp
      · exact .inl (hwaiting hp)
      · obtain ⟨d, hd, rfl⟩ := List.mem_map.mp hp
        obtain ⟨hmem, hmissing⟩ := List.mem_filter.mp hd
        refine .inr ⟨fec.2, d, ⟨huseful, b, hb, hheld, hdata, ?_, hmem, of_decide_eq_true hmissing⟩,
          rfl, rfl⟩
        rw [hpick]
        rfl

/-- Conversely, an FEC packet that stands in hands out the data packet with its own time. -/
theorem StandsIn.mem_out {fec : FECPacket} {d : DataPktDigest}
    (hstands : g.StandsIn ⟨now, pick, pkt⟩ fec d) (h : g.receive now pick pkt = some (out, g')) :
    ∃ p ∈ out, p.frameId = d.frameId ∧ p.encodeTime = fec.encodeTime := by
  obtain ⟨huseful, b, hb, hheld, hdata, hpick, hmem, hmissing⟩ := hstands
  obtain ⟨entry, hentry, rfl⟩ := Option.map_eq_some_iff.mp hpick
  obtain ⟨-, ⟨huseless, -⟩ | ⟨-, b₁, complete, b', hb₁, hcheck, hout, -⟩⟩ := receive_eq_some h
  · exact absurd huseless huseful
  · cases hb.symm.trans hb₁
    obtain ⟨hfew, -⟩ | ⟨hfull, -⟩ | ⟨-, -, -, fec', hpick', rfl⟩ :=
      PacketBatch.checkComplete_eq_some hcheck
    · exact absurd hheld (not_le.mpr hfew)
    · exact absurd hfull hdata
    · cases hentry.symm.trans hpick'
      refine ⟨PacketBatch.ofDigest now (g.recordPacket pkt).toPacketGroupIds entry.2 b d, ?_,
        rfl, rfl⟩
      rw [hout]
      refine List.mem_append_right _ (List.mem_append_right _ (List.mem_map_of_mem ?_))
      exact List.mem_filter.mpr ⟨hmem, decide_eq_true hmissing⟩

end PacketGroup

/-! ## The receiver -/

namespace PacketReceiverUdp

variable {Q G : UInt32 → Time → Prop} {r r' : PacketReceiverUdp} {a : Arrival}

/-- The group is in one of the three maps. -/
def HasGroup (r : PacketReceiverUdp) (g : PacketGroup) : Prop :=
  ∃ k, r.incompleteGroups.lookup k = some g ∨ r.completeGroups.lookup k = some g ∨
    r.timeoutGroups.lookup k = some g

/-- The encode times of packets and frames meet `Q`, those of groups meet `G`. -/
structure TimesMeet (Q G : UInt32 → Time → Prop) (r : PacketReceiverUdp) : Prop where
  handed : ∀ pkt ∈ r.handed, Q pkt.frameId pkt.encodeTime
  decoder : r.decoder.TimesMeet Q
  groups : ∀ g, r.HasGroup g → G g.groupId g.encodeTime

/-- The arriving packet brings no other times: an FEC packet that stands in for a data packet
has the time of that packet's frame, and one that sets the time of its group has the time of
the group's frame. -/
structure BringsTimes (Q G : UInt32 → Time → Prop) (r : PacketReceiverUdp) (a : Arrival) :
    Prop where
  standsIn : ∀ fec d, (r.groupOf a.pkt).StandsIn a fec d → Q d.frameId fec.encodeTime
  sets : ∀ fec, a.pkt = .fec fec →
    (∃ g ∈ r.incompleteGroups.lookup fec.groupId, g.encodeTime ≤ fec.encodeTime) ∨
      G fec.groupId fec.encodeTime

/-! ### Filing keeps the groups -/

theorem hasGroup_checkTimeouts {rcvTime : Time} {g : PacketGroup}
    (h : (r.checkTimeouts rcvTime).HasGroup g) : r.HasGroup g := by
  revert h
  unfold checkTimeouts
  refine List.foldlRecOn (motive := fun s : PacketReceiverUdp => s.HasGroup g → r.HasGroup g)
    _ _ id ?_
  intro s hs entry hentry
  unfold checkTimeout
  split
  case isFalse => exact hs
  case isTrue =>
    rintro ⟨k, hk | hk | hk⟩
    · simp only [Dict.lookup_erase_eq] at hk
      split at hk
      · cases hk
      · exact hs ⟨k, .inl hk⟩
    · exact hs ⟨k, .inr (.inl hk)⟩
    · simp only [Dict.lookup_insert_eq] at hk
      split at hk
      · cases hk
        exact ⟨entry.1, .inl (Dict.lookup_of_mem_entries hentry)⟩
      · exact hs ⟨k, .inr (.inr hk)⟩

theorem hasGroup_fileGroups {groupId : UInt32} {group g : PacketGroup} {rcvTime : Time}
    (hgroup : r.incompleteGroups.lookup groupId = some group)
    (h : (r.fileGroups groupId group rcvTime).HasGroup g) : r.HasGroup g := by
  unfold fileGroups at h
  split at h
  · exact h
  · split at h
    · exact h
    · obtain ⟨k, hk⟩ := hasGroup_checkTimeouts h
      unfold PacketReceiverUdp.checkComplete at hk
      split at hk
      case isFalse => exact ⟨k, hk⟩
      case isTrue =>
        rcases hk with hk | hk | hk
        · simp only [Dict.lookup_erase_eq] at hk
          split at hk
          · cases hk
          · exact ⟨k, .inl hk⟩
        · simp only [Dict.lookup_insert_eq] at hk
          split at hk
          · cases hk
            exact ⟨groupId, .inl hgroup⟩
          · exact ⟨k, .inr (.inl hk)⟩
        · exact ⟨k, .inr (.inr hk)⟩

/-- The group stays where it is, or is timed out. -/
theorem lookup_checkTimeouts_cases (hkeys : r.KeyedById) {groupId : UInt32} {group : PacketGroup}
    (hgroup : r.incompleteGroups.lookup groupId = some group) (rcvTime : Time) :
    (r.checkTimeouts rcvTime).incompleteGroups.lookup groupId = some group ∨
      (r.checkTimeouts rcvTime).timeoutGroups.lookup groupId = some group := by
  unfold checkTimeouts
  refine List.foldlRecOn (motive := fun s : PacketReceiverUdp =>
    s.incompleteGroups.lookup groupId = some group ∨ s.timeoutGroups.lookup groupId = some group)
    _ _ (.inl hgroup) ?_
  intro s hs entry hentry
  have hlookup := Dict.lookup_of_mem_entries hentry
  have hkey := hkeys _ _ hlookup
  unfold checkTimeout
  split
  case isFalse => exact hs
  case isTrue =>
    simp only [Dict.lookup_erase_eq, Dict.lookup_insert_eq, hkey]
    by_cases heq : groupId = entry.1
    · subst heq
      rw [hgroup] at hlookup
      simp only [if_true, hlookup, or_true]
    · simpa only [if_neg heq] using hs

/-- The group that is filed is in one of the maps afterwards. -/
theorem fileGroups_hasGroup (hkeys : r.KeyedById) {groupId : UInt32} {group : PacketGroup}
    (hgroup : r.incompleteGroups.lookup groupId = some group) (rcvTime : Time) :
    (r.fileGroups groupId group rcvTime).HasGroup group := by
  unfold fileGroups
  split
  · exact ⟨groupId, .inl hgroup⟩
  · split
    · exact ⟨groupId, .inl hgroup⟩
    · have hcheck := hkeys.checkComplete groupId group
      by_cases hcomplete : group.checkComplete
      · have hnew : (r.checkComplete groupId group).completeGroups.lookup groupId = some group := by
          rw [PacketReceiverUdp.checkComplete, if_pos hcomplete, Dict.lookup_insert_eq, if_pos rfl]
        refine ⟨groupId, .inr (.inl ?_)⟩
        rw [(swept_checkTimeouts hcheck rcvTime).complete]
        exact hnew
      · have hold : (r.checkComplete groupId group).incompleteGroups.lookup groupId
            = some group := by
          rw [PacketReceiverUdp.checkComplete, if_neg hcomplete]
          exact hgroup
        exact ⟨groupId, (lookup_checkTimeouts_cases hcheck hold rcvTime).imp_right .inr⟩

/-! ### One packet -/

theorem TimesMeet.mono {Q' G' : UInt32 → Time → Prop} (h : TimesMeet Q G r)
    (hQ : ∀ id time, Q id time → Q' id time) (hG : ∀ id time, G id time → G' id time) :
    TimesMeet Q' G' r where
  handed pkt hpkt := hQ _ _ (h.handed pkt hpkt)
  decoder := h.decoder.mono hQ
  groups g hg := hG _ _ (h.groups g hg)

/-- An arriving data packet has the right times for its frame and its group. -/
def DataMeets (Q G : UInt32 → Time → Prop) (pkt : VideoPacket) : Prop :=
  ∀ p, pkt.IsData p → Q p.frameId p.encodeTime ∧ G p.groupId p.encodeTime

/-- The time of the packet's group is right afterwards if and only if the packet does not set it
to another one. -/
theorem groupTime_iff (h : TimesMeet Q G r) (hkeys : r.KeyedById) (hdata : DataMeets Q G a.pkt)
    {out : List DataPacket} {group : PacketGroup}
    (hreceive : (r.groupOf a.pkt).receive a.now a.pick a.pkt = some (out, group)) :
    G group.groupId group.encodeTime ↔ ∀ fec, a.pkt = .fec fec →
      (∃ g ∈ r.incompleteGroups.lookup fec.groupId, g.encodeTime ≤ fec.encodeTime) ∨
        G fec.groupId fec.encodeTime := by
  have hid : group.groupId = a.pkt.header.groupId :=
    (PacketGroup.receive_eq_some hreceive).1.groupId.trans (hkeys.groupOf a.pkt)
  have htime := PacketGroup.receive_encodeTime hreceive
  -- the group's time is the packet's own, or the group was open with an earlier one
  have hcases : (∃ g ∈ r.incompleteGroups.lookup a.pkt.header.groupId,
      g.encodeTime ≤ a.pkt.header.encodeTime ∧ group.encodeTime = g.encodeTime) ∨
      (¬ ∃ g ∈ r.incompleteGroups.lookup a.pkt.header.groupId,
        g.encodeTime ≤ a.pkt.header.encodeTime) ∧
      group.encodeTime = a.pkt.header.encodeTime := by
    unfold groupOf at htime
    cases hlookup : r.incompleteGroups.lookup a.pkt.header.groupId with
    | none =>
        rw [hlookup] at htime
        refine .inr ⟨?_, htime.trans (ite_self _)⟩
        rintro ⟨g, hg, -⟩
        cases hg
    | some g =>
        rw [hlookup, Option.getD_some] at htime
        by_cases hlt : a.pkt.header.encodeTime < g.encodeTime
        · rw [if_pos hlt] at htime
          refine .inr ⟨?_, htime⟩
          rintro ⟨g', hg', hle⟩
          cases hg'
          exact absurd hlt (not_lt.mpr hle)
        · rw [if_neg hlt] at htime
          exact .inl ⟨g, rfl, not_lt.mp hlt, htime⟩
  obtain ⟨g, hg, hle, htime⟩ | ⟨hnone, htime⟩ := hcases
  · refine ⟨fun _ fec hfec => ?_, fun _ => ?_⟩
    · rw [hfec] at hg hle
      exact .inl ⟨g, hg, hle⟩
    · rw [hid, htime, ← hkeys _ g hg]
      exact h.groups g ⟨_, .inl hg⟩
  · rw [hid, htime]
    constructor
    · intro hG fec hfec
      rw [hfec] at hG
      exact .inr hG
    · intro hsets
      cases hpkt : a.pkt with
      | data p => exact (hdata p (by rw [hpkt]; rfl)).2
      | dupFec p => exact (hdata p (by rw [hpkt]; rfl)).2
      | fec fec =>
          rw [hpkt] at hnone
          exact (hsets fec hpkt).resolve_left hnone

/-- One packet: the times stay right if and only if the packet brings no others. -/
theorem TimesMeet.step_iff (h : TimesMeet Q G r) (hquiet : r.Quiet) (hkeys : r.KeyedById)
    (hdata : DataMeets Q G a.pkt) (hstep : r.receiveUdpPacket a = some r') :
    TimesMeet Q G r' ↔ r.BringsTimes Q G a := by
  obtain ⟨out, group, decoder, hreceive, hdecode, rfl⟩ := receiveUdpPacket_eq_some.mp hstep
  have hsame := sameOutput_fileGroups a.pkt.header.groupId group a.pkt.info.rcvTime
    (r.beforeFiling a.pkt.header.groupId group decoder out a.pkt.header.globalId)
  have hgroup : group.groupId = a.pkt.header.groupId :=
    (PacketGroup.receive_eq_some hreceive).1.groupId.trans (hkeys.groupOf a.pkt)
  have hlookup : (r.beforeFiling a.pkt.header.groupId group decoder out
      a.pkt.header.globalId).incompleteGroups.lookup a.pkt.header.groupId = some group := by
    rw [beforeFiling, Dict.lookup_insert_eq, if_pos rfl]
  have htime := groupTime_iff h hkeys hdata hreceive
  constructor
  · intro hmeet
    refine ⟨fun fec d hstands => ?_, htime.mp (hmeet.groups group ?_)⟩
    · obtain ⟨p, hp, hid, hencode⟩ := hstands.mem_out hreceive
      have hp' := hmeet.handed p (hsame.handed ▸ List.mem_append_right _ hp)
      rwa [hid, hencode] at hp'
    · exact fileGroups_hasGroup (hkeys.insert _ hgroup rfl) hlookup _
  · intro hbrings
    have hout : ∀ p ∈ out, Q p.frameId p.encodeTime := by
      intro p hp
      obtain hthis | ⟨fec, d, hstands, hid, hencode⟩ := (hquiet.groupOf a.pkt).out_cases hreceive hp
      · exact (hdata p hthis).1
      · rw [hid, hencode]
        exact hbrings.standsIn fec d hstands
    refine ⟨?_, ?_, ?_⟩
    · rw [hsame.handed]
      exact List.forall_mem_append.mpr ⟨h.handed, hout⟩
    · rw [hsame.decoder]
      exact h.decoder.decodeDataPacket hout hdecode
    · intro g hg
      obtain ⟨k, hk | hk⟩ := hasGroup_fileGroups hlookup hg
      · simp only [beforeFiling, Dict.lookup_insert_eq] at hk
        split at hk
        · cases hk
          exact htime.mpr hbrings.sets
        · exact h.groups g ⟨k, .inl hk⟩
      · exact h.groups g ⟨k, .inr hk⟩

end PacketReceiverUdp

/-! ## Sender and receiver -/

/-- A session and the frames created so far, each with the time of its `CreateFrame`. -/
structure TimedSession where
  session : Session
  frames : List (UInt32 × Time)

/-- The frame that the event creates. -/
def Session.Event.created : Session.Event → List (UInt32 × Time)
  | .createFrame now _ _ f => [(f.frameId, now)]
  | _ => []

namespace TimedSession

def new (delayDdl : Time) (fps : UInt16) : TimedSession := ⟨.new delayDdl fps, []⟩

def step (s : TimedSession) (e : Session.Event) : Option TimedSession :=
  (s.session.step e).map fun session => ⟨session, s.frames ++ e.created⟩

/-- The time is that of the frame's `CreateFrame`, in whole milliseconds. -/
def FrameTime (s : TimedSession) (frameId : UInt32) (time : Time) : Prop :=
  ∃ created, (frameId, created) ∈ s.frames ∧ time = created.truncMilli

/-- The same for the frame that the group was made of. -/
def GroupTime (s : TimedSession) (groupId : UInt32) (time : Time) : Prop :=
  ∃ frameId, s.session.sender.GroupOf groupId frameId ∧ s.FrameTime frameId time

/-- What the claim says of a state: every packet handed to the decoder, every group and every
frame has the encode time of its own frame, and so does every frame acknowledgement. -/
def TimesKept (s : TimedSession) : Prop := s.session.receiver.TimesMeet s.FrameTime s.GroupTime

/-- No FEC packet stands in for a data packet, or sets the time of a group, with another time
than that of the frame. -/
def KeepsTimes (s : TimedSession) : Session.Event → Prop
  | .deliverPacket sent rcvTime now pick => ∀ pkt ∈ s.session.sender.sent[sent]?,
      s.session.receiver.BringsTimes s.FrameTime s.GroupTime
        ⟨now, pick, pkt.received.setRcvTime rcvTime⟩
  | _ => True

/-- What both parties keep whatever happens. -/
structure Linked (s : TimedSession) : Prop where
  sender : s.session.sender.Traced s.frames []
  quiet : s.session.receiver.Quiet
  keys : s.session.receiver.KeyedById

variable {s s' : TimedSession}

theorem dataMeets_received (h : s.Linked) {sent : ℕ} {pkt : VideoPacket}
    (hpkt : s.session.sender.sent[sent]? = some pkt) (rcvTime : Time) :
    PacketReceiverUdp.DataMeets s.FrameTime s.GroupTime (pkt.received.setRcvTime rcvTime) := by
  have hsent := h.sender.sent pkt (List.mem_of_getElem? hpkt)
  intro p hp
  cases pkt with
  | data pkt =>
      cases show p = { pkt.received with rcvTime := rcvTime } from hp
      have htime : s.FrameTime pkt.frameId pkt.encodeTime.truncMilli :=
        ⟨pkt.encodeTime, (h.sender.sources _ hsent).2, rfl⟩
      exact ⟨htime, pkt.frameId, ⟨_, hsent, rfl, rfl⟩, htime⟩
  | dupFec pkt => exact hsent.elim
  | fec pkt => exact hp.elim

/-- The sender's part of a step. -/
theorem traced_step {e : Session.Event} (hstep : s.step e = some s')
    {known : List PktSource} (hknown : s.session.sender.Traced s.frames known) :
    s'.session.sender.Traced s'.frames known := by
  obtain ⟨session, hsession, rfl⟩ := Option.map_eq_some_iff.mp hstep
  cases e with
  | createFrame now policy statistic f =>
      obtain ⟨sender, hsender, rfl⟩ := Option.map_eq_some_iff.mp hsession
      exact hknown.createFrame hsender
  | sendPacket now =>
      cases hsession
      simpa only [Session.Event.created, List.append_nil] using hknown.sendPacket now
  | checkRetransmission now policy statistic iteration =>
      obtain ⟨sender, hsender, rfl⟩ := Option.map_eq_some_iff.mp hsession
      simpa only [Session.Event.created, List.append_nil] using hknown.checkRetransmission hsender
  | deliverPacket sent rcvTime now pick =>
      simp only [Session.Event.created, List.append_nil]
      simp only [Session.step] at hsession
      split at hsession
      · cases hsession
        exact hknown
      · obtain ⟨receiver, -, rfl⟩ := Option.map_eq_some_iff.mp hsession
        exact hknown
  | deliverAck now ack =>
      simp only [Session.Event.created, List.append_nil]
      simp only [Session.step] at hsession
      split at hsession
      · cases hsession
        exact hknown
      · cases hsession
        exact hknown.rcvACKPacket _

/-- The receiver's part of a step. -/
theorem receiver_step {e : Session.Event} (hstep : s.step e = some s') :
    (s'.session.receiver = s.session.receiver ∧ s.KeepsTimes e) ∨
    ∃ sent rcvTime now pick pkt, e = .deliverPacket sent rcvTime now pick ∧
      s.session.sender.sent[sent]? = some pkt ∧ s'.frames = s.frames ∧
      s'.session.sender = s.session.sender ∧
      s.session.receiver.receiveUdpPacket ⟨now, pick, pkt.received.setRcvTime rcvTime⟩
        = some s'.session.receiver := by
  obtain ⟨session, hsession, rfl⟩ := Option.map_eq_some_iff.mp hstep
  cases e with
  | createFrame now policy statistic f =>
      obtain ⟨sender, -, rfl⟩ := Option.map_eq_some_iff.mp hsession
      exact .inl ⟨rfl, trivial⟩
  | sendPacket now =>
      cases hsession
      exact .inl ⟨rfl, trivial⟩
  | checkRetransmission now policy statistic iteration =>
      obtain ⟨sender, -, rfl⟩ := Option.map_eq_some_iff.mp hsession
      exact .inl ⟨rfl, trivial⟩
  | deliverPacket sent rcvTime now pick =>
      simp only [Session.step] at hsession
      split at hsession
      case h_1 hnone =>
        cases hsession
        refine .inl ⟨rfl, fun pkt hpkt => ?_⟩
        cases hnone.symm.trans hpkt
      case h_2 pkt hpkt =>
        obtain ⟨receiver, hreceiver, rfl⟩ := Option.map_eq_some_iff.mp hsession
        exact .inr ⟨sent, rcvTime, now, pick, pkt, rfl, hpkt, List.append_nil _, rfl, hreceiver⟩
  | deliverAck now ack =>
      simp only [Session.step] at hsession
      split at hsession
      · cases hsession
        exact .inl ⟨rfl, trivial⟩
      · cases hsession
        exact .inl ⟨rfl, trivial⟩

theorem Linked.new (delayDdl : Time) (fps : UInt16) : (new delayDdl fps).Linked :=
  ⟨.new delayDdl, .new delayDdl fps, .new delayDdl fps⟩

theorem Linked.step (h : s.Linked) {e : Session.Event} (hstep : s.step e = some s') :
    s'.Linked := by
  refine ⟨traced_step hstep h.sender, ?_, ?_⟩
  · obtain ⟨hsame, -⟩ | ⟨_, _, _, _, _, -, -, -, -, hreceive⟩ := receiver_step hstep
    · exact hsame ▸ h.quiet
    · exact h.quiet.step hreceive
  · obtain ⟨hsame, -⟩ | ⟨_, _, _, _, _, -, -, -, -, hreceive⟩ := receiver_step hstep
    · exact hsame ▸ h.keys
    · exact h.keys.step hreceive

/-- Times that were right stay right. -/
theorem frameTime_step {e : Session.Event} (hstep : s.step e = some s') {frameId : UInt32}
    {time : Time} (h : s.FrameTime frameId time) : s'.FrameTime frameId time := by
  obtain ⟨created, hmem, htime⟩ := h
  obtain ⟨session, -, rfl⟩ := Option.map_eq_some_iff.mp hstep
  exact ⟨created, List.mem_append_left _ hmem, htime⟩

theorem Linked.groupTime_step (h : s.Linked) {e : Session.Event} (hstep : s.step e = some s')
    {groupId : UInt32} {time : Time} (hgroup : s.GroupTime groupId time) :
    s'.GroupTime groupId time := by
  obtain ⟨frameId, hof, htime⟩ := hgroup
  exact ⟨frameId, (traced_step hstep h.sender.rebase).groupOf hof, frameTime_step hstep htime⟩

/-- One step: the times stay right if and only if the step brings no others. -/
theorem timesKept_step_iff (h : s.Linked) {e : Session.Event} (hkept : s.TimesKept)
    (hstep : s.step e = some s') : s'.TimesKept ↔ s.KeepsTimes e := by
  obtain ⟨hsame, hkeeps⟩ | ⟨sent, rcvTime, now, pick, pkt, rfl, hpkt, hframes, hsender, hreceive⟩ :=
    receiver_step hstep
  · refine ⟨fun _ => hkeeps, fun _ => ?_⟩
    unfold TimesKept
    rw [hsame]
    exact hkept.mono (fun _ _ => frameTime_step hstep) (fun _ _ => h.groupTime_step hstep)
  · have hiff := hkept.step_iff h.quiet h.keys (dataMeets_received h hpkt rcvTime) hreceive
    have hframe : s'.FrameTime = s.FrameTime := by
      funext frameId time
      rw [FrameTime, FrameTime, hframes]
    have hgroup : s'.GroupTime = s.GroupTime := by
      funext groupId time
      rw [GroupTime, GroupTime, hsender, hframe]
    unfold TimesKept
    rw [hframe, hgroup, hiff]
    constructor
    · intro hbrings pkt' hpkt'
      cases hpkt.symm.trans hpkt'
      exact hbrings
    · exact fun hkeeps => hkeeps pkt hpkt

/-- Over a whole run, every time at the receiver is that of its frame if and only if no FEC packet
brings another one. -/
theorem timesKept_iff_keepsTimes {delayDdl : Time} {fps : UInt16} {events : List Session.Event}
    (hrun : Run.exec step (new delayDdl fps) events = some s) :
    Run.Always step TimesKept (new delayDdl fps) events ↔
      Run.Each step KeepsTimes (new delayDdl fps) events := by
  refine Run.always_iff_each_of_exec (fun _ _ _ hlinked hstep => hlinked.step hstep)
    (fun _ _ _ hlinked hkept hstep => timesKept_step_iff hlinked hkept hstep)
    (Linked.new delayDdl fps) ⟨?_, .new delayDdl fps, ?_⟩ hrun
  · exact fun _ hpkt => by cases hpkt
  · rintro g ⟨k, hk | hk | hk⟩ <;> cases hk

theorem timesKept_iff_keepsTimes_oneFrame :
    Run.Always step TimesKept (new 40 60) Session.oneFrameEvents ↔
      Run.Each step KeepsTimes (new 40 60) Session.oneFrameEvents := by
  have hreturns : (Run.exec step (new 40 60) Session.oneFrameEvents).isSome = true := by
    decide +kernel
  obtain ⟨s, hrun⟩ := Option.isSome_iff_exists.mp hreturns
  exact timesKept_iff_keepsTimes hrun

/-- One FEC packet for every data packet. -/
def pairPolicy : FECPolicy := fun _ _ => ⟨1, .ofNat 1⟩

/-- A frame of one packet is lost, and then its retransmission, but not the FEC packet sent
with that. -/
def lateFecEvents : List Session.Event :=
  [.createFrame 0 PacketSenderUdp.singlePolicy PacketSenderUdp.quietStat
      PacketSenderUdp.onePacketFrame,
    .sendPacket 0,
    .checkRetransmission (.milliSeconds 60) pairPolicy PacketSenderUdp.quietStat
      ⟨id, fun _ => .refl _⟩,
    .sendPacket (.milliSeconds 60), .sendPacket (.milliSeconds 61),
    .deliverPacket 2 (.milliSeconds 70) (.milliSeconds 70) 0]

/-- The recovered packet carries the time of the retransmission. -/
theorem not_timesKept :
    ¬ ∀ (delayDdl : Time) (fps : UInt16) (events : List Session.Event) (s : TimedSession),
      Run.exec step (new delayDdl fps) events = some s → s.TimesKept := by
  intro hclaim
  obtain ⟨s, hrun, hframes, hhanded⟩ : ∃ s, Run.exec step (new (.milliSeconds 100) 30)
      lateFecEvents = some s ∧ s.frames = [(0, 0)] ∧
      s.session.receiver.handed.map (fun pkt => (pkt.frameId, pkt.encodeTime))
        = [(0, .milliSeconds 60)] := by
    decide +kernel
  have hkept := (hclaim _ _ _ s hrun).handed
  obtain ⟨pkt, hpkt, heq⟩ := List.mem_map.mp
    (hhanded ▸ List.mem_cons_self : (0, Time.milliSeconds 60) ∈
      s.session.receiver.handed.map fun pkt => (pkt.frameId, pkt.encodeTime))
  obtain ⟨hid, htime⟩ := Prod.mk.inj heq
  obtain ⟨created, hmem, htrunc⟩ := hkept pkt hpkt
  rw [hframes, hid, List.mem_singleton] at hmem
  rw [htime, (Prod.mk.inj hmem).2] at htrunc
  exact absurd htrunc (by decide)

end TimedSession

end Zhuge
