-- SUMMARY: When as many packets of a batch arrived as it has data packets, all its data packets are out, unless one was dropped for its group id.
import Zhuge.BuiltGroup

/-!
# Recovery of whole batches

A group drops a packet whose group id it decoded already, also when the packet would be
new to its batch. The batch then counts one packet less than arrived. As long as that
does not happen, each batch holds every distinct packet that arrived for it.
-/

namespace Zhuge

def SentBatch.digests (b : SentBatch) : List DataPktDigest := b.dataPkts.map (·.digest)

/-- `pkt` is one of the packets of `b`, as it arrives. -/
structure SentBatch.Carries (b : SentBatch) (pkt : VideoPacket) : Prop where
  batchId : pkt.header.batchId = b.batchId
  dataNum : pkt.header.batchDataNum.toNat = b.dataPkts.length
  data : ∀ p, pkt = .data p ∨ pkt = .dupFec p → p.digest ∈ b.digests
  fec : ∀ p, pkt = .fec p → p.dataPkts = b.digests

/-- Some open batch has the packet's place in the batch filled. -/
def PacketGroup.Holds (g : PacketGroup) (pkt : VideoPacket) : Prop :=
  ∃ b ∈ g.incompleteBatches.lookup pkt.header.batchId,
    pkt.header.pktIdInBatch ∈ b.dataPkts ∨ pkt.header.pktIdInBatch ∈ b.fecPkts

/-- The packet is new to a batch that is still open, but the group decoded its id. -/
def PacketGroup.Discounts (g : PacketGroup) (pkt : VideoPacket) : Prop :=
  pkt.header.batchId ∉ g.completeBatches ∧ pkt.header.pktIdInGroup ∈ g.decodedPkts ∧
    ¬ g.Holds pkt

instance (g : PacketGroup) (pkt : VideoPacket) : Decidable (g.Holds pkt) :=
  inferInstanceAs (Decidable (∃ b ∈ g.incompleteBatches.lookup pkt.header.batchId, _))

instance (g : PacketGroup) (pkt : VideoPacket) : Decidable (g.Discounts pkt) :=
  inferInstanceAs (Decidable (_ ∧ _))

/-! ## Invariants -/

/-- The open batch `pb` has kept what arrived of `b`. -/
structure PacketBatch.Follows (b : SentBatch) (decoded : Finset UInt16) (seen : List VideoPacket)
    (pb : PacketBatch) : Prop where
  dataNum : pb.dataNum.toNat = b.dataPkts.length
  data : ∀ i p, pb.dataPkts.lookup i = some p → p.pktIdInBatch = i ∧ p.digest ∈ b.digests ∧
    (p.pktIdInGroup ∈ decoded ∨ p ∈ pb.undecodedPkts)
  fec : ∀ i p, pb.fecPkts.lookup i = some p → p.dataPkts = b.digests
  decodedPkts : ∀ i ∈ pb.decodedPkts, i ∈ pb.dataPkts
  undecoded : ∀ p ∈ pb.undecodedPkts, p.pktIdInBatch ∈ pb.dataPkts
  seen : ∀ pkt ∈ seen, pkt.header.batchId = b.batchId →
    pkt.header.pktIdInBatch ∈ pb.dataPkts ∨ pkt.header.pktIdInBatch ∈ pb.fecPkts

/-- The group has kept what arrived of each batch that is not complete, and decoded the
others. -/
structure PacketGroup.Follows (batches : List SentBatch) (seen : List VideoPacket)
    (g : PacketGroup) : Prop where
  complete : ∀ b ∈ batches, b.batchId ∈ g.completeBatches →
    ∀ d ∈ b.dataPkts, d.pktIdInGroup ∈ g.decodedPkts
  incomplete : ∀ b ∈ batches, b.batchId ∉ g.completeBatches → ∀ pb,
    g.incompleteBatches.lookup b.batchId = some pb → pb.Follows b g.decodedPkts seen
  fresh : ∀ b ∈ batches, b.batchId ∉ g.completeBatches →
    g.incompleteBatches.lookup b.batchId = none → ∀ pkt ∈ seen, pkt.header.batchId ≠ b.batchId

namespace PacketBatch.Follows

variable {b : SentBatch} {decoded : Finset UInt16} {seen : List VideoPacket} {pb : PacketBatch}

theorem empty {pkt : VideoPacket} (hpkt : b.Carries pkt)
    (hfresh : ∀ pkt ∈ seen, pkt.header.batchId ≠ b.batchId) :
    (PacketBatch.empty pkt).Follows b decoded seen where
  dataNum := hpkt.dataNum
  data := by simp [PacketBatch.empty]
  fec := by simp [PacketBatch.empty]
  decodedPkts := by simp [PacketBatch.empty]
  undecoded := by simp [PacketBatch.empty]
  seen := fun p hp h => absurd h (hfresh p hp)

theorem storeData (h : pb.Follows b decoded seen) {p : DataPacket} (hp : p.digest ∈ b.digests)
    {pkt : VideoPacket} (hid : pkt.header.pktIdInBatch = p.pktIdInBatch) :
    (pb.storeData p).Follows b decoded (seen ++ [pkt]) where
  dataNum := h.dataNum
  data := by
    intro i q hq
    simp only [PacketBatch.storeData, Dict.lookup_insert_eq] at hq
    split at hq
    case isTrue heq =>
      cases hq
      exact ⟨heq.symm, hp, .inr (by simp [PacketBatch.storeData])⟩
    case isFalse =>
      obtain ⟨hqi, hqd, hq⟩ := h.data i q hq
      exact ⟨hqi, hqd, hq.imp_right fun hq => List.mem_append_left _ hq⟩
  fec := h.fec
  decodedPkts := fun i hi => AList.mem_insert _ |>.mpr (.inr (h.decodedPkts i hi))
  undecoded := by
    intro q hq
    simp only [PacketBatch.storeData, AList.mem_insert]
    rcases List.mem_append.mp hq with hq | hq
    · exact .inr (h.undecoded q hq)
    · rw [List.mem_singleton.mp hq]
      exact .inl rfl
  seen := by
    intro q hq hbatch
    simp only [PacketBatch.storeData, AList.mem_insert]
    rcases List.mem_append.mp hq with hq | hq
    · exact (h.seen q hq hbatch).imp_left .inr
    · rw [List.mem_singleton.mp hq]
      exact .inl (.inl hid)

theorem storeFec (h : pb.Follows b decoded seen) {p : FECPacket} (hp : p.dataPkts = b.digests)
    {pkt : VideoPacket} (hid : pkt.header.pktIdInBatch = p.pktIdInBatch) :
    (pb.storeFec p).Follows b decoded (seen ++ [pkt]) where
  dataNum := h.dataNum
  data := h.data
  fec := by
    intro i q hq
    simp only [PacketBatch.storeFec, Dict.lookup_insert_eq] at hq
    split at hq
    case isTrue => cases hq; exact hp
    case isFalse => exact h.fec i q hq
  decodedPkts := h.decodedPkts
  undecoded := h.undecoded
  seen := by
    intro q hq hbatch
    simp only [PacketBatch.storeFec, AList.mem_insert]
    rcases List.mem_append.mp hq with hq | hq
    · exact (h.seen q hq hbatch).imp_right .inr
    · rw [List.mem_singleton.mp hq]
      exact .inr (.inl hid)

/-- A packet that the batch holds already changes nothing. -/
theorem append_held (h : pb.Follows b decoded seen) {pkt : VideoPacket}
    (hid : pkt.header.batchId = b.batchId →
      pkt.header.pktIdInBatch ∈ pb.dataPkts ∨ pkt.header.pktIdInBatch ∈ pb.fecPkts) :
    pb.Follows b decoded (seen ++ [pkt]) where
  dataNum := h.dataNum
  data := h.data
  fec := h.fec
  decodedPkts := h.decodedPkts
  undecoded := h.undecoded
  seen := by
    intro q hq hbatch
    rcases List.mem_append.mp hq with hq | hq
    · exact h.seen q hq hbatch
    · rw [List.mem_singleton.mp hq] at hbatch ⊢
      exact hid hbatch

theorem addPacket (h : pb.Follows b decoded seen) {pkt : VideoPacket} (hpkt : b.Carries pkt) :
    (pb.addPacket pkt).Follows b decoded (seen ++ [pkt]) := by
  unfold PacketBatch.addPacket
  split
  case isTrue hid => exact h.append_held fun _ => .inl (h.decodedPkts _ hid)
  case isFalse =>
    cases pkt with
    | data p => exact h.storeData (hpkt.data p (.inl rfl)) rfl
    | dupFec p => exact h.storeData (hpkt.data p (.inr rfl)) rfl
    | fec p => exact h.storeFec (hpkt.fec p rfl) rfl

/-- Taking the undecoded packets out. -/
theorem getUndecodedPackets (h : pb.Follows b decoded seen) :
    pb.getUndecodedPackets.2.Follows b
      (decoded ∪ (pb.undecodedPkts.map (·.pktIdInGroup)).toFinset) seen where
  dataNum := h.dataNum
  data := by
    intro i p hp
    obtain ⟨hpi, hpd, hp⟩ := h.data i p hp
    refine ⟨hpi, hpd, .inl (Finset.mem_union.mpr ?_)⟩
    exact hp.imp_right fun hp => List.mem_toFinset.mpr (List.mem_map_of_mem hp)
  fec := h.fec
  decodedPkts := by
    intro i hi
    rcases Finset.mem_union.mp hi with hi | hi
    · exact h.decodedPkts i hi
    · obtain ⟨p, hp, rfl⟩ := List.mem_map.mp (List.mem_toFinset.mp hi)
      exact h.undecoded p hp
  undecoded := by simp [PacketBatch.getUndecodedPackets]
  seen := h.seen

theorem mono (h : pb.Follows b decoded seen) {decoded' : Finset UInt16}
    (hsub : decoded ⊆ decoded') :
    pb.Follows b decoded' seen :=
  { h with data := fun i p hp =>
      let ⟨hpi, hpd, hp⟩ := h.data i p hp
      ⟨hpi, hpd, hp.imp_left fun hp => hsub hp⟩ }

/-- A stored data packet is one of the batch's, by its id. -/
theorem pktIdInGroup_of_lookup (h : pb.Follows b decoded seen)
    (hids : (b.dataPkts.map (·.pktIdInBatch)).Nodup) {d : DataPacket} (hd : d ∈ b.dataPkts)
    {p : DataPacket} (hp : pb.dataPkts.lookup d.pktIdInBatch = some p) :
    p.pktIdInGroup = d.pktIdInGroup := by
  obtain ⟨hpi, hpd, -⟩ := h.data _ p hp
  obtain ⟨d', hd', heq⟩ := List.mem_map.mp hpd
  have hid : d'.pktIdInBatch = d.pktIdInBatch :=
    (congrArg DataPktDigest.pktIdInBatch heq).trans hpi
  have hsame : d' = d := List.inj_on_of_nodup_map hids hd' hd hid
  rw [← hsame]
  exact (congrArg DataPktDigest.pktIdInGroup heq).symm

/-- A batch that is complete leaves no data packet undecoded. -/
theorem checkComplete_true (h : pb.Follows b decoded seen) {groupDataNum : UInt16}
    {groupId : UInt32} {origins : Finset PktOrigin}
    (hb : b.WellFormed groupId groupDataNum origins) (hheld : pb.held ≤ pb.dataNum.toNat)
    {now : Time} {pick : ℕ} {group : PacketGroupIds} {pb' : PacketBatch}
    (hcheck : pb.checkComplete now pick group = some (true, pb')) {d : DataPacket}
    (hd : d ∈ b.dataPkts) :
    d.pktIdInGroup ∈ decoded ∪ (pb'.undecodedPkts.map (·.pktIdInGroup)).toFinset := by
  have hstored : ∀ p, pb.dataPkts.lookup d.pktIdInBatch = some p →
      d.pktIdInGroup ∈ decoded ∪ (pb.undecodedPkts.map (·.pktIdInGroup)).toFinset := by
    intro p hp
    rw [← h.pktIdInGroup_of_lookup hb.nodup_pktIdInBatch hd hp]
    obtain ⟨-, -, hp⟩ := h.data _ p hp
    exact Finset.mem_union.mpr
      (hp.imp_right fun hp => List.mem_toFinset.mpr (List.mem_map_of_mem hp))
  obtain ⟨-, hcase⟩ | ⟨hfull, hcase⟩ | ⟨i, fec, hfec, hcase⟩ :=
    PacketBatch.checkComplete_cases hheld now pick group
  · rw [hcase] at hcheck; simp at hcheck
  · -- as many data packets as the batch has, so this one, too
    rw [hcase] at hcheck
    simp only [Option.some.injEq, Prod.mk.injEq, true_and] at hcheck
    rw [← hcheck]
    have hsub : Dict.keySet pb.dataPkts ⊆ (b.dataPkts.map (·.pktIdInBatch)).toFinset := by
      intro i hi
      obtain ⟨p, hp⟩ := Dict.mem_iff_lookup.mp (Dict.mem_keySet.mp hi)
      obtain ⟨hpi, hpd, -⟩ := h.data i p hp
      obtain ⟨d', hd', heq⟩ := List.mem_map.mp hpd
      refine List.mem_toFinset.mpr (List.mem_map.mpr ⟨d', hd', ?_⟩)
      exact (congrArg DataPktDigest.pktIdInBatch heq).trans hpi
    have hcard : (b.dataPkts.map (·.pktIdInBatch)).toFinset.card ≤
        (Dict.keySet pb.dataPkts).card := by
      rw [List.toFinset_card_of_nodup hb.nodup_pktIdInBatch, List.length_map, Dict.card_keySet,
        hfull, h.dataNum]
    have hmem : d.pktIdInBatch ∈ Dict.keySet pb.dataPkts := by
      rw [Finset.eq_of_subset_of_card_le hsub hcard]
      exact List.mem_toFinset.mpr (List.mem_map_of_mem hd)
    obtain ⟨p, hp⟩ := Dict.mem_iff_lookup.mp (Dict.mem_keySet.mp hmem)
    exact hstored p hp
  · rw [hcase] at hcheck
    simp only [Option.some.injEq, Prod.mk.injEq, true_and] at hcheck
    rw [← hcheck, List.map_append, List.toFinset_append, ← Finset.union_assoc]
    by_cases hmem : d.pktIdInBatch ∈ pb.dataPkts
    · obtain ⟨p, hp⟩ := Dict.mem_iff_lookup.mp hmem
      exact Finset.mem_union_left _ (hstored p hp)
    · apply Finset.mem_union_right
      have hdigest : d.digest ∈ fec.dataPkts := by
        rw [h.fec i fec hfec]
        exact List.mem_map_of_mem hd
      refine List.mem_toFinset.mpr (List.mem_map.mpr ⟨_, List.mem_map.mpr ⟨d.digest,
        List.mem_filter.mpr ⟨hdigest, decide_eq_true hmem⟩, rfl⟩, rfl⟩)

end PacketBatch.Follows

namespace PacketGroup

variable {groupId : UInt32} {groupDataNum : UInt16} {origins : Finset PktOrigin}
  {batches : List SentBatch} {seen : List VideoPacket} {emitted : List DataPacket}
  {g : PacketGroup}

theorem Follows.new (groupId : UInt32) (dataNum : UInt16) (encodeTime : Time) :
    (new groupId dataNum encodeTime).Follows batches [] where
  complete := by simp [PacketGroup.new]
  incomplete := by simp [PacketGroup.new]
  fresh := by simp

/-- The batch that a packet ends up in. -/
theorem Follows.batchWith (h : g.Follows batches seen) {b : SentBatch} (hb : b ∈ batches)
    {pkt : VideoPacket} (hpkt : b.Carries pkt) (hopen : b.batchId ∉ g.completeBatches)
    {pb : PacketBatch} (hwith : g.batchWith pkt = some pb) :
    pb.Follows b g.decodedPkts (seen ++ [pkt]) := by
  have hid := hpkt.batchId
  obtain ⟨pb₀, rfl, hlookup | ⟨hlookup, rfl, -⟩⟩ := batchWith_eq_some hwith
  · rw [hid] at hlookup
    exact (h.incomplete b hb hopen pb₀ hlookup).addPacket hpkt
  · rw [hid] at hlookup
    exact (PacketBatch.Follows.empty hpkt (h.fresh b hb hopen hlookup)).addPacket hpkt

/-- A packet dropped as useless, when no batch misses it. -/
theorem Follows.receive_useless (h : g.Follows batches seen) {pkt : VideoPacket}
    (hkept : ∀ b ∈ batches, pkt.header.batchId = b.batchId → b.batchId ∉ g.completeBatches →
      ∃ pb, g.incompleteBatches.lookup b.batchId = some pb ∧
        (pkt.header.pktIdInBatch ∈ pb.dataPkts ∨ pkt.header.pktIdInBatch ∈ pb.fecPkts))
    {g' : PacketGroup} (hdecoded : g.decodedPkts ⊆ g'.decodedPkts)
    (hincomplete : g'.incompleteBatches = g.incompleteBatches)
    (hcomplete : g'.completeBatches = g.completeBatches) :
    g'.Follows batches (seen ++ [pkt]) where
  complete := by
    intro b hb hmem d hd
    rw [hcomplete] at hmem
    exact hdecoded (h.complete b hb hmem d hd)
  incomplete := by
    intro b hb hopen pb hlookup
    rw [hcomplete] at hopen
    rw [hincomplete] at hlookup
    apply ((h.incomplete b hb hopen pb hlookup).mono hdecoded).append_held
    intro hid
    obtain ⟨pb', hlookup', hheld⟩ := hkept b hb hid hopen
    rw [hlookup] at hlookup'
    cases hlookup'
    exact hheld
  fresh := by
    intro b hb hopen hlookup q hq
    rw [hcomplete] at hopen
    rw [hincomplete] at hlookup
    rcases List.mem_append.mp hq with hq | hq
    · exact h.fresh b hb hopen hlookup q hq
    · intro hid
      rw [List.mem_singleton.mp hq] at hid
      obtain ⟨pb, hsome, -⟩ := hkept b hb hid hopen
      rw [hlookup] at hsome
      cases hsome

/-- The batches other than the packet's own. -/
theorem Follows.other (h : g.Follows batches seen) {b : SentBatch} (hb : b ∈ batches)
    {pkt : VideoPacket} (hne : b.batchId ≠ pkt.header.batchId)
    (hopen : b.batchId ∉ g.completeBatches) {decoded : Finset UInt16}
    (hdecoded : g.decodedPkts ⊆ decoded) :
    (∀ pb, g.incompleteBatches.lookup b.batchId = some pb → pb.Follows b decoded (seen ++ [pkt])) ∧
      (g.incompleteBatches.lookup b.batchId = none →
        ∀ q ∈ seen ++ [pkt], q.header.batchId ≠ b.batchId) := by
  constructor
  · intro pb hlookup
    apply ((h.incomplete b hb hopen pb hlookup).mono hdecoded).append_held
    intro hid
    exact absurd hid.symm hne
  · intro hlookup q hq
    rcases List.mem_append.mp hq with hq | hq
    · exact h.fresh b hb hopen hlookup q hq
    · rw [List.mem_singleton.mp hq]
      exact hne.symm

theorem Follows.receive_complete (h : g.Follows batches seen) {b : SentBatch} {pkt : VideoPacket}
    (hsame : ∀ b' ∈ batches, b'.batchId = pkt.header.batchId → b' = b) {g' : PacketGroup}
    {pb : PacketBatch} (hdecoded : g.decodedPkts ⊆ g'.decodedPkts)
    (hall : ∀ d ∈ b.dataPkts, d.pktIdInGroup ∈ g'.decodedPkts)
    (hincomplete : g'.incompleteBatches = g.incompleteBatches.erase pkt.header.batchId)
    (hcomplete : g'.completeBatches = g.completeBatches.insert pkt.header.batchId pb) :
    g'.Follows batches (seen ++ [pkt]) where
  complete := by
    intro b' hb' hmem d hd
    rw [hcomplete, AList.mem_insert] at hmem
    rcases hmem with heq | hmem
    · rw [hsame b' hb' heq] at hd
      exact hall d hd
    · exact hdecoded (h.complete b' hb' hmem d hd)
  incomplete := by
    intro b' hb' hopen pb' hlookup
    rw [hcomplete, AList.mem_insert, not_or] at hopen
    rw [hincomplete, AList.lookup_erase_ne hopen.1] at hlookup
    exact (h.other hb' hopen.1 hopen.2 hdecoded).1 pb' hlookup
  fresh := by
    intro b' hb' hopen hlookup
    rw [hcomplete, AList.mem_insert, not_or] at hopen
    rw [hincomplete, AList.lookup_erase_ne hopen.1] at hlookup
    exact (h.other hb' hopen.1 hopen.2 hdecoded).2 hlookup

theorem Follows.receive_incomplete (h : g.Follows batches seen) {b : SentBatch}
    {pkt : VideoPacket} (hsame : ∀ b' ∈ batches, b'.batchId = pkt.header.batchId → b' = b)
    {g' : PacketGroup} {pb : PacketBatch} (hdecoded : g.decodedPkts ⊆ g'.decodedPkts)
    (hpb : pb.Follows b g'.decodedPkts (seen ++ [pkt]))
    (hincomplete : g'.incompleteBatches = g.incompleteBatches.insert pkt.header.batchId pb)
    (hcomplete : g'.completeBatches = g.completeBatches) :
    g'.Follows batches (seen ++ [pkt]) where
  complete := by
    intro b' hb' hmem d hd
    rw [hcomplete] at hmem
    exact hdecoded (h.complete b' hb' hmem d hd)
  incomplete := by
    intro b' hb' hopen pb' hlookup
    rw [hcomplete] at hopen
    rw [hincomplete] at hlookup
    by_cases heq : b'.batchId = pkt.header.batchId
    · rw [heq, AList.lookup_insert] at hlookup
      cases hlookup
      rw [hsame b' hb' heq]
      exact hpb
    · rw [AList.lookup_insert_ne heq] at hlookup
      exact (h.other hb' heq hopen hdecoded).1 pb' hlookup
  fresh := by
    intro b' hb' hopen hlookup
    rw [hcomplete] at hopen
    rw [hincomplete] at hlookup
    have hne : b'.batchId ≠ pkt.header.batchId := by
      intro heq
      rw [heq, AList.lookup_insert] at hlookup
      cases hlookup
    rw [AList.lookup_insert_ne hne] at hlookup
    exact (h.other hb' hne hopen hdecoded).2 hlookup

/-- One packet of a batch that the group does not discount. -/
theorem Follows.receive (h : g.Follows batches seen)
    (hs : g.Sound groupId origins groupDataNum emitted)
    (hnodup : (batches.map (·.batchId)).Nodup)
    {b : SentBatch} (hb : b ∈ batches) (hwf : b.WellFormed groupId groupDataNum origins)
    {pkt : VideoPacket} (hpkt : b.Carries pkt) (hgenuine : pkt.Genuine groupId origins)
    (hcounts : ¬ g.Discounts pkt) {now : Time} {pick : ℕ} {out : List DataPacket}
    {g' : PacketGroup} (hreceive : g.receive now pick pkt = some (out, g')) :
    g'.Follows batches (seen ++ [pkt]) := by
  have hsame : ∀ b' ∈ batches, b'.batchId = pkt.header.batchId → b' = b := fun b' hb' heq =>
    List.inj_on_of_nodup_map hnodup hb' hb (heq.trans hpkt.batchId)
  by_cases huseless : g.isUseless pkt
  · obtain ⟨g'', hreceive', hempty, hincomplete, hcomplete⟩ :=
      PacketGroup.receive_useless huseless now pick
    rw [hreceive] at hreceive'
    cases hreceive'
    refine h.receive_useless ?_ (by rw [hempty.decoded]; exact Finset.subset_union_left)
      hincomplete hcomplete
    intro b' hb' hid hopen
    rw [← hid] at hopen ⊢
    have hdecoded := huseless.resolve_left hopen
    by_contra hnone
    exact hcounts ⟨hopen, hdecoded, hnone⟩
  · obtain ⟨pb, hwith, hheld, hundecoded, hfec⟩ := hs.batchWith hgenuine
    have hgroup : (g.recordPacket pkt).groupId = groupId := by simp [hs.sameGroup]
    obtain ⟨complete, pb', hcheck, -, hfalse⟩ :=
      PacketBatch.Sound.checkComplete hundecoded hfec hheld now pick hgroup
    obtain ⟨g'', hreceive', hempty, hincomplete, hcomplete⟩ :=
      PacketGroup.receive_useful huseless hwith hcheck
    rw [hreceive] at hreceive'
    cases hreceive'
    rw [hs.undecoded, List.nil_append] at hempty
    have hdecoded : g.decodedPkts ⊆ g'.decodedPkts := by
      rw [hempty.decoded]; exact Finset.subset_union_left
    have hopen : b.batchId ∉ g.completeBatches := by
      rw [← hpkt.batchId]; exact fun hmem => huseless (.inl hmem)
    have hfollows := h.batchWith hb hpkt hopen hwith
    cases complete with
    | true =>
        refine h.receive_complete hsame hdecoded ?_ hincomplete hcomplete
        intro d hd
        rw [hempty.decoded]
        exact hfollows.checkComplete_true hwf hheld hcheck hd
    | false =>
        obtain ⟨rfl, -⟩ := hfalse rfl
        refine h.receive_incomplete hsame hdecoded ?_ hincomplete hcomplete
        rw [hempty.decoded]
        exact hfollows.getUndecodedPackets

/-- An open batch holds every packet that arrived for it, and less than it needs. -/
theorem Follows.mem_completeBatches (h : g.Follows batches seen)
    (hs : g.Sound groupId origins groupDataNum emitted) {b : SentBatch} (hb : b ∈ batches)
    (hpos : 0 < b.dataPkts.length)
    (henough : b.dataPkts.length ≤
      ((seen.filter (·.header.batchId = b.batchId)).map (·.header.pktIdInBatch)).toFinset.card) :
    b.batchId ∈ g.completeBatches := by
  by_contra hopen
  cases hlookup : g.incompleteBatches.lookup b.batchId with
  | none =>
      have hnil : seen.filter (·.header.batchId = b.batchId) = [] := by
        apply List.filter_eq_nil_iff.mpr
        intro pkt hpkt
        simpa using h.fresh b hb hopen hlookup pkt hpkt
      rw [hnil] at henough
      exact absurd henough (not_le.mpr hpos)
  | some pb =>
      have hpb := h.incomplete b hb hopen pb hlookup
      have hlt := (hs.batches _ pb hlookup).held
      have hsub : ((seen.filter (·.header.batchId = b.batchId)).map
          (·.header.pktIdInBatch)).toFinset ⊆ Dict.keySet pb.dataPkts ∪ Dict.keySet pb.fecPkts := by
        intro i hi
        obtain ⟨pkt, hpkt, rfl⟩ := List.mem_map.mp (List.mem_toFinset.mp hi)
        obtain ⟨hmem, hid⟩ := List.mem_filter.mp hpkt
        simpa using hpb.seen pkt hmem (of_decide_eq_true hid)
      have hle := (Finset.card_le_card hsub).trans (Finset.card_union_le _ _)
      rw [Dict.card_keySet, Dict.card_keySet] at hle
      rw [hpb.dataNum] at hlt
      exact absurd (henough.trans hle) (not_le.mpr hlt)

end PacketGroup

theorem SentBatch.WellFormed.carries {groupId : UInt32} {groupDataNum : UInt16}
    {origins : Finset PktOrigin} {b : SentBatch} (h : b.WellFormed groupId groupDataNum origins)
    {pkt : VideoPacket} (hpkt : pkt ∈ b.packets) (globalId : UInt16) (rcvTime : Time) :
    b.Carries (pkt.delivered globalId rcvTime) where
  batchId := by rw [VideoPacket.batchId_delivered, (h.batch pkt hpkt).1]
  dataNum := by rw [VideoPacket.batchDataNum_delivered, (h.batch pkt hpkt).2, h.dataNum_toNat]
  data := by
    intro p hp
    rcases List.mem_append.mp hpkt with hpkt | hpkt
    · obtain ⟨d, hd, rfl⟩ := List.mem_map.mp hpkt
      rcases hp with hp | hp
      · cases hp
        exact List.mem_map.mpr ⟨d, hd, rfl⟩
      · cases hp
    · obtain ⟨d, hd, rfl⟩ := List.mem_map.mp hpkt
      rcases hp with hp | hp <;> cases hp
  fec := by
    intro p hp
    rcases List.mem_append.mp hpkt with hpkt | hpkt
    · obtain ⟨d, hd, rfl⟩ := List.mem_map.mp hpkt
      cases hp
    · obtain ⟨d, hd, rfl⟩ := List.mem_map.mp hpkt
      cases hp
      exact (h.fec d hd).2.2

/-! ## Runs -/

/-- Every batch of which enough distinct packets arrived is handed out completely. -/
def Recovered (batches : List SentBatch) (seen : List VideoPacket) (emitted : List DataPacket) :
    Prop :=
  ∀ b ∈ batches, b.dataPkts.length ≤
      ((seen.filter (·.header.batchId = b.batchId)).map (·.header.pktIdInBatch)).toFinset.card →
    ∀ d ∈ b.dataPkts, ∃ p ∈ emitted, p.origin = d.origin

namespace Reassembly

variable {groupId : UInt32} {originals objects : List DataPacket} {batches : List SentBatch}

/-- What `Follows` and `Sound` say of every state of a run without discounted packets. -/
theorem exec_follows (hw : GroupWellFormed groupId originals objects batches)
    (hnodup : (batches.map (·.batchId)).Nodup) {arrivals : List Arrival}
    (hpkts : ∀ a ∈ arrivals, Delivers batches a.pkt) {s s' : Reassembly}
    {seen : List VideoPacket} (h : s.group.Follows batches seen)
    (hs : s.group.Sound groupId (originals.map (·.origin)).toFinset (.ofNat originals.length)
      s.emitted)
    (hcounts : Run.Each step (fun s a => ¬ s.group.Discounts a.pkt) s arrivals)
    (hrun : Run.exec step s arrivals = some s') :
    s'.group.Follows batches (seen ++ arrivals.map (·.pkt)) ∧
      s'.group.Sound groupId (originals.map (·.origin)).toFinset (.ofNat originals.length)
        s'.emitted := by
  induction arrivals generalizing s seen with
  | nil =>
      cases hrun
      simpa using ⟨h, hs⟩
  | cons a arrivals ih =>
      obtain ⟨t, hstep, hrest⟩ := Run.exec_cons_eq_some.mp hrun
      have hgenuine := hw.genuine (hpkts a List.mem_cons_self)
      obtain ⟨out, g', hreceive, hsound⟩ := hs.receive a.now a.pick hgenuine
      have ht : t = ⟨g', s.emitted ++ out⟩ := by
        simpa [step, hreceive] using hstep.symm
      subst ht
      obtain ⟨b, hb, sent, hsent, id, time, hpkt⟩ := hpkts a List.mem_cons_self
      have hcarries : b.Carries a.pkt := hpkt ▸ (hw.batches b hb).carries hsent id time
      have hfollows := h.receive hs hnodup hb (hw.batches b hb) hcarries hgenuine hcounts.1
        hreceive
      have := ih (fun a' ha' => hpkts a' (List.mem_cons_of_mem _ ha')) hfollows hsound
        (hcounts.2 _ hstep) hrest
      simpa using this

end Reassembly

/-- While no packet is discounted, enough packets of a batch recover it: after every prefix
of the run. -/
theorem BuiltGroup.recovered_of_not_discounts {groupId : UInt32}
    {originals objects : List DataPacket} {batches : List SentBatch}
    (h : BuiltGroup groupId originals objects batches)
    (hnodup : (batches.map (·.batchId)).Nodup) {first : Arrival} {arrivals : List Arrival}
    (hpkts : ∀ a ∈ first :: arrivals, Delivers batches a.pkt)
    (hcounts : Run.Each Reassembly.step (fun s a => ¬ s.group.Discounts a.pkt)
      (.start first.pkt) (first :: arrivals))
    {pre post : List Arrival} (hpre : pre ++ post = first :: arrivals) :
    ∃ s, Run.exec Reassembly.step (.start first.pkt) pre = some s ∧
      Recovered batches (pre.map (·.pkt)) s.emitted := by
  have hw := GroupWellFormed.of_built h
  have hstart := hw.start_sound (hpkts first List.mem_cons_self)
  have hpkts' : ∀ a ∈ pre, Delivers batches a.pkt := fun a ha =>
    hpkts a (hpre ▸ List.mem_append_left _ ha)
  obtain ⟨s, hrun, -⟩ := Reassembly.exec_sound (fun a ha => hw.genuine (hpkts' a ha)) hstart
  obtain ⟨hfollows, hsound⟩ := Reassembly.exec_follows hw hnodup hpkts' (.new _ _ _) hstart
    (hpre ▸ hcounts).of_append hrun
  refine ⟨s, hrun, ?_⟩
  intro b hb henough d hd
  have hcomplete := hfollows.mem_completeBatches hsound hb (hw.batches b hb).nonempty henough
  have hdecoded := hfollows.complete b hb hcomplete d hd
  rw [hsound.decoded] at hdecoded
  obtain ⟨p, hp, hid⟩ := List.mem_map.mp (List.mem_toFinset.mp hdecoded)
  exact ⟨p, hp, hw.origin_eq (hsound.genuine p hp).2 ((hw.batches b hb).data d hd).origin hid⟩

theorem BuiltGroup.recovered_of_not_discounts_firstBatch :
    ∃ s, Run.exec Reassembly.step (.start fecArrival.pkt) [fecArrival, dataArrival] = some s ∧
      Recovered [firstBatch] ([fecArrival, dataArrival].map (·.pkt)) s.emitted :=
  firstBatch_built.recovered_of_not_discounts (by decide) delivers_firstBatch
    (by decide +kernel) (List.append_nil _)

/-! ### A batch that overlaps with what is decoded -/

/-- The fields of a retransmission of both packets of `firstBatch`. -/
def rtxFields : BatchFields := ⟨0, 2, 2, 1, 2, 2⟩

def rtxBatch : SentBatch where
  batchId := 1
  dataPkts := (firstBatch.dataPkts.map (·.retransmit 1 60)).mapIdx fun k pkt =>
    rtxFields.setBatch (.ofNat k) pkt
  fecPkts := (List.range 2).map (rtxFields.fecPacket true 60 1
    ((firstBatch.dataPkts.map (·.retransmit 1 60)).mapIdx fun k pkt =>
      rtxFields.setBatch (.ofNat k) pkt) 0)

theorem rtxBatch_created : createPacketBatch (.ofNat 1) false 0 true 60 ⟨1, 1⟩
    (firstBatch.dataPkts.map (·.retransmit 1 60))
      = some (⟨1, 2⟩, rtxBatch.dataPkts, rtxBatch.fecPkts) := by
  have hfec : fecCount 2 (.ofNat 1) = 2 := fecCount_ofNat 2 (by norm_num)
  have hfields : batchFields (.ofNat 1) false 0 ⟨1, 1⟩ (firstBatch.dataPkts[0].retransmit 1 60) 2
      = rtxFields := by
    simp only [batchFields, UInt16.reduceOfNat, hfec]; rfl
  have hhead : (firstBatch.dataPkts.map (·.retransmit 1 60)).head?
      = some (firstBatch.dataPkts[0].retransmit 1 60) := rfl
  have hlen : (firstBatch.dataPkts.map (·.retransmit 1 60)).length = 2 := rfl
  simp only [createPacketBatch, hhead, hlen, hfields]
  rfl

theorem rtxBatch_built : BuiltGroup 0 firstBatch.dataPkts
    (updateObjects rtxBatch.dataPkts firstBatch.dataPkts) [firstBatch, rtxBatch] :=
  .rtx firstBatch_built (fun _ h => h) (by decide) rtxBatch_created

instance : NeZero rtxBatch.packets.length := ⟨by decide⟩

/-- The first packet of the first batch. -/
def fromFirst : Arrival := ⟨9, 0, (firstBatch.packets.get 0).delivered 0 9⟩

/-- The same packet out of the retransmission, and one of its FEC packets. -/
def discounted : List Arrival :=
  [⟨70, 0, rtxBatch.packets[0].delivered 4 70⟩, ⟨71, 0, rtxBatch.packets[2].delivered 6 71⟩]

theorem delivers_rtxBatch :
    ∀ a ∈ fromFirst :: discounted, Delivers [firstBatch, rtxBatch] a.pkt := by
  simp only [discounted, List.mem_cons, List.not_mem_nil, or_false, forall_eq_or_imp, forall_eq]
  exact ⟨⟨firstBatch, by simp, firstBatch.packets[0], List.getElem_mem _, 0, 9, rfl⟩,
    ⟨rtxBatch, by simp, rtxBatch.packets[0], List.getElem_mem _, 4, 70, rfl⟩,
    ⟨rtxBatch, by simp, rtxBatch.packets[2], List.getElem_mem _, 6, 71, rfl⟩⟩

/-- Two of the packets of a batch of two arrive, and its second data packet stays missing:
the first one was dropped, because the group had decoded its id before. -/
theorem BuiltGroup.not_recovered :
    ¬ ∀ (groupId : UInt32) (originals objects : List DataPacket) (batches : List SentBatch)
      (first : Arrival) (arrivals : List Arrival) (s : Reassembly),
      BuiltGroup groupId originals objects batches → (batches.map (·.batchId)).Nodup →
      (∀ a ∈ first :: arrivals, Delivers batches a.pkt) →
      Run.exec Reassembly.step (.start first.pkt) (first :: arrivals) = some s →
      Recovered batches ((first :: arrivals).map (·.pkt)) s.emitted := by
  intro hclaim
  obtain ⟨s, hrun, hemitted⟩ : ∃ s, Run.exec Reassembly.step (.start fromFirst.pkt)
      (fromFirst :: discounted) = some s ∧ s.emitted.map (·.pktIdInGroup) = [0] := by
    decide +kernel
  have hall := hclaim 0 _ _ _ _ _ s rtxBatch_built (by decide) delivers_rtxBatch hrun rtxBatch
    (by simp) (by decide +kernel)
  obtain ⟨p, hp, horigin⟩ := hall rtxBatch.dataPkts[1] (List.getElem_mem _)
  have hid : p.pktIdInGroup ∈ s.emitted.map (·.pktIdInGroup) := List.mem_map_of_mem hp
  have hone : p.pktIdInGroup = 1 := congrArg PktOrigin.pktIdInGroup horigin
  rw [hemitted, hone] at hid
  exact absurd hid (by decide)

end Zhuge
