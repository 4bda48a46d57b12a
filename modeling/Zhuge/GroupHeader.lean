-- SUMMARY: The group header on the packets of a group, and the retransmissions that keep it.
import Zhuge.BuiltGroup

/-!
# The group header

Data packets keep the group fields of their first batch. The FEC packets of a retransmission
take the number of FEC packets of the group from the batch field of a data packet.
-/

namespace Zhuge

/-- The data packets of a group as they are now, and its batches so far. -/
structure SentGroup where
  objects : List DataPacket
  batches : List SentBatch

/-- Some data packets of a group are sent again, with the rate that the policy answers. -/
structure Retransmission where
  fecRate : Binary64
  now : Time
  txCount : UInt8
  ids : SenderIds
  chosen : List DataPacket

namespace SentGroup

/-- The group after its first batch. -/
def start (batchId : UInt32) (data : List DataPacket) (fec : List FECPacket) : SentGroup :=
  ⟨data, [⟨batchId, data, fec⟩]⟩

/-- The packets to be sent again are different packets of the group. -/
def Offers (g : SentGroup) (chosen : List DataPacket) : Prop :=
  (∀ pkt ∈ chosen, pkt ∈ g.objects) ∧ (chosen.map (·.pktIdInGroup)).Nodup

instance (g : SentGroup) (chosen : List DataPacket) : Decidable (g.Offers chosen) :=
  inferInstanceAs (Decidable (_ ∧ _))

/-- One retransmission. `none`: other packets were chosen, or an assertion fails. -/
def retransmit (groupId : UInt32) (g : SentGroup) (e : Retransmission) : Option SentGroup :=
  if g.Offers e.chosen then
    (createPacketBatch e.fecRate false groupId true e.now e.ids
      (e.chosen.map (·.retransmit e.txCount e.now))).map fun p =>
        ⟨updateObjects p.2.1 g.objects, g.batches ++ [⟨e.ids.batchId, p.2.1, p.2.2⟩]⟩
  else none

/-- All packets made so far carry the group header. -/
def SameHeader (groupDataNum groupFecNum : UInt16) (g : SentGroup) : Prop :=
  ∀ b ∈ g.batches, ∀ pkt ∈ b.packets,
    pkt.header.groupDataNum = groupDataNum ∧ pkt.header.groupFecNum = groupFecNum

/-- The retransmission makes no FEC packet, or its first data packet was last in a batch with
as many of them as the group. -/
def KeepsHeader (groupFecNum : UInt16) (g : SentGroup) (e : Retransmission) : Prop :=
  g.Offers e.chosen → fecCount (.ofNat e.chosen.length) e.fecRate ≠ 0 →
    ∀ front ∈ e.chosen.head?, front.batchFecNum = groupFecNum

instance (groupFecNum : UInt16) (g : SentGroup) (e : Retransmission) :
    Decidable (g.KeepsHeader groupFecNum e) :=
  inferInstanceAs (Decidable (g.Offers e.chosen → _ ≠ _ → ∀ front ∈ e.chosen.head?, _))

/-- What holds of a group after any number of retransmissions. -/
structure Inv (groupId : UInt32) (groupFecNum : UInt16) (originals : List DataPacket)
    (g : SentGroup) : Prop where
  built : BuiltGroup groupId originals g.objects g.batches
  fecNum : ∀ pkt ∈ g.objects, pkt.groupFecNum = groupFecNum

variable {groupId : UInt32} {groupFecNum : UInt16} {originals : List DataPacket}
  {g g' : SentGroup} {e : Retransmission}

/-- A retransmission returns if some packets of the group were chosen. -/
theorem Inv.retransmit_eq_some (h : g.Inv groupId groupFecNum originals)
    (hoffers : g.Offers e.chosen) (hne : e.chosen ≠ []) :
    ∃ g', g.retransmit groupId e = some g' := by
  have hw := GroupWellFormed.of_built h.built
  cases hchosen : e.chosen with
  | nil => exact absurd hchosen hne
  | cons front rest =>
      have hflag : ∀ pkt ∈ (front :: rest).map (·.retransmit e.txCount e.now),
          pkt.groupInfoSetFlag = true ∧ pkt.groupId = groupId := by
        intro pkt hpkt
        obtain ⟨p, hp, rfl⟩ := List.mem_map.mp hpkt
        have hp := hw.objects p (hoffers.1 p (hchosen ▸ hp))
        exact ⟨hp.groupInfoSet, hp.groupId⟩
      have hcreate := createPacketBatch_rtx e.fecRate e.now e.ids hflag
      rw [retransmit, if_pos hoffers, hchosen, List.map_cons, hcreate]
      exact ⟨_, rfl⟩

theorem retransmit_eq_some_iff (h : g.retransmit groupId e = some g') :
    g.Offers e.chosen ∧ ∃ ids data fec,
      createPacketBatch e.fecRate false groupId true e.now e.ids
        (e.chosen.map (·.retransmit e.txCount e.now)) = some (ids, data, fec) ∧
      g' = ⟨updateObjects data g.objects, g.batches ++ [⟨e.ids.batchId, data, fec⟩]⟩ := by
  unfold retransmit at h
  split at h
  case isTrue hoffers =>
    obtain ⟨⟨ids, data, fec⟩, hcreate, rfl⟩ := Option.map_eq_some_iff.mp h
    exact ⟨hoffers, ids, data, fec, hcreate, rfl⟩
  case isFalse => cases h

/-- The data packets of a retransmission keep their group fields. -/
theorem Inv.data_header (h : g.Inv groupId groupFecNum originals) (hoffers : g.Offers e.chosen)
    {f : BatchFields} {data : List DataPacket}
    (hdata : data = (e.chosen.map (·.retransmit e.txCount e.now)).mapIdx fun k pkt =>
      f.setBatch (.ofNat k) pkt) :
    ∀ pkt ∈ data, pkt.groupDataNum = .ofNat originals.length ∧ pkt.groupFecNum = groupFecNum := by
  intro pkt hpkt
  have hw := GroupWellFormed.of_built h.built
  rw [hdata] at hpkt
  obtain ⟨k, hk, rfl⟩ := List.mem_mapIdx.mp hpkt
  obtain ⟨p, hp, heq⟩ := List.mem_map.mp (List.getElem_mem hk)
  have hp := hoffers.1 p hp
  rw [← heq]
  exact ⟨(hw.objects p hp).groupDataNum, h.fecNum p hp⟩

theorem Inv.retransmit (h : g.Inv groupId groupFecNum originals)
    (hstep : g.retransmit groupId e = some g') : g'.Inv groupId groupFecNum originals := by
  obtain ⟨hoffers, ids, data, fec, hcreate, rfl⟩ := retransmit_eq_some_iff hstep
  have hw := GroupWellFormed.of_built h.built
  obtain ⟨-, -, f, -, hdata, -⟩ := hw.created_rtx hoffers.1 hcreate
  refine ⟨.rtx h.built hoffers.1 hoffers.2 hcreate, fun pkt hpkt => ?_⟩
  obtain ⟨p, hp, rfl⟩ := List.mem_map.mp hpkt
  cases hfind : data.find? (·.pktIdInGroup = p.pktIdInGroup) with
  | none => exact h.fecNum p hp
  | some p' => exact (h.data_header hoffers hdata p' (List.mem_of_find?_eq_some hfind)).2

/-- A retransmission keeps the header on all packets if and only if it meets the condition. -/
theorem Inv.sameHeader_iff (h : g.Inv groupId groupFecNum originals)
    (hsame : g.SameHeader (.ofNat originals.length) groupFecNum)
    (hstep : g.retransmit groupId e = some g') :
    g'.SameHeader (.ofNat originals.length) groupFecNum ↔ g.KeepsHeader groupFecNum e := by
  obtain ⟨hoffers, ids, data, fec, hcreate, rfl⟩ := retransmit_eq_some_iff hstep
  have hw := GroupWellFormed.of_built h.built
  obtain ⟨front, hfront, f, hf, hdata, hfec⟩ := hw.created_rtx hoffers.1 hcreate
  have hgroupFec : f.groupFecNum = front.batchFecNum := by
    rw [hf]
    rfl
  have hgroupData : f.groupDataNum = .ofNat originals.length := by
    have hmem := List.mem_of_head? hfront
    rw [hf]
    exact (hw.objects front (hoffers.1 front hmem)).groupDataNum
  have hbatchFec : f.batchFecNum = fecCount (.ofNat e.chosen.length) e.fecRate := by
    rw [hf]
    rfl
  constructor
  · intro hsame' _ hsome front' hfront'
    cases hfront.symm.trans hfront'
    have hpos : 0 < f.batchFecNum.toNat :=
      Nat.pos_of_ne_zero fun hzero => hsome (hbatchFec ▸ UInt16.toNat_inj.mp hzero)
    have hmade : f.fecPacket true e.now e.txCount data 0 0 ∈ fec := by
      rw [hfec]
      exact List.mem_map_of_mem (List.mem_range.mpr hpos)
    have hlast := hsame' ⟨e.ids.batchId, data, fec⟩ (List.mem_append_right _ (.head _))
      (.fec _) (List.mem_append_right _ (List.mem_map_of_mem hmade))
    exact hgroupFec.symm.trans hlast.2
  · intro hkeeps b hb pkt hpkt
    rcases List.mem_append.mp hb with hb | hb
    · exact hsame b hb pkt hpkt
    · rw [List.mem_singleton.mp hb] at hpkt
      rcases List.mem_append.mp hpkt with hpkt | hpkt
      · obtain ⟨d, hd, rfl⟩ := List.mem_map.mp hpkt
        exact h.data_header hoffers hdata d hd
      · obtain ⟨p, hp, rfl⟩ := List.mem_map.mp hpkt
        rw [hfec] at hp
        obtain ⟨i, hi, rfl⟩ := List.mem_map.mp hp
        have hsome : fecCount (.ofNat e.chosen.length) e.fecRate ≠ 0 := by
          intro hzero
          rw [hbatchFec, hzero] at hi
          exact absurd (List.mem_range.mp hi) (Nat.not_lt_zero i)
        exact ⟨hgroupData, hgroupFec.trans (hkeeps hoffers hsome front hfront)⟩

/-! ## Runs -/

section First

variable {fecRate : Binary64} {now : Time} {ids ids' : SenderIds} {pkts data : List DataPacket}
  {fec : List FECPacket}

/-- A first batch puts the group header on all its packets. -/
theorem start_sameHeader
    (h : createPacketBatch fecRate true 0 false now ids pkts = some (ids', data, fec)) :
    data.length = pkts.length ∧
      (∀ pkt ∈ data, pkt.groupFecNum = fecCount (.ofNat pkts.length) fecRate) ∧
      (start ids.batchId data fec).SameHeader (.ofNat pkts.length)
        (fecCount (.ofNat pkts.length) fecRate) := by
  cases pkts with
  | nil => cases h
  | cons front rest =>
      have hcreate := createPacketBatch_newGroup fecRate 0 now ids front rest
      rw [hcreate] at h
      simp only [Option.some.injEq, Prod.mk.injEq] at h
      obtain ⟨-, hdata, hfec⟩ := h
      have hmem : ∀ pkt ∈ data, pkt.groupDataNum = .ofNat (rest.length + 1) ∧
          pkt.groupFecNum = fecCount (.ofNat (rest.length + 1)) fecRate := by
        intro pkt hpkt
        rw [← hdata] at hpkt
        obtain ⟨k, hk, rfl⟩ := List.mem_mapIdx.mp hpkt
        exact ⟨rfl, rfl⟩
      refine ⟨by rw [← hdata, List.length_mapIdx], fun pkt hpkt => (hmem pkt hpkt).2, ?_⟩
      intro b hb pkt hpkt
      rw [List.mem_singleton.mp hb] at hpkt
      rcases List.mem_append.mp hpkt with hpkt | hpkt
      · obtain ⟨d, hd, rfl⟩ := List.mem_map.mp hpkt
        exact hmem d hd
      · obtain ⟨p, hp, rfl⟩ := List.mem_map.mp hpkt
        rw [← hfec] at hp
        obtain ⟨i, -, rfl⟩ := List.mem_map.mp hp
        exact ⟨rfl, rfl⟩

/-- All packets of a group carry the header of its first batch, through any retransmissions, if
and only if every retransmission meets the condition. -/
theorem sameHeader_iff_keepsHeader (hlen : pkts.length ≤ 65535)
    (h : createPacketBatch fecRate true 0 false now ids pkts = some (ids', data, fec))
    (es : List Retransmission) :
    Run.Always (SentGroup.retransmit ids.groupId) (fun g => g.SameHeader (.ofNat pkts.length)
        (fecCount (.ofNat pkts.length) fecRate)) (start ids.batchId data fec) es
      ↔ Run.Each (SentGroup.retransmit ids.groupId) (fun g e => g.KeepsHeader
        (fecCount (.ofNat pkts.length) fecRate) e) (start ids.batchId data fec) es := by
  obtain ⟨hlength, hfecNum, hsame⟩ := start_sameHeader h
  rw [← hlength] at hfecNum hsame ⊢
  refine Run.always_iff_each
    (I := Inv ids.groupId (fecCount (.ofNat data.length) fecRate) data)
    (fun _ _ _ => Inv.retransmit) (fun _ _ _ hinv hP => hinv.sameHeader_iff hP)
    (fun g e hinv hnot => ?_) ⟨.first rfl hlen h, hfecNum⟩ hsame es
  simp only [KeepsHeader, not_forall] at hnot
  obtain ⟨hoffers, -, front, hfront, -⟩ := hnot
  exact hinv.retransmit_eq_some hoffers fun hnil => by
    rw [hnil] at hfront
    cases hfront

end First

/-- `firstBatch` sent again with as many FEC packets. -/
def resentAlike : Retransmission := ⟨.ofNat 1, 60, 1, ⟨1, 1⟩, firstBatch.dataPkts⟩

theorem sameHeader_iff_keepsHeader_firstBatch :
    Run.Always (SentGroup.retransmit 0) (fun g => g.SameHeader 2 (fecCount 2 (.ofNat 1)))
      (start 0 firstBatch.dataPkts firstBatch.fecPkts) [resentAlike] :=
  (sameHeader_iff_keepsHeader (by decide) firstBatch_created _).mpr (by decide +kernel)

/-- `firstBatch` sent again without FEC packets, and then with two. -/
def resentTwice : List Retransmission :=
  [⟨.ofNat 0, 60, 1, ⟨1, 1⟩, firstBatch.dataPkts⟩,
    ⟨.ofNat 1, 120, 2, ⟨1, 2⟩, (firstBatch.dataPkts.map (·.retransmit 1 60)).mapIdx fun k pkt =>
      BatchFields.setBatch ⟨0, 2, 2, 1, 2, 0⟩ (.ofNat k) pkt⟩]

/-- The last two FEC packets say that the group has none. -/
theorem resentTwice_not_sameHeader :
    ¬ ∀ (fecRate : Binary64) (now : Time) (ids ids' : SenderIds) (pkts data : List DataPacket)
      (fec : List FECPacket) (es : List Retransmission),
      pkts.length ≤ 65535 →
      createPacketBatch fecRate true 0 false now ids pkts = some (ids', data, fec) →
      Run.Always (SentGroup.retransmit ids.groupId) (fun g => g.SameHeader (.ofNat pkts.length)
        (fecCount (.ofNat pkts.length) fecRate)) (start ids.batchId data fec) es := by
  intro hclaim
  obtain ⟨g, hrun, hheaders⟩ : ∃ g, Run.exec (SentGroup.retransmit 0)
      (start 0 firstBatch.dataPkts firstBatch.fecPkts) resentTwice = some g ∧
      ∃ b ∈ g.batches, ∃ pkt ∈ b.packets, pkt.header.groupFecNum ≠ fecCount 2 (.ofNat 1) := by
    decide +kernel
  obtain ⟨b, hb, pkt, hpkt, hdiffers⟩ := hheaders
  have hsame := (hclaim _ _ _ _ _ _ _ resentTwice (by decide) firstBatch_created).exec hrun
  exact hdiffers (hsame b hb pkt hpkt).2

end SentGroup

end Zhuge
