-- SUMMARY: The groups a sender builds, batch by batch, and what their packets have in common.
import Zhuge.CreateBatch
import Zhuge.GroupFec
import Zhuge.WireTrip

/-!
# Built groups

A group starts with a first batch. Later batches are made of some of its data packet
objects, which keep their place in the group and are numbered anew within the batch.
-/

namespace Zhuge

/-- A packet as the receiver gets it: sent under a global id, and stamped on arrival. -/
def VideoPacket.delivered (globalId : UInt16) (rcvTime : Time) (pkt : VideoPacket) :
    VideoPacket :=
  (pkt.setGlobalId globalId).received.setRcvTime rcvTime

/-- One batch as the sender made it. The data packets are as they were then. -/
structure SentBatch where
  batchId : UInt32
  dataPkts : List DataPacket
  fecPkts : List FECPacket

def SentBatch.packets (b : SentBatch) : List VideoPacket :=
  b.dataPkts.map .data ++ b.fecPkts.map .fec

/-- The objects of a group after some of them were changed. -/
def updateObjects (changed objects : List DataPacket) : List DataPacket :=
  objects.map fun pkt => (changed.find? (·.pktIdInGroup = pkt.pktIdInGroup)).getD pkt

/-- A group as the sender builds it: its data packets in the first batch, the same objects
now, and all batches so far. -/
inductive BuiltGroup (groupId : UInt32) :
    List DataPacket → List DataPacket → List SentBatch → Prop
  | first {fecRate : Binary64} {now : Time} {ids ids' : SenderIds} {pkts data : List DataPacket}
      {fec : List FECPacket} (hid : ids.groupId = groupId) (hlen : pkts.length ≤ 65535)
      (h : createPacketBatch fecRate true 0 false now ids pkts = some (ids', data, fec)) :
      BuiltGroup groupId data data [⟨ids.batchId, data, fec⟩]
  | rtx {originals objects : List DataPacket} {batches : List SentBatch} {fecRate : Binary64}
      {now : Time} {txCount : UInt8} {ids ids' : SenderIds} {chosen data : List DataPacket}
      {fec : List FECPacket} (hbuilt : BuiltGroup groupId originals objects batches)
      (hsub : ∀ pkt ∈ chosen, pkt ∈ objects) (hnodup : (chosen.map (·.pktIdInGroup)).Nodup)
      (h : createPacketBatch fecRate false groupId true now ids
        (chosen.map (·.retransmit txCount now)) = some (ids', data, fec)) :
      BuiltGroup groupId originals (updateObjects data objects)
        (batches ++ [⟨ids.batchId, data, fec⟩])

/-- The packet that arrives is one of the group's. -/
def Delivers (batches : List SentBatch) (pkt : VideoPacket) : Prop :=
  ∃ b ∈ batches, ∃ sent ∈ b.packets, ∃ globalId rcvTime, pkt = sent.delivered globalId rcvTime

/-! ## Invariants -/

/-- The objects keep their place in the group. -/
structure DataPacket.InGroup (groupId : UInt32) (groupDataNum : UInt16)
    (origins : Finset PktOrigin) (pkt : DataPacket) : Prop where
  groupId : pkt.groupId = groupId
  groupDataNum : pkt.groupDataNum = groupDataNum
  groupInfoSet : pkt.groupInfoSetFlag = true
  origin : pkt.origin ∈ origins

/-- What every batch of a group satisfies. -/
structure SentBatch.WellFormed (groupId : UInt32) (groupDataNum : UInt16)
    (origins : Finset PktOrigin) (b : SentBatch) : Prop where
  nonempty : 0 < b.dataPkts.length
  length_le : b.dataPkts.length ≤ 65535
  data : ∀ pkt ∈ b.dataPkts, pkt.InGroup groupId groupDataNum origins
  pktIds : b.dataPkts.map (·.pktIdInBatch) = (List.range b.dataPkts.length).map .ofNat
  fec : ∀ pkt ∈ b.fecPkts, pkt.groupId = groupId ∧ pkt.groupDataNum = groupDataNum ∧
    pkt.dataPkts = b.dataPkts.map (·.digest)
  batch : ∀ pkt ∈ b.packets, pkt.header.batchId = b.batchId ∧
    pkt.header.batchDataNum = .ofNat b.dataPkts.length

/-- What holds of a group after any number of batches. -/
structure GroupWellFormed (groupId : UInt32) (originals objects : List DataPacket)
    (batches : List SentBatch) : Prop where
  nonempty : 0 < originals.length
  length_le : originals.length ≤ 65535
  pktIds : originals.map (·.pktIdInGroup) = (List.range originals.length).map .ofNat
  sameGroup : ∀ pkt ∈ originals, pkt.groupId = groupId
  objects : ∀ pkt ∈ objects, pkt.InGroup groupId (.ofNat originals.length)
    (originals.map (·.origin)).toFinset
  batches : ∀ b ∈ batches, b.WellFormed groupId (.ofNat originals.length)
    (originals.map (·.origin)).toFinset

namespace SentBatch

/-- Data packets that carry the fields of `f` and their positions, with the FEC packets made
from them, are a well-formed batch. -/
theorem wellFormed_of_fields {groupId : UInt32} {groupDataNum : UInt16}
    {origins : Finset PktOrigin} {f : BatchFields} {isRtx : Bool} {now : Time} {txCount : UInt8}
    {data : List DataPacket} {next : UInt16} {fecNum : ℕ} (hpos : 0 < data.length)
    (hlen : data.length ≤ 65535) (hgroup : f.groupId = groupId)
    (hgroupNum : f.groupDataNum = groupDataNum) (hnum : f.batchDataNum = .ofNat data.length)
    (hdata : ∀ pkt ∈ data, pkt.InGroup groupId groupDataNum origins)
    (hbatch : ∀ pkt ∈ data, pkt.batchId = f.batchId ∧ pkt.batchDataNum = f.batchDataNum)
    (hids : data.map (·.pktIdInBatch) = (List.range data.length).map .ofNat) :
    (⟨f.batchId, data, (List.range fecNum).map (f.fecPacket isRtx now txCount data next)⟩ :
      SentBatch).WellFormed groupId groupDataNum origins where
  nonempty := hpos
  length_le := hlen
  data := hdata
  pktIds := hids
  fec := by
    intro pkt hpkt
    obtain ⟨i, -, rfl⟩ := List.mem_map.mp hpkt
    exact ⟨hgroup, hgroupNum, rfl⟩
  batch := by
    intro pkt hpkt
    rcases List.mem_append.mp hpkt with hpkt | hpkt
    · obtain ⟨d, hd, rfl⟩ := List.mem_map.mp hpkt
      exact ⟨(hbatch d hd).1, (hbatch d hd).2.trans hnum⟩
    · obtain ⟨d, hd, rfl⟩ := List.mem_map.mp hpkt
      obtain ⟨i, -, rfl⟩ := List.mem_map.mp hd
      exact ⟨rfl, hnum⟩

end SentBatch

theorem map_mapIdx_ofNat {g : ℕ → DataPacket → DataPacket} {field : DataPacket → UInt16}
    (hg : ∀ k pkt, field (g k pkt) = .ofNat k) (pkts : List DataPacket) :
    (pkts.mapIdx g).map field = (List.range pkts.length).map .ofNat := by
  apply List.ext_getElem
  · simp
  · intro i h₁ h₂
    simp [hg]

/-- What the loop over the packets does not change. -/
theorem map_mapIdx_field {α : Type} {g : ℕ → DataPacket → DataPacket} {field : DataPacket → α}
    (hg : ∀ k pkt, field (g k pkt) = field pkt) (pkts : List DataPacket) :
    (pkts.mapIdx g).map field = pkts.map field := by
  apply List.ext_getElem
  · simp
  · intro i h₁ h₂
    simp [hg]

namespace GroupWellFormed

theorem first {groupId : UInt32} {fecRate : Binary64} {now : Time} {ids ids' : SenderIds}
    {pkts data : List DataPacket} {fec : List FECPacket} (hid : ids.groupId = groupId)
    (hlen : pkts.length ≤ 65535)
    (h : createPacketBatch fecRate true 0 false now ids pkts = some (ids', data, fec)) :
    GroupWellFormed groupId data data [⟨ids.batchId, data, fec⟩] := by
  cases pkts with
  | nil => simp [createPacketBatch] at h
  | cons front rest =>
      have hcreate := createPacketBatch_newGroup fecRate 0 now ids front rest
      simp only [hcreate, Option.some.injEq, Prod.mk.injEq] at h
      obtain ⟨-, hdata, rfl⟩ := h
      have hlength : data.length = rest.length + 1 := by simp [← hdata]
      have hids : data.map (·.pktIdInGroup) = (List.range data.length).map .ofNat := by
        rw [hlength, ← hdata]; exact map_mapIdx_ofNat (fun _ _ => rfl) (front :: rest)
      have hingroup : ∀ pkt ∈ data, pkt.InGroup groupId (.ofNat data.length)
          (data.map (·.origin)).toFinset := by
        intro pkt hpkt
        have horigin : pkt.origin ∈ (data.map (·.origin)).toFinset :=
          List.mem_toFinset.mpr (List.mem_map_of_mem hpkt)
        rw [← hdata] at hpkt
        obtain ⟨k, hk, rfl⟩ := List.mem_mapIdx.mp hpkt
        exact ⟨hid, congrArg UInt16.ofNat hlength.symm, rfl, horigin⟩
      refine ⟨by omega, by simpa [hlength] using hlen, hids,
        fun pkt hpkt => (hingroup pkt hpkt).groupId, hingroup, ?_⟩
      intro b hb
      rw [List.mem_singleton.mp hb, hdata]
      refine SentBatch.wellFormed_of_fields
        (f := batchFields fecRate true 0 ids front (rest.length + 1)) (by omega)
        (by simpa [hlength] using hlen) hid (congrArg UInt16.ofNat hlength.symm)
        (congrArg UInt16.ofNat hlength.symm) hingroup ?_ ?_
      · intro pkt hpkt
        rw [← hdata] at hpkt
        obtain ⟨k, hk, rfl⟩ := List.mem_mapIdx.mp hpkt
        exact ⟨rfl, rfl⟩
      · rw [hlength, ← hdata]
        exact map_mapIdx_ofNat (fun _ _ => rfl) (front :: rest)

theorem length_le_of_nodup {chosen originals : List DataPacket}
    (hnodup : (chosen.map (·.pktIdInGroup)).Nodup)
    (hsub : ∀ pkt ∈ chosen, pkt.pktIdInGroup ∈ originals.map (·.pktIdInGroup)) :
    chosen.length ≤ originals.length := by
  have hsub' : chosen.map (·.pktIdInGroup) ⊆ originals.map (·.pktIdInGroup) := by
    intro i hi
    obtain ⟨pkt, hpkt, rfl⟩ := List.mem_map.mp hi
    exact hsub pkt hpkt
  simpa using (hnodup.subperm hsub').length_le

/-- What a retransmission of some of the group's objects is made of. -/
theorem created_rtx {groupId : UInt32} {originals objects : List DataPacket}
    {batches : List SentBatch} (hw : GroupWellFormed groupId originals objects batches)
    {fecRate : Binary64} {now : Time} {txCount : UInt8} {ids ids' : SenderIds}
    {chosen data : List DataPacket} {fec : List FECPacket} (hsub : ∀ pkt ∈ chosen, pkt ∈ objects)
    (h : createPacketBatch fecRate false groupId true now ids
      (chosen.map (·.retransmit txCount now)) = some (ids', data, fec)) :
    ∃ front ∈ chosen.head?, ∃ f : BatchFields,
      f = batchFields fecRate false groupId ids (front.retransmit txCount now) chosen.length ∧
      data = (chosen.map (·.retransmit txCount now)).mapIdx (fun k pkt =>
        f.setBatch (.ofNat k) pkt) ∧
      fec = (List.range f.batchFecNum.toNat).map (f.fecPacket true now txCount data 0) := by
  cases chosen with
  | nil => cases h
  | cons front rest =>
      have hflag : ∀ pkt ∈ (front :: rest).map (·.retransmit txCount now),
          pkt.groupInfoSetFlag = true ∧ pkt.groupId = groupId := by
        intro pkt hpkt
        obtain ⟨p, hp, rfl⟩ := List.mem_map.mp hpkt
        have hp := hw.objects p (hsub p hp)
        exact ⟨hp.groupInfoSet, hp.groupId⟩
      have hcreate := createPacketBatch_rtx fecRate now ids hflag
      rw [List.map_cons, hcreate] at h
      simp only [Option.some.injEq, Prod.mk.injEq] at h
      obtain ⟨-, rfl, rfl⟩ := h
      refine ⟨front, rfl, batchFields fecRate false groupId ids (front.retransmit txCount now)
        (rest.length + 1), rfl, ?_, ?_⟩
      · rw [List.length_map]
        rfl
      · rw [List.length_map]
        rfl

theorem rtx {groupId : UInt32} {originals objects : List DataPacket} {batches : List SentBatch}
    (hw : GroupWellFormed groupId originals objects batches) {fecRate : Binary64} {now : Time}
    {txCount : UInt8} {ids ids' : SenderIds} {chosen data : List DataPacket}
    {fec : List FECPacket} (hsub : ∀ pkt ∈ chosen, pkt ∈ objects)
    (hnodup : (chosen.map (·.pktIdInGroup)).Nodup)
    (h : createPacketBatch fecRate false groupId true now ids
      (chosen.map (·.retransmit txCount now)) = some (ids', data, fec)) :
    GroupWellFormed groupId originals (updateObjects data objects)
      (batches ++ [⟨ids.batchId, data, fec⟩]) := by
  obtain ⟨front, hhead, f, hf, hdata, hfec⟩ := hw.created_rtx hsub h
  have hfront := hw.objects front (hsub front (List.mem_of_mem_head? hhead))
  have hlength : data.length = chosen.length := by rw [hdata, List.length_mapIdx, List.length_map]
  have hpos : 0 < chosen.length := List.length_pos_of_mem (List.mem_of_mem_head? hhead)
  have hids_mem : ∀ pkt ∈ chosen, pkt.pktIdInGroup ∈ originals.map (·.pktIdInGroup) := by
    intro pkt hpkt
    obtain ⟨o, ho, heq⟩ := List.mem_map.mp (List.mem_toFinset.mp
      (hw.objects pkt (hsub pkt hpkt)).origin)
    exact List.mem_map.mpr ⟨o, ho, congrArg PktOrigin.pktIdInGroup heq⟩
  have hle : data.length ≤ 65535 :=
    hlength.le.trans ((length_le_of_nodup hnodup hids_mem).trans hw.length_le)
  have hingroup : ∀ pkt ∈ data, pkt.InGroup groupId (.ofNat originals.length)
      (originals.map (·.origin)).toFinset := by
    intro pkt hpkt
    rw [hdata] at hpkt
    obtain ⟨k, hk, rfl⟩ := List.mem_mapIdx.mp hpkt
    have hmem : (chosen.map (·.retransmit txCount now))[k] ∈
        chosen.map (·.retransmit txCount now) := List.getElem_mem hk
    obtain ⟨p, hp, heq⟩ := List.mem_map.mp hmem
    have hp := hw.objects p (hsub p hp)
    rw [← heq]
    exact ⟨hp.groupId, hp.groupDataNum, hp.groupInfoSet, hp.origin⟩
  refine ⟨hw.nonempty, hw.length_le, hw.pktIds, hw.sameGroup, ?_, ?_⟩
  · -- an object is what the batch made of it last, or what it was
    intro pkt hpkt
    obtain ⟨p, hp, rfl⟩ := List.mem_map.mp hpkt
    cases hfind : data.find? (·.pktIdInGroup = p.pktIdInGroup) with
    | none => exact hw.objects p hp
    | some p' => exact hingroup p' (List.mem_of_find?_eq_some hfind)
  · intro b hb
    rcases List.mem_append.mp hb with hb | hb
    · exact hw.batches b hb
    · have hbatchId : ids.batchId = f.batchId := by
        rw [hf]
        rfl
      rw [List.mem_singleton.mp hb, hfec, hbatchId]
      refine SentBatch.wellFormed_of_fields (f := f) (by omega) hle (by rw [hf]; rfl)
        (by rw [hf]; exact hfront.groupDataNum) ?_ hingroup ?_ ?_
      · rw [hf, hlength]
        rfl
      · intro pkt hpkt
        rw [hdata] at hpkt
        obtain ⟨k, hk, rfl⟩ := List.mem_mapIdx.mp hpkt
        exact ⟨by rw [hf]; rfl, rfl⟩
      · rw [hdata, List.length_mapIdx]
        exact map_mapIdx_ofNat (fun _ _ => rfl) _

theorem of_built {groupId : UInt32} {originals objects : List DataPacket}
    {batches : List SentBatch} (h : BuiltGroup groupId originals objects batches) :
    GroupWellFormed groupId originals objects batches := by
  induction h with
  | first hid hlen h => exact first hid hlen h
  | rtx _ hsub hnodup h ih => exact ih.rtx hsub hnodup h

section

variable {groupId : UInt32} {originals objects : List DataPacket} {batches : List SentBatch}

theorem dataNum_toNat (h : GroupWellFormed groupId originals objects batches) :
    (UInt16.ofNat originals.length).toNat = originals.length :=
  UInt16.toNat_ofNat_of_lt' (Nat.lt_succ_of_le h.length_le)

theorem pktIdInGroup_getElem (h : GroupWellFormed groupId originals objects batches) {i : ℕ}
    (hi : i < originals.length) : originals[i].pktIdInGroup = .ofNat i := by
  have hi' : i < (originals.map (·.pktIdInGroup)).length := by simpa using hi
  calc originals[i].pktIdInGroup = (originals.map (·.pktIdInGroup))[i] := by simp
    _ = .ofNat i := by simp [h.pktIds]

theorem pktIdInGroup_toNat (h : GroupWellFormed groupId originals objects batches) {i : ℕ}
    (hi : i < originals.length) : originals[i].pktIdInGroup.toNat = i := by
  rw [h.pktIdInGroup_getElem hi]
  exact UInt16.toNat_ofNat_of_lt' (lt_of_lt_of_le hi (h.length_le.trans (by decide)))

/-- The group ids are exactly the numbers below the group's size. -/
theorem pktIdInGroup_lt_iff (h : GroupWellFormed groupId originals objects batches)
    (i : UInt16) : i.toNat < originals.length ↔ ∃ o ∈ originals, o.pktIdInGroup = i := by
  constructor
  · intro hi
    exact ⟨_, List.getElem_mem hi, UInt16.toNat_inj.mp (h.pktIdInGroup_toNat hi)⟩
  · rintro ⟨o, ho, rfl⟩
    obtain ⟨k, hk, rfl⟩ := List.getElem_of_mem ho
    rw [h.pktIdInGroup_toNat hk]; exact hk

theorem origin_pktIdInGroup_lt (h : GroupWellFormed groupId originals objects batches)
    {o : PktOrigin} (ho : o ∈ (originals.map (·.origin)).toFinset) :
    o.pktIdInGroup.toNat < (UInt16.ofNat originals.length).toNat := by
  obtain ⟨pkt, hpkt, rfl⟩ := List.mem_map.mp (List.mem_toFinset.mp ho)
  rw [h.dataNum_toNat]
  exact (h.pktIdInGroup_lt_iff _).mpr ⟨pkt, hpkt, rfl⟩

/-- The group ids tell the originals apart. -/
theorem origin_eq (h : GroupWellFormed groupId originals objects batches) {o o' : PktOrigin}
    (ho : o ∈ (originals.map (·.origin)).toFinset)
    (ho' : o' ∈ (originals.map (·.origin)).toFinset) (heq : o.pktIdInGroup = o'.pktIdInGroup) :
    o = o' := by
  obtain ⟨pkt, hpkt, rfl⟩ := List.mem_map.mp (List.mem_toFinset.mp ho)
  obtain ⟨pkt', hpkt', rfl⟩ := List.mem_map.mp (List.mem_toFinset.mp ho')
  obtain ⟨i, hi, rfl⟩ := List.getElem_of_mem hpkt
  obtain ⟨j, hj, rfl⟩ := List.getElem_of_mem hpkt'
  have hij : i = j := by
    rw [← h.pktIdInGroup_toNat hi, ← h.pktIdInGroup_toNat hj]
    exact congrArg UInt16.toNat heq
  subst hij
  rfl

end

end GroupWellFormed

/-! ## Arriving packets -/

namespace VideoPacket

@[simp] theorem batchId_delivered (globalId : UInt16) (rcvTime : Time) (pkt : VideoPacket) :
    (pkt.delivered globalId rcvTime).header.batchId = pkt.header.batchId := by
  cases pkt <;> rfl

@[simp] theorem batchDataNum_delivered (globalId : UInt16) (rcvTime : Time) (pkt : VideoPacket) :
    (pkt.delivered globalId rcvTime).header.batchDataNum = pkt.header.batchDataNum := by
  cases pkt <;> rfl

@[simp] theorem groupId_delivered (globalId : UInt16) (rcvTime : Time) (pkt : VideoPacket) :
    (pkt.delivered globalId rcvTime).header.groupId = pkt.header.groupId := by
  cases pkt <;> rfl

@[simp] theorem groupDataNum_delivered (globalId : UInt16) (rcvTime : Time) (pkt : VideoPacket) :
    (pkt.delivered globalId rcvTime).header.groupDataNum = pkt.header.groupDataNum := by
  cases pkt <;> rfl

end VideoPacket

namespace SentBatch.WellFormed

variable {groupId : UInt32} {groupDataNum : UInt16} {origins : Finset PktOrigin} {b : SentBatch}

theorem dataNum_pos (h : b.WellFormed groupId groupDataNum origins) :
    0 < UInt16.ofNat b.dataPkts.length := by
  rw [UInt16.lt_iff_toNat_lt, UInt16.toNat_ofNat_of_lt' (Nat.lt_succ_of_le h.length_le)]
  exact h.nonempty

theorem dataNum_toNat (h : b.WellFormed groupId groupDataNum origins) :
    (UInt16.ofNat b.dataPkts.length).toNat = b.dataPkts.length :=
  UInt16.toNat_ofNat_of_lt' (Nat.lt_succ_of_le h.length_le)

theorem pktIdInBatch_toNat (h : b.WellFormed groupId groupDataNum origins) {i : ℕ}
    (hi : i < b.dataPkts.length) : b.dataPkts[i].pktIdInBatch.toNat = i := by
  have hi' : i < (b.dataPkts.map (·.pktIdInBatch)).length := by simpa using hi
  have hid : b.dataPkts[i].pktIdInBatch = .ofNat i := by
    calc b.dataPkts[i].pktIdInBatch = (b.dataPkts.map (·.pktIdInBatch))[i] := by simp
      _ = .ofNat i := by simp [h.pktIds]
  rw [hid]
  exact UInt16.toNat_ofNat_of_lt' (lt_of_lt_of_le hi (h.length_le.trans (by decide)))

theorem nodup_pktIdInBatch (h : b.WellFormed groupId groupDataNum origins) :
    (b.dataPkts.map (·.pktIdInBatch)).Nodup := by
  rw [h.pktIds]
  refine List.Nodup.map_on ?_ List.nodup_range
  intro i hi j hj hij
  have hsmall : ∀ k ∈ List.range b.dataPkts.length, (UInt16.ofNat k).toNat = k := fun k hk =>
    UInt16.toNat_ofNat_of_lt'
      (lt_of_lt_of_le (List.mem_range.mp hk) (h.length_le.trans (by decide)))
  rw [← hsmall i hi, ← hsmall j hj, hij]

theorem sameGroup (h : b.WellFormed groupId groupDataNum origins) {pkt : VideoPacket}
    (hpkt : pkt ∈ b.packets) :
    pkt.header.groupId = groupId ∧ pkt.header.groupDataNum = groupDataNum := by
  rcases List.mem_append.mp hpkt with hpkt | hpkt
  · obtain ⟨d, hd, rfl⟩ := List.mem_map.mp hpkt
    exact ⟨(h.data d hd).groupId, (h.data d hd).groupDataNum⟩
  · obtain ⟨fec, hfec, rfl⟩ := List.mem_map.mp hpkt
    exact ⟨(h.fec fec hfec).1, (h.fec fec hfec).2.1⟩

theorem genuine (h : b.WellFormed groupId groupDataNum origins) {pkt : VideoPacket}
    (hpkt : pkt ∈ b.packets) (globalId : UInt16) (rcvTime : Time) :
    (pkt.delivered globalId rcvTime).Genuine groupId origins := by
  refine ⟨?_, ?_⟩
  · rw [VideoPacket.batchDataNum_delivered, (h.batch pkt hpkt).2]
    exact h.dataNum_pos
  · rcases List.mem_append.mp hpkt with hpkt | hpkt
    · obtain ⟨d, hd, rfl⟩ := List.mem_map.mp hpkt
      exact ⟨(h.data d hd).groupId, (h.data d hd).origin⟩
    · obtain ⟨fec, hfec, rfl⟩ := List.mem_map.mp hpkt
      intro digest hdigest
      have hdigest' : digest ∈ fec.dataPkts := hdigest
      rw [(h.fec fec hfec).2.2] at hdigest'
      obtain ⟨d, hd, rfl⟩ := List.mem_map.mp hdigest'
      exact (h.data d hd).origin

end SentBatch.WellFormed

namespace GroupWellFormed

variable {groupId : UInt32} {originals objects : List DataPacket} {batches : List SentBatch}

theorem genuine (h : GroupWellFormed groupId originals objects batches) {pkt : VideoPacket}
    (hpkt : Delivers batches pkt) : pkt.Genuine groupId (originals.map (·.origin)).toFinset := by
  obtain ⟨b, hb, sent, hsent, id, time, rfl⟩ := hpkt
  exact (h.batches b hb).genuine hsent id time

/-- The group that the receiver creates for the first packet of the group to arrive. -/
theorem start_sound (h : GroupWellFormed groupId originals objects batches)
    {pkt : VideoPacket} (hpkt : Delivers batches pkt) :
    (Reassembly.start pkt).group.Sound groupId (originals.map (·.origin)).toFinset
      (.ofNat originals.length) [] := by
  obtain ⟨b, hb, sent, hsent, id, time, rfl⟩ := hpkt
  obtain ⟨hgroup, hnum⟩ := (h.batches b hb).sameGroup hsent
  simp only [Reassembly.start, VideoPacket.groupId_delivered, VideoPacket.groupDataNum_delivered,
    hgroup, hnum]
  exact PacketGroup.Sound.new _ _

end GroupWellFormed

/-! ## Decoding -/

/-- Whatever packets of a group arrive, in any order and any number of times: no assertion
fails, only data packets of the group are handed out, and the group counts as complete
exactly when all of them were. -/
theorem BuiltGroup.decoding_sound {groupId : UInt32} {originals objects : List DataPacket}
    {batches : List SentBatch} (h : BuiltGroup groupId originals objects batches)
    {first : Arrival} {arrivals : List Arrival}
    (hpkts : ∀ a ∈ first :: arrivals, Delivers batches a.pkt) :
    ∃ s, Run.exec Reassembly.step (.start first.pkt) (first :: arrivals) = some s ∧
      (∀ p ∈ s.emitted, ∃ o ∈ originals, p.groupId = o.groupId ∧
        p.pktIdInGroup = o.pktIdInGroup ∧ p.frameId = o.frameId ∧
        p.framePktNum = o.framePktNum ∧ p.pktIdInFrame = o.pktIdInFrame) ∧
      s.group.dataNum.toNat = originals.length ∧
      (∀ i ∈ s.group.decodedPkts, i.toNat < s.group.dataNum.toNat) ∧
      (s.group.checkComplete = true ↔
        ∀ o ∈ originals, ∃ p ∈ s.emitted, p.pktIdInGroup = o.pktIdInGroup) := by
  have hw := GroupWellFormed.of_built h
  obtain ⟨s, hrun, hs⟩ := Reassembly.exec_sound (fun a ha => hw.genuine (hpkts a ha))
    (hw.start_sound (hpkts first List.mem_cons_self))
  have hids := fun o => hw.origin_pktIdInGroup_lt (o := o)
  refine ⟨s, hrun, ?_, ?_, ?_, ?_⟩
  · intro p hp
    obtain ⟨hgroup, horigin⟩ := hs.genuine p hp
    obtain ⟨o, ho, heq⟩ := List.mem_map.mp (List.mem_toFinset.mp horigin)
    simp only [DataPacket.origin, PktOrigin.mk.injEq] at heq
    exact ⟨o, ho, hgroup.trans (hw.sameGroup o ho).symm, heq.1.symm, heq.2.1.symm,
      heq.2.2.1.symm, heq.2.2.2.symm⟩
  · rw [hs.sameNum, hw.dataNum_toNat]
  · rw [hs.sameNum]
    exact hs.decodedPkts_lt hids
  · rw [hs.checkComplete_iff hids, hw.dataNum_toNat]
    constructor
    · intro hall o ho
      exact hall _ ((hw.pktIdInGroup_lt_iff _).mpr ⟨o, ho, rfl⟩)
    · intro hall i hi
      obtain ⟨o, ho, rfl⟩ := (hw.pktIdInGroup_lt_iff i).mp hi
      exact hall o ho

/-- The data packets of a small frame. -/
def twoPackets : List DataPacket := [.new 0 0 2 0, .new 0 0 2 1]

/-- The fields of their first batch, with one FEC packet for each data packet. -/
def firstFields : BatchFields := ⟨0, 2, 2, 0, 2, 2⟩

/-- The first batch of that group, as `firstBatch_created` shows. -/
def firstBatch : SentBatch where
  batchId := 0
  dataPkts := twoPackets.mapIdx fun k pkt =>
    firstFields.setGroup (.ofNat k) (firstFields.setBatch (.ofNat k) pkt)
  fecPkts := (List.range 2).map (firstFields.fecPacket false 0 0 (twoPackets.mapIdx fun k pkt =>
    firstFields.setGroup (.ofNat k) (firstFields.setBatch (.ofNat k) pkt)) 2)

theorem firstBatch_created : createPacketBatch (.ofNat 1) true 0 false 0 ⟨0, 0⟩ twoPackets
    = some (⟨1, 1⟩, firstBatch.dataPkts, firstBatch.fecPkts) := by
  have hfec : fecCount 2 (.ofNat 1) = 2 := fecCount_ofNat 2 (by norm_num)
  have hfields : batchFields (.ofNat 1) true 0 ⟨0, 0⟩ (.new 0 0 2 0) 2 = firstFields := by
    simp only [batchFields, UInt16.reduceOfNat, hfec]; rfl
  simp only [createPacketBatch, twoPackets, List.head?_cons, List.length_cons, List.length_nil,
    Nat.reduceAdd, hfields]
  rfl

theorem firstBatch_built :
    BuiltGroup 0 firstBatch.dataPkts firstBatch.dataPkts [firstBatch] :=
  .first rfl (by decide) firstBatch_created

instance : NeZero firstBatch.packets.length := ⟨by decide⟩

/-- An FEC packet that overtakes a data packet. -/
def fecArrival : Arrival := ⟨7, 0, firstBatch.packets[3].delivered 3 7⟩

def dataArrival : Arrival := ⟨9, 0, firstBatch.packets[1].delivered 1 9⟩

theorem delivers_firstBatch : ∀ a ∈ [fecArrival, dataArrival], Delivers [firstBatch] a.pkt := by
  simp only [List.mem_cons, List.not_mem_nil, or_false, forall_eq_or_imp, forall_eq]
  exact ⟨⟨_, List.mem_singleton_self _, firstBatch.packets[3], List.getElem_mem _, 3, 7, rfl⟩,
    ⟨_, List.mem_singleton_self _, firstBatch.packets[1], List.getElem_mem _, 1, 9, rfl⟩⟩

theorem BuiltGroup.decoding_sound_firstBatch :
    ∃ s, Run.exec Reassembly.step (.start fecArrival.pkt) [fecArrival, dataArrival] = some s ∧
      (∀ p ∈ s.emitted, ∃ o ∈ firstBatch.dataPkts, p.groupId = o.groupId ∧
        p.pktIdInGroup = o.pktIdInGroup ∧ p.frameId = o.frameId ∧
        p.framePktNum = o.framePktNum ∧ p.pktIdInFrame = o.pktIdInFrame) ∧
      s.group.dataNum.toNat = firstBatch.dataPkts.length ∧
      (∀ i ∈ s.group.decodedPkts, i.toNat < s.group.dataNum.toNat) ∧
      (s.group.checkComplete = true ↔
        ∀ o ∈ firstBatch.dataPkts, ∃ p ∈ s.emitted, p.pktIdInGroup = o.pktIdInGroup) :=
  BuiltGroup.decoding_sound firstBatch_built delivers_firstBatch

/-- In that run the FEC packet stands in for the packet that never came. -/
example : (Run.exec Reassembly.step (.start fecArrival.pkt) [fecArrival, dataArrival]).map
    (fun s => (s.emitted.map (·.pktIdInGroup), s.group.checkComplete)) = some ([1, 0], true) := by
  decide +kernel

end Zhuge
