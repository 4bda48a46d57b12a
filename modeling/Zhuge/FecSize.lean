-- SUMMARY: The size of FEC packets on the wire, and the batches whose digests fit into them.
import Zhuge.BuiltGroup

/-!
# The size of FEC packets

An FEC packet is padded to the largest payload. Its digests take twelve bytes for each data
packet of the batch, and nothing bounds their number but the sizes of groups.
-/

namespace Zhuge

open PacketBuffer

variable {P : Type} [PacketBuffer P]

/-- `NetworkPacket::MAX_PACKET_SIZE`. -/
def NetworkPacket.maxPacketSize : UInt16 := 1460

/-- The packet is padded to the full size, which a packet can have. -/
structure FECPacket.FullSize (P : Type) [PacketBuffer P] (pkt : FECPacket) : Prop where
  size : (bytes (pkt.toNetPacket : P)).length = 4 + 31 + VideoPacket.maxPayloadSize.toNat
  fits : (bytes (pkt.toNetPacket : P)).length ≤ NetworkPacket.maxPacketSize.toNat
  noWrap : pkt.headerLength ≤ VideoPacket.maxPayloadSize.toUInt32

/-- The most digests that leave the padding as it should be. -/
def maxDigests : ℕ := 118

namespace FECPacket

theorem headerLength_toNat {pkt : FECPacket} (hlen : pkt.dataPkts.length ≤ 65535) :
    pkt.headerLength.toNat = 2 + 12 * pkt.dataPkts.length := by
  rw [headerLength, UInt32.toNat_ofNat']
  omega

theorem noWrap_iff {pkt : FECPacket} (hlen : pkt.dataPkts.length ≤ 65535) :
    pkt.headerLength ≤ VideoPacket.maxPayloadSize.toUInt32 ↔ pkt.dataPkts.length ≤ maxDigests := by
  have hmax : VideoPacket.maxPayloadSize.toUInt32.toNat = 1418 := rfl
  rw [UInt32.le_iff_toNat_le, headerLength_toNat hlen, hmax, maxDigests]
  omega

theorem length_toNetPacket [LawfulPacketBuffer P] [SizedPacketBuffer P] {pkt : FECPacket}
    (hlen : pkt.dataPkts.length ≤ 65535) :
    (bytes (pkt.toNetPacket : P)).length = 4 + (31 + (pkt.headerLength.toNat
      + (-pkt.headerLength + VideoPacket.maxPayloadSize.toUInt32).toNat)) := by
  have hnetwork := (NetworkPacketHeader.carries PacketType.fecPkt.header).size
  have hvideo : (Header.serialize pkt.toVideoPacketHeader).length = 31 := by
    simp [Header.serialize]
  have hfec := (FECPacketHeader.carries (h := pkt.header) hlen).size
  have hdigests : (Header.serialize pkt.header).length = pkt.headerLength.toNat := by
    rw [hfec, headerLength, Nat.add_comm]
    rfl
  have hfour : (Header.serialize PacketType.fecPkt.header).length = 4 := rfl
  rw [toNetPacket, length_bytes_addHeader hnetwork, length_bytes_addHeader hvideo,
    length_bytes_addHeader hfec, SizedPacketBuffer.length_bytes_create, hdigests, hvideo, hfour]

/-- A packet is of full size if and only if its digests fit. -/
theorem fullSize_iff [LawfulPacketBuffer P] [SizedPacketBuffer P] {pkt : FECPacket}
    (hlen : pkt.dataPkts.length ≤ 65535) :
    pkt.FullSize P ↔ pkt.dataPkts.length ≤ maxDigests := by
  refine ⟨fun h => (noWrap_iff hlen).mp h.noWrap, fun h => ?_⟩
  have hnoWrap := (noWrap_iff hlen).mpr h
  have hpadding : (-pkt.headerLength + VideoPacket.maxPayloadSize.toUInt32).toNat
      = VideoPacket.maxPayloadSize.toUInt32.toNat - pkt.headerLength.toNat := by
    rw [UInt32.add_comm, ← UInt32.sub_eq_add_neg, UInt32.toNat_sub_of_le _ _ hnoWrap]
  have hsize : (bytes (pkt.toNetPacket : P)).length
      = 4 + 31 + VideoPacket.maxPayloadSize.toNat := by
    have hle := UInt32.le_iff_toNat_le.mp hnoWrap
    have hword : VideoPacket.maxPayloadSize.toUInt32.toNat = VideoPacket.maxPayloadSize.toNat := rfl
    rw [length_toNetPacket hlen, hpadding]
    omega
  exact ⟨hsize, hsize.trans_le (by decide), hnoWrap⟩

end FECPacket

/-! ## Batches -/

theorem BatchFields.length_assignIds {f : BatchFields} {newGroup : Bool} {i j next : UInt16}
    {pkts data : List DataPacket} (h : f.assignIds newGroup i j pkts = some (data, next)) :
    data.length = pkts.length := by
  induction pkts generalizing i j data next with
  | nil =>
      cases h
      rfl
  | cons pkt pkts ih =>
      simp only [assignIds] at h
      split at h
      · split at h
        · obtain ⟨⟨rest, next'⟩, hrest, heq⟩ := Option.bind_eq_some_iff.mp h
          cases heq
          rw [List.length_cons, ih hrest, List.length_cons]
        · cases h
      · obtain ⟨⟨rest, next'⟩, hrest, heq⟩ := Option.bind_eq_some_iff.mp h
        cases heq
        rw [List.length_cons, ih hrest, List.length_cons]

section Batch

variable {fecRate : Binary64} {newGroup isRtx : Bool} {groupId : UInt32} {now : Time}
  {ids ids' : SenderIds} {pkts data : List DataPacket} {fec : List FECPacket}

/-- Every FEC packet of a batch has a digest of each of its data packets. -/
theorem createPacketBatch_digests
    (h : createPacketBatch fecRate newGroup groupId isRtx now ids pkts = some (ids', data, fec)) :
    ∀ pkt ∈ fec, pkt.dataPkts.length = pkts.length := by
  obtain ⟨front, f, next, -, -, -, hassign, rfl⟩ := createPacketBatch_eq_some h
  intro pkt hpkt
  obtain ⟨i, -, rfl⟩ := List.mem_map.mp hpkt
  change (data.map DataPacket.digest).length = pkts.length
  rw [List.length_map, BatchFields.length_assignIds hassign]

/-- The FEC packets of a batch are of full size if and only if there are none or the batch has
few enough data packets. -/
theorem fullSize_iff_length_le [LawfulPacketBuffer P] [SizedPacketBuffer P]
    (hlen : pkts.length ≤ 65535)
    (h : createPacketBatch fecRate newGroup groupId isRtx now ids pkts = some (ids', data, fec)) :
    (∀ pkt ∈ fec, pkt.FullSize P) ↔ fec = [] ∨ pkts.length ≤ maxDigests := by
  have hdigests := createPacketBatch_digests h
  have hfull : ∀ pkt ∈ fec, (pkt.FullSize P ↔ pkts.length ≤ maxDigests) := by
    intro pkt hpkt
    rw [← hdigests pkt hpkt] at hlen ⊢
    exact FECPacket.fullSize_iff hlen
  cases fec with
  | nil => exact ⟨fun _ => .inl rfl, fun _ pkt hpkt => absurd hpkt List.not_mem_nil⟩
  | cons front rest =>
      constructor
      · exact fun hall => .inr ((hfull front (.head _)).mp (hall front (.head _)))
      · rintro (hnil | hle) pkt hpkt
        · cases hnil
        · exact (hfull pkt hpkt).mpr hle

end Batch

theorem fullSize_iff_length_le_firstBatch :
    (∀ pkt ∈ firstBatch.fecPkts, pkt.FullSize (List UInt8)) ↔
      firstBatch.fecPkts = [] ∨ twoPackets.length ≤ maxDigests :=
  fullSize_iff_length_le (by decide) firstBatch_created

/-- A packet of a frame of 119 packets. -/
def ofLongFrame (pktIdInFrame : ℕ) : DataPacket := .new 0 0 119 (.ofNat pktIdInFrame)

/-- The FEC packets of a frame of 119 packets have one digest too many. -/
theorem longFrame_not_fullSize :
    ¬ ∀ (fecRate : Binary64) (newGroup : Bool) (groupId : UInt32) (isRtx : Bool) (now : Time)
      (ids ids' : SenderIds) (pkts data : List DataPacket) (fec : List FECPacket),
      pkts.length ≤ 65535 →
      createPacketBatch fecRate newGroup groupId isRtx now ids pkts = some (ids', data, fec) →
      ∀ pkt ∈ fec, pkt.FullSize (List UInt8) := by
  intro hclaim
  have hlength : (ofLongFrame 0 :: (List.range 118).map ofLongFrame).length = 119 := by
    rw [List.length_cons, List.length_map, List.length_range]
  obtain ⟨ids', data, fec, hcreate, hne⟩ : ∃ ids' data fec,
      createPacketBatch (.ofNat 1) true 0 false 0 ⟨0, 0⟩
        (ofLongFrame 0 :: (List.range 118).map ofLongFrame) = some (ids', data, fec) ∧
      fec ≠ [] := by
    have hfec : fecCount 119 (.ofNat 1) = 119 := fecCount_ofNat 119 (by norm_num)
    refine ⟨_, _, _, createPacketBatch_newGroup .., fun hnil => ?_⟩
    have hzero := List.range_eq_nil.mp (List.map_eq_nil_iff.mp hnil)
    rw [List.length_map, List.length_range] at hzero
    exact absurd ((congrArg UInt16.toNat hfec).symm.trans hzero) (by decide)
  obtain ⟨pkt, hmade⟩ := List.exists_mem_of_ne_nil _ hne
  have hfull := hclaim _ _ _ _ _ _ _ _ _ _ (by rw [hlength]; decide) hcreate _ hmade
  have hdigests := createPacketBatch_digests hcreate _ hmade
  rw [hlength] at hdigests
  have hle := (FECPacket.noWrap_iff (by rw [hdigests]; decide)).mp hfull.noWrap
  rw [hdigests] at hle
  exact absurd hle (by decide)

end Zhuge
