-- SUMMARY: A group whose packets arrive in order hands out every data packet at once, and its FEC packets only bring back packets that came before.
import Zhuge.GroupDelivery

/-!
# Groups in order

The sender sends the data packets of a group in order, and its FEC packets behind them. While
data packets arrive, there is nothing to recover them from. The receiver may have forgotten
the packets before, because a group that times out is begun anew.
-/

namespace Zhuge

/-- Ids below `n` are not more than `n`. -/
theorem size_le_of_keys_lt {V : Type} {d : Dict UInt16 V} {n : ℕ} (h : ∀ i ∈ d, i.toNat < n) :
    Dict.size d ≤ n := by
  have hsub : (Dict.keySet d).image UInt16.toNat ⊆ Finset.range n := by
    intro i hi
    obtain ⟨k, hk, rfl⟩ := Finset.mem_image.mp hi
    exact Finset.mem_range.mpr (h k (Dict.mem_keySet.mp hk))
  have hcard := Finset.card_le_card hsub
  rwa [Finset.card_image_of_injective _ fun _ _ => UInt16.toNat_inj.mp, Dict.card_keySet,
    Finset.card_range] at hcard

/-- The batch knows data packets only, from the first `j` of its group. -/
structure PacketBatch.Filling (dataNum : UInt16) (j : ℕ) (b : PacketBatch) : Prop where
  dataNum : b.dataNum = dataNum
  undecoded : b.undecodedPkts = []
  decoded : ∀ i ∈ b.decodedPkts, i.toNat < j
  dataPkts : ∀ i ∈ b.dataPkts, i.toNat < j
  fecPkts : b.fecPkts = ∅

/-- The group knows data packets only, from the first `j`. -/
structure PacketGroup.Filling (dataNum : UInt16) (j : ℕ) (g : PacketGroup) : Prop where
  undecoded : g.undecodedPkts = []
  decoded : ∀ i ∈ g.decodedPkts, i.toNat < j
  complete : ∀ k, k ∉ g.completeBatches
  batches : ∀ k b, g.incompleteBatches.lookup k = some b → b.Filling dataNum j

/-- The data packet is the one at position `j` of a group of one batch. -/
structure DataPacket.At (dataNum : UInt16) (j : ℕ) (pkt : DataPacket) : Prop where
  lt : j < dataNum.toNat
  pktIdInGroup : pkt.pktIdInGroup.toNat = j
  pktIdInBatch : pkt.pktIdInBatch.toNat = j
  batchDataNum : pkt.batchDataNum = dataNum

namespace PacketBatch

variable {dataNum : UInt16} {j : ℕ} {b : PacketBatch} {pkt : DataPacket}

theorem Filling.storeData (h : b.Filling dataNum j) (hpkt : pkt.At dataNum j) :
    b.addPacket (.data pkt) = b.storeData pkt := by
  have hnew : (VideoPacket.data pkt).header.pktIdInBatch ∉ b.decodedPkts := fun hmem =>
    absurd (h.decoded _ hmem) (not_lt.mpr hpkt.pktIdInBatch.ge)
  rw [addPacket, if_neg hnew]

/-- The next data packet goes straight through, and completes the batch if it was the last. -/
theorem Filling.checkComplete (h : b.Filling dataNum j) (hpkt : pkt.At dataNum j) {now : Time}
    {pick : ℕ} {group : PacketGroupIds} {complete : Bool} {b' : PacketBatch}
    (hcheck : (b.storeData pkt).checkComplete now pick group = some (complete, b')) :
    b' = b.storeData pkt ∧ (j + 1 < dataNum.toNat → complete = false) := by
  have hkeys : ∀ i ∈ (b.storeData pkt).dataPkts, i.toNat < j + 1 := by
    intro i hi
    rcases (AList.mem_insert _).mp hi with rfl | hi
    · exact Nat.lt_succ_of_le hpkt.pktIdInBatch.le
    · exact Nat.lt_succ_of_lt (h.dataPkts i hi)
  have hsize := size_le_of_keys_lt hkeys
  have hnum : (b.storeData pkt).dataNum = dataNum := h.dataNum
  obtain ⟨-, rfl, rfl⟩ | ⟨hfull, -, rfl⟩ | ⟨-, -, -, fec, hfec, -⟩ := checkComplete_eq_some hcheck
  · exact ⟨rfl, fun _ => rfl⟩
  · refine ⟨rfl, fun hlt => ?_⟩
    rw [hnum] at hfull
    omega
  · have hnone : (b.storeData pkt).fecPkts = ∅ := h.fecPkts
    rw [hnone] at hfec
    cases hfec

theorem Filling.getUndecodedPackets (h : b.Filling dataNum j) (hpkt : pkt.At dataNum j) :
    (b.storeData pkt).getUndecodedPackets.2.Filling dataNum (j + 1) := by
  refine ⟨h.dataNum, rfl, ?_, ?_, h.fecPkts⟩
  · intro i hi
    simp only [PacketBatch.getUndecodedPackets, PacketBatch.storeData, h.undecoded, List.nil_append,
      List.map_singleton, Finset.mem_union, List.mem_toFinset, List.mem_singleton] at hi
    rcases hi with hi | rfl
    · exact Nat.lt_succ_of_lt (h.decoded i hi)
    · exact Nat.lt_succ_of_le hpkt.pktIdInBatch.le
  · intro i hi
    rcases (AList.mem_insert _).mp hi with rfl | hi
    · exact Nat.lt_succ_of_le hpkt.pktIdInBatch.le
    · exact Nat.lt_succ_of_lt (h.dataPkts i hi)

theorem Filling.empty {pkt : VideoPacket} (hnum : pkt.header.batchDataNum = dataNum) :
    (empty pkt).Filling dataNum j :=
  ⟨hnum, rfl, fun _ h => absurd h (Finset.notMem_empty _),
    fun i h => absurd h (AList.notMem_empty i), rfl⟩

theorem Filling.succ (h : b.Filling dataNum j) : b.Filling dataNum (j + 1) :=
  { h with
    decoded := fun i hi => Nat.lt_succ_of_lt (h.decoded i hi)
    dataPkts := fun i hi => Nat.lt_succ_of_lt (h.dataPkts i hi) }

end PacketBatch

namespace PacketGroup

variable {dataNum : UInt16} {j : ℕ} {g g' : PacketGroup} {pkt : DataPacket}

theorem Filling.new (groupId : UInt32) (num : UInt16) (encodeTime : Time) :
    (new groupId num encodeTime).Filling dataNum j :=
  ⟨rfl, fun _ h => absurd h (Finset.notMem_empty _), AList.notMem_empty, fun _ _ h => by cases h⟩

theorem Filling.batchWith (h : g.Filling dataNum j) (hpkt : pkt.At dataNum j) {b : PacketBatch}
    (hb : g.batchWith (.data pkt) = some b) :
    ∃ b₀ : PacketBatch, b₀.Filling dataNum j ∧ b = b₀.storeData pkt := by
  obtain ⟨b₀, rfl, hlookup | ⟨-, rfl, -⟩⟩ := batchWith_eq_some hb
  · exact ⟨b₀, h.batches _ _ hlookup, (h.batches _ _ hlookup).storeData hpkt⟩
  · have hempty : (PacketBatch.empty (.data pkt)).Filling dataNum j :=
      PacketBatch.Filling.empty hpkt.batchDataNum
    exact ⟨_, hempty, hempty.storeData hpkt⟩

/-- The next data packet is handed out, alone. -/
theorem Filling.receive (h : g.Filling dataNum j) (hpkt : pkt.At dataNum j) {now : Time} {pick : ℕ}
    {out : List DataPacket} (hreceive : g.receive now pick (.data pkt) = some (out, g')) :
    out = [pkt] ∧ (j + 1 < dataNum.toNat → g'.Filling dataNum (j + 1)) := by
  have huseful : ¬ g.isUseless (.data pkt) := by
    rintro (hcomplete | hdecoded)
    · exact h.complete _ hcomplete
    · exact absurd (h.decoded _ hdecoded) (not_lt.mpr hpkt.pktIdInGroup.ge)
  obtain ⟨hempty, ⟨huseless, -⟩ | ⟨-, b, complete, b', hb, hcheck, hout, hincomplete, hcomplete⟩⟩ :=
    receive_eq_some hreceive
  · exact absurd huseless huseful
  obtain ⟨b₀, hfilling, rfl⟩ := h.batchWith hpkt hb
  obtain ⟨rfl, hopen⟩ := hfilling.checkComplete hpkt hcheck
  have hone : out = [pkt] := by
    rw [hout, h.undecoded]
    simp only [PacketBatch.storeData, hfilling.undecoded, List.nil_append]
  refine ⟨hone, fun hlt => ?_⟩
  rw [hopen hlt, if_neg Bool.false_ne_true] at hincomplete hcomplete
  refine ⟨hempty.undecoded, ?_, by rw [hcomplete]; exact h.complete, ?_⟩
  · intro i hi
    rw [hempty.decoded, hone, Finset.mem_union, List.mem_toFinset, List.map_singleton,
      List.mem_singleton] at hi
    rcases hi with hi | rfl
    · exact Nat.lt_succ_of_lt (h.decoded i hi)
    · exact Nat.lt_succ_of_le hpkt.pktIdInGroup.le
  · intro k b hk
    rw [hincomplete, Dict.lookup_insert_eq] at hk
    split at hk
    case isTrue =>
      cases hk
      exact hfilling.getUndecodedPackets hpkt
    case isFalse => exact (h.batches k b hk).succ

end PacketGroup

end Zhuge
