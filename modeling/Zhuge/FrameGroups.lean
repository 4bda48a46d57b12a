-- SUMMARY: A frame is cut into packets of full size and one of what is left, and its groups take up the packets in order, numbered from the sender's counters.
import Zhuge.Retransmission

/-!
# The groups of a frame

`GameServer::SendFrame` hands a frame to the sender. The packets it is cut into, and the groups
they end up in, partition its bytes; every packet is queued and stored once.
-/

namespace Zhuge

/-! ## The game server -/

/-- `DataPacket::GetMaxPayloadSize`. -/
def maxPayloadSize : UInt16 := 1460 - 42 - 12

structure GameServer where
  frameId : UInt32
  sender : PacketSenderUdp

/-- The arguments that `SendFrame` calls `CreateFrame` with. -/
def frameArgs (frameId dataSize : UInt32) : FrameArgs where
  frameId := frameId
  pktId := 0
  dataPktMaxPayload := maxPayloadSize
  dataPktNum := (dataSize / maxPayloadSize.toUInt32 +
    if dataSize % maxPayloadSize.toUInt32 ≠ 0 then 1 else 0).toUInt16
  dataSize := dataSize

/-- `SendFrame`. `none`: an assertion fails. -/
def GameServer.sendFrame (policy : FECPolicy) (statistic : NetStat) (now : Time)
    (dataSize : UInt32) (g : GameServer) : Option GameServer :=
  if dataSize = 0 then some g
  else do
    let sender ← g.sender.createFrame policy statistic now (frameArgs g.frameId dataSize)
    some ⟨g.frameId + 1, sender⟩

/-! ## Cutting a frame -/

namespace FrameArgs

/-- How many packets a frame takes. -/
def packetCount (f : FrameArgs) : ℕ :=
  (f.dataSize.toNat + f.dataPktMaxPayload.toNat - 1) / f.dataPktMaxPayload.toNat

/-- The payload of the `i`-th packet. -/
def payload (f : FrameArgs) (i : ℕ) : ℕ :=
  min f.dataPktMaxPayload.toNat (f.dataSize.toNat - i * f.dataPktMaxPayload.toNat)

/-- The `i`-th packet. -/
def packet (now : Time) (f : FrameArgs) (i : ℕ) : DataPacket :=
  { DataPacket.new f.frameId 0 f.dataPktNum (f.pktId + .ofNat i) with
    encodeTime := now
    payloadSize := .ofNat (f.payload i) }

variable {now : Time} {f : FrameArgs}

theorem lt_packetCount_iff (hm : 0 < f.dataPktMaxPayload.toNat) {i : ℕ} :
    i < f.packetCount ↔ i * f.dataPktMaxPayload.toNat < f.dataSize.toNat := by
  rw [packetCount, Nat.lt_div_iff_mul_lt hm]
  omega

theorem payload_pos (hm : 0 < f.dataPktMaxPayload.toNat) {i : ℕ} (hi : i < f.packetCount) :
    0 < f.payload i := by
  have := (lt_packetCount_iff hm).mp hi
  exact lt_min hm (by omega)

/-- What the first packets carry. -/
theorem sum_payload (n : ℕ) : ((List.range n).map f.payload).sum
    = min f.dataSize.toNat (n * f.dataPktMaxPayload.toNat) := by
  induction n with
  | zero => simp
  | succ n ih =>
      rw [List.range_succ, List.map_append, List.sum_append, ih, List.map_singleton,
        List.sum_singleton, payload, Nat.succ_mul]
      omega

/-- The packets carry the frame. -/
theorem sum_payload_packetCount (hm : 0 < f.dataPktMaxPayload.toNat) :
    ((List.range f.packetCount).map f.payload).sum = f.dataSize.toNat := by
  have hlast := (lt_packetCount_iff hm (f := f) (i := f.packetCount)).not.mp (lt_irrefl _)
  rw [sum_payload]
  omega

end FrameArgs

open FrameArgs

/-- The packet that a round of the loop makes. -/
theorem packet_eq {now : Time} {f : FrameArgs} {dataPtr : UInt32} {i : ℕ}
    (hptr : dataPtr.toNat = i * f.dataPktMaxPayload.toNat) (hlt : dataPtr < f.dataSize) :
    { DataPacket.new f.frameId 0 f.dataPktNum (f.pktId + .ofNat i) with
      encodeTime := now
      payloadSize := min f.dataPktMaxPayload.toUInt32 (f.dataSize - dataPtr) }
      = f.packet now i := by
  have hle : dataPtr ≤ f.dataSize := UInt32.le_iff_toNat_le.mpr (UInt32.lt_iff_toNat_lt.mp hlt).le
  have hpayload : min f.dataPktMaxPayload.toUInt32 (f.dataSize - dataPtr)
      = UInt32.ofNat (f.payload i) := by
    rw [← UInt32.ofNat_toNat (x := min f.dataPktMaxPayload.toUInt32 (f.dataSize - dataPtr))]
    congr 1
    change (if f.dataPktMaxPayload.toUInt32 ≤ f.dataSize - dataPtr then
      f.dataPktMaxPayload.toUInt32 else f.dataSize - dataPtr).toNat = _
    rw [payload, ← hptr, ← UInt32.toNat_sub_of_le _ _ hle]
    split
    case isTrue h =>
      rw [UInt32.le_iff_toNat_le, UInt16.toNat_toUInt32] at h
      rw [UInt16.toNat_toUInt32, min_eq_left h]
    case isFalse h =>
      rw [UInt32.le_iff_toNat_le, UInt16.toNat_toUInt32] at h
      rw [min_eq_right (by omega)]
  rw [hpayload]
  rfl

theorem cutFrame_eq (now : Time) {f : FrameArgs} (hm : 0 < f.dataPktMaxPayload.toNat)
    (hsize : f.dataSize.toNat + f.dataPktMaxPayload.toNat ≤ 2 ^ 32) {rounds i : ℕ}
    (hi : i ≤ f.packetCount) (hrounds : f.packetCount - i < rounds) :
    cutFrame now f rounds (.ofNat (i * f.dataPktMaxPayload.toNat)) (f.pktId + .ofNat i)
      = some ((List.range' i (f.packetCount - i)).map (f.packet now)) := by
  induction rounds generalizing i with
  | zero => exact absurd hrounds (Nat.not_lt_zero _)
  | succ rounds ih =>
      have hiff := lt_packetCount_iff hm (i := i)
      have hptr : i * f.dataPktMaxPayload.toNat < 2 ^ 32 := by
        rcases Nat.eq_zero_or_pos i with rfl | hpos
        · simp
        · have := (lt_packetCount_iff hm (f := f) (i := i - 1)).mp (by omega)
          rw [Nat.sub_mul, one_mul] at this
          omega
      have hnat : (UInt32.ofNat (i * f.dataPktMaxPayload.toNat)).toNat
          = i * f.dataPktMaxPayload.toNat := UInt32.toNat_ofNat_of_lt' hptr
      simp only [cutFrame]
      split
      case isTrue hlt =>
        have hlt' := UInt32.lt_iff_toNat_lt.mp hlt
        rw [hnat, ← hiff] at hlt'
        have hrest := ih (i := i + 1) hlt' (by omega)
        have hmul : UInt32.ofNat ((i + 1) * f.dataPktMaxPayload.toNat)
            = .ofNat (i * f.dataPktMaxPayload.toNat) + f.dataPktMaxPayload.toUInt32 := by
          rw [Nat.succ_mul, UInt32.ofNat_add, UInt32.ofNat_uInt16ToNat]
        rw [hmul, UInt16.ofNat_add, ← add_assoc] at hrest
        change (cutFrame now f rounds _ (f.pktId + .ofNat i + .ofNat 1)).bind _ = _
        rw [hrest, Option.bind_some, packet_eq hnat hlt,
          show f.packetCount - i = f.packetCount - (i + 1) + 1 by omega, List.range'_succ,
          List.map_cons]
      case isFalse hge =>
        rw [UInt32.lt_iff_toNat_lt, hnat, ← hiff] at hge
        rw [show f.packetCount - i = 0 by omega]
        rfl

theorem cutPackets_eq {now : Time} {f : FrameArgs} (hm : 0 < f.dataPktMaxPayload.toNat)
    (hsize : f.dataSize.toNat + f.dataPktMaxPayload.toNat ≤ 2 ^ 32) :
    cutPackets now f = some ((List.range f.packetCount).map (f.packet now)) := by
  have hcount : f.packetCount ≤ 2 ^ 32 :=
    (Nat.div_le_self _ _).trans (by omega)
  have hrounds : f.packetCount - 0 < 2 ^ 32 + 1 := by omega
  have hcut := cutFrame_eq now hm hsize (Nat.zero_le _) hrounds
  rw [Nat.zero_mul, Nat.sub_zero, ← List.range_eq_range'] at hcut
  rw [cutPackets, ← hcut]
  congr 1
  exact (add_zero f.pktId).symm

theorem maxPayloadSize_toNat : maxPayloadSize.toNat = 1406 := rfl

theorem packetCount_frameArgs (frameId dataSize : UInt32) :
    (frameArgs frameId dataSize).packetCount = (dataSize.toNat + 1405) / 1406 := by
  rw [packetCount, frameArgs, maxPayloadSize_toNat]
  rfl

theorem dataPktNum_frameArgs (frameId : UInt32) {dataSize : UInt32}
    (hmax : dataSize.toNat ≤ 65535 * 1406) :
    (frameArgs frameId dataSize).dataPktNum.toNat = (dataSize.toNat + 1405) / 1406 := by
  have hpayload : maxPayloadSize.toUInt32.toNat = 1406 := rfl
  have hmod : (dataSize % maxPayloadSize.toUInt32).toNat = dataSize.toNat % 1406 := by
    rw [UInt32.toNat_mod, hpayload]
  have hdiv : (dataSize / maxPayloadSize.toUInt32).toNat = dataSize.toNat / 1406 := by
    rw [UInt32.toNat_div, hpayload]
  have hzero : dataSize % maxPayloadSize.toUInt32 ≠ 0 ↔ dataSize.toNat % 1406 ≠ 0 := by
    rw [← hmod, ne_eq, ← UInt32.toNat_inj, UInt32.toNat_zero]
  simp only [frameArgs, UInt32.toNat_toUInt16, UInt32.toNat_add, hdiv, hzero]
  split
  case isTrue h =>
    rw [UInt32.toNat_one]
    omega
  case isFalse h =>
    rw [UInt32.toNat_zero]
    omega

/-! ## Numbering the packets of a group -/

namespace FirstBatch

/-- The packets of a group in the order in which they are sent. -/
def packets (b : FirstBatch) : List VideoPacket := b.dataPkts.map .data ++ b.fecPkts.map .fec

/-- The packets of a group, numbered for a new group and a new batch. -/
structure Numbered (groupId batchId : ℕ) (b : FirstBatch) : Prop where
  nonempty : b.dataPkts ≠ []
  header : ∀ pkt ∈ b.packets, pkt.header.groupId.toNat = groupId ∧
    pkt.header.batchId.toNat = batchId ∧ pkt.header.groupDataNum.toNat = b.dataPkts.length
  pktIds : b.packets.length ≤ 65535 →
    b.packets.map (·.header.pktIdInGroup.toNat) = List.range b.packets.length ∧
    b.packets.map (·.header.pktIdInBatch.toNat) = List.range b.packets.length
  digests : ∀ pkt ∈ b.fecPkts, pkt.dataPkts = b.dataPkts.map DataPacket.digest

end FirstBatch

/-- A 16-bit field that counts the data packets first and the FEC packets next. -/
theorem FirstBatch.map_toNat_eq_range {b : FirstBatch} {field : VideoPacket → UInt16}
    (hle : b.packets.length ≤ 65535)
    (hdata : ∀ k (hk : k < b.dataPkts.length), field (.data b.dataPkts[k]) = .ofNat k)
    (hfec : ∀ i (hi : i < b.fecPkts.length),
      field (.fec b.fecPkts[i]) = .ofNat (b.dataPkts.length + i)) :
    b.packets.map (fun pkt => (field pkt).toNat) = List.range b.packets.length := by
  apply List.ext_getElem
  · rw [List.length_map, List.length_range]
  · intro k hk hk'
    rw [List.length_range] at hk'
    have hfield : field b.packets[k] = .ofNat k := by
      simp only [packets, List.length_append, List.length_map] at hk'
      simp only [packets, List.getElem_append, List.length_map, List.getElem_map]
      split
      case isTrue hlt => exact hdata k hlt
      case isFalse hge =>
        rw [hfec (k - b.dataPkts.length) (by omega), Nat.add_sub_cancel' (Nat.le_of_not_lt hge)]
    rw [List.getElem_map, hfield, List.getElem_range]
    exact UInt16.toNat_ofNat_of_lt' (by simp only [UInt16.size]; omega)

/-- A first batch is numbered. -/
theorem numbered_of_createPacketBatch {fecRate : Binary64} {now : Time} {ids ids' : SenderIds}
    {pkts data : List DataPacket} {fec : List FECPacket} (hlen : pkts.length ≤ 65535)
    (h : createPacketBatch fecRate true 0 false now ids pkts = some (ids', data, fec)) :
    (⟨data, fec⟩ : FirstBatch).Numbered ids.groupId.toNat ids.batchId.toNat := by
  cases pkts with
  | nil => exact absurd rfl (createPacketBatch_first_eq_some h).1
  | cons front rest =>
      rw [createPacketBatch_newGroup] at h
      generalize hf : batchFields fecRate true 0 ids front (rest.length + 1) = f at h
      have hgroup : f.groupId = ids.groupId := by rw [← hf]; rfl
      have hbatch : f.batchId = ids.batchId := by rw [← hf]; rfl
      have hnum : f.groupDataNum = .ofNat (rest.length + 1) := by rw [← hf]; rfl
      have hbatchNum : f.batchDataNum = .ofNat (rest.length + 1) := by rw [← hf]; rfl
      have hnat : (UInt16.ofNat (rest.length + 1)).toNat = rest.length + 1 :=
        UInt16.toNat_ofNat_of_lt' (by rw [List.length_cons] at hlen; simp only [UInt16.size]; omega)
      simp only [Option.some.injEq, Prod.mk.injEq] at h
      obtain ⟨-, hdata, hfec⟩ := h
      have hcount : data.length = rest.length + 1 := by
        rw [← hdata, List.length_mapIdx, List.length_cons]
      rw [hdata] at hfec
      refine ⟨?_, ?_, ?_, ?_⟩
      · exact List.ne_nil_of_length_pos (by rw [hcount]; exact Nat.succ_pos _)
      · intro pkt hpkt
        rcases List.mem_append.mp hpkt with hpkt | hpkt <;>
          obtain ⟨p, hp, rfl⟩ := List.mem_map.mp hpkt
        · rw [← hdata] at hp
          obtain ⟨k, hk, rfl⟩ := List.mem_mapIdx.mp hp
          exact ⟨congrArg _ hgroup, congrArg _ hbatch, by rw [hcount, ← hnat, ← hnum]; rfl⟩
        · rw [← hfec] at hp
          obtain ⟨i, -, rfl⟩ := List.mem_map.mp hp
          exact ⟨congrArg _ hgroup, congrArg _ hbatch, by rw [hcount, ← hnat, ← hnum]; rfl⟩
      · intro hle
        constructor
        · refine FirstBatch.map_toNat_eq_range hle ?_ ?_
          · intro k hk
            simp only [← hdata, List.getElem_mapIdx]
            rfl
          · intro i hi
            simp only [← hfec, List.getElem_map, List.getElem_range, hcount]
            exact (UInt16.ofNat_add _ _).symm
        · refine FirstBatch.map_toNat_eq_range hle ?_ ?_
          · intro k hk
            simp only [← hdata, List.getElem_mapIdx]
            rfl
          · intro i hi
            simp only [← hfec, List.getElem_map, List.getElem_range, hcount]
            rw [UInt16.ofNat_add (rest.length + 1), ← hbatchNum]
            rfl
      · rintro pkt hpkt
        rw [← hfec] at hpkt
        obtain ⟨i, -, rfl⟩ := List.mem_map.mp hpkt
        rfl

/-! ## Making the groups -/

theorem groupPackets_isSome (c : PolicyContext) {policy : FECPolicy} (now ddlLeft : Time)
    (hpolicy : ∀ call q, 0 < (policy call q).fecGroupSize) (ids : SenderIds)
    (pkts : List DataPacket) : ∃ p, groupPackets c policy now ddlLeft ids pkts = some p := by
  obtain ⟨ids₁, batches, rest, hfull, -⟩ := fullGroups_ends now
    (UInt16.lt_iff_toNat_lt.mp (hpolicy 0 (c.query (.ofNat pkts.length) ddlLeft false false)))
    ids (le_refl pkts.length)
  simp only [groupPackets, hfull, Option.bind_eq_bind, Option.bind_some]
  split
  case isTrue hrest =>
    obtain ⟨⟨ids₂, data, fec⟩, hbatch⟩ := createPacketBatch_isSome _ now ids₁ hrest
    exact ⟨_, by rw [hbatch, Option.bind_some]⟩
  case isFalse => exact ⟨_, rfl⟩

namespace Groups

variable {now : Time} {ids ids' : SenderIds} {pkts : List DataPacket} {batches : List FirstBatch}

theorem ids_eq (h : Groups now ids pkts ids' batches) :
    ids' = ⟨ids.groupId + .ofNat batches.length, ids.batchId + .ofNat batches.length⟩ := by
  induction h with
  | nil ids => simp
  | cons _ hbatch _ ih =>
      rw [ih, (createPacketBatch_first_eq_some hbatch).2.1, List.length_cons, UInt32.ofNat_add,
        add_comm (UInt32.ofNat _), add_assoc, add_assoc]
      rfl

/-- Each group has the next two numbers. -/
theorem numbered (h : Groups now ids pkts ids' batches) {j : ℕ} (hj : j < batches.length) :
    batches[j].Numbered (ids.groupId + .ofNat j).toNat (ids.batchId + .ofNat j).toNat := by
  induction h generalizing j with
  | nil ids => cases hj
  | cons hlen hbatch _ ih =>
      cases j with
      | zero =>
          have hb := numbered_of_createPacketBatch hlen hbatch
          simpa using hb
      | succ j =>
          have hb := ih (Nat.lt_of_succ_lt_succ hj)
          rw [(createPacketBatch_first_eq_some hbatch).2.1, add_assoc, add_assoc,
            add_comm 1] at hb
          rwa [UInt32.ofNat_add]

/-- A field that numbering a packet does not change. -/
theorem map_field {α : Type} {f : DataPacket → α}
    (hfield : ∀ (b : BatchFields) i j pkt, f (b.setGroup i (b.setBatch j pkt)) = f pkt)
    (h : Groups now ids pkts ids' batches) :
    (batches.flatMap (·.dataPkts)).map f = pkts.map f := by
  induction h with
  | nil ids => rfl
  | cons _ hbatch _ ih =>
      obtain ⟨-, -, b, -, rfl⟩ := createPacketBatch_first_eq_some hbatch
      rw [List.flatMap_cons, List.map_append, List.map_append, ih]
      congr 1
      apply List.ext_getElem
      · simp
      · intro k h₁ h₂
        simp [hfield]

end Groups

/-- The groups of a frame of `dataSize` bytes, made while the counters stand at `ids`. -/
structure Partition (dataSize : ℕ) (ids : SenderIds) (groups : List FirstBatch) : Prop where
  count : (groups.flatMap (·.dataPkts)).length = (dataSize + 1405) / 1406
  payload : ∀ pkt ∈ groups.flatMap (·.dataPkts),
    1 ≤ pkt.payloadSize.toNat ∧ pkt.payloadSize.toNat ≤ 1406
  sum : ((groups.flatMap (·.dataPkts)).map (·.payloadSize.toNat)).sum = dataSize
  pktIdInFrame : (groups.flatMap (·.dataPkts)).map (·.pktIdInFrame.toNat)
    = List.range ((dataSize + 1405) / 1406)
  framePktNum : ∀ pkt ∈ groups.flatMap (·.dataPkts),
    pkt.framePktNum.toNat = (dataSize + 1405) / 1406
  numbered : ∀ j (hj : j < groups.length),
    groups[j].Numbered ((ids.groupId.toNat + j) % 2 ^ 32) ((ids.batchId.toNat + j) % 2 ^ 32)

theorem Groups.partition {now : Time} {ids ids' : SenderIds} {batches : List FirstBatch}
    {frameId dataSize : UInt32} (hmax : dataSize.toNat ≤ 65535 * 1406)
    (h : Groups now ids ((List.range ((dataSize.toNat + 1405) / 1406)).map
      ((frameArgs frameId dataSize).packet now)) ids' batches) :
    Partition dataSize.toNat ids batches := by
  generalize hf : frameArgs frameId dataSize = f at h
  have hmaxPayload : f.dataPktMaxPayload.toNat = 1406 := by rw [← hf]; rfl
  have hsize : f.dataSize = dataSize := by rw [← hf]; rfl
  have hcount : f.packetCount = (dataSize.toNat + 1405) / 1406 := by
    rw [← hf, packetCount_frameArgs]
  have hpayload : ∀ i, (f.packet now i).payloadSize.toNat = f.payload i := fun i =>
    UInt32.toNat_ofNat_of_lt' ((min_le_left _ _).trans_lt
      (by rw [hmaxPayload]; simp only [UInt32.size]; omega))
  refine ⟨?_, ?_, ?_, ?_, ?_, ?_⟩
  · have hlen := congrArg List.length (h.map_field (f := fun _ => ()) fun _ _ _ _ => rfl)
    simpa using hlen
  · intro pkt hpkt
    have hmem := List.mem_map_of_mem (f := fun p => p.payloadSize.toNat) hpkt
    rw [h.map_field fun _ _ _ _ => rfl, List.map_map] at hmem
    obtain ⟨i, hi, heq⟩ := List.mem_map.mp hmem
    rw [← heq]
    change 1 ≤ (f.packet now i).payloadSize.toNat ∧ (f.packet now i).payloadSize.toNat ≤ 1406
    rw [hpayload]
    refine ⟨payload_pos (by rw [hmaxPayload]; norm_num) ?_, ?_⟩
    · rw [hcount]
      exact List.mem_range.mp hi
    · rw [← hmaxPayload]
      exact min_le_left _ _
  · have htotal := sum_payload_packetCount (f := f) (by rw [hmaxPayload]; norm_num)
    rw [hcount, hsize] at htotal
    rw [h.map_field fun _ _ _ _ => rfl, List.map_map]
    exact (congrArg List.sum (List.map_congr_left fun i _ => hpayload i)).trans htotal
  · rw [h.map_field fun _ _ _ _ => rfl, List.map_map]
    conv_rhs => rw [← List.map_id (List.range _)]
    apply List.map_congr_left
    intro i hi
    have := List.mem_range.mp hi
    have hid : (f.packet now i).pktIdInFrame = .ofNat i := by
      rw [← hf]
      exact zero_add _
    change (f.packet now i).pktIdInFrame.toNat = i
    rw [hid]
    exact UInt16.toNat_ofNat_of_lt' (by simp only [UInt16.size]; omega)
  · intro pkt hpkt
    have hmem := List.mem_map_of_mem (f := fun p => p.framePktNum.toNat) hpkt
    rw [h.map_field fun _ _ _ _ => rfl, List.map_map] at hmem
    obtain ⟨i, -, heq⟩ := List.mem_map.mp hmem
    rw [← heq, ← dataPktNum_frameArgs frameId hmax, hf]
    rfl
  · intro j hj
    have hb := h.numbered hj
    rwa [UInt32.toNat_add, UInt32.toNat_add, UInt32.toNat_ofNat', Nat.add_mod_mod,
      Nat.add_mod_mod] at hb

/-! ## Queueing and storing the packets -/

namespace PacketSenderUdp

/-- The packet that an entry of the queue stands for. -/
def content (s : PacketSenderUdp) : QueuedPkt → VideoPacket
  | .data ref => .data (s.deref ref)
  | .fec pkt => .fec pkt

/-- A group as it goes into the queue. -/
def queuedGroup (now : Time) (b : FirstBatch) : FirstBatch where
  dataPkts := b.dataPkts.map (setEnqueueTime now)
  fecPkts := b.fecPkts.map fun pkt => { pkt with enqueueTime := now }

theorem header_packets_queuedGroup (now : Time) (b : FirstBatch) :
    (queuedGroup now b).packets.map (·.header) = b.packets.map (·.header) := by
  simp only [FirstBatch.packets, queuedGroup, List.map_append, List.map_map]
  rfl

theorem numbered_queuedGroup {now : Time} {groupId batchId : ℕ} {b : FirstBatch}
    (h : b.Numbered groupId batchId) : (queuedGroup now b).Numbered groupId batchId := by
  have hheaders := header_packets_queuedGroup now b
  have hlen : (queuedGroup now b).packets.length = b.packets.length := by
    simpa using congrArg List.length hheaders
  refine ⟨?_, ?_, ?_, ?_⟩
  · exact fun hnil => h.nonempty (List.map_eq_nil_iff.mp hnil)
  · intro pkt hpkt
    have hmem := List.mem_map_of_mem (f := fun p => p.header) hpkt
    rw [hheaders] at hmem
    obtain ⟨p, hp, heq⟩ := List.mem_map.mp hmem
    rw [← heq, queuedGroup, List.length_map]
    exact h.header p hp
  · intro hle
    rw [hlen] at hle ⊢
    obtain ⟨hgroup, hbatch⟩ := h.pktIds hle
    constructor
    · have hsame := congrArg (List.map (·.pktIdInGroup.toNat)) hheaders
      rw [List.map_map, List.map_map] at hsame
      exact hsame.trans hgroup
    · have hsame := congrArg (List.map (·.pktIdInBatch.toNat)) hheaders
      rw [List.map_map, List.map_map] at hsame
      exact hsame.trans hbatch
  · intro pkt hpkt
    obtain ⟨p, hp, rfl⟩ := List.mem_map.mp hpkt
    change p.dataPkts = _
    rw [h.digests p hp, queuedGroup, List.map_map]
    rfl

theorem flatMap_queuedGroup (now : Time) (batches : List FirstBatch) :
    (batches.map (queuedGroup now)).flatMap (·.dataPkts) = queuedData now batches := by
  rw [List.flatMap_map, queuedData, List.map_flatMap]
  rfl

/-- Queueing the groups changes nothing of their division. -/
theorem partition_queuedGroup {now : Time} {dataSize : ℕ} {ids : SenderIds}
    {batches : List FirstBatch} (h : Partition dataSize ids batches) :
    Partition dataSize ids (batches.map (queuedGroup now)) := by
  have hflat := flatMap_queuedGroup now batches
  refine ⟨?_, ?_, ?_, ?_, ?_, ?_⟩
  · rw [hflat, queuedData, List.length_map]
    exact h.count
  · intro pkt hpkt
    rw [hflat] at hpkt
    obtain ⟨p, hp, rfl⟩ := List.mem_map.mp hpkt
    exact h.payload p hp
  · rw [hflat, queuedData, List.map_map]
    exact h.sum
  · rw [hflat, queuedData, List.map_map]
    exact h.pktIdInFrame
  · intro pkt hpkt
    rw [hflat] at hpkt
    obtain ⟨p, hp, rfl⟩ := List.mem_map.mp hpkt
    exact h.framePktNum p hp
  · intro j hj
    rw [List.length_map] at hj
    rw [List.getElem_map]
    exact numbered_queuedGroup (h.numbered j hj)

theorem content_queuedBatches {now : Time} {batches : List FirstBatch} {s : PacketSenderUdp}
    {before after : List DataPacket} (h : s.heap = before ++ queuedData now batches ++ after) :
    (queuedBatches now before.length batches).map s.content
      = (batches.map (queuedGroup now)).flatMap (·.packets) := by
  induction batches generalizing before with
  | nil => rfl
  | cons b batches ih =>
      have hheap : s.heap = (before ++ b.dataPkts.map (setEnqueueTime now)) ++
          queuedData now batches ++ after := by
        rw [h, queuedData, List.flatMap_cons, List.map_append, queuedData]
        simp only [List.append_assoc]
      have hrest := ih hheap
      rw [List.length_append, List.length_map] at hrest
      rw [queuedBatches, List.map_append, hrest, List.map_cons, List.flatMap_cons]
      congr 1
      rw [queuedBatch, List.map_append, FirstBatch.packets]
      congr 1
      · apply List.ext_getElem
        · simp [queuedGroup]
        · intro k h₁ h₂
          have hk : k < b.dataPkts.length := by simpa using h₁
          simp [content, deref, hheap, queuedGroup, hk, List.getElem?_append_left,
            List.getElem?_append_right]
      · rw [queuedGroup, List.map_map, List.map_map]
        rfl

/-- The packets are stored, each once and under its own name. -/
structure Stores (pkts : List DataPacket) (s s' : PacketSenderUdp) : Prop where
  keys : s'.dataPktHistoryKey = s.dataPktHistoryKey ++ pkts.map (·.groupInfo)
  nodup : (pkts.map (·.groupInfo)).Nodup
  find : ∀ pkt ∈ pkts, ∃ ref, s'.dataPktHistory.find pkt.groupInfo = some ref ∧ s'.deref ref = pkt

theorem find_foldl_store_of_notMem {refs : List PktRef} {name : PktRef → GroupPacketInfo}
    {h : PktHistory PktRef} {info : GroupPacketInfo} (hinfo : info ∉ refs.map name) :
    (refs.foldl (fun h ref => h.store (name ref) ref) h).find info = h.find info := by
  induction refs generalizing h with
  | nil => rfl
  | cons ref refs ih =>
      rw [List.map_cons, List.mem_cons, not_or] at hinfo
      rw [List.foldl_cons, ih hinfo.2, PktHistory.find_store, if_neg hinfo.1]

/-- What was stored under a name of its own is found. -/
theorem find_foldl_store {refs : List PktRef} {name : PktRef → GroupPacketInfo}
    {h : PktHistory PktRef} (hnodup : (refs.map name).Nodup) {ref : PktRef} (href : ref ∈ refs) :
    (refs.foldl (fun h ref => h.store (name ref) ref) h).find (name ref) = some ref := by
  induction refs generalizing h with
  | nil => cases href
  | cons first refs ih =>
      obtain ⟨hfirst, hrest⟩ := List.nodup_cons.mp hnodup
      rcases List.mem_cons.mp href with rfl | hmem
      · rw [List.foldl_cons, find_foldl_store_of_notMem hfirst, PktHistory.find_store, if_pos rfl]
      · exact ih hrest hmem

/-- New packets that were put into the heap are stored. -/
theorem stores_foldl_storePacket {now : Time} {s : PacketSenderUdp} {pkts : List DataPacket}
    (hnew : New [] now s pkts) :
    Stores pkts s ((List.range' s.heap.length pkts.length).foldl storePacket
      (s.withHeap (s.heap ++ pkts))) := by
  have hmap := map_deref_append s pkts
  have hinfos : (List.range' s.heap.length pkts.length).map (s.withHeap (s.heap ++ pkts)).infoOf
      = pkts.map (·.groupInfo) := by
    conv_rhs => rw [← hmap, List.map_map]
    rfl
  refine ⟨?_, hnew.nodup, ?_⟩
  · rw [keys_foldl_storePacket hnew, hinfos]
  · intro pkt hpkt
    obtain ⟨ref, href, heq⟩ := List.mem_map.mp (hmap ▸ hpkt)
    have hnodup := hnew.nodup
    rw [← hinfos] at hnodup
    refine ⟨ref, ?_, ?_⟩
    · rw [foldl_storePacket hnew.txCount_eq_zero, ← heq]
      exact find_foldl_store hnodup href
    · exact (deref_foldl_storePacket _ _ ref).trans heq

/-- The groups of a frame in the queue. -/
def queuedFrame (now : Time) (first : PktRef) (batches : List FirstBatch) : PacketFrame where
  packetsInFrame := queuedBatches now first batches
  retransmission := false
  frameEncodeTime := ((batches.flatMap (·.dataPkts)).head?.map (·.encodeTime)).getD 0

/-- The sender when a frame's groups are made and queued, but not stored yet. -/
def queueGroups (now : Time) (f : FrameArgs) (ids : SenderIds) (batches : List FirstBatch)
    (s : PacketSenderUdp) : PacketSenderUdp :=
  { s with
    ids := ids
    sendGroupCnt := s.sendGroupCnt + batches.length
    queue := s.queue ++ [queuedFrame now s.heap.length batches]
    frameDataPktCnt := s.frameDataPktCnt.insert f.frameId f.dataPktNum.toUInt8 }

theorem createFrame_eq {policy : FECPolicy} {statistic : NetStat} {now : Time} {f : FrameArgs}
    {ids : SenderIds} {pkts : List DataPacket} {batches : List FirstBatch} {s : PacketSenderUdp}
    (hcut : cutPackets now f = some pkts) (hpos : 0 < pkts.length)
    (hgroups : groupPackets ⟨statistic, s.delayDdl, f.dataPktNum.toUInt8⟩ policy now
      (s.delayDdl - pkts.length * statistic.oneWayDispersion) s.ids pkts = some (ids, batches)) :
    s.createFrame policy statistic now f
      = some ((List.range' s.heap.length (queuedData now batches).length).foldl storePacket
        (withHeap (s.heap ++ queuedData now batches) (s.queueGroups now f ids batches))) := by
  simp only [createFrame, createGroups, hcut, Option.bind_eq_bind, Option.bind_some, hpos,
    gt_iff_lt, if_true, hgroups, queuedData, List.length_map]
  rfl

end PacketSenderUdp

open PacketSenderUdp

/-- The data packets of a frame of `dataSize` bytes. -/
def framePackets (now : Time) (frameId dataSize : UInt32) : List DataPacket :=
  (List.range ((dataSize.toNat + 1405) / 1406)).map ((frameArgs frameId dataSize).packet now)

theorem framePackets_length_pos (now : Time) (frameId : UInt32) {dataSize : UInt32}
    (hpos : 0 < dataSize) : 0 < (framePackets now frameId dataSize).length := by
  have hsize := UInt32.lt_iff_toNat_lt.mp hpos
  rw [UInt32.toNat_zero] at hsize
  rw [framePackets, List.length_map, List.length_range]
  omega

/-- What becomes of the sender when `batches` of a frame are made. -/
structure Queues (now : Time) (ids : SenderIds) (batches : List FirstBatch)
    (s s' : PacketSenderUdp) : Prop where
  heap : s'.heap = s.heap ++ queuedData now batches
  queue : s'.queue = s.queue ++ [queuedFrame now s.heap.length batches]
  sent : s'.sent = s.sent
  ids : s'.ids = ids
  sendGroupCnt : s'.sendGroupCnt = s.sendGroupCnt + batches.length
  stores : Stores (queuedData now batches) s s'

/-- A frame is sent if the policy asks for groups of at least one packet. -/
theorem sendFrame_queues {policy : FECPolicy} (statistic : NetStat) (now : Time) (g : GameServer)
    {dataSize : UInt32} (hpos : 0 < dataSize) (hmax : dataSize.toNat ≤ 65535 * 1406)
    (hpolicy : ∀ call q, 0 < (policy call q).fecGroupSize) : ∃ ids batches sender,
      Groups now g.sender.ids (framePackets now g.frameId dataSize) ids batches ∧
      g.sendFrame policy statistic now dataSize = some ⟨g.frameId + 1, sender⟩ ∧
      Queues now ids batches g.sender sender := by
  have hcount := packetCount_frameArgs g.frameId dataSize
  have hcut : cutPackets now (frameArgs g.frameId dataSize)
      = some (framePackets now g.frameId dataSize) := by
    rw [framePackets, ← hcount]
    apply cutPackets_eq (by change 0 < 1406; norm_num)
    change dataSize.toNat + 1406 ≤ 2 ^ 32
    omega
  have hsome := framePackets_length_pos now g.frameId hpos
  generalize framePackets now g.frameId dataSize = pkts at hcut hsome ⊢
  obtain ⟨⟨ids, batches⟩, hgroups⟩ := groupPackets_isSome
    ⟨statistic, g.sender.delayDdl, (frameArgs g.frameId dataSize).dataPktNum.toUInt8⟩ now
    (g.sender.delayDdl - pkts.length * statistic.oneWayDispersion) hpolicy g.sender.ids pkts
  have hcreate := createFrame_eq hcut hsome hgroups
  have hmade := groupPackets_groups hgroups
  generalize hu : g.sender.queueGroups now (frameArgs g.frameId dataSize) ids batches = u at hcreate
  have hheap : g.sender.heap = u.heap := by rw [← hu]; rfl
  rw [hheap] at hcreate
  have hnew : New [] now u (queuedData now batches) := new_queuedData hcut hmade (by simp) (by simp)
  have hne : dataSize ≠ 0 := by
    rintro rfl
    exact absurd hpos (by decide)
  generalize hsender : (List.range' u.heap.length (queuedData now batches).length).foldl
    storePacket (withHeap (u.heap ++ queuedData now batches) u) = sender at hcreate
  refine ⟨ids, batches, sender, hmade, ?_, ?_, ?_, ?_, ?_, ?_, ?_⟩
  · rw [GameServer.sendFrame, if_neg hne, hcreate]
    rfl
  · rw [← hsender, heap_foldl_storePacket, hheap]
    rfl
  all_goals rw [← hsender]
  · rw [foldl_storePacket_eq, ← hu]
    rfl
  · rw [foldl_storePacket_eq, ← hu]
    rfl
  · rw [foldl_storePacket_eq, ← hu]
    rfl
  · rw [foldl_storePacket_eq, ← hu]
    rfl
  · obtain ⟨hkeys, hnodup, hfind⟩ := stores_foldl_storePacket hnew
    refine ⟨?_, hnodup, hfind⟩
    rw [hkeys, ← hu]
    rfl

/-- One frame: its packets are queued behind all others, grouped, numbered and stored. -/
theorem sendFrame_partition {policy : FECPolicy} {statistic : NetStat} {now : Time}
    {dataSize : UInt32} (g : GameServer) (hpos : 0 < dataSize)
    (hmax : dataSize.toNat ≤ 65535 * 1406)
    (hpolicy : ∀ call q, 0 < (policy call q).fecGroupSize) : ∃ g' frame groups,
      g.sendFrame policy statistic now dataSize = some g' ∧
      g'.sender.queue = g.sender.queue ++ [frame] ∧
      frame.packetsInFrame.map g'.sender.content = groups.flatMap (·.packets) ∧
      Partition dataSize.toNat g.sender.ids groups ∧
      g'.sender.ids = ⟨g.sender.ids.groupId + .ofNat groups.length,
        g.sender.ids.batchId + .ofNat groups.length⟩ ∧
      Stores (groups.flatMap (·.dataPkts)) g.sender g'.sender := by
  obtain ⟨ids, batches, sender, hmade, hsend, hqueues⟩ :=
    sendFrame_queues statistic now g hpos hmax hpolicy
  refine ⟨⟨g.frameId + 1, sender⟩, queuedFrame now g.sender.heap.length batches,
    batches.map (queuedGroup now), hsend, hqueues.queue, ?_, ?_, ?_, ?_⟩
  · have hheap : sender.heap = g.sender.heap ++ queuedData now batches ++ [] := by
      rw [List.append_nil, hqueues.heap]
    exact content_queuedBatches hheap
  · exact partition_queuedGroup (hmade.partition hmax)
  · rw [List.length_map, ← hmade.ids_eq]
    exact hqueues.ids
  · rw [flatMap_queuedGroup]
    exact hqueues.stores

theorem sendFrame_partition_twoPackets : ∃ g' frame groups,
    GameServer.sendFrame singlePolicy quietStat 0 1407 ⟨0, .new 0⟩ = some g' ∧
    g'.sender.queue = [] ++ [frame] ∧
    frame.packetsInFrame.map g'.sender.content = groups.flatMap (·.packets) ∧
    Partition 1407 ⟨0, 0⟩ groups ∧
    g'.sender.ids = ⟨0 + .ofNat groups.length, 0 + .ofNat groups.length⟩ ∧
    Stores (groups.flatMap (·.dataPkts)) (.new 0) g'.sender :=
  sendFrame_partition ⟨0, .new 0⟩ (by decide) (by decide) fun _ _ => (by decide : (0 : UInt16) < 1)

/-- Two packets, in a group each. -/
theorem groupPackets_singlePolicy (statistic : NetStat) (delayDdl now ddlLeft : Time)
    (frameSize : UInt8) (ids : SenderIds) (p q : DataPacket) : ∃ ids' b c,
    groupPackets ⟨statistic, delayDdl, frameSize⟩ singlePolicy now ddlLeft ids [p, q]
      = some (ids', [b, c]) ∧
    b.dataPkts.map (·.groupInfo) = [⟨ids.groupId, 0⟩] ∧
    c.dataPkts.map (·.groupInfo) = [⟨ids.groupId + 1, 0⟩] := by
  have hp := createPacketBatch_newGroup (.ofNat 0) 0 now ids p []
  have hq := createPacketBatch_newGroup (.ofNat 0) 0 now ⟨ids.groupId + 1, ids.batchId + 1⟩ q []
  simp only [groupPackets, fullGroups, singlePolicy, UInt16.toNat_one, List.length_cons,
    List.length_nil, zero_add, ge_iff_le, Nat.le_add_left, if_true, List.take_one, List.drop_one,
    List.tail_cons, List.head?_cons, Option.toList_some, hp, hq, Option.bind_eq_bind,
    Option.bind_some]
  exact ⟨_, _, _, rfl, rfl, rfl⟩

/-- When the counter of groups is at its end, the groups of one frame do not count up. -/
theorem groupIds_wrap : ∃ s s',
    Run.exec step (.new 0) (List.replicate (2 ^ 32 - 1) frameEvent) = some s ∧
    s.createFrame singlePolicy quietStat 0 (frameArgs 0 1407) = some s' ∧
    s'.dataPktHistoryKey = s.dataPktHistoryKey ++ [⟨4294967295, 0⟩, ⟨0, 0⟩] := by
  obtain ⟨s, hrun, hid, -⟩ := exec_frameEvents 0 (2 ^ 32 - 1)
  have hcut : cutPackets 0 (frameArgs 0 1407) = some _ := cutPackets_eq (by decide) (by decide)
  have hcount : (frameArgs 0 1407).packetCount = 2 := by decide
  rw [hcount] at hcut
  obtain ⟨ids, b, c, hgroups, hb, hc⟩ := groupPackets_singlePolicy quietStat s.delayDdl 0
    (s.delayDdl - 2 * quietStat.oneWayDispersion) (frameArgs 0 1407).dataPktNum.toUInt8 s.ids
    ((frameArgs 0 1407).packet 0 0) ((frameArgs 0 1407).packet 0 1)
  have hcreate := createFrame_eq hcut (by decide) hgroups
  obtain ⟨ids', batches, hmade, -, -, hkeys⟩ := keys_createFrame hcreate
  have hmade' : createGroups singlePolicy quietStat s.delayDdl 0 s.ids (frameArgs 0 1407)
      = some (ids, [b, c]) := by
    rw [createGroups, hcut]
    exact hgroups
  rw [hmade] at hmade'
  cases hmade'
  refine ⟨s, _, hrun, hcreate, ?_⟩
  rw [hkeys, List.flatMap_cons, List.flatMap_singleton, List.map_append, hb, hc, hid]
  rfl

end Zhuge
