-- SUMMARY: Cutting a frame into data packets and dividing them into groups as the FEC policy says.
import Zhuge.CreateBatch

/-!
# From a frame to groups

`createFrame` cuts a frame into data packets. `groupPackets` is the part of `SendPackets`
that makes groups of the size the policy asks for, and one more of what is left.
-/

namespace Zhuge

/-! ## The FEC policy -/

/-- What the sender reads of `FECPolicy::NetStat`. The deviation is `rtt_sd * 1000` as a
`uint64_t`. -/
structure NetStat where
  srtt : Time
  minRtt : Time
  rttSdUs : ℕ
  oneWayDispersion : Time

structure FECParam where
  fecGroupSize : UInt16
  fecRate : Binary64

/-- The arguments of `FECPolicy::GetFECParam`, besides the encoding bitrate, which is 0. -/
structure FECQuery where
  statistic : NetStat
  ddl : UInt16
  ddlLeft : UInt16
  isRtx : Bool
  frameSize : UInt8
  maxGroupSize : UInt16
  fixGroupSize : Bool

/-- Any policy. The number counts the calls within one event, because a policy may answer
the same question differently the next time. -/
abbrev FECPolicy := ℕ → FECQuery → FECParam

/-- What `PacketSenderUdp::GetFECParam` asks the policy, but for the last arguments. -/
structure PolicyContext where
  statistic : NetStat
  delayDdl : Time
  frameSize : UInt8

def PolicyContext.query (c : PolicyContext) (maxGroupSize : UInt16) (ddlLeft : Time)
    (fixGroupSize isRtx : Bool) : FECQuery where
  statistic := c.statistic
  ddl := .ofInt c.delayDdl.getMilliSeconds
  ddlLeft := .ofInt (ddlLeft.getMicroSeconds.fdiv 1000)
  isRtx := isRtx
  frameSize := c.frameSize
  maxGroupSize := maxGroupSize
  fixGroupSize := fixGroupSize

/-! ## Cutting a frame -/

/-- The arguments of `CreateFrame`. -/
structure FrameArgs where
  frameId : UInt32
  pktId : UInt16
  dataPktMaxPayload : UInt16
  dataPktNum : UInt16
  dataSize : UInt32
deriving DecidableEq

/-- The loop of `CreateFrame`, for at most `rounds` rounds. -/
def cutFrame (now : Time) (f : FrameArgs) : ℕ → UInt32 → UInt16 → Option (List DataPacket)
  | 0, _, _ => none
  | rounds + 1, dataPtr, pktId =>
    if dataPtr < f.dataSize then do
      let pkt := { DataPacket.new f.frameId 0 f.dataPktNum pktId with
        encodeTime := now
        payloadSize := min f.dataPktMaxPayload.toUInt32 (f.dataSize - dataPtr) }
      let pkts ← cutFrame now f rounds (dataPtr + f.dataPktMaxPayload.toUInt32) (pktId + 1)
      some (pkt :: pkts)
    else some []

/-- The data packets of a frame. `data_ptr` has 32 bits, so a loop that goes on for longer
than that never ends. -/
def cutPackets (now : Time) (f : FrameArgs) : Option (List DataPacket) :=
  cutFrame now f (2 ^ 32 + 1) 0 f.pktId

/-! ## Making groups -/

/-- The data packets of a first batch and the FEC packets over them. -/
structure FirstBatch where
  dataPkts : List DataPacket
  fecPkts : List FECPacket

/-- The loop over full groups. A group size of 0 fails an assertion, so every round takes
packets away and as many rounds as there are packets are enough. -/
def fullGroups (param : FECParam) (now : Time) :
    ℕ → SenderIds → List DataPacket → Option (SenderIds × List FirstBatch × List DataPacket)
  | 0, ids, pkts => some (ids, [], pkts)
  | rounds + 1, ids, pkts =>
    if pkts.length ≥ param.fecGroupSize.toNat then do
      let (ids, data, fec) ← createPacketBatch param.fecRate true 0 false now ids
        (pkts.take param.fecGroupSize.toNat)
      let (ids, batches, rest) ← fullGroups param now rounds ids
        (pkts.drop param.fecGroupSize.toNat)
      some (ids, ⟨data, fec⟩ :: batches, rest)
    else some (ids, [], pkts)

/-- The groups that `SendPackets` makes of packets sent for the first time. `none`: an
assertion fails. -/
def groupPackets (c : PolicyContext) (policy : FECPolicy) (now ddlLeft : Time) (ids : SenderIds)
    (pkts : List DataPacket) : Option (SenderIds × List FirstBatch) := do
  let param := policy 0 (c.query (.ofNat pkts.length) ddlLeft false false)
  let (ids, batches, rest) ← fullGroups param now pkts.length ids pkts
  if rest.length > 0 then
    let param := policy 1 (c.query (.ofNat rest.length) ddlLeft true false)
    let (ids, data, fec) ← createPacketBatch param.fecRate true 0 false now ids rest
    some (ids, batches ++ [⟨data, fec⟩])
  else some (ids, batches)

/-- `CreateFrame` up to the sending queue: the groups of a frame. `none`: an assertion fails
or the frame cannot be cut. -/
def createGroups (policy : FECPolicy) (statistic : NetStat) (delayDdl now : Time)
    (ids : SenderIds) (f : FrameArgs) : Option (SenderIds × List FirstBatch) := do
  let pkts ← cutPackets now f
  if pkts.length > 0 then
    groupPackets ⟨statistic, delayDdl, f.dataPktNum.toUInt8⟩ policy now
      (delayDdl - pkts.length * statistic.oneWayDispersion) ids pkts
  else none

/-! ## The groups of a frame -/

theorem length_cutFrame_lt {now : Time} {f : FrameArgs} {rounds : ℕ} {dataPtr : UInt32}
    {pktId : UInt16} {pkts : List DataPacket}
    (h : cutFrame now f rounds dataPtr pktId = some pkts) : pkts.length < rounds := by
  induction rounds generalizing dataPtr pktId pkts with
  | zero => cases h
  | succ rounds ih =>
      simp only [cutFrame] at h
      split at h
      case isTrue =>
        obtain ⟨rest, hrest, h⟩ := Option.bind_eq_some_iff.mp h
        cases h
        have := ih hrest
        rw [List.length_cons]
        omega
      case isFalse =>
        cases h
        exact Nat.succ_pos rounds

theorem new_of_mem_cutFrame {now : Time} {f : FrameArgs} {rounds : ℕ} {dataPtr : UInt32}
    {pktId : UInt16} {pkts : List DataPacket}
    (h : cutFrame now f rounds dataPtr pktId = some pkts) :
    ∀ pkt ∈ pkts, pkt.encodeTime = now ∧ pkt.txCount = 0 := by
  induction rounds generalizing dataPtr pktId pkts with
  | zero => cases h
  | succ rounds ih =>
      simp only [cutFrame] at h
      split at h
      case isTrue =>
        obtain ⟨rest, hrest, h⟩ := Option.bind_eq_some_iff.mp h
        cases h
        intro pkt hpkt
        rcases List.mem_cons.mp hpkt with rfl | hpkt
        · exact ⟨rfl, rfl⟩
        · exact ih hrest pkt hpkt
      case isFalse =>
        cases h
        intro pkt hpkt
        cases hpkt

/-- Groups made one after another of all the packets, while the ids run on. -/
inductive Groups (now : Time) : SenderIds → List DataPacket → SenderIds → List FirstBatch → Prop
  | nil (ids : SenderIds) : Groups now ids [] ids []
  | cons {fecRate : Binary64} {ids ids₁ ids₂ : SenderIds} {chunk pkts data : List DataPacket}
      {fec : List FECPacket} {batches : List FirstBatch} (hlen : chunk.length ≤ 65535)
      (hbatch : createPacketBatch fecRate true 0 false now ids chunk = some (ids₁, data, fec))
      (hrest : Groups now ids₁ pkts ids₂ batches) :
      Groups now ids (chunk ++ pkts) ids₂ (⟨data, fec⟩ :: batches)

/-- The data packets of a first batch, just put into their group. -/
structure FirstBatch.IsNew (groupId : UInt32) (now : Time) (b : FirstBatch) : Prop where
  length_le : b.dataPkts.length ≤ 65535
  infos : b.dataPkts.map (·.groupInfo) =
    (List.range b.dataPkts.length).map fun k => ⟨groupId, .ofNat k⟩
  data : ∀ pkt ∈ b.dataPkts, pkt.groupInfoSetFlag = true ∧ pkt.encodeTime = now ∧ pkt.txCount = 0

namespace FirstBatch.IsNew

variable {groupId : UInt32} {now : Time} {b : FirstBatch}

theorem groupId_eq (h : b.IsNew groupId now) {pkt : DataPacket} (hpkt : pkt ∈ b.dataPkts) :
    pkt.groupId = groupId := by
  have hmem : pkt.groupInfo ∈ b.dataPkts.map (·.groupInfo) := List.mem_map_of_mem hpkt
  rw [h.infos] at hmem
  obtain ⟨k, -, hk⟩ := List.mem_map.mp hmem
  exact (congrArg GroupPacketInfo.groupId hk).symm

theorem nodup (h : b.IsNew groupId now) : (b.dataPkts.map (·.groupInfo)).Nodup := by
  rw [h.infos, List.nodup_map_iff_inj_on List.nodup_range]
  intro i hi j hj heq
  have hlen := h.length_le
  rw [List.mem_range] at hi hj
  have hid := congrArg UInt16.toNat (congrArg GroupPacketInfo.pktIdInGroup heq)
  rwa [UInt16.toNat_ofNat_of_lt' (by simp only [UInt16.size]; omega),
    UInt16.toNat_ofNat_of_lt' (by simp only [UInt16.size]; omega)] at hid

end FirstBatch.IsNew

/-- A first batch of new packets. -/
theorem isNew_of_createPacketBatch {fecRate : Binary64} {now : Time} {ids ids' : SenderIds}
    {pkts data : List DataPacket} {fec : List FECPacket} (hlen : pkts.length ≤ 65535)
    (hnew : ∀ pkt ∈ pkts, pkt.encodeTime = now ∧ pkt.txCount = 0)
    (h : createPacketBatch fecRate true 0 false now ids pkts = some (ids', data, fec)) :
    (⟨data, fec⟩ : FirstBatch).IsNew ids.groupId now := by
  obtain ⟨-, -, f, hgroup, rfl⟩ := createPacketBatch_first_eq_some h
  refine ⟨by simpa using hlen, ?_, ?_⟩
  · apply List.ext_getElem
    · simp
    · intro i h₁ h₂
      simp [BatchFields.setGroup, DataPacket.setFECGroup, DataPacket.groupInfo, hgroup]
  · intro pkt hpkt
    obtain ⟨k, hk, rfl⟩ := List.mem_mapIdx.mp hpkt
    exact ⟨rfl, hnew pkts[k] (List.getElem_mem hk)⟩

namespace Groups

variable {now : Time} {ids ids₁ ids₂ : SenderIds} {pkts pkts' : List DataPacket}
  {batches batches' : List FirstBatch}

theorem append (h : Groups now ids pkts ids₁ batches) (h' : Groups now ids₁ pkts' ids₂ batches') :
    Groups now ids (pkts ++ pkts') ids₂ (batches ++ batches') := by
  induction h with
  | nil ids => exact h'
  | cons hlen hbatch _ ih =>
      rw [List.append_assoc]
      exact .cons hlen hbatch (ih h')

theorem length_le (h : Groups now ids pkts ids₁ batches) : batches.length ≤ pkts.length := by
  induction h with
  | nil ids => exact le_rfl
  | cons _ hbatch _ ih =>
      have := List.length_pos_iff.mpr (createPacketBatch_first_eq_some hbatch).1
      rw [List.length_cons, List.length_append]
      omega

theorem length_pos (h : Groups now ids pkts ids₁ batches) (hpos : 0 < pkts.length) :
    0 < batches.length := by
  cases h with
  | nil => exact hpos
  | cons => exact Nat.succ_pos _

theorem groupId_eq (h : Groups now ids pkts ids₁ batches) :
    ids₁.groupId = ids.groupId + .ofNat batches.length := by
  induction h with
  | nil ids => simp
  | cons _ hbatch _ ih =>
      rw [ih, (createPacketBatch_first_eq_some hbatch).2.1, List.length_cons, UInt32.ofNat_add,
        add_assoc, add_comm 1]
      rfl

theorem isNew (h : Groups now ids pkts ids₁ batches)
    (hnew : ∀ pkt ∈ pkts, pkt.encodeTime = now ∧ pkt.txCount = 0) {j : ℕ}
    (hj : j < batches.length) : batches[j].IsNew (ids.groupId + .ofNat j) now := by
  induction h generalizing j with
  | nil ids => cases hj
  | cons hlen hbatch _ ih =>
      cases j with
      | zero =>
          have hb := isNew_of_createPacketBatch hlen
            (fun pkt hpkt => hnew pkt (List.mem_append_left _ hpkt)) hbatch
          simpa using hb
      | succ j =>
          have hb := ih (fun pkt hpkt => hnew pkt (List.mem_append_right _ hpkt))
            (Nat.lt_of_succ_lt_succ hj)
          rw [(createPacketBatch_first_eq_some hbatch).2.1, add_assoc, add_comm 1] at hb
          rwa [UInt32.ofNat_add]

end Groups

theorem fullGroups_groups {param : FECParam} {now : Time} {rounds : ℕ} {ids ids' : SenderIds}
    {pkts rest : List DataPacket} {batches : List FirstBatch}
    (h : fullGroups param now rounds ids pkts = some (ids', batches, rest)) :
    ∃ taken, pkts = taken ++ rest ∧ Groups now ids taken ids' batches ∧
      (pkts.length ≤ rounds → rest.length ≤ 65535) := by
  induction rounds generalizing ids pkts batches with
  | zero =>
      cases h
      exact ⟨[], rfl, .nil _, fun hle => by omega⟩
  | succ rounds ih =>
      simp only [fullGroups] at h
      have hsize : param.fecGroupSize.toNat ≤ 65535 := Nat.le_of_lt_succ param.fecGroupSize.toNat_lt
      split at h
      case isTrue hge =>
        obtain ⟨⟨ids₁, data, fec⟩, hbatch, h⟩ := Option.bind_eq_some_iff.mp h
        obtain ⟨⟨ids₂, batches', rest'⟩, hfull, h⟩ := Option.bind_eq_some_iff.mp h
        cases h
        obtain ⟨taken, hdrop, hgroups, hrest⟩ := ih hfull
        have htake := List.length_pos_iff.mpr (createPacketBatch_first_eq_some hbatch).1
        refine ⟨pkts.take param.fecGroupSize.toNat ++ taken, ?_, ?_, ?_⟩
        · rw [List.append_assoc, ← hdrop, List.take_append_drop]
        · exact .cons ((List.length_take_le _ _).trans hsize) hbatch hgroups
        · intro hle
          rw [List.length_take] at htake
          exact hrest (by rw [List.length_drop]; omega)
      case isFalse hlt =>
        cases h
        exact ⟨[], rfl, .nil _, fun _ => by omega⟩

/-- Each round takes at least one packet, so as many rounds as there are packets are enough. -/
theorem fullGroups_ends {param : FECParam} (now : Time) (hsize : 0 < param.fecGroupSize.toNat)
    {rounds : ℕ} (ids : SenderIds) {pkts : List DataPacket} (hle : pkts.length ≤ rounds) :
    ∃ ids' batches rest, fullGroups param now rounds ids pkts = some (ids', batches, rest) ∧
      rest.length < param.fecGroupSize.toNat ∧ ∀ b ∈ batches, b.dataPkts ≠ [] := by
  induction rounds generalizing ids pkts with
  | zero => exact ⟨ids, [], pkts, rfl, by omega, nofun⟩
  | succ rounds ih =>
      simp only [fullGroups]
      split
      case isTrue hge =>
        have htake : 0 < (pkts.take param.fecGroupSize.toNat).length := by
          rw [List.length_take]
          omega
        have hdrop : (pkts.drop param.fecGroupSize.toNat).length ≤ rounds := by
          rw [List.length_drop]
          omega
        obtain ⟨⟨ids₁, data, fec⟩, hbatch⟩ := createPacketBatch_isSome param.fecRate now ids htake
        obtain ⟨ids₂, batches, rest, hfull, hrest, hbatches⟩ :=
          ih ids₁ hdrop
        refine ⟨ids₂, ⟨data, fec⟩ :: batches, rest, ?_, hrest, ?_⟩
        · simp only [hbatch, hfull, Option.bind_eq_bind, Option.bind_some]
        · refine List.forall_mem_cons.mpr ⟨?_, hbatches⟩
          obtain ⟨hne, -, f, -, rfl⟩ := createPacketBatch_first_eq_some hbatch
          exact fun hnil => hne (List.mapIdx_eq_nil_iff.mp hnil)
      case isFalse hlt => exact ⟨ids, [], pkts, rfl, by omega, nofun⟩

theorem groupPackets_groups {c : PolicyContext} {policy : FECPolicy} {now ddlLeft : Time}
    {ids ids' : SenderIds} {pkts : List DataPacket} {batches : List FirstBatch}
    (h : groupPackets c policy now ddlLeft ids pkts = some (ids', batches)) :
    Groups now ids pkts ids' batches := by
  obtain ⟨⟨ids₁, full, rest⟩, hfull, hleft⟩ := Option.bind_eq_some_iff.mp h
  obtain ⟨taken, rfl, hgroups, hrest⟩ := fullGroups_groups hfull
  simp only at hleft
  split at hleft
  case isTrue =>
    obtain ⟨⟨ids₂, data, fec⟩, hbatch, hleft⟩ := Option.bind_eq_some_iff.mp hleft
    cases hleft
    have hlast : Groups now ids₁ (rest ++ []) ids₂ [⟨data, fec⟩] :=
      .cons (hrest le_rfl) hbatch (.nil ids₂)
    rw [List.append_nil] at hlast
    exact hgroups.append hlast
  case isFalse hzero =>
    cases hleft
    rwa [List.length_eq_zero_iff.mp (Nat.eq_zero_of_not_pos hzero), List.append_nil]

theorem createGroups_eq_some {policy : FECPolicy} {statistic : NetStat} {delayDdl now : Time}
    {ids ids' : SenderIds} {f : FrameArgs} {batches : List FirstBatch}
    (h : createGroups policy statistic delayDdl now ids f = some (ids', batches)) :
    ∃ pkts, cutPackets now f = some pkts ∧ Groups now ids pkts ids' batches := by
  obtain ⟨pkts, hcut, h⟩ := Option.bind_eq_some_iff.mp h
  split at h
  case isTrue => exact ⟨pkts, hcut, groupPackets_groups h⟩
  case isFalse => cases h

/-- No two data packets of a frame get the same name. -/
theorem Groups.nodup {now : Time} {ids ids' : SenderIds} {pkts : List DataPacket}
    {batches : List FirstBatch} (h : Groups now ids pkts ids' batches)
    (hnew : ∀ pkt ∈ pkts, pkt.encodeTime = now ∧ pkt.txCount = 0) (hlen : pkts.length ≤ 2 ^ 32) :
    ((batches.flatMap (·.dataPkts)).map (·.groupInfo)).Nodup := by
  have hcount := h.length_le
  rw [List.map_flatMap, List.nodup_flatMap]
  constructor
  · intro b hb
    obtain ⟨j, hj, rfl⟩ := List.getElem_of_mem hb
    exact (h.isNew hnew hj).nodup
  · rw [List.pairwise_iff_getElem]
    intro i j hi hj hij info hinfo hinfo'
    obtain ⟨pkt, hpkt, rfl⟩ := List.mem_map.mp hinfo
    obtain ⟨pkt', hpkt', heq⟩ := List.mem_map.mp hinfo'
    have hgroup := congrArg GroupPacketInfo.groupId heq
    change pkt'.groupId = pkt.groupId at hgroup
    rw [(h.isNew hnew hi).groupId_eq hpkt, (h.isNew hnew hj).groupId_eq hpkt'] at hgroup
    have hnat := congrArg UInt32.toNat (add_left_cancel hgroup)
    rw [UInt32.toNat_ofNat_of_lt' (by simp only [UInt32.size]; omega),
      UInt32.toNat_ofNat_of_lt' (by simp only [UInt32.size]; omega)] at hnat
    omega

end Zhuge
