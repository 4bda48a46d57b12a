-- SUMMARY: What the FEC policy is told of a frame: its size in 8 bits, and the time that is left in 16 bits of milliseconds.
import Zhuge.SentSources

/-!
# Questions to the FEC policy

`GetFECParam` hands the policy the size of the frame, the number of packets on offer and the
time that is left. The map of frame sizes has 8-bit entries, and the time is cast to an
unsigned 16-bit number of milliseconds, even when it is negative.
-/

namespace Zhuge

/-- A call of `FECPolicy::GetFECParam`, and the numbers it is about. -/
structure PolicyCall where
  query : FECQuery
  /-- The data packets of the frame. -/
  frameSize : ℕ
  offered : ℕ
  remaining : Time

/-- A time in whole milliseconds, as `floor(GetMicroSeconds() / 1e3)`. -/
def Time.wholeMs (t : Time) : ℤ := t.getMicroSeconds.fdiv 1000

namespace PolicyCall

/-- The policy is told the truth, as far as the types can hold it. -/
structure Faithful (delayDdl : Time) (c : PolicyCall) : Prop where
  frameSize : c.query.frameSize.toNat = min c.frameSize 255
  maxGroupSize : c.query.maxGroupSize.toNat = c.offered
  ddlLeft : (c.query.ddlLeft.toNat : ℤ) = Time.getMilliSeconds (max 0 c.remaining)
  ddlLeft_le : Time.milliSeconds c.query.ddlLeft.toNat ≤ delayDdl

/-- The size of the frame is right in 8 bits: it fits, or what is left of it is the maximum. -/
def SizeFits (frameSize : ℕ) : Prop := frameSize < 256 ∨ frameSize % 256 = 255

/-- The time that is left is right in 16 bits, and within the deadline. -/
def TimeFits (delayDdl remaining : Time) : Prop :=
  (0 ≤ remaining.wholeMs ∧ remaining.wholeMs < 65536 ∨
    remaining.wholeMs < 0 ∧ 65536 ∣ remaining.wholeMs) ∧
  Time.milliSeconds (max 0 remaining.wholeMs) ≤ delayDdl

/-- The call of a frame whose size is `framePkts` and passes through an 8-bit entry. -/
structure Asked (statistic : NetStat) (delayDdl : Time) (c : PolicyCall) : Prop where
  query : ∃ fixGroupSize isRtx, c.query =
    PolicyContext.query ⟨statistic, delayDdl, .ofNat c.frameSize⟩ (.ofNat c.offered) c.remaining
      fixGroupSize isRtx
  offered : c.offered < 65536

end PolicyCall

/-! ## The numbers in their types -/

theorem toNat_ofInt_uInt16 (n : ℤ) : ((UInt16.ofInt n).toNat : ℤ) = n % 65536 := by
  rw [UInt16.ofInt, UInt16.toNat_ofNat']
  omega

/-- The milliseconds of a time that is not negative, and zero for the others. -/
theorem getMilliSeconds_max_zero (t : Int) :
    Time.getMilliSeconds (max 0 t) = max 0 (Time.wholeMs t) := by
  simp only [Time.getMilliSeconds, Time.wholeMs, Time.getMicroSeconds]
  rw [Int.fdiv_eq_ediv_of_nonneg _ (by decide)]
  rcases le_total 0 t with ht | ht
  · rw [max_eq_right ht, Int.tdiv_eq_ediv_of_nonneg ht, Int.tdiv_eq_ediv_of_nonneg ht]
    omega
  · rw [max_eq_left ht, Int.zero_tdiv]
    have hneg : t.tdiv 1000 = -((-t) / 1000) := by
      rw [← Int.tdiv_eq_ediv_of_nonneg (by omega), Int.neg_tdiv, Int.neg_neg]
    rw [hneg]
    omega

theorem emod_eq_max_zero_iff (n : ℤ) :
    n % 65536 = max 0 n ↔ 0 ≤ n ∧ n < 65536 ∨ n < 0 ∧ 65536 ∣ n := by
  omega

theorem mod_eq_min_iff (n : ℕ) : n % 256 = min n 255 ↔ n < 256 ∨ n % 256 = 255 := by
  omega

theorem PolicyCall.Asked.truthful_iff {statistic : NetStat} {delayDdl : Time} {c : PolicyCall}
    (h : c.Asked statistic delayDdl) :
    c.Faithful delayDdl ↔ SizeFits c.frameSize ∧ TimeFits delayDdl c.remaining := by
  obtain ⟨⟨fixGroupSize, isRtx, hquery⟩, hoffered⟩ := h
  have hsize : c.query.frameSize.toNat = c.frameSize % 256 := by
    rw [hquery]
    exact UInt8.toNat_ofNat'
  have hmax : c.query.maxGroupSize.toNat = c.offered := by
    rw [hquery]
    exact (UInt16.toNat_ofNat').trans (Nat.mod_eq_of_lt hoffered)
  have hddl : (c.query.ddlLeft.toNat : ℤ) = c.remaining.wholeMs % 65536 := by
    rw [hquery]
    exact toNat_ofInt_uInt16 _
  have hms := getMilliSeconds_max_zero c.remaining
  constructor
  · intro hfaithful
    have hwhole : c.remaining.wholeMs % 65536 = max 0 c.remaining.wholeMs :=
      hddl.symm.trans (hfaithful.ddlLeft.trans hms)
    refine ⟨?_, ?_, ?_⟩
    · rw [SizeFits, ← mod_eq_min_iff, ← hsize]
      exact hfaithful.frameSize
    · exact (emod_eq_max_zero_iff _).mp hwhole
    · rw [← hwhole, ← hddl]
      exact hfaithful.ddlLeft_le
  · rintro ⟨hfits, htime, hle⟩
    have hwhole := (emod_eq_max_zero_iff _).mpr htime
    refine ⟨?_, hmax, ?_, ?_⟩
    · rw [hsize, mod_eq_min_iff]
      exact hfits
    · rw [hddl, hwhole]
      exact hms.symm
    · rw [hddl, hwhole]
      exact hle

/-! ## The calls -/

/-- The calls that `SendPackets` makes for new packets, the whole of a frame. -/
def groupPacketsCalls (c : PolicyContext) (policy : FECPolicy) (now ddlLeft : Time)
    (ids : SenderIds) (pkts : List DataPacket) : List PolicyCall :=
  let ask (offered : ℕ) (fixGroupSize : Bool) : PolicyCall := {
    query := c.query (.ofNat offered) ddlLeft fixGroupSize false
    frameSize := pkts.length
    offered := offered
    remaining := ddlLeft }
  let whole := ask pkts.length false
  whole :: match fullGroups (policy 0 whole.query) now pkts.length ids pkts with
    | none => []
    | some (_, _, rest) => if rest.length > 0 then [ask rest.length true] else []

/-- The calls of `CreateFrame`. -/
def createFrameCalls (policy : FECPolicy) (statistic : NetStat) (delayDdl now : Time)
    (ids : SenderIds) (f : FrameArgs) : List PolicyCall :=
  match cutPackets now f with
  | none => []
  | some pkts =>
    if pkts.length > 0 then
      groupPacketsCalls ⟨statistic, delayDdl, f.dataPktNum.toUInt8⟩ policy now
        (delayDdl - pkts.length * statistic.oneWayDispersion) ids pkts
    else []

/-- The groups depend on the answers to these calls only. -/
theorem groupPackets_congr {c : PolicyContext} {policy policy' : FECPolicy} {now ddlLeft : Time}
    {ids : SenderIds} {pkts : List DataPacket}
    (h : ∀ i call, (groupPacketsCalls c policy now ddlLeft ids pkts)[i]? = some call →
      policy' i call.query = policy i call.query) :
    groupPackets c policy' now ddlLeft ids pkts = groupPackets c policy now ddlLeft ids pkts := by
  have hwhole : policy' 0 (c.query (.ofNat pkts.length) ddlLeft false false) =
      policy 0 (c.query (.ofNat pkts.length) ddlLeft false false) := h 0 _ rfl
  simp only [groupPackets, hwhole]
  apply Option.bind_congr
  rintro ⟨ids', batches, rest⟩ hfull
  by_cases hrest : rest.length > 0
  · simp only [groupPacketsCalls, hfull, if_pos hrest] at h
    simp only [hrest, if_true, h 1 _ rfl]
  · simp only [hrest, if_false]

theorem createGroups_congr {policy policy' : FECPolicy} {statistic : NetStat}
    {delayDdl now : Time} {ids : SenderIds} {f : FrameArgs}
    (h : ∀ i c, (createFrameCalls policy statistic delayDdl now ids f)[i]? = some c →
      policy' i c.query = policy i c.query) :
    createGroups policy' statistic delayDdl now ids f =
      createGroups policy statistic delayDdl now ids f := by
  unfold createGroups
  apply Option.bind_congr
  intro pkts hcut
  by_cases hpos : pkts.length > 0
  · simp only [createFrameCalls, hcut, if_pos hpos] at h
    simp only [if_pos hpos]
    exact groupPackets_congr h
  · simp only [if_neg hpos]

namespace PacketSenderUdp

/-- The call that `RetransmitGroup` makes through `SendPackets`. `frames` has the sizes of
the frames. -/
def retransmitGroupCalls (frames : Dict UInt32 ℕ) (iteration : Iteration) (statistic : NetStat)
    (now : Time) (groupId : UInt32) (s : PacketSenderUdp) : List PolicyCall :=
  match s.dataPktHistory.lookup groupId with
  | none => []
  | some group =>
    let refs := iteration.order (group.entries.map (·.2))
    match refs with
    | [] => []
    | front :: _ =>
      let remaining : Time := s.delayDdl - (now - firstEncodeTime (refs.map s.deref))
      let frameId := (s.deref front).frameId
      match s.frameDataPktCnt.lookup frameId with
      | none => []
      | some frameSize =>
        let c : PolicyContext := ⟨statistic, s.delayDdl, frameSize⟩
        [{  query := c.query (.ofNat refs.length) remaining true true
            frameSize := (frames.lookup frameId).getD 0
            offered := refs.length
            remaining := remaining }]

theorem frameDataPktCnt_updateAll (refs : List PktRef) (f : DataPacket → DataPacket)
    (s : PacketSenderUdp) : (s.updateAll refs f).frameDataPktCnt = s.frameDataPktCnt := by
  rw [updateAll_eq]
  rfl

theorem delayDdl_updateAll (refs : List PktRef) (f : DataPacket → DataPacket)
    (s : PacketSenderUdp) : (s.updateAll refs f).delayDdl = s.delayDdl := by
  rw [updateAll_eq]
  rfl

theorem sendRtx_congr {policy policy' : FECPolicy} {call : ℕ} {statistic : NetStat}
    {now ddlLeft : Time} {frameId groupId : UInt32} {refs : List PktRef} {s : PacketSenderUdp}
    (h : ∀ frameSize ∈ s.frameDataPktCnt.lookup frameId,
      policy' call (PolicyContext.query ⟨statistic, s.delayDdl, frameSize⟩ (.ofNat refs.length)
        ddlLeft true true) =
      policy call (PolicyContext.query ⟨statistic, s.delayDdl, frameSize⟩ (.ofNat refs.length)
        ddlLeft true true)) :
    s.sendRtx policy' call statistic now ddlLeft frameId groupId refs =
      s.sendRtx policy call statistic now ddlLeft frameId groupId refs := by
  unfold sendRtx
  apply Option.bind_congr
  intro frameSize hsize
  simp only [h frameSize hsize]

theorem retransmitGroup_congr {frames : Dict UInt32 ℕ} {iteration : Iteration}
    {policy policy' : FECPolicy} {call : ℕ} {statistic : NetStat} {now : Time} {groupId : UInt32}
    {s : PacketSenderUdp}
    (h : ∀ c ∈ s.retransmitGroupCalls frames iteration statistic now groupId,
      policy' call c.query = policy call c.query) :
    s.retransmitGroup iteration policy' call statistic now groupId =
      s.retransmitGroup iteration policy call statistic now groupId := by
  unfold retransmitGroupCalls at h
  unfold retransmitGroup
  split
  case h_1 => rfl
  case h_2 group hlookup =>
    simp only [hlookup] at h
    dsimp only
    split
    case h_1 => rfl
    case h_2 front rest horder =>
      simp only [horder] at h
      apply sendRtx_congr
      intro frameSize hsize
      rw [frameDataPktCnt_updateAll] at hsize
      rw [deref_updateAll_field (·.frameId) (f := (·.retransmit _ now)) (fun _ => rfl),
        Option.mem_def] at hsize
      simp only [hsize] at h
      rw [delayDdl_updateAll, horder]
      exact h _ (List.mem_singleton.mpr rfl)

/-- The calls of the second loop of `CheckRetransmission`. -/
def retransmitTimedOutCalls (frames : Dict UInt32 ℕ) (iteration : Iteration) (policy : FECPolicy)
    (statistic : NetStat) (now : Time) :
    List GroupPacketInfo → Finset UInt32 → PacketSenderUdp → List PolicyCall
  | [], _, _ => []
  | info :: keys, rtxGroupId, s =>
    match s.dataPktHistory.find info with
    | none => retransmitTimedOutCalls frames iteration policy statistic now keys rtxGroupId s
    | some ref =>
      let pkt := s.deref ref
      if now - pkt.encodeTime < statistic.minRtt then []
      else if pkt.groupId ∈ rtxGroupId then
        retransmitTimedOutCalls frames iteration policy statistic now keys rtxGroupId s
      else if isRtxTimeout statistic now pkt then
        s.retransmitGroupCalls frames iteration statistic now pkt.groupId ++
          match s.retransmitGroup iteration policy rtxGroupId.card statistic now pkt.groupId with
          | none => []
          | some s => retransmitTimedOutCalls frames iteration policy statistic now keys
              (insert pkt.groupId rtxGroupId) s
      else retransmitTimedOutCalls frames iteration policy statistic now keys rtxGroupId s

end PacketSenderUdp

/-- The sender, and how many data packets each frame was cut into. -/
structure FrameSender where
  sender : PacketSenderUdp
  frames : Dict UInt32 ℕ

namespace FrameSender

open PacketSenderUdp

def start (delayDdl : Time) : FrameSender := ⟨.new delayDdl, ∅⟩

def step (s : FrameSender) (e : Event) : Option FrameSender :=
  (s.sender.step e).map fun sender =>
    match e with
    | .createFrame now _ _ f =>
      ⟨sender, s.frames.insert f.frameId ((cutPackets now f).elim 0 List.length)⟩
    | _ => ⟨sender, s.frames⟩

/-- The calls of the FEC policy within an event. -/
def policyCalls (s : FrameSender) : Event → List PolicyCall
  | .createFrame now policy statistic f =>
    createFrameCalls policy statistic s.sender.delayDdl now s.sender.ids f
  | .checkRetransmission now policy statistic iteration =>
    let t := dropExpired now s.sender.dataPktHistoryKey s.sender
    t.retransmitTimedOutCalls s.frames iteration policy statistic now t.dataPktHistoryKey ∅
  | .sendPacket _ => []
  | .rcvACKPacket _ _ => []

/-- A frame comes with the number of packets it is cut into, under an id that no packet in
the history has. -/
def Proper (s : FrameSender) : Event → Prop
  | .createFrame now _ _ f =>
    (∀ pkts ∈ cutPackets now f, pkts.length = f.dataPktNum.toNat) ∧
      ∀ info ref, s.sender.dataPktHistory.find info = some ref →
        (s.sender.deref ref).frameId ≠ f.frameId
  | _ => True

end FrameSender

/-! ## What the calls rest on -/

namespace PacketSenderUdp

variable {s s' : PacketSenderUdp}

/-- The packets keep their frames, nothing enters the history, and the sizes stay. -/
structure Keeps (s s' : PacketSenderUdp) : Prop where
  sources : SameSources s s'
  find : ∀ info ref, s'.dataPktHistory.find info = some ref →
    s.dataPktHistory.find info = some ref
  frameDataPktCnt : s'.frameDataPktCnt = s.frameDataPktCnt
  delayDdl : s'.delayDdl = s.delayDdl

theorem SameSources.source (h : SameSources s s') (ref : PktRef) :
    (s'.deref ref).source = (s.deref ref).source := by
  have hat : s'.sources.getD ref (DataPacket.new 0 0 0 0).source =
      s.sources.getD ref (DataPacket.new 0 0 0 0).source := by rw [h]
  simp only [PacketSenderUdp.sources, List.getD_map] at hat
  exact hat

namespace Keeps

theorem refl (s : PacketSenderUdp) : Keeps s s := ⟨rfl, fun _ _ h => h, rfl, rfl⟩

theorem trans {t : PacketSenderUdp} (h : Keeps s t) (h' : Keeps t s') : Keeps s s' where
  sources := h.sources.trans h'.sources
  find info ref hfind := h.find info ref (h'.find info ref hfind)
  frameDataPktCnt := h'.frameDataPktCnt.trans h.frameDataPktCnt
  delayDdl := h'.delayDdl.trans h.delayDdl

theorem sendPacket (s : PacketSenderUdp) (now : Time) : Keeps s (s.sendPacket now) := by
  unfold PacketSenderUdp.sendPacket
  split
  · exact .refl s
  · split
    · exact .refl s
    case h_2 pkt pkts hpkts =>
      cases pkt with
      | data ref =>
        refine ⟨?_, fun _ _ h => h, rfl, rfl⟩
        exact sameSources_update (s := s) (f := fun pkt => { pkt with
            sendTime := now
            globalId := s.ipidCounter }) (fun _ => rfl) ref
      | fec fec => exact ⟨rfl, fun _ _ h => h, rfl, rfl⟩

theorem rcvACKPacket (s : PacketSenderUdp) (pkt : AckPacket) : Keeps s (s.rcvACKPacket pkt) := by
  refine ⟨rfl, fun info ref hfind => ?_, rfl, rfl⟩
  change (s.dataPktHistory.rcvACKPacket pkt).find info = some ref at hfind
  rw [PktHistory.find_rcvACKPacket] at hfind
  split at hfind
  · cases hfind
  · exact hfind

theorem dropExpired (s : PacketSenderUdp) (now : Time) (keys : List GroupPacketInfo) :
    Keeps s (dropExpired now keys s) := by
  fun_induction PacketSenderUdp.dropExpired now keys s with
  | case1 s => exact ⟨rfl, fun _ _ h => h, rfl, rfl⟩
  | case2 info keys s hnone ih => exact ih
  | case3 info keys s ref hfind hmiss ih =>
    refine Keeps.trans (t := { s with
      dataPktHistory := s.dataPktHistory.remove info
      expired := s.expired ++ [(info, now - (s.deref ref).encodeTime)] })
      ⟨rfl, fun info' ref' hfind' => ?_, rfl, rfl⟩ ih
    change (s.dataPktHistory.remove info).find info' = some ref' at hfind'
    rw [PktHistory.find_remove] at hfind'
    split at hfind'
    · cases hfind'
    · exact hfind'
  | case4 info keys s ref hfind hmiss => exact ⟨rfl, fun _ _ h => h, rfl, rfl⟩

theorem sendRtx {policy : FECPolicy} {call : ℕ} {statistic : NetStat} {now ddlLeft : Time}
    {frameId groupId : UInt32} {refs : List PktRef}
    (hset : ∀ ref ∈ refs, (s.deref ref).groupInfoSetFlag = true)
    (hrun : s.sendRtx policy call statistic now ddlLeft frameId groupId refs = some s') :
    Keeps s s' := by
  obtain ⟨fecRate, ids, data, fec, frame, hbatch, -, rfl⟩ := sendRtx_eq_some hrun
  have hback := sameSources_writeBack (source_of_createPacketBatch (by simpa using hset) hbatch)
  have hsame := hback.trans (sameSources_updateAll (f := setEnqueueTime now) (fun _ => rfl) refs _)
  have heq : (s.writeBack refs data).updateAll refs (setEnqueueTime now) =
      s.withHeap ((s.writeBack refs data).updateAll refs (setEnqueueTime now)).heap := by
    rw [updateAll_eq, writeBack_eq]
    rfl
  refine ⟨hsame, fun info ref hfind => ?_, ?_, ?_⟩
  · rw [heq] at hfind
    exact hfind
  · rw [heq]
    rfl
  · rw [heq]
    rfl

theorem retransmitGroup {iteration : Iteration} {policy : FECPolicy} {call : ℕ}
    {statistic : NetStat} {now : Time} {groupId : UInt32}
    (hset : ∀ info ref, s.dataPktHistory.find info = some ref →
      (s.deref ref).groupInfoSetFlag = true)
    (hrun : s.retransmitGroup iteration policy call statistic now groupId = some s') :
    Keeps s s' := by
  rcases retransmitGroup_eq_some hrun with ⟨rfl, -⟩ | ⟨refs, txCount, ddlLeft, frameId, front,
    hrefs, -, hrtx⟩
  · exact .refl s'
  · have hsame := sameSources_updateAll (f := (·.retransmit txCount now)) (fun _ => rfl) refs s
    have hmut : Keeps s (s.updateAll refs (·.retransmit txCount now)) := by
      refine ⟨hsame, fun info ref hfind => ?_, frameDataPktCnt_updateAll _ _ _,
        delayDdl_updateAll _ _ _⟩
      rw [updateAll_eq] at hfind
      exact hfind
    refine hmut.trans (sendRtx (fun ref href => ?_) hrtx)
    obtain ⟨i, hfind⟩ := (hrefs ref).mp href
    rw [deref_updateAll_field (·.groupInfoSetFlag) (f := (·.retransmit txCount now)) (fun _ => rfl)]
    exact hset _ ref hfind

end Keeps

/-- A packet in the history: it has its group, and its frame has its size in 8 bits. -/
structure Stored (frames : Dict UInt32 ℕ) (s : PacketSenderUdp) (info : GroupPacketInfo)
    (ref : PktRef) : Prop where
  lt : ref < s.heap.length
  flag : (s.deref ref).groupInfoSetFlag = true
  pktId : info.pktIdInGroup.toNat < 65535
  size : ∃ n, frames.lookup (s.deref ref).frameId = some n ∧
    s.frameDataPktCnt.lookup (s.deref ref).frameId = some (.ofNat n)

def Recorded (frames : Dict UInt32 ℕ) (s : PacketSenderUdp) : Prop :=
  ∀ info ref, s.dataPktHistory.find info = some ref → s.Stored frames info ref

namespace Recorded

variable {frames : Dict UInt32 ℕ}

theorem new (delayDdl : Time) : Recorded ∅ (.new delayDdl) := fun _ _ h => by cases h

theorem keeps (h : Recorded frames s) (hkeeps : Keeps s s') : Recorded frames s' := by
  intro info ref hfind
  have hold := h info ref (hkeeps.find info ref hfind)
  have hsource := hkeeps.sources.source ref
  have hframe : (s'.deref ref).frameId = (s.deref ref).frameId := congrArg (·.frameId) hsource
  have hflag : (s'.deref ref).groupInfoSetFlag = (s.deref ref).groupInfoSetFlag :=
    congrArg (·.groupInfoSetFlag) hsource
  exact {
    lt := hkeeps.sources.length ▸ hold.lt
    flag := hflag.trans hold.flag
    pktId := hold.pktId
    size := by rw [hframe, hkeeps.frameDataPktCnt]; exact hold.size }

theorem retransmitGroup (h : Recorded frames s) {iteration : Iteration} {policy : FECPolicy}
    {call : ℕ} {statistic : NetStat} {now : Time} {groupId : UInt32}
    (hrun : s.retransmitGroup iteration policy call statistic now groupId = some s') :
    Keeps s s' :=
  .retransmitGroup (fun info ref hfind => (h info ref hfind).flag) hrun

end Recorded

theorem pktId_of_mem_queuedData {now : Time} {f : FrameArgs} {ids ids' : SenderIds}
    {pkts : List DataPacket} {batches : List FirstBatch} (hcut : cutPackets now f = some pkts)
    (hmade : Groups now ids pkts ids' batches) {pkt : DataPacket}
    (hpkt : pkt ∈ queuedData now batches) : pkt.pktIdInGroup.toNat < 65535 := by
  obtain ⟨p, hp, rfl⟩ := List.mem_map.mp hpkt
  obtain ⟨b, hb, hp⟩ := List.mem_flatMap.mp hp
  obtain ⟨j, hj, rfl⟩ := List.getElem_of_mem hb
  have hnew := hmade.isNew (new_of_mem_cutFrame hcut) hj
  have hmem := List.mem_map_of_mem (f := (·.groupInfo)) hp
  rw [hnew.infos] at hmem
  obtain ⟨k, hk, heq⟩ := List.mem_map.mp hmem
  have hlt := (List.mem_range.mp hk).trans_le hnew.length_le
  have hid : p.pktIdInGroup = .ofNat k := (congrArg GroupPacketInfo.pktIdInGroup heq).symm
  change p.pktIdInGroup.toNat < 65535
  rw [hid, UInt16.toNat_ofNat']
  exact (Nat.mod_le _ _).trans_lt hlt

/-- What the history holds once new packets are stored is a new packet or was there before. -/
theorem find_foldl_storePacket {now : Time} {u : PacketSenderUdp} {pkts : List DataPacket}
    (hnew : New [] now u pkts) {info : GroupPacketInfo} {ref : PktRef}
    (hfind : ((List.range' u.heap.length pkts.length).foldl storePacket
      (u.withHeap (u.heap ++ pkts))).dataPktHistory.find info = some ref) :
    (ref < (u.heap ++ pkts).length ∧ ∃ pkt ∈ pkts,
      (u.withHeap (u.heap ++ pkts)).deref ref = pkt ∧ pkt.groupInfo = info) ∨
    u.dataPktHistory.find info = some ref := by
  rw [foldl_storePacket hnew.txCount_eq_zero] at hfind
  rcases find_of_foldl_store hfind with ⟨href, hinfo⟩ | hold
  · refine .inl ⟨?_, _, deref_append_mem href, rfl, hinfo⟩
    rw [List.length_append]
    exact (List.mem_range'_1.mp href).2
  · exact .inr hold

/-- A new frame enters the history with its size. -/
theorem Recorded.createFrame {frames : Dict UInt32 ℕ} {policy : FECPolicy} {statistic : NetStat}
    {now : Time} {f : FrameArgs} (h : Recorded frames s)
    (hsize : ∀ pkts ∈ cutPackets now f, pkts.length = f.dataPktNum.toNat)
    (hfresh : ∀ info ref, s.dataPktHistory.find info = some ref →
      (s.deref ref).frameId ≠ f.frameId)
    (hrun : s.createFrame policy statistic now f = some s') :
    Recorded (frames.insert f.frameId ((cutPackets now f).elim 0 List.length)) s' := by
  obtain ⟨ids, batches, pkts, frame, -, hcut, hmade, -, rfl⟩ := createFrame_eq_some hrun
  let u : PacketSenderUdp := { s with
    ids := ids
    sendGroupCnt := s.sendGroupCnt + batches.length
    queue := s.queue ++ [frame]
    frameDataPktCnt := s.frameDataPktCnt.insert f.frameId f.dataPktNum.toUInt8 }
  have hnew : New [] now u (queuedData now batches) :=
    new_queuedData hcut hmade (by simp) (by simp)
  have hderef : ∀ ref, ((List.range' u.heap.length (queuedData now batches).length).foldl
      storePacket (u.withHeap (u.heap ++ queuedData now batches))).deref ref =
      (u.withHeap (u.heap ++ queuedData now batches)).deref ref :=
    deref_foldl_storePacket _ _
  have hheap : ((List.range' u.heap.length (queuedData now batches).length).foldl
      storePacket (u.withHeap (u.heap ++ queuedData now batches))).heap =
      u.heap ++ queuedData now batches := heap_foldl_storePacket _ _
  have hcnt : ((List.range' u.heap.length (queuedData now batches).length).foldl
      storePacket (u.withHeap (u.heap ++ queuedData now batches))).frameDataPktCnt =
      s.frameDataPktCnt.insert f.frameId f.dataPktNum.toUInt8 := by
    rw [foldl_storePacket_eq]
    rfl
  have helim : (cutPackets now f).elim 0 List.length = f.dataPktNum.toNat := by
    rw [hcut]
    exact hsize pkts hcut
  intro info ref hfind
  rcases find_foldl_storePacket hnew hfind with ⟨hlt, pkt, hpkt, hat, rfl⟩ | hold
  · -- a packet of the new frame
    obtain ⟨hflag, hframe, -⟩ := source_of_mem_queuedData hcut hmade hpkt
    refine ⟨hlt.trans_eq (congrArg List.length hheap).symm, ?_,
      pktId_of_mem_queuedData hcut hmade hpkt, f.dataPktNum.toNat, ?_, ?_⟩
    · exact (congrArg (·.groupInfoSetFlag) ((hderef ref).trans hat)).trans hflag
    · rw [(hderef ref).trans hat, hframe, helim, AList.lookup_insert]
    · rw [hcnt, (hderef ref).trans hat, hframe, AList.lookup_insert]
      rfl
  · -- a packet of an older frame
    have hstored := h info ref hold
    have hat := (hderef ref).trans (deref_append_of_lt (s := u) hstored.lt _)
    have hframe : (u.deref ref).frameId ≠ f.frameId := hfresh info ref hold
    refine ⟨?_, ?_, hstored.pktId, ?_⟩
    · rw [hheap, List.length_append]
      exact hstored.lt.trans_le (Nat.le_add_right _ _)
    · exact (congrArg (·.groupInfoSetFlag) hat).trans hstored.flag
    · obtain ⟨n, hn, hcount⟩ := hstored.size
      refine ⟨n, ?_, ?_⟩
      · rw [hat, AList.lookup_insert_ne hframe]
        exact hn
      · rw [hcnt, hat, AList.lookup_insert_ne hframe]
        exact hcount

theorem Recorded.retransmitTimedOut {frames : Dict UInt32 ℕ} {iteration : Iteration}
    {policy : FECPolicy} {statistic : NetStat} {now : Time} {kept keys : List GroupPacketInfo}
    {done : Finset UInt32} (h : Recorded frames s)
    (hrun : retransmitTimedOut iteration policy statistic now kept keys done s = some s') :
    Keeps s s' := by
  fun_induction PacketSenderUdp.retransmitTimedOut iteration policy statistic now kept keys done s
    with
  | case1 kept done s => cases hrun; exact ⟨rfl, fun _ _ hfind => hfind, rfl, rfl⟩
  | case2 kept info keys done s hnone ih => exact ih h hrun
  | case3 kept info keys done s ref hfind pkt hage =>
    cases hrun
    exact ⟨rfl, fun _ _ hfind => hfind, rfl, rfl⟩
  | case4 kept info keys done s ref hfind pkt hage hdone ih => exact ih h hrun
  | case5 kept info keys done s ref hfind pkt hage hdone hout ih =>
    obtain ⟨t, hgroup, hrun⟩ := Option.bind_eq_some_iff.mp hrun
    have hkeeps := h.retransmitGroup hgroup
    exact hkeeps.trans (ih t (h.keeps hkeeps) hrun)
  | case6 kept info keys done s ref hfind pkt hage hdone hout ih => exact ih h hrun

theorem delayDdl_createFrame {policy : FECPolicy} {statistic : NetStat} {now : Time}
    {f : FrameArgs} (hrun : s.createFrame policy statistic now f = some s') :
    s'.delayDdl = s.delayDdl := by
  obtain ⟨ids, batches, pkts, frame, -, -, -, -, rfl⟩ := createFrame_eq_some hrun
  rw [foldl_storePacket_eq]
  rfl

end PacketSenderUdp

/-! ## What the policy is asked -/

theorem asked_of_mem_groupPacketsCalls {c : PolicyContext} {policy : FECPolicy}
    {now ddlLeft : Time} {ids : SenderIds} {pkts : List DataPacket}
    (hsize : c.frameSize = .ofNat pkts.length) (hlt : pkts.length < 65536) {call : PolicyCall}
    (h : call ∈ groupPacketsCalls c policy now ddlLeft ids pkts) :
    call.Asked c.statistic c.delayDdl := by
  obtain ⟨statistic, delayDdl, frameSize⟩ := c
  cases hsize
  rcases List.mem_cons.mp h with rfl | h
  · exact ⟨⟨false, false, rfl⟩, hlt⟩
  · split at h
    case h_1 => cases h
    case h_2 ids' batches rest hfull =>
      obtain ⟨taken, htaken, -, -⟩ := fullGroups_groups hfull
      have hle : rest.length ≤ pkts.length := by
        rw [htaken, List.length_append]
        exact Nat.le_add_left _ _
      split at h
      · cases List.mem_singleton.mp h
        exact ⟨⟨true, false, rfl⟩, hle.trans_lt hlt⟩
      · cases h

theorem asked_of_mem_createFrameCalls {policy : FECPolicy} {statistic : NetStat}
    {delayDdl now : Time} {ids : SenderIds} {f : FrameArgs}
    (hsize : ∀ pkts ∈ cutPackets now f, pkts.length = f.dataPktNum.toNat) {call : PolicyCall}
    (h : call ∈ createFrameCalls policy statistic delayDdl now ids f) :
    call.Asked statistic delayDdl := by
  unfold createFrameCalls at h
  split at h
  case h_1 => cases h
  case h_2 pkts hcut =>
    have hlen := hsize pkts hcut
    split at h
    · refine asked_of_mem_groupPacketsCalls ?_ ?_ h
      · rw [hlen]
        rfl
      · rw [hlen]
        exact f.dataPktNum.toNat_lt
    · cases h

/-- A dictionary that misses a 16-bit key has less than `2^16` entries. -/
theorem size_lt_of_keys {V : Type} {group : Dict UInt16 V}
    (h : ∀ k ∈ group, k.toNat < 65535) : Dict.size group < 65536 := by
  have hsubset : (Dict.keySet group).image UInt16.toNat ⊆ Finset.range 65535 := by
    intro n hn
    obtain ⟨k, hk, rfl⟩ := Finset.mem_image.mp hn
    exact Finset.mem_range.mpr (h k (Dict.mem_keySet.mp hk))
  have hcard := Finset.card_le_card hsubset
  rw [Finset.card_image_of_injective _ fun _ _ => UInt16.toNat_inj.mp, Dict.card_keySet,
    Finset.card_range] at hcard
  exact Nat.lt_succ_of_le hcard

namespace PacketSenderUdp

variable {s s' : PacketSenderUdp} {frames : Dict UInt32 ℕ} {iteration : Iteration}
  {policy : FECPolicy} {statistic : NetStat} {now : Time}

theorem Recorded.asked_retransmitGroup (h : Recorded frames s) {groupId : UInt32}
    {call : PolicyCall}
    (hcall : call ∈ s.retransmitGroupCalls frames iteration statistic now groupId) :
    call.Asked statistic s.delayDdl := by
  unfold retransmitGroupCalls at hcall
  split at hcall
  case h_1 => cases hcall
  case h_2 group hlookup =>
    have hrefs := groupRefs_of_lookup hlookup iteration
    have hlen : (iteration.order (group.entries.map (·.2))).length = Dict.size group := by
      rw [(iteration.perm _).length_eq, List.length_map, Dict.length_entries]
    have hlt : Dict.size group < 65536 := by
      refine size_lt_of_keys fun k hk => ?_
      obtain ⟨ref, href⟩ := Dict.mem_iff_lookup.mp hk
      refine (h ⟨groupId, k⟩ ref ?_).pktId
      rw [PktHistory.find, hlookup]
      exact href
    dsimp only at hcall
    split at hcall
    case h_1 => cases hcall
    case h_2 front rest horder =>
      obtain ⟨i, hfind⟩ := (hrefs front).mp (horder ▸ List.mem_cons_self)
      obtain ⟨n, hn, hcount⟩ := (h _ front hfind).size
      rw [hcount] at hcall
      cases List.mem_singleton.mp hcall
      refine ⟨⟨true, true, ?_⟩, hlen.trans_lt hlt⟩
      simp only [hn, Option.getD_some]

theorem Recorded.asked_retransmitTimedOut (h : Recorded frames s) {keys : List GroupPacketInfo}
    {done : Finset UInt32} {call : PolicyCall}
    (hcall : call ∈ s.retransmitTimedOutCalls frames iteration policy statistic now keys done) :
    call.Asked statistic s.delayDdl := by
  induction keys generalizing s done with
  | nil => cases hcall
  | cons info keys ih =>
    unfold retransmitTimedOutCalls at hcall
    split at hcall
    case h_1 => exact ih h hcall
    case h_2 ref hfind =>
      dsimp only at hcall
      split_ifs at hcall with hage hdone hout
      · cases hcall
      · exact ih h hcall
      · rcases List.mem_append.mp hcall with hcall | hcall
        · exact h.asked_retransmitGroup hcall
        · split at hcall
          case h_1 => cases hcall
          case h_2 t hgroup =>
            have hkeeps := h.retransmitGroup hgroup
            have hasked := ih (h.keeps hkeeps) hcall
            rwa [hkeeps.delayDdl] at hasked
      · exact ih h hcall

end PacketSenderUdp

namespace FrameSender

open PacketSenderUdp

/-- What every step keeps. -/
structure Inv (delayDdl : Time) (s : FrameSender) : Prop where
  recorded : Recorded s.frames s.sender
  delayDdl : s.sender.delayDdl = delayDdl

variable {delayDdl : Time} {s s' : FrameSender}

theorem inv_start (delayDdl : Time) : (start delayDdl).Inv delayDdl := ⟨.new delayDdl, rfl⟩

/-- An event that is no new frame. -/
theorem Inv.keeps (h : s.Inv delayDdl) {sender : PacketSenderUdp} (hkeeps : Keeps s.sender sender) :
    Inv delayDdl ⟨sender, s.frames⟩ :=
  ⟨h.recorded.keeps hkeeps, hkeeps.delayDdl.trans h.delayDdl⟩

theorem Inv.step (h : s.Inv delayDdl) {e : Event} (hproper : s.Proper e)
    (hstep : s.step e = some s') : s'.Inv delayDdl := by
  obtain ⟨sender, hsender, rfl⟩ := Option.map_eq_some_iff.mp hstep
  cases e with
  | createFrame now policy statistic f =>
    exact ⟨h.recorded.createFrame hproper.1 hproper.2 hsender,
      (delayDdl_createFrame hsender).trans h.delayDdl⟩
  | sendPacket now =>
    cases hsender
    exact h.keeps (.sendPacket s.sender now)
  | rcvACKPacket now pkt =>
    cases hsender
    exact h.keeps (.rcvACKPacket s.sender pkt)
  | checkRetransmission now policy statistic iteration =>
    have hdrop := Keeps.dropExpired s.sender now s.sender.dataPktHistoryKey
    exact h.keeps (hdrop.trans ((h.recorded.keeps hdrop).retransmitTimedOut hsender))

theorem Inv.asked (h : s.Inv delayDdl) {e : Event} (hproper : s.Proper e) {call : PolicyCall}
    (hcall : call ∈ s.policyCalls e) : ∃ statistic, call.Asked statistic delayDdl := by
  have hddl := h.delayDdl
  cases e with
  | createFrame now policy statistic f =>
    rw [← hddl]
    exact ⟨statistic, asked_of_mem_createFrameCalls hproper.1 hcall⟩
  | sendPacket now => cases hcall
  | rcvACKPacket now pkt => cases hcall
  | checkRetransmission now policy statistic iteration =>
    have hdrop := Keeps.dropExpired s.sender now s.sender.dataPktHistoryKey
    have hasked := (h.recorded.keeps hdrop).asked_retransmitTimedOut hcall
    rw [hdrop.delayDdl, hddl] at hasked
    exact ⟨statistic, hasked⟩

/-- The policy is told the truth about every frame exactly if the sizes fit into 8 bits and the
times that are left fit into 16 bits and into the deadline. -/
theorem faithful_iff_fits (delayDdl : Time) {events : List Event}
    (hproper : Run.Each step Proper (start delayDdl) events) :
    Run.Each step (fun s e => ∀ c ∈ s.policyCalls e, c.Faithful delayDdl) (start delayDdl) events ↔
      Run.Each step (fun s e => ∀ c ∈ s.policyCalls e,
        PolicyCall.SizeFits c.frameSize ∧ PolicyCall.TimeFits delayDdl c.remaining)
        (start delayDdl) events := by
  refine Run.Each.iff_of_each (I := Inv delayDdl) (fun s e s' hinv hok => hinv.step hok)
    (fun s e hinv hok => ?_) (inv_start delayDdl) hproper
  refine forall₂_congr fun c hc => ?_
  obtain ⟨statistic, hasked⟩ := hinv.asked hok hc
  exact hasked.truthful_iff

theorem createFrameCalls_onePacketFrame (statistic : NetStat) (delayDdl : Time)
    (ids : SenderIds) :
    createFrameCalls singlePolicy statistic delayDdl 0 ids onePacketFrame =
      [{  query := PolicyContext.query ⟨statistic, delayDdl, 1⟩ 1
            (delayDdl - (1 : ℕ) * statistic.oneWayDispersion) false false
          frameSize := 1
          offered := 1
          remaining := delayDdl - (1 : ℕ) * statistic.oneWayDispersion }] := by
  have hcreate := createPacketBatch_newGroup (.ofNat 0) 0 0 ids
    { DataPacket.new 0 0 1 0 with payloadSize := 1 } []
  simp only [createFrameCalls, cutPackets_onePacketFrame, List.length_singleton, Nat.one_pos,
    gt_iff_lt, if_true, groupPacketsCalls, fullGroups, singlePolicy, UInt16.toNat_one, le_refl,
    List.take_one, List.head?_cons, Option.toList_some, hcreate, List.drop_one,
    List.tail_cons, Option.bind_eq_bind, Option.bind_some, List.length_nil, lt_irrefl, if_false]
  rfl

theorem proper_onePacketFrame {statistic : NetStat} {delayDdl : Time} :
    (start delayDdl).Proper (.createFrame 0 singlePolicy statistic onePacketFrame) := by
  refine ⟨fun pkts hcut => ?_, fun info ref hfind => ?_⟩
  · rw [cutPackets_onePacketFrame] at hcut
    cases hcut
    rfl
  · cases hfind

theorem policyCalls_onePacketFrame (statistic : NetStat) (delayDdl : Time) :
    (start delayDdl).policyCalls (.createFrame 0 singlePolicy statistic onePacketFrame) =
      [{  query := PolicyContext.query ⟨statistic, delayDdl, 1⟩ 1
            (delayDdl - (1 : ℕ) * statistic.oneWayDispersion) false false
          frameSize := 1
          offered := 1
          remaining := delayDdl - (1 : ℕ) * statistic.oneWayDispersion }] :=
  createFrameCalls_onePacketFrame statistic delayDdl ⟨0, 0⟩

/-- One packet without dispersion, 100 ms before its deadline. -/
theorem faithful_onePacketFrame : Run.Each step (fun s e => ∀ c ∈ s.policyCalls e,
    c.Faithful (.milliSeconds 100)) (start (.milliSeconds 100)) [frameEvent] := by
  have hproper : Run.Each step Proper (start (.milliSeconds 100)) [frameEvent] :=
    ⟨proper_onePacketFrame, fun _ _ => trivial⟩
  refine (faithful_iff_fits (.milliSeconds 100) hproper).mpr ⟨fun c hc => ?_, fun _ _ => trivial⟩
  rw [frameEvent, policyCalls_onePacketFrame] at hc
  cases List.mem_singleton.mp hc
  exact ⟨.inl (by decide), .inl ⟨by decide, by decide⟩, by decide⟩

/-- A dispersion of 200 ms. -/
def dispersedFrame : Event :=
  .createFrame 0 singlePolicy { quietStat with oneWayDispersion := .milliSeconds 200 }
    onePacketFrame

/-- The packet is 100 ms late before it is sent, and the policy is told of 65436 ms. -/
theorem not_faithful_dispersedFrame :
    Run.Each step Proper (start (.milliSeconds 100)) [dispersedFrame] ∧
    ¬ Run.Each step (fun s e => ∀ c ∈ s.policyCalls e, c.Faithful (.milliSeconds 100))
      (start (.milliSeconds 100)) [dispersedFrame] := by
  refine ⟨⟨proper_onePacketFrame, fun _ _ => trivial⟩, fun h => ?_⟩
  have hcalls := policyCalls_onePacketFrame
    { quietStat with oneWayDispersion := .milliSeconds 200 } (.milliSeconds 100)
  have hfaithful := h.1 _ (hcalls ▸ List.mem_singleton_self _)
  exact absurd hfaithful.ddlLeft (by decide)

end FrameSender

end Zhuge
