-- SUMMARY: Which frame the packets in the sender's heap and queue belong to, and that no retransmission changes it.
import Zhuge.FrameGroups
import Zhuge.Session

/-!
# Where packets come from

A packet object keeps its group, its frame and the time of its frame for as long as it lives.
Frames are remembered here as pairs of an id and the time of their `CreateFrame`.
-/

namespace Zhuge

/-- What a packet keeps from `CreateFrame` and its first batch on. -/
structure PktSource where
  groupId : UInt32
  frameId : UInt32
  encodeTime : Time
  groupInfoSetFlag : Bool

def DataPacket.source (pkt : DataPacket) : PktSource where
  groupId := pkt.groupId
  frameId := pkt.frameId
  encodeTime := pkt.encodeTime
  groupInfoSetFlag := pkt.groupInfoSetFlag

/-! ## A batch of packets that have their group -/

theorem BatchFields.assignIds_source {f : BatchFields} {i next next' : UInt16}
    {pkts data : List DataPacket} (hset : ∀ pkt ∈ pkts, pkt.groupInfoSetFlag = true)
    (h : f.assignIds false i next pkts = some (data, next')) :
    data.map (·.source) = pkts.map (·.source) := by
  induction pkts generalizing i data with
  | nil =>
      cases h
      rfl
  | cons pkt pkts ih =>
      have hflag : (f.setBatch i pkt).groupInfoSetFlag = true := hset pkt List.mem_cons_self
      simp only [assignIds, Bool.not_false, Bool.true_and, hflag, if_true] at h
      split at h
      case isTrue =>
        obtain ⟨⟨rest, n⟩, hrest, h⟩ := Option.bind_eq_some_iff.mp h
        cases h
        rw [List.map_cons, List.map_cons, ih (fun p hp => hset p (List.mem_cons_of_mem _ hp)) hrest]
        rfl
      case isFalse => cases h

theorem source_of_createPacketBatch {fecRate : Binary64} {groupId : UInt32} {isRtx : Bool}
    {now : Time} {ids ids' : SenderIds} {pkts data : List DataPacket} {fec : List FECPacket}
    (hset : ∀ pkt ∈ pkts, pkt.groupInfoSetFlag = true)
    (h : createPacketBatch fecRate false groupId isRtx now ids pkts = some (ids', data, fec)) :
    data.map (·.source) = pkts.map (·.source) := by
  obtain ⟨front, f, next, -, -, -, hassign, -⟩ := createPacketBatch_eq_some h
  exact BatchFields.assignIds_source hset hassign

/-- The packets that a frame is cut into are all its own. -/
theorem frameId_of_mem_cutFrame {now : Time} {f : FrameArgs} {rounds : ℕ} {dataPtr : UInt32}
    {pktId : UInt16} {pkts : List DataPacket}
    (h : cutFrame now f rounds dataPtr pktId = some pkts) :
    ∀ pkt ∈ pkts, pkt.frameId = f.frameId := by
  induction rounds generalizing dataPtr pktId pkts with
  | zero => cases h
  | succ rounds ih =>
      simp only [cutFrame] at h
      split at h
      case isTrue =>
        obtain ⟨rest, hrest, h⟩ := Option.bind_eq_some_iff.mp h
        cases h
        intro pkt hpkt
        rcases List.mem_cons.mp hpkt with rfl | hpkt
        · rfl
        · exact ih hrest pkt hpkt
      case isFalse =>
        cases h
        intro pkt hpkt
        cases hpkt

namespace PacketSenderUdp

variable {s s' s'' : PacketSenderUdp}

/-! ## Objects keep their sources -/

/-- What the packet objects keep. -/
def sources (s : PacketSenderUdp) : List PktSource := s.heap.map (·.source)

def SameSources (s s' : PacketSenderUdp) : Prop := s'.sources = s.sources

theorem SameSources.trans (h : SameSources s s') (h' : SameSources s' s'') : SameSources s s'' :=
  Eq.trans h' h

theorem SameSources.length (h : SameSources s s') : s'.heap.length = s.heap.length := by
  simpa only [sources, List.length_map] using congrArg List.length h

theorem sameSources_of_heap (h : s'.heap = s.heap) : SameSources s s' := by
  rw [SameSources, sources, h, sources]

theorem deref_mem_heap {ref : PktRef} (h : ref < s.heap.length) : s.deref ref ∈ s.heap := by
  rw [deref, List.getD_eq_getElem _ _ h]
  exact List.getElem_mem h

theorem sameSources_of_deref (hlen : s'.heap.length = s.heap.length)
    (h : ∀ ref, (s'.deref ref).source = (s.deref ref).source) : SameSources s s' := by
  apply List.ext_getElem
  · simpa only [sources, List.length_map] using hlen
  · intro i h₁ h₂
    rw [sources, List.length_map] at h₁ h₂
    have hat := h i
    rw [deref, deref, List.getD_eq_getElem _ _ h₁, List.getD_eq_getElem _ _ h₂] at hat
    simp only [sources, List.getElem_map]
    exact hat

theorem sameSources_update {f : DataPacket → DataPacket}
    (hf : ∀ pkt, (f pkt).source = pkt.source) (ref : PktRef) (s : PacketSenderUdp) :
    SameSources s (s.update ref f) :=
  sameSources_of_deref (List.length_modify ..)
    (deref_update_field (·.source) (hf _))

theorem sameSources_updateAll {f : DataPacket → DataPacket}
    (hf : ∀ pkt, (f pkt).source = pkt.source) (refs : List PktRef) (s : PacketSenderUdp) :
    SameSources s (s.updateAll refs f) :=
  sameSources_of_deref (length_heap_updateAll refs f s)
    (deref_updateAll_field (·.source) hf refs s)

theorem sameSources_writeBack {refs : List PktRef} {pkts : List DataPacket}
    (h : pkts.map (·.source) = (refs.map s.deref).map (·.source)) :
    SameSources s (s.writeBack refs pkts) := by
  refine sameSources_of_deref (length_heap_writeBack refs pkts s)
    (deref_writeBack_field (·.source) fun p hp => ?_)
  obtain ⟨i, hi, rfl⟩ := List.getElem_of_mem hp
  have hat := congrArg (·[i]?) h
  rw [List.length_zip] at hi
  simpa [List.getElem?_eq_getElem (lt_min_iff.mp hi).1,
    List.getElem?_eq_getElem (lt_min_iff.mp hi).2] using hat

/-! ## What every state of the sender keeps -/

/-- The sender's packets belong to the frames in the list, those of the known sources are among
them, and no reference dangles. -/
structure Traced (frames : List (UInt32 × Time)) (known : List PktSource) (s : PacketSenderUdp) :
    Prop where
  known : known ⊆ s.sources
  sources : ∀ src ∈ s.sources, src.groupInfoSetFlag = true ∧ (src.frameId, src.encodeTime) ∈ frames
  history : ∀ info ref, s.dataPktHistory.find info = some ref → ref < s.heap.length
  queue : ∀ frame ∈ s.queue, ∀ ref, .data ref ∈ frame.packetsInFrame → ref < s.heap.length
  sent : ∀ pkt ∈ s.sent, match pkt with
    | .data pkt => pkt.source ∈ s.sources
    | .dupFec _ => False
    | .fec _ => True

theorem source_mem_sources {pkt : DataPacket} (h : pkt ∈ s.heap) : pkt.source ∈ s.sources :=
  List.mem_map_of_mem h

namespace Traced

variable {frames : List (UInt32 × Time)} {known : List PktSource}

theorem new (delayDdl : Time) : Traced [] [] (.new delayDdl) where
  known := List.nil_subset _
  sources := fun _ h => by cases h
  history := fun _ _ h => by cases h
  queue := fun _ h => by cases h
  sent := fun _ h => by cases h

/-- All sources are known now. -/
theorem rebase (h : Traced frames known s) : Traced frames s.sources s :=
  { h with known := fun _ h => h }

/-- The objects change, but not their sources, and the rest can only lose references. -/
theorem mutate (h : Traced frames known s) (hsame : SameSources s s')
    (hhistory : ∀ info ref, s'.dataPktHistory.find info = some ref →
      s.dataPktHistory.find info = some ref)
    (hqueue : ∀ frame ∈ s'.queue, ∀ ref, .data ref ∈ frame.packetsInFrame → ref < s.heap.length)
    (hsent : ∀ pkt ∈ s'.sent, pkt ∈ s.sent ∨ (∃ obj ∈ s'.heap, pkt = .data obj) ∨
      ∃ fec, pkt = .fec fec) : Traced frames known s' := by
  refine ⟨?_, ?_, ?_, ?_, ?_⟩
  · rw [show s'.sources = s.sources from hsame]
    exact h.known
  · rw [show s'.sources = s.sources from hsame]
    exact h.sources
  · intro info ref hfind
    rw [hsame.length]
    exact h.history info ref (hhistory info ref hfind)
  · rw [hsame.length]
    exact hqueue
  · intro pkt hpkt
    rcases hsent pkt hpkt with hold | ⟨obj, hobj, rfl⟩ | ⟨fec, rfl⟩
    · rw [show s'.sources = s.sources from hsame]
      exact h.sent pkt hold
    · exact source_mem_sources hobj
    · trivial

/-- Nothing is sent, and the objects stay as they are. -/
theorem congr (h : Traced frames known s) (hheap : s'.heap = s.heap)
    (hhistory : ∀ info ref, s'.dataPktHistory.find info = some ref →
      s.dataPktHistory.find info = some ref)
    (hqueue : s'.queue = s.queue) (hsent : s'.sent = s.sent) : Traced frames known s' := by
  refine h.mutate (sameSources_of_heap hheap) hhistory ?_ ?_
  · rw [hqueue]
    exact h.queue
  · rw [hsent]
    exact fun pkt hpkt => .inl hpkt

theorem sendPacket (h : Traced frames known s) (now : Time) :
    Traced frames known (s.sendPacket now) := by
  unfold PacketSenderUdp.sendPacket
  split
  · exact h
  case h_2 frame rest hqueue =>
    split
    · exact h
    case h_2 pkt pkts hpkts =>
      have hfirst : ∀ ref, .data ref ∈ pkt :: pkts → ref < s.heap.length := by
        rw [← hpkts]
        exact h.queue frame (by rw [hqueue]; exact List.mem_cons_self)
      have hrest : ∀ frame' ∈ (if pkts.isEmpty then rest else
          { frame with packetsInFrame := pkts } :: rest), ∀ ref,
          .data ref ∈ frame'.packetsInFrame → ref < s.heap.length := by
        have htail : ∀ frame' ∈ rest, ∀ ref, .data ref ∈ frame'.packetsInFrame →
            ref < s.heap.length := fun frame' hframe' =>
          h.queue frame' (by rw [hqueue]; exact List.mem_cons_of_mem _ hframe')
        split
        · exact htail
        · rw [List.forall_mem_cons]
          exact ⟨fun ref href => hfirst ref (List.mem_cons_of_mem _ href), htail⟩
      cases pkt with
      | data ref =>
          -- the object is sent as it is after the change
          have hsame : SameSources s (s.update ref fun pkt => { pkt with
              sendTime := now
              globalId := s.ipidCounter }) := by
            refine sameSources_update (fun pkt => ?_) ref s
            rfl
          refine h.mutate hsame (fun _ _ hfind => hfind) hrest ?_
          intro pkt hpkt
          rcases List.mem_append.mp hpkt with hpkt | hpkt
          · exact .inl hpkt
          · refine .inr (.inl ⟨_, ?_, List.mem_singleton.mp hpkt⟩)
            exact deref_mem_heap (hsame.length ▸ hfirst ref List.mem_cons_self)
      | fec fec =>
          refine h.mutate rfl (fun _ _ hfind => hfind) hrest ?_
          intro pkt hpkt
          rcases List.mem_append.mp hpkt with hpkt | hpkt
          · exact .inl hpkt
          · exact .inr (.inr ⟨_, List.mem_singleton.mp hpkt⟩)

theorem rcvACKPacket (h : Traced frames known s) (pkt : AckPacket) :
    Traced frames known (s.rcvACKPacket pkt) := by
  refine h.congr rfl (fun info ref hfind => ?_) rfl rfl
  change (s.dataPktHistory.rcvACKPacket pkt).find info = some ref at hfind
  rw [PktHistory.find_rcvACKPacket] at hfind
  split at hfind
  · cases hfind
  · exact hfind

theorem dropExpired (h : Traced frames known s) (now : Time) (keys : List GroupPacketInfo) :
    Traced frames known (dropExpired now keys s) := by
  fun_induction PacketSenderUdp.dropExpired now keys s with
  | case1 s => exact h.congr rfl (fun _ _ hfind => hfind) rfl rfl
  | case2 info keys s hnone ih => exact ih h
  | case3 info keys s ref hfind hmiss ih =>
      refine ih (h.congr rfl (fun info' ref' hfind' => ?_) rfl rfl)
      change (s.dataPktHistory.remove info).find info' = some ref' at hfind'
      rw [PktHistory.find_remove] at hfind'
      split at hfind'
      · cases hfind'
      · exact hfind'
  | case4 info keys s ref hfind hmiss => exact h.congr rfl (fun _ _ hfind => hfind) rfl rfl

theorem sendRtx {policy : FECPolicy} {call : ℕ} {statistic : NetStat} {now ddlLeft : Time}
    {frameId groupId : UInt32} {refs : List PktRef} (h : Traced frames known s)
    (hrefs : ∀ ref ∈ refs, ref < s.heap.length)
    (hrun : s.sendRtx policy call statistic now ddlLeft frameId groupId refs = some s') :
    Traced frames known s' := by
  obtain ⟨fecRate, ids, data, fec, frame, hbatch, hframe, rfl⟩ := sendRtx_eq_some hrun
  have hset : ∀ pkt ∈ refs.map s.deref, pkt.groupInfoSetFlag = true := by
    intro pkt hpkt
    obtain ⟨ref, href, rfl⟩ := List.mem_map.mp hpkt
    exact (h.sources _ (source_mem_sources (deref_mem_heap (hrefs ref href)))).1
  have hback := sameSources_writeBack (source_of_createPacketBatch hset hbatch)
  have hsame := hback.trans (sameSources_updateAll (f := setEnqueueTime now) (fun _ => rfl) refs _)
  have hsent : ((s.writeBack refs data).updateAll refs (setEnqueueTime now)).sent = s.sent := by
    rw [updateAll_eq, writeBack_eq]
    rfl
  have hhistory : ((s.writeBack refs data).updateAll refs (setEnqueueTime now)).dataPktHistory
      = s.dataPktHistory := by
    rw [updateAll_eq, writeBack_eq]
    rfl
  refine h.mutate hsame (fun info ref hfind => hhistory ▸ hfind) ?_ (fun pkt hpkt => ?_)
  · intro frame' hframe' ref href
    rcases List.mem_cons.mp hframe' with rfl | hframe'
    · rw [hframe, List.mem_append] at href
      rcases href with href | href
      · obtain ⟨ref', href, heq⟩ := List.mem_map.mp href
        cases heq
        exact hrefs ref href
      · obtain ⟨pkt, -, heq⟩ := List.mem_map.mp href
        cases heq
    · exact h.queue frame' hframe' ref href
  · exact .inl (hsent ▸ hpkt)

theorem retransmitGroup {iteration : Iteration} {policy : FECPolicy} {call : ℕ}
    {statistic : NetStat} {now : Time} {groupId : UInt32} (h : Traced frames known s)
    (hrun : s.retransmitGroup iteration policy call statistic now groupId = some s') :
    Traced frames known s' := by
  rcases retransmitGroup_eq_some hrun with ⟨rfl, -⟩ | ⟨refs, txCount, ddlLeft, frameId, front,
    hrefs, -, hrtx⟩
  · exact h
  · have hsame := sameSources_updateAll (f := (·.retransmit txCount now)) (fun _ => rfl) refs s
    have heq := updateAll_eq refs (·.retransmit txCount now) s
    have hmut : Traced frames known (s.updateAll refs (·.retransmit txCount now)) := by
      refine h.mutate hsame (fun info ref hfind => ?_) ?_ (fun pkt hpkt => .inl ?_)
      · rwa [heq] at hfind
      · rw [heq]
        exact h.queue
      · rwa [heq] at hpkt
    refine hmut.sendRtx (fun ref href => ?_) hrtx
    obtain ⟨i, hfind⟩ := (hrefs ref).mp href
    rw [hsame.length]
    exact h.history _ ref hfind

theorem retransmitTimedOut {iteration : Iteration} {policy : FECPolicy} {statistic : NetStat}
    {now : Time} {kept keys : List GroupPacketInfo} {done : Finset UInt32}
    (h : Traced frames known s)
    (hrun : retransmitTimedOut iteration policy statistic now kept keys done s = some s') :
    Traced frames known s' := by
  fun_induction PacketSenderUdp.retransmitTimedOut iteration policy statistic now kept keys done s
    with
  | case1 kept done s => cases hrun; exact h.congr rfl (fun _ _ hfind => hfind) rfl rfl
  | case2 kept info keys done s hnone ih => exact ih h hrun
  | case3 kept info keys done s ref hfind pkt hage =>
      cases hrun
      exact h.congr rfl (fun _ _ hfind => hfind) rfl rfl
  | case4 kept info keys done s ref hfind pkt hage hdone ih => exact ih h hrun
  | case5 kept info keys done s ref hfind pkt hage hdone hout ih =>
      obtain ⟨t, hgroup, hrun⟩ := Option.bind_eq_some_iff.mp hrun
      exact ih t (h.retransmitGroup hgroup) hrun
  | case6 kept info keys done s ref hfind pkt hage hdone hout ih => exact ih h hrun

theorem checkRetransmission {iteration : Iteration} {policy : FECPolicy} {statistic : NetStat}
    {now : Time} (h : Traced frames known s)
    (hrun : s.checkRetransmission iteration policy statistic now = some s') :
    Traced frames known s' :=
  (h.dropExpired now s.dataPktHistoryKey).retransmitTimedOut hrun

end Traced

/-! ## New frames -/

theorem lt_of_mem_queuedBatches {now : Time} {first ref : ℕ} {batches : List FirstBatch}
    (h : .data ref ∈ queuedBatches now first batches) :
    ref < first + (batches.flatMap (·.dataPkts)).length := by
  induction batches generalizing first with
  | nil => cases h
  | cons b batches ih =>
      rw [List.flatMap_cons, List.length_append]
      rcases List.mem_append.mp h with h | h
      · rcases List.mem_append.mp h with h | h
        · obtain ⟨ref', hmem, heq⟩ := List.mem_map.mp h
          cases heq
          rw [List.mem_range'_1] at hmem
          omega
        · obtain ⟨pkt, -, heq⟩ := List.mem_map.mp h
          cases heq
      · have := ih h
        omega

/-- Every packet of a new frame belongs to it. -/
theorem source_of_mem_queuedData {now : Time} {f : FrameArgs} {ids ids' : SenderIds}
    {pkts : List DataPacket} {batches : List FirstBatch} (hcut : cutPackets now f = some pkts)
    (hmade : Groups now ids pkts ids' batches) {pkt : DataPacket}
    (hpkt : pkt ∈ queuedData now batches) :
    pkt.groupInfoSetFlag = true ∧ pkt.frameId = f.frameId ∧ pkt.encodeTime = now := by
  obtain ⟨p, hp, rfl⟩ := List.mem_map.mp hpkt
  have hframe : p.frameId = f.frameId := by
    have hmem := List.mem_map_of_mem (f := (·.frameId)) hp
    rw [hmade.map_field fun _ _ _ _ => rfl] at hmem
    obtain ⟨q, hq, heq⟩ := List.mem_map.mp hmem
    exact heq.symm.trans (frameId_of_mem_cutFrame hcut q hq)
  obtain ⟨b, hb, hp⟩ := List.mem_flatMap.mp hp
  obtain ⟨j, hj, rfl⟩ := List.getElem_of_mem hb
  obtain ⟨hflag, htime, -⟩ := (hmade.isNew (new_of_mem_cutFrame hcut) hj).data p hp
  exact ⟨hflag, hframe, htime⟩

theorem Traced.foldl_storePacket {frames : List (UInt32 × Time)} {known : List PktSource}
    {refs : List PktRef}
    (h : Traced frames known s) (hrefs : ∀ ref ∈ refs, ref < s.heap.length) :
    Traced frames known (refs.foldl storePacket s) := by
  induction refs generalizing s with
  | nil => exact h
  | cons ref refs ih =>
      rw [List.forall_mem_cons] at hrefs
      have heap_storePacket : (s.storePacket ref).heap = s.heap := heap_foldl_storePacket [ref] s
      refine ih ?_ (heap_storePacket ▸ hrefs.2)
      unfold storePacket
      simp only
      split
      · exact h
      · refine ⟨h.known, h.sources, fun info ref' hfind => ?_, h.queue, h.sent⟩
        change (s.dataPktHistory.store (s.deref ref).groupInfo ref).find info = some ref' at hfind
        rw [PktHistory.find_store] at hfind
        split at hfind
        · cases hfind
          exact hrefs.1
        · exact h.history info ref' hfind

theorem Traced.createFrame {frames : List (UInt32 × Time)} {known : List PktSource}
    {policy : FECPolicy} {statistic : NetStat} {now : Time} {f : FrameArgs}
    (h : Traced frames known s)
    (hrun : s.createFrame policy statistic now f = some s') :
    Traced (frames ++ [(f.frameId, now)]) known s' := by
  obtain ⟨ids, batches, pkts, frame, -, hcut, hmade, hframe, rfl⟩ := createFrame_eq_some hrun
  have hlen : (s.heap ++ queuedData now batches).length =
      s.heap.length + (queuedData now batches).length := List.length_append
  have hsources : ∀ src, src ∈ (s.heap ++ queuedData now batches).map (·.source) ↔
      src ∈ s.sources ∨ src ∈ (queuedData now batches).map (·.source) := by
    intro src
    rw [List.map_append, List.mem_append]
    rfl
  refine Traced.foldl_storePacket ⟨?_, ?_, ?_, ?_, ?_⟩ ?_
  · exact fun src hsrc => (hsources src).mpr (.inl (h.known hsrc))
  · intro src hsrc
    rcases (hsources src).mp hsrc with hsrc | hsrc
    · exact ⟨(h.sources src hsrc).1, List.mem_append_left _ (h.sources src hsrc).2⟩
    · obtain ⟨pkt, hpkt, rfl⟩ := List.mem_map.mp hsrc
      obtain ⟨hflag, hid, htime⟩ := source_of_mem_queuedData hcut hmade hpkt
      refine ⟨hflag, List.mem_append_right _ ?_⟩
      rw [DataPacket.source, hid, htime]
      exact List.mem_cons_self
  · intro info ref hfind
    change ref < (s.heap ++ queuedData now batches).length
    rw [hlen]
    exact (h.history info ref hfind).trans_le (Nat.le_add_right _ _)
  · intro frame' hframe' ref href
    change ref < (s.heap ++ queuedData now batches).length
    rw [hlen]
    rcases List.mem_append.mp hframe' with hold | hnew
    · exact (h.queue frame' hold ref href).trans_le (Nat.le_add_right _ _)
    · rw [List.mem_singleton.mp hnew, hframe] at href
      rw [queuedData, List.length_map]
      exact lt_of_mem_queuedBatches href
  · intro pkt hpkt
    have hsource := h.sent pkt hpkt
    cases pkt with
    | data pkt => exact (hsources _).mpr (.inl hsource)
    | dupFec pkt => exact hsource
    | fec pkt => trivial
  · intro ref href
    change ref < (s.heap ++ queuedData now batches).length
    rw [hlen]
    exact (List.mem_range'_1.mp href).2

/-! ## Groups keep their frames -/

/-- The group was made of packets of the frame. -/
def GroupOf (s : PacketSenderUdp) (groupId frameId : UInt32) : Prop :=
  ∃ src ∈ s.sources, src.groupId = groupId ∧ src.frameId = frameId

theorem Traced.groupOf {frames : List (UInt32 × Time)} (h : Traced frames s.sources s')
    {groupId frameId : UInt32} (hgroup : s.GroupOf groupId frameId) :
    s'.GroupOf groupId frameId := by
  obtain ⟨src, hsrc, hfields⟩ := hgroup
  exact ⟨src, h.known hsrc, hfields⟩

end PacketSenderUdp

end Zhuge
