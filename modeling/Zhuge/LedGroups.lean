-- SUMMARY: Every group has one frame, and no FEC packet leaves the sender before a data packet of its group.
import Zhuge.SentNames

/-!
# Groups are led by data

The numbers of groups run on, so that 2^32 groups have numbers of their own and each is of one
frame. In the queue the FEC packets of a group follow one of its data packets, or one was sent.
-/

namespace Zhuge

namespace PacketSenderUdp

variable {s s' s'' : PacketSenderUdp}

/-! ## Lists of packets in which data leads -/

/-- Every FEC packet in the list is of a group that is open, or that a data packet before it has
opened. -/
def Led (label : PktRef → UInt32) (opened : Set UInt32) : List QueuedPkt → Prop
  | [] => True
  | .data ref :: pkts => Led label (insert (label ref) opened) pkts
  | .fec pkt :: pkts => pkt.groupId ∈ opened ∧ Led label opened pkts

section

variable {label label' : PktRef → UInt32} {opened opened' : Set UInt32}
  {pkts pkts' : List QueuedPkt}

theorem Led.mono (h : Led label opened pkts) (hsub : opened ⊆ opened') :
    Led label opened' pkts := by
  induction pkts generalizing opened opened' with
  | nil => trivial
  | cons pkt pkts ih =>
      cases pkt with
      | data ref => exact ih h (Set.insert_subset_insert hsub)
      | fec pkt => exact ⟨hsub h.1, ih h.2 hsub⟩

theorem Led.congr (h : Led label opened pkts)
    (hlabel : ∀ ref, .data ref ∈ pkts → label' ref = label ref) : Led label' opened pkts := by
  induction pkts generalizing opened with
  | nil => trivial
  | cons pkt pkts ih =>
      have hrest : ∀ ref, .data ref ∈ pkts → label' ref = label ref := fun ref href =>
        hlabel ref (List.mem_cons_of_mem _ href)
      cases pkt with
      | data ref =>
          have hthis := hlabel ref List.mem_cons_self
          rw [Led, hthis]
          exact ih h hrest
      | fec pkt => exact ⟨h.1, ih h.2 hrest⟩

theorem Led.append (h : Led label opened pkts) (h' : Led label opened pkts') :
    Led label opened (pkts ++ pkts') := by
  induction pkts generalizing opened with
  | nil => exact h'
  | cons pkt pkts ih =>
      cases pkt with
      | data ref => exact ih h (h'.mono (Set.subset_insert _ _))
      | fec pkt => exact ⟨h.1, ih h.2 h'⟩

/-- A batch: its data packets, and then FEC packets of the same group. -/
theorem led_batch {refs : List PktRef} {fec : List FECPacket} (now : Time) (groupId : UInt32)
    (hrefs : refs ≠ []) (hlabel : ∀ ref ∈ refs, label ref = groupId)
    (hfec : ∀ pkt ∈ fec, pkt.groupId = groupId) :
    Led label opened (refs.map .data ++ fec.map (enqueueFec now)) := by
  have htail : ∀ opened : Set UInt32, groupId ∈ opened →
      Led label opened (fec.map (enqueueFec now)) := by
    intro opened hopen
    induction fec with
    | nil => trivial
    | cons pkt fec ih =>
        rw [List.forall_mem_cons] at hfec
        exact ⟨hfec.1.symm ▸ hopen, ih hfec.2⟩
  induction refs generalizing opened with
  | nil => exact absurd rfl hrefs
  | cons ref refs ih =>
      rw [List.forall_mem_cons] at hlabel
      change Led label (insert (label ref) opened) (refs.map .data ++ fec.map (enqueueFec now))
      rw [hlabel.1]
      rcases refs with - | ⟨ref', refs⟩
      · exact htail _ (Set.mem_insert _ _)
      · exact ih (List.cons_ne_nil _ _) hlabel.2

end

/-! ## Labels of objects -/

/-- The group of the packet behind a reference. -/
def label (s : PacketSenderUdp) (ref : PktRef) : UInt32 := (s.deref ref).groupId

/-- The groups of which a data packet was sent. -/
def opened (s : PacketSenderUdp) : Set UInt32 :=
  {groupId | ∃ pkt, VideoPacket.data pkt ∈ s.sent ∧ pkt.groupId = groupId}

theorem source_deref (s : PacketSenderUdp) (ref : PktRef) :
    (s.deref ref).source = s.sources.getD ref (DataPacket.new 0 0 0 0).source := by
  rw [deref, sources, List.getD_map]

theorem SameSources.label_eq (h : SameSources s s') : s'.label = s.label := by
  funext ref
  have hsource : (s'.deref ref).source = (s.deref ref).source := by
    rw [source_deref, source_deref, h]
  exact congrArg PktSource.groupId hsource

/-! ## Retransmission -/

/-- Objects keep their sources, nothing is sent, and what comes into the queue is led by data. -/
structure Requeues (s s' : PacketSenderUdp) : Prop where
  sources : SameSources s s'
  groupId : s'.ids.groupId = s.ids.groupId
  sendGroupCnt : s'.sendGroupCnt = s.sendGroupCnt
  sent : s'.sent = s.sent
  queue : ∀ frame ∈ s'.queue, frame ∈ s.queue ∨ Led s.label ∅ frame.packetsInFrame

namespace Requeues

variable {frames : List (UInt32 × Time)} {known : List PktSource}

theorem congr (hheap : s'.heap = s.heap) (hids : s'.ids = s.ids)
    (hcnt : s'.sendGroupCnt = s.sendGroupCnt) (hqueue : s'.queue = s.queue)
    (hsent : s'.sent = s.sent) : Requeues s s' where
  sources := sameSources_of_heap hheap
  groupId := congrArg SenderIds.groupId hids
  sendGroupCnt := hcnt
  sent := hsent
  queue := fun _ hframe => .inl (hqueue ▸ hframe)

theorem refl (s : PacketSenderUdp) : Requeues s s := congr rfl rfl rfl rfl rfl

theorem trans (h : Requeues s s') (h' : Requeues s' s'') : Requeues s s'' where
  sources := h.sources.trans h'.sources
  groupId := h'.groupId.trans h.groupId
  sendGroupCnt := h'.sendGroupCnt.trans h.sendGroupCnt
  sent := h'.sent.trans h.sent
  queue := by
    intro frame hframe
    rcases h'.queue frame hframe with hold | hnew
    · exact h.queue frame hold
    · exact .inr (h.sources.label_eq ▸ hnew)

theorem rcvACKPacket (s : PacketSenderUdp) (pkt : AckPacket) : Requeues s (s.rcvACKPacket pkt) :=
  congr rfl rfl rfl rfl rfl

theorem dropExpired (now : Time) (keys : List GroupPacketInfo) (s : PacketSenderUdp) :
    Requeues s (PacketSenderUdp.dropExpired now keys s) := by
  fun_induction PacketSenderUdp.dropExpired now keys s with
  | case1 s => exact congr rfl rfl rfl rfl rfl
  | case2 info keys s hnone ih => exact ih
  | case3 info keys s ref hfind hmiss ih =>
      refine Requeues.trans ?_ ih
      exact congr rfl rfl rfl rfl rfl
  | case4 info keys s ref hfind hmiss => exact congr rfl rfl rfl rfl rfl

theorem updateAll {f : DataPacket → DataPacket} (hf : ∀ pkt, (f pkt).source = pkt.source)
    (refs : List PktRef) (s : PacketSenderUdp) : Requeues s (s.updateAll refs f) := by
  have hsame := sameSources_updateAll hf refs s
  rw [updateAll_eq] at hsame ⊢
  exact ⟨hsame, rfl, rfl, rfl, fun _ hframe => .inl hframe⟩

theorem sendRtx {policy : FECPolicy} {call : ℕ} {statistic : NetStat} {now ddlLeft : Time}
    {frameId groupId : UInt32} {refs : List PktRef} (h : s.Traced frames known)
    (hrefs : ∀ ref ∈ refs, ref < s.heap.length)
    (hrun : s.sendRtx policy call statistic now ddlLeft frameId groupId refs = some s') :
    Requeues s s' := by
  obtain ⟨fecRate, ids, data, fec, frame, hbatch, hframe, rfl⟩ := sendRtx_eq_some hrun
  have hset : ∀ pkt ∈ refs.map s.deref, pkt.groupInfoSetFlag = true := by
    intro pkt hpkt
    obtain ⟨ref, href, rfl⟩ := List.mem_map.mp hpkt
    exact (h.sources _ (source_mem_sources (deref_mem_heap (hrefs ref href)))).1
  have hback := sameSources_writeBack (source_of_createPacketBatch hset hbatch)
  have hsame := hback.trans (sameSources_updateAll (f := setEnqueueTime now) (fun _ => rfl) refs _)
  have hgroups := (name_of_createPacketBatch hset hbatch).2
  obtain ⟨front, -, -, hfront, -, hids, -, -⟩ := createPacketBatch_eq_some hbatch
  have hnonempty : refs ≠ [] := by
    rintro rfl
    cases hfront
  have hgroup : ids.groupId = s.ids.groupId := by rw [hids]; rfl
  have heq : (s.writeBack refs data).updateAll refs (setEnqueueTime now) =
      s.withHeap ((s.writeBack refs data).updateAll refs (setEnqueueTime now)).heap := by
    rw [updateAll_eq, writeBack_eq]
    rfl
  have hcnt := congrArg PacketSenderUdp.sendGroupCnt heq
  have hsent := congrArg PacketSenderUdp.sent heq
  refine ⟨hsame, hgroup, hcnt, hsent, ?_⟩
  · intro frame' hframe'
    rcases List.mem_cons.mp hframe' with rfl | hframe'
    · right
      rw [hframe]
      refine led_batch now groupId hnonempty (fun ref href => ?_) fun pkt hpkt => ?_
      · exact hgroups _ (List.mem_map_of_mem href)
      · exact (fec_of_createPacketBatch hbatch pkt hpkt).1
    · exact .inl hframe'

theorem retransmitGroup {iteration : Iteration} {policy : FECPolicy} {call : ℕ}
    {statistic : NetStat} {now : Time} {groupId : UInt32} (h : s.Traced frames known)
    (hrun : s.retransmitGroup iteration policy call statistic now groupId = some s') :
    Requeues s s' := by
  rcases retransmitGroup_eq_some hrun with ⟨rfl, -⟩ | ⟨refs, txCount, ddlLeft, frameId, front,
    hrefs, -, hrtx⟩
  · exact refl s'
  · have hmarked := updateAll (f := (·.retransmit txCount now)) (fun _ => rfl) refs s
    have heq := updateAll_eq refs (·.retransmit txCount now) s
    have hmut : Traced frames known (s.updateAll refs (·.retransmit txCount now)) := by
      refine h.mutate hmarked.sources (fun info ref hfind => ?_) ?_ (fun pkt hpkt => .inl ?_)
      · rwa [heq] at hfind
      · rw [heq]
        exact h.queue
      · rwa [heq] at hpkt
    refine hmarked.trans (sendRtx hmut (fun ref href => ?_) hrtx)
    obtain ⟨i, hfind⟩ := (hrefs ref).mp href
    rw [hmarked.sources.length]
    exact h.history _ ref hfind

theorem retransmitTimedOut {iteration : Iteration} {policy : FECPolicy} {statistic : NetStat}
    {now : Time} {kept keys : List GroupPacketInfo} {done : Finset UInt32}
    (h : s.Traced frames known)
    (hrun : retransmitTimedOut iteration policy statistic now kept keys done s = some s') :
    Requeues s s' := by
  fun_induction PacketSenderUdp.retransmitTimedOut iteration policy statistic now kept keys done s
    with
  | case1 kept done s => cases hrun; exact congr rfl rfl rfl rfl rfl
  | case2 kept info keys done s hnone ih => exact ih h hrun
  | case3 kept info keys done s ref hfind pkt hage =>
      cases hrun
      exact congr rfl rfl rfl rfl rfl
  | case4 kept info keys done s ref hfind pkt hage hdone ih => exact ih h hrun
  | case5 kept info keys done s ref hfind pkt hage hdone hout ih =>
      obtain ⟨t, hgroup, hrun⟩ := Option.bind_eq_some_iff.mp hrun
      exact (retransmitGroup h hgroup).trans (ih t (h.retransmitGroup hgroup) hrun)
  | case6 kept info keys done s ref hfind pkt hage hdone hout ih => exact ih h hrun

theorem checkRetransmission {iteration : Iteration} {policy : FECPolicy} {statistic : NetStat}
    {now : Time} (h : s.Traced frames known)
    (hrun : s.checkRetransmission iteration policy statistic now = some s') :
    Requeues s s' :=
  (dropExpired now s.dataPktHistoryKey s).trans
    (retransmitTimedOut (h.dropExpired now s.dataPktHistoryKey) hrun)

end Requeues

/-! ## New frames -/

/-- The batches of a new frame, each after the other in the heap. -/
theorem led_queuedBatches {now : Time} {ids ids' : SenderIds} {pkts : List DataPacket}
    {batches : List FirstBatch} {label : PktRef → UInt32} {opened : Set UInt32} {first : PktRef}
    (hmade : Groups now ids pkts ids' batches)
    (hlabel : ∀ i, (hi : i < (batches.flatMap FirstBatch.dataPkts).length) →
      label (first + i) = (batches.flatMap FirstBatch.dataPkts)[i].groupId) :
    Led label opened (queuedBatches now first batches) := by
  induction hmade generalizing first with
  | nil ids => trivial
  | @cons fecRate ids ids₁ ids₂ chunk pkts data fec batches hlen hbatch _ ih =>
      obtain ⟨hnonempty, -, f, hf, hdata⟩ := createPacketBatch_first_eq_some hbatch
      have hgroup : ∀ pkt ∈ data, pkt.groupId = ids.groupId := by
        intro pkt hpkt
        rw [hdata] at hpkt
        obtain ⟨i, hi, rfl⟩ := List.mem_mapIdx.mp hpkt
        exact hf
      have hpos : 0 < data.length := by
        rw [hdata, List.length_mapIdx]
        exact List.length_pos_iff.mpr hnonempty
      simp only [List.flatMap_cons, List.length_append] at hlabel
      refine Led.append ?_ (ih fun i hi => ?_)
      · refine led_batch now ids.groupId ?_ (fun ref href => ?_) fun pkt hpkt => ?_
        · exact List.ne_nil_of_length_pos (by rwa [List.length_range'])
        · obtain ⟨i, hi, rfl⟩ := List.mem_range'.mp href
          have hat := hlabel i (by simp only at hi; omega)
          rw [List.getElem_append_left hi] at hat
          rw [one_mul, hat]
          exact hgroup _ (List.getElem_mem hi)
        · exact (fec_of_createPacketBatch hbatch pkt hpkt).1
      · have hat := hlabel (data.length + i) (by omega)
        rw [List.getElem_append_right (Nat.le_add_right _ _)] at hat
        simp only [Nat.add_sub_cancel_left] at hat
        rw [add_assoc]
        exact hat

/-! ## What every state of the sender keeps -/

structure Labelled (s : PacketSenderUdp) : Prop where
  groupId : s.ids.groupId = .ofNat s.sendGroupCnt
  lt : s.sendGroupCnt ≤ 2 ^ 32 → ∀ src ∈ s.sources, src.groupId.toNat < s.sendGroupCnt
  /-- All packets of a group are of one frame. -/
  frame : s.sendGroupCnt ≤ 2 ^ 32 → ∀ src ∈ s.sources, ∀ src' ∈ s.sources,
    src.groupId = src'.groupId → src.frameId = src'.frameId
  queue : ∀ frame ∈ s.queue, Led s.label s.opened frame.packetsInFrame
  sent : ∀ pkt ∈ s.sent, pkt.header.groupId ∈ s.opened

/-- One packet of a group with data goes out. -/
structure Sends (pkt : VideoPacket) (s s' : PacketSenderUdp) : Prop where
  sources : SameSources s s'
  ids : s'.ids = s.ids
  sendGroupCnt : s'.sendGroupCnt = s.sendGroupCnt
  sent : s'.sent = s.sent ++ [pkt]
  opened : pkt.header.groupId ∈ s'.opened
  queue : ∀ frame ∈ s'.queue, Led s.label s'.opened frame.packetsInFrame

theorem opened_subset (pkts : List VideoPacket) (hsent : s'.sent = s.sent ++ pkts) :
    s.opened ⊆ s'.opened := by
  rintro groupId ⟨pkt, hpkt, hgroup⟩
  refine ⟨pkt, ?_, hgroup⟩
  rw [hsent]
  exact List.mem_append_left _ hpkt

namespace Labelled

variable {frames : List (UInt32 × Time)} {known : List PktSource}

theorem new (delayDdl : Time) : Labelled (.new delayDdl) where
  groupId := rfl
  lt := fun _ _ h => by cases h
  frame := fun _ _ h => by cases h
  queue := fun _ h => by cases h
  sent := fun _ h => by cases h

/-- No packet object is new, so only the queue and the sent packets need a look. -/
theorem sameSources (h : s.Labelled) (hsources : SameSources s s')
    (hgroup : s'.ids.groupId = s.ids.groupId) (hcnt : s'.sendGroupCnt = s.sendGroupCnt)
    (hqueue : ∀ frame ∈ s'.queue, Led s.label s'.opened frame.packetsInFrame)
    (hsent : ∀ pkt ∈ s'.sent, pkt.header.groupId ∈ s'.opened) : s'.Labelled := by
  have heq : s'.sources = s.sources := hsources
  refine ⟨?_, ?_, ?_, ?_, hsent⟩
  · rw [hgroup, hcnt]
    exact h.groupId
  · rw [hcnt, heq]
    exact h.lt
  · rw [hcnt, heq]
    exact h.frame
  · rw [hsources.label_eq]
    exact hqueue

theorem requeues (h : s.Labelled) (hre : Requeues s s') : s'.Labelled := by
  have hopened : s'.opened = s.opened := by rw [opened, opened, hre.sent]
  refine h.sameSources hre.sources hre.groupId hre.sendGroupCnt (fun frame hframe => ?_) ?_
  · rw [hopened]
    rcases hre.queue frame hframe with hold | hnew
    · exact h.queue frame hold
    · exact hnew.mono (Set.empty_subset _)
  · rw [hopened, hre.sent]
    exact h.sent

theorem sends (h : s.Labelled) {pkt : VideoPacket} (hsend : Sends pkt s s') : s'.Labelled := by
  refine h.sameSources hsend.sources (congrArg SenderIds.groupId hsend.ids) hsend.sendGroupCnt
    hsend.queue fun pkt' hpkt' => ?_
  rw [hsend.sent] at hpkt'
  rcases List.mem_append.mp hpkt' with hold | hnew
  · exact opened_subset _ hsend.sent (h.sent pkt' hold)
  · rw [List.mem_singleton.mp hnew]
    exact hsend.opened

/-- `SendPacket` sends a packet unless there is none. -/
theorem sends_sendPacket (h : s.Labelled) (now : Time) :
    s.sendPacket now = s ∨ ∃ pkt, Sends pkt s (s.sendPacket now) := by
  unfold PacketSenderUdp.sendPacket
  split
  · exact .inl rfl
  case h_2 frame rest hqueue =>
    split
    · exact .inl rfl
    case h_2 pkt pkts hpkts =>
      right
      have hled := h.queue frame (hqueue ▸ List.mem_cons_self)
      rw [hpkts] at hled
      -- the queue that is left, once the group of the packet is open
      have hrest : ∀ opened' : Set UInt32, s.opened ⊆ opened' → Led s.label opened' pkts →
          ∀ frame' ∈ (if pkts.isEmpty then rest else
            { frame with packetsInFrame := pkts } :: rest),
            Led s.label opened' frame'.packetsInFrame := by
        intro opened' hsub hpkts'
        have htail : ∀ frame' ∈ rest, Led s.label opened' frame'.packetsInFrame :=
          fun frame' hframe' =>
            (h.queue frame' (hqueue ▸ List.mem_cons_of_mem _ hframe')).mono hsub
        split
        · exact htail
        · rw [List.forall_mem_cons]
          exact ⟨hpkts', htail⟩
      cases pkt with
      | data ref =>
          have hsame : SameSources s (s.update ref fun pkt => { pkt with
              sendTime := now
              globalId := s.ipidCounter }) := by
            refine sameSources_update (fun pkt => ?_) ref s
            rfl
          have hgroup : ((s.update ref fun pkt => { pkt with
              sendTime := now
              globalId := s.ipidCounter }).deref ref).groupId = s.label ref :=
            congrFun hsame.label_eq ref
          refine ⟨_, hsame, rfl, rfl, rfl, ⟨_, List.mem_append_right _ List.mem_cons_self, rfl⟩,
            hrest _ (opened_subset _ rfl) (Led.mono hled ?_)⟩
          refine Set.insert_subset ?_ (opened_subset _ rfl)
          exact ⟨_, List.mem_append_right _ List.mem_cons_self, hgroup⟩
      | fec fec =>
          exact ⟨_, rfl, rfl, rfl, rfl, opened_subset _ rfl hled.1,
            hrest _ (opened_subset _ rfl) (hled.2.mono (opened_subset _ rfl))⟩

/-- The packets of a new frame, and their groups. -/
theorem source_of_mem_new (h : s.Labelled) {now : Time} {f : FrameArgs} {ids : SenderIds}
    {pkts : List DataPacket} {batches : List FirstBatch} (hcut : cutPackets now f = some pkts)
    (hmade : Groups now s.ids pkts ids batches) {src : PktSource}
    (hsrc : src ∈ (queuedData now batches).map (·.source)) :
    src.frameId = f.frameId ∧
      ∃ j < batches.length, src.groupId = .ofNat (s.sendGroupCnt + j) := by
  obtain ⟨pkt, hpkt, rfl⟩ := List.mem_map.mp hsrc
  refine ⟨(source_of_mem_queuedData hcut hmade hpkt).2.1, ?_⟩
  obtain ⟨p, hp, rfl⟩ := List.mem_map.mp hpkt
  obtain ⟨b, hb, hp⟩ := List.mem_flatMap.mp hp
  obtain ⟨j, hj, rfl⟩ := List.getElem_of_mem hb
  refine ⟨j, hj, ?_⟩
  have hgroup := (hmade.isNew (new_of_mem_cutFrame hcut) hj).groupId_eq hp
  rw [UInt32.ofNat_add, ← h.groupId]
  exact hgroup

theorem createFrame (h : s.Labelled) (htraced : s.Traced frames known) {policy : FECPolicy}
    {statistic : NetStat} {now : Time} {f : FrameArgs}
    (hrun : s.createFrame policy statistic now f = some s') :
    s'.Labelled ∧ s'.sent = s.sent ∧ s.sources ⊆ s'.sources ∧
      s.sendGroupCnt ≤ s'.sendGroupCnt := by
  obtain ⟨ids, batches, pkts, frame, -, hcut, hmade, hframe, rfl⟩ := createFrame_eq_some hrun
  rw [foldl_storePacket_eq]
  have hsources : (s.heap ++ queuedData now batches).map (·.source) =
      s.sources ++ (queuedData now batches).map (·.source) := List.map_append
  have hnew : ∀ src ∈ (queuedData now batches).map (·.source), src.frameId = f.frameId ∧
      ∃ j < batches.length, src.groupId = .ofNat (s.sendGroupCnt + j) := fun _ hsrc =>
    h.source_of_mem_new hcut hmade hsrc
  -- with few groups, the numbers of the new ones are beyond the old ones
  have hbeyond : s.sendGroupCnt + batches.length ≤ 2 ^ 32 →
      ∀ src ∈ (queuedData now batches).map (·.source), s.sendGroupCnt ≤ src.groupId.toNat ∧
        src.groupId.toNat < s.sendGroupCnt + batches.length := by
    intro hfits src hsrc
    obtain ⟨-, j, hj, hgroup⟩ := hnew src hsrc
    rw [hgroup, UInt32.toNat_ofNat_of_lt' (by simp only [UInt32.size]; omega)]
    omega
  have hold : s.sendGroupCnt + batches.length ≤ 2 ^ 32 →
      ∀ src ∈ s.sources, src.groupId.toNat < s.sendGroupCnt := fun hfits => h.lt (by omega)
  refine ⟨⟨?_, fun hfits => ?_, fun hfits => ?_, fun frame' hframe' => ?_, h.sent⟩, rfl, ?_,
    Nat.le_add_right _ _⟩
  · change ids.groupId = .ofNat (s.sendGroupCnt + batches.length)
    rw [hmade.groupId_eq, h.groupId, UInt32.ofNat_add]
  · change ∀ src ∈ (s.heap ++ queuedData now batches).map (·.source), _
    rw [hsources]
    intro src hsrc
    rcases List.mem_append.mp hsrc with hsrc | hsrc
    · exact (hold hfits src hsrc).trans_le (Nat.le_add_right _ _)
    · exact (hbeyond hfits src hsrc).2
  · change s.sendGroupCnt + batches.length ≤ 2 ^ 32 at hfits
    change ∀ src ∈ (s.heap ++ queuedData now batches).map (·.source),
      ∀ src' ∈ (s.heap ++ queuedData now batches).map (·.source), _
    rw [hsources]
    intro src hsrc src' hsrc' hgroup
    have hnat := congrArg UInt32.toNat hgroup
    rcases List.mem_append.mp hsrc with hsrc | hsrc <;>
      rcases List.mem_append.mp hsrc' with hsrc' | hsrc'
    · exact h.frame (by omega) src hsrc src' hsrc' hgroup
    · have := hold hfits src hsrc
      have := (hbeyond hfits src' hsrc').1
      omega
    · have := (hbeyond hfits src hsrc).1
      have := hold hfits src' hsrc'
      omega
    · rw [(hnew src hsrc).1, (hnew src' hsrc').1]
  · rcases List.mem_append.mp hframe' with hframe' | hframe'
    · refine (h.queue frame' hframe').congr fun ref href => ?_
      have hderef := deref_append_of_lt (htraced.queue frame' hframe' ref href)
        (queuedData now batches)
      exact congrArg (fun pkt : DataPacket => pkt.groupId) hderef
    · rw [List.mem_singleton.mp hframe', hframe]
      refine led_queuedBatches hmade fun i hi => ?_
      have hi' : i < (queuedData now batches).length := by
        rw [queuedData, List.length_map]
        exact hi
      have hat : (s.heap ++ queuedData now batches).getD (s.heap.length + i) (.new 0 0 0 0) =
          (queuedData now batches)[i] := by
        rw [List.getD_eq_getElem _ _ (by rw [List.length_append]; omega),
          List.getElem_append_right (Nat.le_add_right _ _)]
        simp only [Nat.add_sub_cancel_left]
      change ((s.heap ++ queuedData now batches).getD (s.heap.length + i)
        (.new 0 0 0 0)).groupId = _
      rw [hat]
      simp only [queuedData, List.getElem_map]
      rfl
  · change s.sources ⊆ (s.heap ++ queuedData now batches).map (·.source)
    rw [hsources]
    exact List.subset_append_left _ _

end Labelled

end PacketSenderUdp

end Zhuge
