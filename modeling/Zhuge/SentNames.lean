-- SUMMARY: The names of the sender's data packets last, and whatever is sent speaks of those names only.
import Zhuge.SentSources

/-!
# Names of packets

A data packet is named by its group, its id in the group and its place in its frame. No
retransmission changes that, and the digests in an FEC packet are names of the sender's packets.
-/

namespace Zhuge

/-- Which data packet it is. -/
structure PktName where
  groupId : UInt32
  origin : PktOrigin
deriving DecidableEq

def DataPacket.name (pkt : DataPacket) : PktName := ⟨pkt.groupId, pkt.origin⟩

/-- How acknowledgements name the packet. -/
def PktName.info (name : PktName) : GroupPacketInfo := ⟨name.groupId, name.origin.pktIdInGroup⟩

@[simp] theorem DataPacket.info_name (pkt : DataPacket) : pkt.name.info = pkt.groupInfo := rfl

/-- What the digests of an FEC packet say is true of packets with these names, and there are as
many as its header can count. -/
structure FECPacket.Speaks (names : List PktName) (fec : FECPacket) : Prop where
  length_le : fec.dataPkts.length ≤ 65535
  digests : ∀ d ∈ fec.dataPkts, (⟨fec.groupId, d.origin⟩ : PktName) ∈ names

theorem FECPacket.Speaks.mono {names names' : List PktName} {fec : FECPacket}
    (h : fec.Speaks names) (hsub : names ⊆ names') : fec.Speaks names' :=
  ⟨h.length_le, fun d hd => hsub (h.digests d hd)⟩

/-! ## Batches -/

/-- A batch of packets that have their group: the names stay, the group is the one asked for. -/
theorem BatchFields.assignIds_name {f : BatchFields} {i next next' : UInt16}
    {pkts data : List DataPacket} (hset : ∀ pkt ∈ pkts, pkt.groupInfoSetFlag = true)
    (h : f.assignIds false i next pkts = some (data, next')) :
    data.map (·.name) = pkts.map (·.name) ∧ ∀ pkt ∈ pkts, pkt.groupId = f.groupId := by
  induction pkts generalizing i data with
  | nil =>
      cases h
      exact ⟨rfl, List.forall_mem_nil _⟩
  | cons pkt pkts ih =>
      have hflag : (f.setBatch i pkt).groupInfoSetFlag = true := hset pkt List.mem_cons_self
      simp only [assignIds, Bool.not_false, Bool.true_and, hflag, if_true] at h
      split at h
      case isTrue hgroup =>
        obtain ⟨⟨rest, n⟩, hrest, h⟩ := Option.bind_eq_some_iff.mp h
        cases h
        obtain ⟨hnames, hgroups⟩ := ih (fun p hp => hset p (List.mem_cons_of_mem _ hp)) hrest
        refine ⟨?_, List.forall_mem_cons.mpr ⟨hgroup, hgroups⟩⟩
        rw [List.map_cons, List.map_cons, hnames]
        rfl
      case isFalse => cases h

/-- The FEC packets of a batch carry the digests of its data packets, in the batch's group. -/
theorem fec_of_createPacketBatch {fecRate : Binary64} {newGroup isRtx : Bool} {groupId : UInt32}
    {now : Time} {ids ids' : SenderIds} {pkts data : List DataPacket} {fec : List FECPacket}
    (h : createPacketBatch fecRate newGroup groupId isRtx now ids pkts = some (ids', data, fec)) :
    ∀ pkt ∈ fec, pkt.groupId = (if newGroup then ids.groupId else groupId) ∧
      pkt.dataPkts = data.map (·.digest) ∧ pkt.encodeTime = now := by
  obtain ⟨front, f, next, -, rfl, -, -, rfl⟩ := createPacketBatch_eq_some h
  intro pkt hpkt
  obtain ⟨i, -, rfl⟩ := List.mem_map.mp hpkt
  exact ⟨rfl, rfl, rfl⟩

theorem name_of_createPacketBatch {fecRate : Binary64} {groupId : UInt32} {isRtx : Bool}
    {now : Time} {ids ids' : SenderIds} {pkts data : List DataPacket} {fec : List FECPacket}
    (hset : ∀ pkt ∈ pkts, pkt.groupInfoSetFlag = true)
    (h : createPacketBatch fecRate false groupId isRtx now ids pkts = some (ids', data, fec)) :
    data.map (·.name) = pkts.map (·.name) ∧ ∀ pkt ∈ pkts, pkt.groupId = groupId := by
  obtain ⟨front, f, next, -, rfl, -, hassign, -⟩ := createPacketBatch_eq_some h
  exact BatchFields.assignIds_name hset hassign

/-- A batch speaks of its own data packets. -/
theorem speaks_of_digests {fec : FECPacket} {data : List DataPacket} {names : List PktName}
    (hlen : data.length ≤ 65535) (hdigests : fec.dataPkts = data.map (·.digest))
    (hgroup : ∀ pkt ∈ data, pkt.groupId = fec.groupId) (hnames : data.map (·.name) ⊆ names) :
    fec.Speaks names := by
  refine ⟨by rwa [hdigests, List.length_map], fun d hd => ?_⟩
  rw [hdigests] at hd
  obtain ⟨pkt, hpkt, rfl⟩ := List.mem_map.mp hd
  have hname : (⟨fec.groupId, pkt.digest.origin⟩ : PktName) = pkt.name := by
    rw [DataPacket.origin_digest, ← hgroup pkt hpkt]
    rfl
  rw [hname]
  exact hnames (List.mem_map_of_mem hpkt)

namespace PacketSenderUdp

variable {s s' s'' : PacketSenderUdp}

/-! ## Objects keep their names -/

def names (s : PacketSenderUdp) : List PktName := s.heap.map (·.name)

def SameNames (s s' : PacketSenderUdp) : Prop := s'.names = s.names

theorem SameNames.trans (h : SameNames s s') (h' : SameNames s' s'') : SameNames s s'' :=
  Eq.trans h' h

theorem sameNames_of_deref (hlen : s'.heap.length = s.heap.length)
    (h : ∀ ref, (s'.deref ref).name = (s.deref ref).name) : SameNames s s' := by
  apply List.ext_getElem
  · simpa only [names, List.length_map] using hlen
  · intro i h₁ h₂
    rw [names, List.length_map] at h₁ h₂
    have hat := h i
    rw [deref, deref, List.getD_eq_getElem _ _ h₁, List.getD_eq_getElem _ _ h₂] at hat
    simp only [names, List.getElem_map]
    exact hat

theorem sameNames_updateAll {f : DataPacket → DataPacket} (hf : ∀ pkt, (f pkt).name = pkt.name)
    (refs : List PktRef) (s : PacketSenderUdp) : SameNames s (s.updateAll refs f) :=
  sameNames_of_deref (length_heap_updateAll refs f s)
    (deref_updateAll_field (·.name) hf refs s)

theorem sameNames_writeBack {refs : List PktRef} {pkts : List DataPacket}
    (h : pkts.map (·.name) = (refs.map s.deref).map (·.name)) :
    SameNames s (s.writeBack refs pkts) := by
  refine sameNames_of_deref (length_heap_writeBack refs pkts s)
    (deref_writeBack_field (·.name) fun p hp => ?_)
  obtain ⟨i, hi, rfl⟩ := List.getElem_of_mem hp
  have hat := congrArg (·[i]?) h
  rw [List.length_zip] at hi
  simpa [List.getElem?_eq_getElem (lt_min_iff.mp hi).1,
    List.getElem?_eq_getElem (lt_min_iff.mp hi).2] using hat

theorem name_mem_names {pkt : DataPacket} (h : pkt ∈ s.heap) : pkt.name ∈ s.names :=
  List.mem_map_of_mem h

/-! ## What is queued and sent -/

/-- What is queued or was sent speaks of the sender's packets, and of FEC packets made at a time
with `Q`. -/
structure Honest (Q : Time → Prop) (s : PacketSenderUdp) : Prop where
  queue : ∀ frame ∈ s.queue, ∀ fec, .fec fec ∈ frame.packetsInFrame →
    Q fec.encodeTime ∧ fec.Speaks s.names
  sent : ∀ pkt ∈ s.sent, match pkt with
    | .data pkt => pkt.name ∈ s.names
    | .dupFec _ => False
    | .fec fec => Q fec.encodeTime ∧ fec.Speaks s.names

namespace Honest

variable {Q : Time → Prop} {frames : List (UInt32 × Time)} {known : List PktSource}

theorem new (delayDdl : Time) : Honest Q (.new delayDdl) where
  queue := fun _ h => by cases h
  sent := fun _ h => by cases h

/-- The objects keep their names, and what is new in the queue and on the wire speaks of them. -/
theorem mutate (h : s.Honest Q) (hsame : SameNames s s')
    (hqueue : ∀ frame ∈ s'.queue, ∀ fec, .fec fec ∈ frame.packetsInFrame →
      Q fec.encodeTime ∧ fec.Speaks s.names)
    (hsent : ∀ pkt ∈ s'.sent, pkt ∈ s.sent ∨ (∃ obj ∈ s'.heap, pkt = .data obj) ∨
      ∃ fec, pkt = .fec fec ∧ Q fec.encodeTime ∧ fec.Speaks s.names) : s'.Honest Q := by
  refine ⟨?_, fun pkt hpkt => ?_⟩
  · rw [show s'.names = s.names from hsame]
    exact hqueue
  · rcases hsent pkt hpkt with hold | ⟨obj, hobj, rfl⟩ | ⟨fec, rfl, hfec⟩
    · rw [show s'.names = s.names from hsame]
      exact h.sent pkt hold
    · exact name_mem_names hobj
    · rw [show s'.names = s.names from hsame]
      exact hfec

theorem congr (h : s.Honest Q) (hheap : s'.heap = s.heap) (hqueue : s'.queue = s.queue)
    (hsent : s'.sent = s.sent) : s'.Honest Q := by
  have hsame : SameNames s s' := by rw [SameNames, names, hheap, names]
  refine h.mutate hsame ?_ ?_
  · rw [hqueue]
    exact h.queue
  · rw [hsent]
    exact fun pkt hpkt => .inl hpkt

theorem sendPacket (h : s.Honest Q) (htraced : s.Traced frames known) (now : Time) :
    (s.sendPacket now).Honest Q ∧ SameNames s (s.sendPacket now) := by
  unfold PacketSenderUdp.sendPacket
  split
  · exact ⟨h, rfl⟩
  case h_2 frame rest hqueue =>
    split
    · exact ⟨h, rfl⟩
    case h_2 pkt pkts hpkts =>
      have hframe : frame ∈ s.queue := hqueue ▸ List.mem_cons_self
      have hfirst : ∀ fec, .fec fec ∈ pkt :: pkts → Q fec.encodeTime ∧ fec.Speaks s.names := by
        rw [← hpkts]
        exact h.queue frame hframe
      have hrest : ∀ frame' ∈ (if pkts.isEmpty then rest else
          { frame with packetsInFrame := pkts } :: rest), ∀ fec,
          .fec fec ∈ frame'.packetsInFrame → Q fec.encodeTime ∧ fec.Speaks s.names := by
        have htail : ∀ frame' ∈ rest, ∀ fec, .fec fec ∈ frame'.packetsInFrame →
            Q fec.encodeTime ∧ fec.Speaks s.names := fun frame' hframe' =>
          h.queue frame' (by rw [hqueue]; exact List.mem_cons_of_mem _ hframe')
        split
        · exact htail
        · rw [List.forall_mem_cons]
          exact ⟨fun fec hfec => hfirst fec (List.mem_cons_of_mem _ hfec), htail⟩
      cases pkt with
      | data ref =>
          have href : ref < s.heap.length :=
            htraced.queue frame hframe ref (hpkts ▸ List.mem_cons_self)
          have hsame : SameNames s (s.update ref fun pkt => { pkt with
              sendTime := now
              globalId := s.ipidCounter }) :=
            sameNames_of_deref (List.length_modify ..) (deref_update_field (·.name) rfl)
          refine ⟨h.mutate hsame hrest ?_, hsame⟩
          intro pkt hpkt
          rcases List.mem_append.mp hpkt with hpkt | hpkt
          · exact .inl hpkt
          · refine .inr (.inl ⟨_, deref_mem_heap ?_, List.mem_singleton.mp hpkt⟩)
            exact (List.length_modify ..).symm ▸ href
      | fec fec =>
          refine ⟨h.mutate rfl hrest ?_, rfl⟩
          intro pkt hpkt
          rcases List.mem_append.mp hpkt with hpkt | hpkt
          · exact .inl hpkt
          · obtain ⟨htime, hspeaks⟩ := hfirst fec List.mem_cons_self
            exact .inr (.inr ⟨_, List.mem_singleton.mp hpkt, htime,
              ⟨hspeaks.length_le, hspeaks.digests⟩⟩)

theorem rcvACKPacket (h : s.Honest Q) (pkt : AckPacket) :
    (s.rcvACKPacket pkt).Honest Q ∧ SameNames s (s.rcvACKPacket pkt) :=
  ⟨h.congr rfl rfl rfl, rfl⟩

theorem dropExpired (h : s.Honest Q) (now : Time) (keys : List GroupPacketInfo) :
    (dropExpired now keys s).Honest Q ∧ SameNames s (PacketSenderUdp.dropExpired now keys s) := by
  fun_induction PacketSenderUdp.dropExpired now keys s with
  | case1 s => exact ⟨h.congr rfl rfl rfl, rfl⟩
  | case2 info keys s hnone ih => exact ih h
  | case3 info keys s ref hfind hmiss ih => exact ih (h.congr rfl rfl rfl)
  | case4 info keys s ref hfind hmiss => exact ⟨h.congr rfl rfl rfl, rfl⟩

/-- A retransmission asks for a group of as many packets as it sends. -/
theorem length_le_of_sendRtx {policy : FECPolicy} {call : ℕ} {statistic : NetStat}
    {now ddlLeft : Time} {frameId groupId : UInt32} {refs : List PktRef}
    (h : s.sendRtx policy call statistic now ddlLeft frameId groupId refs = some s') :
    refs.length ≤ 65535 := by
  obtain ⟨frameSize, -, h⟩ := Option.bind_eq_some_iff.mp h
  simp only at h
  split at h
  case isTrue hlen =>
    rw [hlen]
    exact Nat.le_of_lt_succ (UInt16.toNat_lt _)
  case isFalse => cases h

theorem sendRtx {policy : FECPolicy} {call : ℕ} {statistic : NetStat} {now ddlLeft : Time}
    {frameId groupId : UInt32} {refs : List PktRef} (h : s.Honest Q)
    (htraced : s.Traced frames known) (hnow : Q now) (hrefs : ∀ ref ∈ refs, ref < s.heap.length)
    (hrun : s.sendRtx policy call statistic now ddlLeft frameId groupId refs = some s') :
    s'.Honest Q ∧ SameNames s s' := by
  have hlen := length_le_of_sendRtx hrun
  obtain ⟨fecRate, ids, data, fec, frame, hbatch, hframe, rfl⟩ := sendRtx_eq_some hrun
  have hobjects : ∀ pkt ∈ refs.map s.deref, pkt ∈ s.heap := by
    intro pkt hpkt
    obtain ⟨ref, href, rfl⟩ := List.mem_map.mp hpkt
    exact deref_mem_heap (hrefs ref href)
  have hset : ∀ pkt ∈ refs.map s.deref, pkt.groupInfoSetFlag = true := fun pkt hpkt =>
    (htraced.sources _ (source_mem_sources (hobjects pkt hpkt))).1
  obtain ⟨hnames, hgroups⟩ := name_of_createPacketBatch hset hbatch
  have hback := sameNames_writeBack hnames
  have hsame := hback.trans (sameNames_updateAll (f := setEnqueueTime now) (fun _ => rfl) refs _)
  have hsent : ((s.writeBack refs data).updateAll refs (setEnqueueTime now)).sent = s.sent := by
    rw [updateAll_eq, writeBack_eq]
    rfl
  have hmade : ∀ pkt ∈ fec, Q pkt.encodeTime ∧ pkt.Speaks s.names := by
    intro pkt hpkt
    obtain ⟨hgroup, hdigests, htime⟩ := fec_of_createPacketBatch hbatch pkt hpkt
    refine ⟨htime ▸ hnow, speaks_of_digests ?_ hdigests ?_ ?_⟩
    · have hlength := congrArg List.length hnames
      simp only [List.length_map] at hlength
      rwa [hlength]
    · intro p hp
      have hp' : p.name ∈ (refs.map s.deref).map (·.name) := hnames ▸ List.mem_map_of_mem hp
      obtain ⟨q, hq, heq⟩ := List.mem_map.mp hp'
      exact (congrArg PktName.groupId heq).symm.trans ((hgroups q hq).trans hgroup.symm)
    · rw [hnames]
      exact List.map_subset _ hobjects
  refine ⟨h.mutate hsame ?_ fun pkt hpkt => .inl (hsent ▸ hpkt), hsame⟩
  intro frame' hframe' pkt hpkt
  rcases List.mem_cons.mp hframe' with rfl | hframe'
  · rw [hframe, List.mem_append] at hpkt
    rcases hpkt with hpkt | hpkt
    · obtain ⟨ref, -, heq⟩ := List.mem_map.mp hpkt
      cases heq
    · obtain ⟨pkt', hpkt', heq⟩ := List.mem_map.mp hpkt
      cases heq
      obtain ⟨htime, hspeaks⟩ := hmade pkt' hpkt'
      exact ⟨htime, hspeaks.length_le, hspeaks.digests⟩
  · exact h.queue frame' hframe' pkt hpkt

theorem retransmitGroup {iteration : Iteration} {policy : FECPolicy} {call : ℕ}
    {statistic : NetStat} {now : Time} {groupId : UInt32} (h : s.Honest Q)
    (htraced : s.Traced frames known) (hnow : Q now)
    (hrun : s.retransmitGroup iteration policy call statistic now groupId = some s') :
    s'.Honest Q ∧ SameNames s s' := by
  rcases retransmitGroup_eq_some hrun with ⟨rfl, -⟩ | ⟨refs, txCount, ddlLeft, frameId, front,
    hrefs, -, hrtx⟩
  · exact ⟨h, rfl⟩
  · have hsame := sameNames_updateAll (f := (·.retransmit txCount now)) (fun _ => rfl) refs s
    have hsources := sameSources_updateAll (f := (·.retransmit txCount now)) (fun _ => rfl) refs s
    have heq := updateAll_eq refs (·.retransmit txCount now) s
    have hqueue : (s.updateAll refs (·.retransmit txCount now)).queue = s.queue := by
      rw [heq]
      rfl
    have hsent : (s.updateAll refs (·.retransmit txCount now)).sent = s.sent := by
      rw [heq]
      rfl
    have hhonest : (s.updateAll refs (·.retransmit txCount now)).Honest Q :=
      h.mutate hsame (hqueue ▸ h.queue) fun pkt hpkt => .inl (hsent ▸ hpkt)
    have hmut : (s.updateAll refs (·.retransmit txCount now)).Traced frames known := by
      refine htraced.mutate hsources (fun info ref hfind => ?_) ?_ fun pkt hpkt => .inl ?_
      · rwa [heq] at hfind
      · rw [hqueue]
        exact htraced.queue
      · rwa [hsent] at hpkt
    have hlt : ∀ ref ∈ refs, ref < (s.updateAll refs (·.retransmit txCount now)).heap.length := by
      intro ref href
      obtain ⟨i, hfind⟩ := (hrefs ref).mp href
      rw [hsources.length]
      exact htraced.history _ ref hfind
    obtain ⟨hdone, hnames⟩ := hhonest.sendRtx hmut hnow hlt hrtx
    exact ⟨hdone, hsame.trans hnames⟩

theorem retransmitTimedOut {iteration : Iteration} {policy : FECPolicy} {statistic : NetStat}
    {now : Time} {kept keys : List GroupPacketInfo} {done : Finset UInt32} (h : s.Honest Q)
    (htraced : s.Traced frames known) (hnow : Q now)
    (hrun : retransmitTimedOut iteration policy statistic now kept keys done s = some s') :
    s'.Honest Q ∧ SameNames s s' := by
  fun_induction PacketSenderUdp.retransmitTimedOut iteration policy statistic now kept keys done s
    with
  | case1 kept done s => cases hrun; exact ⟨h.congr rfl rfl rfl, rfl⟩
  | case2 kept info keys done s hnone ih => exact ih h htraced hrun
  | case3 kept info keys done s ref hfind pkt hage =>
      cases hrun
      exact ⟨h.congr rfl rfl rfl, rfl⟩
  | case4 kept info keys done s ref hfind pkt hage hdone ih => exact ih h htraced hrun
  | case5 kept info keys done s ref hfind pkt hage hdone hout ih =>
      obtain ⟨t, hgroup, hrun⟩ := Option.bind_eq_some_iff.mp hrun
      obtain ⟨ht, hnames⟩ := h.retransmitGroup htraced hnow hgroup
      obtain ⟨hs', hnames'⟩ := ih t ht (htraced.retransmitGroup hgroup) hrun
      exact ⟨hs', hnames.trans hnames'⟩
  | case6 kept info keys done s ref hfind pkt hage hdone hout ih => exact ih h htraced hrun

theorem checkRetransmission {iteration : Iteration} {policy : FECPolicy} {statistic : NetStat}
    {now : Time} (h : s.Honest Q) (htraced : s.Traced frames known) (hnow : Q now)
    (hrun : s.checkRetransmission iteration policy statistic now = some s') :
    s'.Honest Q ∧ SameNames s s' := by
  obtain ⟨hdrop, hnames⟩ := h.dropExpired now s.dataPktHistoryKey
  obtain ⟨hs', hnames'⟩ := hdrop.retransmitTimedOut (htraced.dropExpired now s.dataPktHistoryKey)
    hnow hrun
  exact ⟨hs', hnames.trans hnames'⟩

/-! ### New frames -/

/-- The FEC packets of a first batch speak of its data packets. -/
theorem speaks_of_groups {now : Time} {ids ids' : SenderIds} {pkts : List DataPacket}
    {batches : List FirstBatch} (hmade : Groups now ids pkts ids' batches)
    {b : FirstBatch} (hb : b ∈ batches) {fec : FECPacket} (hfec : fec ∈ b.fecPkts) :
    fec.encodeTime = now ∧ fec.Speaks (b.dataPkts.map (·.name)) := by
  induction hmade with
  | nil ids => cases hb
  | @cons fecRate ids ids₁ ids₂ chunk pkts data fecs batches hlen hbatch _ ih =>
      rcases List.mem_cons.mp hb with rfl | hb
      · obtain ⟨hgroup, hdigests, htime⟩ := fec_of_createPacketBatch hbatch fec hfec
        obtain ⟨-, -, f, hf, rfl⟩ := createPacketBatch_first_eq_some hbatch
        refine ⟨htime, speaks_of_digests ?_ hdigests ?_ (List.Subset.refl _)⟩
        · rwa [List.length_mapIdx]
        · intro pkt hpkt
          obtain ⟨i, hi, rfl⟩ := List.mem_mapIdx.mp hpkt
          exact hf.trans hgroup.symm
      · exact ih hb

theorem fec_of_mem_queuedBatches {now : Time} {first : PktRef} {batches : List FirstBatch}
    {fec : FECPacket} (h : .fec fec ∈ queuedBatches now first batches) :
    ∃ b ∈ batches, ∃ fec' ∈ b.fecPkts, fec = { fec' with enqueueTime := now } := by
  induction batches generalizing first with
  | nil => cases h
  | cons b batches ih =>
      rcases List.mem_append.mp h with h | h
      · rcases List.mem_append.mp h with h | h
        · obtain ⟨ref, -, heq⟩ := List.mem_map.mp h
          cases heq
        · obtain ⟨fec', hfec', heq⟩ := List.mem_map.mp h
          cases heq
          exact ⟨b, List.mem_cons_self, fec', hfec', rfl⟩
      · obtain ⟨b', hb', hrest⟩ := ih h
        exact ⟨b', List.mem_cons_of_mem _ hb', hrest⟩

theorem createFrame {policy : FECPolicy} {statistic : NetStat} {now : Time} {f : FrameArgs}
    (h : s.Honest Q) (hnow : Q now)
    (hrun : s.createFrame policy statistic now f = some s') :
    s'.Honest Q ∧ ∃ ids batches pkts, cutPackets now f = some pkts ∧
      Groups now s.ids pkts ids batches ∧
      s'.names = s.names ++ (batches.flatMap (·.dataPkts)).map (·.name) := by
  obtain ⟨ids, batches, pkts, frame, -, hcut, hmade, hframe, rfl⟩ := createFrame_eq_some hrun
  rw [foldl_storePacket_eq]
  have hnew : (queuedData now batches).map (·.name) =
      (batches.flatMap (·.dataPkts)).map (·.name) := by
    rw [queuedData, List.map_map]
    rfl
  have hnames : (s.heap ++ queuedData now batches).map (·.name) =
      s.names ++ (batches.flatMap (·.dataPkts)).map (·.name) := by
    rw [List.map_append, hnew, names]
  refine ⟨⟨fun frame' hframe' fec hfec => ?_, fun pkt hpkt => ?_⟩, ids, batches, pkts, hcut, hmade,
    hnames⟩
  · change Q fec.encodeTime ∧ fec.Speaks ((s.heap ++ queuedData now batches).map (·.name))
    rw [hnames]
    rcases List.mem_append.mp hframe' with hframe' | hframe'
    · obtain ⟨htime, hspeaks⟩ := h.queue frame' hframe' fec hfec
      exact ⟨htime, hspeaks.mono (List.subset_append_left _ _)⟩
    · rw [List.mem_singleton.mp hframe', hframe] at hfec
      obtain ⟨b, hb, fec', hfec', rfl⟩ := fec_of_mem_queuedBatches hfec
      obtain ⟨htime, hlen, hdigests⟩ := speaks_of_groups hmade hb hfec'
      refine ⟨htime ▸ hnow, hlen, fun d hd => List.mem_append_right _ ?_⟩
      obtain ⟨p, hp, heq⟩ := List.mem_map.mp (hdigests d hd)
      exact List.mem_map.mpr ⟨p, List.mem_flatMap.mpr ⟨b, hb, hp⟩, heq⟩
  · have hold := h.sent pkt hpkt
    have hsub : s.names ⊆ (s.heap ++ queuedData now batches).map (·.name) := by
      rw [hnames]
      exact List.subset_append_left _ _
    cases pkt with
    | data pkt => exact hsub hold
    | dupFec pkt => exact hold
    | fec fec => exact ⟨hold.1, hold.2.mono hsub⟩

end Honest

end PacketSenderUdp

end Zhuge
