-- SUMMARY: The packets that the keys of the sender's history stand for, and what the scans and new frames do to them.
import Zhuge.SenderObjects

/-!
# The sender's history

The scans of `CheckRetransmission` stop at the first packet in time. They are right because
the keys follow the packets stored under them in order of their encode times.
-/

namespace Zhuge

namespace PacketSenderUdp

/-! ## The packets under the keys -/

/-- Packets of one group in the history were sent equally often. -/
def SameTxCount (s : PacketSenderUdp) : Prop :=
  ∀ info info' ref ref', s.dataPktHistory.find info = some ref →
    s.dataPktHistory.find info' = some ref' → info.groupId = info'.groupId →
    (s.deref ref).txCount = (s.deref ref').txCount

/-- `refs` are packets in the order in which they were stored, among them all that are in
the history. -/
structure Covers (refs : List PktRef) (s : PacketSenderUdp) : Prop where
  lt : ∀ ref ∈ refs, ref < s.heap.length
  flag : ∀ ref ∈ refs, (s.deref ref).groupInfoSetFlag = true
  nodup : (refs.map s.infoOf).Nodup
  sorted : refs.Pairwise fun ref ref' => (s.deref ref).encodeTime ≤ (s.deref ref').encodeTime
  sameGroup : ∀ ref ∈ refs, ∀ ref' ∈ refs, (s.infoOf ref).groupId = (s.infoOf ref').groupId →
    (s.deref ref).encodeTime = (s.deref ref').encodeTime
  found : ∀ info ref, s.dataPktHistory.find info = some ref → ref ∈ refs ∧ s.infoOf ref = info
  txCount : s.SameTxCount
  noEmptyGroup : s.dataPktHistory.NoEmptyGroup
  acked : ∀ info ∈ s.acked, s.dataPktHistory.find info = none

namespace Covers

variable {refs refs' : List PktRef} {s s' : PacketSenderUdp}

/-- Packets that are sent again stay covered. -/
theorem mutate (h : Covers refs s) (hsame : SameHistory s s') (htx : s'.SameTxCount) :
    Covers refs s' where
  lt ref href := hsame.length ▸ h.lt ref href
  flag ref href := (hsame.flag ref).trans (h.flag ref href)
  nodup := hsame.infoOf ▸ h.nodup
  sorted := by simpa only [hsame.encodeTime] using h.sorted
  sameGroup := by simpa only [hsame.encodeTime, hsame.infoOf] using h.sameGroup
  found := by simpa only [hsame.dataPktHistory, hsame.infoOf] using h.found
  txCount := htx
  noEmptyGroup := hsame.dataPktHistory ▸ h.noEmptyGroup
  acked := by simpa only [hsame.dataPktHistory, hsame.acked] using h.acked

/-- Packets may leave the history and the list of those it covers. -/
theorem shrink (h : Covers refs s) (hheap : s'.heap = s.heap) (hsub : refs'.Sublist refs)
    (hfound : ∀ info ref, s'.dataPktHistory.find info = some ref →
      s.dataPktHistory.find info = some ref ∧ ref ∈ refs')
    (hne : s'.dataPktHistory.NoEmptyGroup)
    (hacked : ∀ info ∈ s'.acked, s'.dataPktHistory.find info = none) : Covers refs' s' := by
  have hderef : ∀ ref, s'.deref ref = s.deref ref := fun ref => by rw [deref, hheap, deref]
  have hinfo : s'.infoOf = s.infoOf := funext fun ref => by rw [infoOf, hderef, infoOf]
  refine ⟨?_, ?_, ?_, ?_, ?_, ?_, ?_, hne, hacked⟩
  · intro ref href
    rw [hheap]
    exact h.lt ref (hsub.subset href)
  · intro ref href
    rw [hderef]
    exact h.flag ref (hsub.subset href)
  · rw [hinfo]
    exact h.nodup.sublist (hsub.map _)
  · simpa only [hderef] using h.sorted.sublist hsub
  · intro ref href ref' href'
    rw [hinfo, hderef, hderef]
    exact h.sameGroup ref (hsub.subset href) ref' (hsub.subset href')
  · intro info ref hfind
    rw [hinfo]
    exact ⟨(hfound info ref hfind).2, (h.found info ref (hfound info ref hfind).1).2⟩
  · intro info info' ref ref' hfind hfind' hgroup
    rw [hderef, hderef]
    exact h.txCount info info' ref ref' (hfound info ref hfind).1 (hfound info' ref' hfind').1
      hgroup

/-- The history holds a packet under its own name only. -/
theorem eq_of_find (h : Covers refs s) {ref ref' : PktRef} (href : ref ∈ refs)
    (hfind : s.dataPktHistory.find (s.infoOf ref) = some ref') : ref' = ref :=
  List.inj_on_of_nodup_map h.nodup (h.found _ _ hfind).1 href (h.found _ _ hfind).2

end Covers

/-! ## The first scan -/

/-- No packet in the history is older than the deadline. -/
def InTime (now : Time) (s : PacketSenderUdp) : Prop :=
  ∀ info ref, s.dataPktHistory.find info = some ref →
    now - (s.deref ref).encodeTime ≤ s.delayDdl

theorem dropExpired_eq (now : Time) (keys : List GroupPacketInfo) (s : PacketSenderUdp) :
    dropExpired now keys s =
      { s with
        dataPktHistoryKey := (dropExpired now keys s).dataPktHistoryKey
        dataPktHistory := (dropExpired now keys s).dataPktHistory
        expired := (dropExpired now keys s).expired } := by
  fun_induction dropExpired now keys s with
  | case1 s => rfl
  | case2 info keys s hfind ih => exact ih
  | case3 info keys s ref hfind hmiss ih =>
      rw [ih]
  | case4 info keys s ref hfind hmiss => rfl

theorem sameHeap_dropExpired (now : Time) (keys : List GroupPacketInfo) (s : PacketSenderUdp) :
    (dropExpired now keys s).heap = s.heap := by
  rw [dropExpired_eq]

/-- The first scan leaves packets in time only, although it stops at the first of them. -/
theorem Covers.dropExpired {refs : List PktRef} {s : PacketSenderUdp} (h : Covers refs s)
    (now : Time) : ∃ refs', (dropExpired now (refs.map s.infoOf) s).dataPktHistoryKey
        = refs'.map s.infoOf ∧ refs'.Sublist refs ∧
      Covers refs' (dropExpired now (refs.map s.infoOf) s) ∧
      (dropExpired now (refs.map s.infoOf) s).InTime now := by
  induction refs generalizing s with
  | nil =>
      refine ⟨[], rfl, .refl _, h.shrink rfl (.refl _) (fun info ref hfind => ?_) h.noEmptyGroup
        h.acked, fun info ref hfind => ?_⟩
      · exact ⟨hfind, (h.found info ref hfind).1⟩
      · cases (h.found info ref hfind).1
  | cons ref refs ih =>
      rw [List.map_cons]
      cases hfind : s.dataPktHistory.find (s.infoOf ref) with
      | none =>
          have htail : Covers refs s := by
            refine h.shrink rfl (List.sublist_cons_self ref refs) ?_ h.noEmptyGroup h.acked
            intro info ref' hfind'
            obtain ⟨hmem, hinfo⟩ := h.found info ref' hfind'
            rcases List.mem_cons.mp hmem with rfl | hmem
            · rw [hinfo, hfind'] at hfind
              cases hfind
            · exact ⟨hfind', hmem⟩
          obtain ⟨refs', hkeys, hsub, hcov, hin⟩ := ih htail
          simp only [PacketSenderUdp.dropExpired, hfind]
          exact ⟨refs', hkeys, hsub.cons ref, hcov, hin⟩
      | some ref' =>
          obtain rfl := h.eq_of_find List.mem_cons_self hfind
          simp only [PacketSenderUdp.dropExpired, hfind]
          split
          case isTrue =>
            let t : PacketSenderUdp := { s with
              dataPktHistory := s.dataPktHistory.remove (s.infoOf ref')
              expired := s.expired ++ [(s.infoOf ref', now - (s.deref ref').encodeTime)] }
            have htail : Covers refs t := by
              refine h.shrink rfl (List.sublist_cons_self ref' refs) ?_
                (h.noEmptyGroup.remove _) ?_
              · intro info ref hfind'
                rw [PktHistory.find_remove] at hfind'
                split at hfind'
                · cases hfind'
                · obtain ⟨hmem, hinfo⟩ := h.found info ref hfind'
                  rcases List.mem_cons.mp hmem with rfl | hmem
                  · exact absurd hinfo.symm ‹_›
                  · exact ⟨hfind', hmem⟩
              · intro info hinfo
                rw [PktHistory.find_remove, h.acked info hinfo, ite_self]
            obtain ⟨refs', hkeys, hsub, hcov, hin⟩ := ih htail
            exact ⟨refs', hkeys, hsub.cons ref', hcov, hin⟩
          case isFalse hmiss =>
            refine ⟨ref' :: refs, rfl, .refl _, h.shrink rfl (.refl _) (fun info ref hfind' => ?_)
              h.noEmptyGroup h.acked, ?_⟩
            · exact ⟨hfind', (h.found info ref hfind').1⟩
            · -- the packets behind the first one in time were encoded no earlier
              intro info ref hfind'
              have hfirst : now - (s.deref ref').encodeTime ≤ s.delayDdl := by
                simpa [missesDdl] using hmiss
              have hle : (s.deref ref').encodeTime ≤ (s.deref ref).encodeTime := by
                rcases List.mem_cons.mp (h.found info ref hfind').1 with rfl | hmem
                · exact le_rfl
                · exact (List.pairwise_cons.mp h.sorted).1 ref hmem
              exact (sub_le_sub_left hle now).trans hfirst

/-! ## Sending a group again -/

/-- What `SendPackets` does for packets sent again. -/
theorem sendRtx_eq_some {policy : FECPolicy} {call : ℕ} {statistic : NetStat}
    {now ddlLeft : Time} {frameId groupId : UInt32} {refs : List PktRef} {s s' : PacketSenderUdp}
    (h : s.sendRtx policy call statistic now ddlLeft frameId groupId refs = some s') :
    ∃ fecRate ids data fec frame,
      createPacketBatch fecRate false groupId true now s.ids (refs.map s.deref)
        = some (ids, data, fec) ∧
      frame.packetsInFrame = refs.map .data ++ fec.map (enqueueFec now) ∧
      s' = { (s.writeBack refs data).updateAll refs (setEnqueueTime now) with
        ids := ids
        queue := frame :: s.queue } := by
  obtain ⟨frameSize, -, h⟩ := Option.bind_eq_some_iff.mp h
  simp only at h
  split at h
  case isTrue =>
    obtain ⟨⟨ids, data, fec⟩, hbatch, h⟩ := Option.bind_eq_some_iff.mp h
    have hqueue : ((s.writeBack refs data).updateAll refs (setEnqueueTime now)).queue
        = s.queue := by
      rw [updateAll_eq, writeBack_eq]
      rfl
    simp only [Option.some.injEq, hqueue] at h
    exact ⟨_, ids, data, fec, _, hbatch, rfl, h.symm⟩
  case isFalse => cases h

/-- A batch of packets that have their group info: each keeps it. -/
theorem fixed_of_createPacketBatch {fecRate : Binary64} {groupId : UInt32} {now : Time}
    {ids ids' : SenderIds} {pkts data : List DataPacket} {fec : List FECPacket}
    (hset : ∀ pkt ∈ pkts, pkt.groupInfoSetFlag = true ∧ pkt.groupId = groupId)
    (h : createPacketBatch fecRate false groupId true now ids pkts = some (ids', data, fec)) :
    data.map (fun pkt => (fixed pkt, pkt.txCount)) =
      pkts.map fun pkt => (fixed pkt, pkt.txCount) := by
  cases pkts with
  | nil => simp [createPacketBatch] at h
  | cons front rest =>
      rw [createPacketBatch_rtx _ _ _ hset] at h
      simp only [Option.some.injEq, Prod.mk.injEq] at h
      obtain ⟨-, rfl, -⟩ := h
      apply List.ext_getElem
      · simp
      · intro i h₁ h₂
        rw [List.getElem_map, List.getElem_map, List.getElem_mapIdx]
        rfl

theorem sendRtx_sameHistory {policy : FECPolicy} {call : ℕ} {statistic : NetStat}
    {now ddlLeft : Time} {frameId groupId : UInt32} {refs : List PktRef} {s s' : PacketSenderUdp}
    (hset : ∀ ref ∈ refs, (s.deref ref).groupInfoSetFlag = true ∧
      (s.deref ref).groupId = groupId)
    (h : s.sendRtx policy call statistic now ddlLeft frameId groupId refs = some s') :
    SameHistory s s' ∧ ∀ ref, (s'.deref ref).txCount = (s.deref ref).txCount := by
  obtain ⟨fecRate, ids, data, fec, frame, hbatch, -, rfl⟩ := sendRtx_eq_some h
  have hfields := fixed_of_createPacketBatch (by simpa using hset) hbatch
  have hzip : ∀ p ∈ refs.zip data,
      (fixed p.2, p.2.txCount) = (fixed (s.deref p.1), (s.deref p.1).txCount) := by
    intro p hp
    obtain ⟨i, hi, rfl⟩ := List.getElem_of_mem hp
    have hat := congrArg (·[i]?) hfields
    rw [List.length_zip] at hi
    simpa [List.getElem?_map, List.getElem?_eq_getElem (show i < data.length by omega),
      List.getElem?_eq_getElem (show i < refs.length by omega)] using hat
  have hback := sameHistory_writeBack (s := s) fun p hp => congrArg (·.1) (hzip p hp)
  have hqueued := sameHistory_updateAll (f := setEnqueueTime now) (fun _ => rfl) refs
    (s.writeBack refs data)
  have hsame := hback.trans hqueued
  refine ⟨⟨hsame.length, hsame.fixed, hsame.dataPktHistory, hsame.acked, hsame.delayDdl⟩,
    fun ref => ?_⟩
  calc ((((s.writeBack refs data).updateAll refs (setEnqueueTime now))).deref ref).txCount
      = ((s.writeBack refs data).deref ref).txCount :=
        deref_updateAll_field (·.txCount) (f := setEnqueueTime now) (fun _ => rfl) refs _ ref
    _ = (s.deref ref).txCount :=
        deref_writeBack_field (·.txCount) (fun p hp => congrArg (·.2) (hzip p hp)) ref

/-- The packets of one group in the history. -/
def GroupRefs (groupId : UInt32) (refs : List PktRef) (s : PacketSenderUdp) : Prop :=
  ∀ ref, ref ∈ refs ↔ ∃ i, s.dataPktHistory.find ⟨groupId, i⟩ = some ref

theorem groupRefs_of_lookup {groupId : UInt32} {s : PacketSenderUdp} {group : Dict UInt16 PktRef}
    (h : s.dataPktHistory.lookup groupId = some group) (iteration : Iteration) :
    s.GroupRefs groupId (iteration.order (group.entries.map (·.2))) := by
  intro ref
  rw [(iteration.perm _).mem_iff, List.mem_map]
  simp only [PktHistory.find, h, Option.bind_some]
  constructor
  · rintro ⟨e, he, rfl⟩
    exact ⟨e.1, Dict.lookup_of_mem_entries he⟩
  · rintro ⟨i, hi⟩
    exact ⟨⟨i, ref⟩, AList.mem_lookup_iff.mp hi, rfl⟩

/-- `RetransmitGroup` sends the packets of the group in the history, if there are any. -/
theorem retransmitGroup_eq_some {iteration : Iteration} {policy : FECPolicy} {call : ℕ}
    {statistic : NetStat} {now : Time} {groupId : UInt32} {s s' : PacketSenderUdp}
    (h : s.retransmitGroup iteration policy call statistic now groupId = some s') :
    (s' = s ∧ s.GroupRefs groupId []) ∨
    ∃ refs txCount ddlLeft frameId front, s.GroupRefs groupId refs ∧ front ∈ refs ∧
      (s.updateAll refs (·.retransmit txCount now)).sendRtx policy call statistic now ddlLeft
        frameId ((s.updateAll refs (·.retransmit txCount now)).deref front).groupId refs
        = some s' := by
  unfold retransmitGroup at h
  cases hlookup : s.dataPktHistory.lookup groupId with
  | none =>
      simp only [hlookup, Option.some.injEq] at h
      refine .inl ⟨h.symm, fun ref => ?_⟩
      simp [PktHistory.find, hlookup]
  | some group =>
      have hrefs := groupRefs_of_lookup hlookup iteration
      simp only [hlookup] at h
      cases horder : iteration.order (group.entries.map (·.2)) with
      | nil =>
          simp only [horder, Option.some.injEq] at h
          exact .inl ⟨h.symm, horder ▸ hrefs⟩
      | cons front rest =>
          simp only [horder] at h
          exact .inr ⟨front :: rest, _, _, _, front, horder ▸ hrefs, List.mem_cons_self, h⟩

/-- The frame carries again packets of one group that are unacknowledged and of an age
between the minimal round-trip time and the deadline. -/
def Resends (statistic : NetStat) (now : Time) (groupId : UInt32) (s : PacketSenderUdp)
    (frame : PacketFrame) : Prop :=
  ∀ ref, .data ref ∈ frame.packetsInFrame →
    s.dataPktHistory.find (s.infoOf ref) = some ref ∧ s.infoOf ref ∉ s.acked ∧
    (s.infoOf ref).groupId = groupId ∧ statistic.minRtt ≤ now - (s.deref ref).encodeTime ∧
    now - (s.deref ref).encodeTime ≤ s.delayDdl

theorem SameHistory.resends {statistic : NetStat} {now : Time} {groupId : UInt32}
    {s s' : PacketSenderUdp} {frame : PacketFrame} (hsame : SameHistory s s')
    (h : s'.Resends statistic now groupId frame) : s.Resends statistic now groupId frame := by
  intro ref href
  have hresend := h ref href
  rwa [hsame.infoOf, hsame.dataPktHistory, hsame.acked, hsame.encodeTime, hsame.delayDdl]
    at hresend

namespace Covers

variable {refs : List PktRef} {s s' : PacketSenderUdp}

theorem mem_of_groupRefs (h : Covers refs s) {groupId : UInt32} {sent : List PktRef}
    (hsent : s.GroupRefs groupId sent) {ref : PktRef} :
    ref ∈ sent ↔ (s.infoOf ref).groupId = groupId ∧
      s.dataPktHistory.find (s.infoOf ref) = some ref := by
  rw [hsent ref]
  constructor
  · rintro ⟨i, hi⟩
    have hinfo := (h.found _ _ hi).2
    rw [hinfo]
    exact ⟨rfl, hi⟩
  · rintro ⟨rfl, hfind⟩
    exact ⟨_, hfind⟩

theorem retransmitGroup (h : Covers refs s) {iteration : Iteration} {policy : FECPolicy}
    {call : ℕ} {statistic : NetStat} {now : Time} {groupId : UInt32} (hin : s.InTime now)
    {timedOut : PktRef} (hmem : timedOut ∈ refs) (hgroup : (s.infoOf timedOut).groupId = groupId)
    (hfind : s.dataPktHistory.find (s.infoOf timedOut) = some timedOut)
    (hage : statistic.minRtt ≤ now - (s.deref timedOut).encodeTime)
    (hrun : s.retransmitGroup iteration policy call statistic now groupId = some s') :
    Covers refs s' ∧ SameHistory s s' ∧
      ∃ frame, s'.queue = frame :: s.queue ∧ s.Resends statistic now groupId frame := by
  rcases retransmitGroup_eq_some hrun with ⟨-, hnone⟩ | ⟨sent, txCount, ddlLeft, frameId, front,
    hsent, hfront, hrtx⟩
  · exact absurd ((h.mem_of_groupRefs hnone).mpr ⟨hgroup, hfind⟩) (List.not_mem_nil)
  · have hts : SameHistory s (s.updateAll sent (·.retransmit txCount now)) :=
      sameHistory_updateAll (f := (·.retransmit txCount now)) (fun _ => rfl) sent s
    have htx := fun ref => deref_updateAll_const (·.txCount) (f := (·.retransmit txCount now))
      (a := txCount) (fun _ => rfl) sent s ref
    have hqueue : (s.updateAll sent (·.retransmit txCount now)).queue = s.queue := by
      rw [updateAll_eq]
      rfl
    generalize s.updateAll sent (·.retransmit txCount now) = t at hts htx hqueue hrtx
    have hgroups : ∀ ref, (t.deref ref).groupId = (s.infoOf ref).groupId := fun ref =>
      congrArg GroupPacketInfo.groupId (congrFun hts.infoOf ref)
    have hof : ∀ ref ∈ sent, (s.infoOf ref).groupId = groupId ∧
        s.dataPktHistory.find (s.infoOf ref) = some ref :=
      fun ref href => (h.mem_of_groupRefs hsent).mp href
    have hset : ∀ ref ∈ sent, (t.deref ref).groupInfoSetFlag = true ∧
        (t.deref ref).groupId = (t.deref front).groupId := by
      intro ref href
      refine ⟨(hts.flag ref).trans (h.flag ref (h.found _ _ (hof ref href).2).1), ?_⟩
      rw [hgroups, hgroups, (hof ref href).1, (hof front hfront).1]
    obtain ⟨hsame, htx'⟩ := sendRtx_sameHistory hset hrtx
    have hboth := hts.trans hsame
    refine ⟨h.mutate hboth ?_, hboth, ?_⟩
    · -- the packets of the group get the same count, those of other groups keep theirs
      intro info info' ref ref' hinfo hinfo' heq
      rw [hboth.dataPktHistory] at hinfo hinfo'
      have hiff : ∀ i r, s.dataPktHistory.find i = some r → (r ∈ sent ↔ i.groupId = groupId) := by
        intro i r hr
        rw [h.mem_of_groupRefs hsent, (h.found _ _ hr).2]
        exact and_iff_left hr
      simp only [htx', htx, hiff info ref hinfo, hiff info' ref' hinfo', heq]
      have hlt := h.lt _ (h.found _ _ hinfo).1
      have hlt' := h.lt _ (h.found _ _ hinfo').1
      by_cases hthis : info'.groupId = groupId
      · simp only [hthis, hlt, hlt', and_self, if_true]
      · simp only [hthis, false_and, if_false]
        exact h.txCount info info' ref ref' hinfo hinfo' heq
    · obtain ⟨fecRate, ids, data, fec, frame, -, hframe, rfl⟩ := sendRtx_eq_some hrtx
      refine ⟨frame, congrArg (frame :: ·) hqueue, fun ref href => ?_⟩
      rw [hframe] at href
      have href : ref ∈ sent := by simpa [enqueueFec] using href
      obtain ⟨hg, hf⟩ := hof ref href
      have htime := h.sameGroup ref (h.found _ _ hf).1 timedOut hmem (hg.trans hgroup.symm)
      refine ⟨hf, fun hacked => ?_, hg, ?_, hin _ _ hf⟩
      · rw [h.acked _ hacked] at hf
        cases hf
      · rw [htime]
        exact hage

end Covers

/-! ## The second scan -/

/-- What the second scan did: it put frames with one group each to the front of the queue, and
no group was sent twice or is among those `before`. -/
structure Retransmits (statistic : NetStat) (now : Time) (before : Finset UInt32)
    (s s' : PacketSenderUdp) : Prop where
  same : SameHistory s s'
  frames : ∃ rtx : List (UInt32 × PacketFrame), s'.queue = rtx.map (·.2) ++ s.queue ∧
    (rtx.map (·.1)).Nodup ∧ (∀ p ∈ rtx, p.1 ∉ before) ∧
    ∀ p ∈ rtx, s.Resends statistic now p.1 p.2

namespace Retransmits

variable {statistic : NetStat} {now : Time} {before : Finset UInt32} {s s₁ s' : PacketSenderUdp}

/-- Only the keys changed. -/
theorem none (keys : List GroupPacketInfo) :
    Retransmits statistic now before s { s with dataPktHistoryKey := keys } :=
  ⟨⟨rfl, fun _ => rfl, rfl, rfl, rfl⟩, [], rfl, List.nodup_nil, by simp, by simp⟩

/-- A group is sent, and others after it. -/
theorem cons {groupId : UInt32} {frame : PacketFrame} (hsame : SameHistory s s₁)
    (hqueue : s₁.queue = frame :: s.queue) (hresends : s.Resends statistic now groupId frame)
    (hnew : groupId ∉ before) (h : Retransmits statistic now (insert groupId before) s₁ s') :
    Retransmits statistic now before s s' := by
  obtain ⟨hrest, rtx, hrtx, hnodup, hnot, hall⟩ := h
  refine ⟨hsame.trans hrest, rtx ++ [(groupId, frame)], ?_, ?_, ?_, ?_⟩
  · simp [hrtx, hqueue]
  · rw [List.map_append, List.nodup_append]
    refine ⟨hnodup, List.nodup_singleton _, ?_⟩
    intro g hg g' hg' heq
    obtain ⟨p, hp, rfl⟩ := List.mem_map.mp hg
    rw [List.mem_singleton.mp hg'] at heq
    exact hnot p hp (heq ▸ Finset.mem_insert_self _ _)
  · intro p hp
    rcases List.mem_append.mp hp with hp | hp
    · exact fun hmem => hnot p hp (Finset.mem_insert_of_mem hmem)
    · rwa [List.mem_singleton.mp hp]
  · intro p hp
    rcases List.mem_append.mp hp with hp | hp
    · exact hsame.resends (hall p hp)
    · rwa [List.mem_singleton.mp hp]

end Retransmits

/-- What the second scan keeps, and what it sends. -/
theorem Covers.retransmitTimedOut {iteration : Iteration} {policy : FECPolicy}
    {statistic : NetStat} {now : Time} {kept rest : List PktRef} {done : Finset UInt32}
    {s s' : PacketSenderUdp} (h : Covers (kept ++ rest) s) (hin : s.InTime now)
    (hrun : retransmitTimedOut iteration policy statistic now (kept.map s.infoOf)
      (rest.map s.infoOf) done s = some s') :
    Retransmits statistic now done s s' ∧ ∃ refs, refs.Sublist (kept ++ rest) ∧
      s'.dataPktHistoryKey = refs.map s'.infoOf ∧ Covers refs s' := by
  induction rest generalizing kept done s with
  | nil =>
      cases hrun
      rw [List.append_nil] at h ⊢
      refine ⟨.none _, kept, .refl _, rfl, h.mutate ⟨rfl, fun _ => rfl, rfl, rfl, rfl⟩ h.txCount⟩
  | cons ref rest ih =>
      have hmem : ref ∈ kept ++ ref :: rest := by simp
      have hassoc : kept ++ ref :: rest = (kept ++ [ref]) ++ rest := by simp
      have hkeep : kept.map s.infoOf ++ [s.infoOf ref] = (kept ++ [ref]).map s.infoOf := by simp
      rw [List.map_cons] at hrun
      cases hfind : s.dataPktHistory.find (s.infoOf ref) with
      | none =>
          have hsub : (kept ++ rest).Sublist (kept ++ ref :: rest) :=
            (List.sublist_cons_self ref rest).append_left kept
          have hcov : Covers (kept ++ rest) s := by
            refine h.shrink rfl hsub ?_ h.noEmptyGroup h.acked
            intro info ref' hfind'
            obtain ⟨hmem', hinfo⟩ := h.found info ref' hfind'
            refine ⟨hfind', ?_⟩
            rcases List.mem_append.mp hmem' with hmem' | hmem'
            · exact List.mem_append_left _ hmem'
            · rcases List.mem_cons.mp hmem' with rfl | hmem'
              · rw [hinfo, hfind'] at hfind
                cases hfind
              · exact List.mem_append_right _ hmem'
          simp only [PacketSenderUdp.retransmitTimedOut, hfind] at hrun
          obtain ⟨hrtx, refs, hrefs, hkeys, hcov'⟩ := ih hcov hin hrun
          exact ⟨hrtx, refs, hrefs.trans hsub, hkeys, hcov'⟩
      | some ref' =>
          obtain rfl := h.eq_of_find hmem hfind
          simp only [PacketSenderUdp.retransmitTimedOut, hfind] at hrun
          split at hrun
          case isTrue =>
            cases hrun
            refine ⟨.none _, kept ++ ref' :: rest, .refl _, ?_,
              h.mutate ⟨rfl, fun _ => rfl, rfl, rfl, rfl⟩ h.txCount⟩
            rw [List.map_append, List.map_cons]
            rfl
          case isFalse hage =>
            rw [hkeep] at hrun
            split at hrun
            case isTrue =>
              rw [hassoc] at h ⊢
              exact ih h hin hrun
            case isFalse hnew =>
              split at hrun
              case isFalse =>
                rw [hassoc] at h ⊢
                exact ih h hin hrun
              case isTrue =>
                obtain ⟨s₁, hgroup, hrun⟩ := Option.bind_eq_some_iff.mp hrun
                obtain ⟨hcov, hsame, frame, hqueue, hresends⟩ :=
                  h.retransmitGroup hin hmem rfl hfind (not_lt.mp hage) hgroup
                rw [hassoc] at hcov ⊢
                rw [← hsame.infoOf] at hrun
                have hin' : s₁.InTime now := by
                  simpa only [InTime, hsame.dataPktHistory, hsame.encodeTime, hsame.delayDdl]
                    using hin
                obtain ⟨hrtx, hrefs⟩ := ih hcov hin' hrun
                exact ⟨.cons hsame hqueue hresends hnew hrtx, hrefs⟩

/-! ## New frames -/

/-- What the history holds after new packets were stored in it. -/
theorem find_of_foldl_store {refs : List PktRef} {name : PktRef → GroupPacketInfo}
    {h : PktHistory PktRef} {info : GroupPacketInfo} {ref : PktRef}
    (hfind : (refs.foldl (fun h ref => h.store (name ref) ref) h).find info = some ref) :
    (ref ∈ refs ∧ name ref = info) ∨ h.find info = some ref := by
  induction refs generalizing h with
  | nil => exact .inr hfind
  | cons ref' refs ih =>
      rcases ih hfind with ⟨hmem, hname⟩ | hfind
      · exact .inl ⟨List.mem_cons_of_mem _ hmem, hname⟩
      · rw [PktHistory.find_store] at hfind
        split at hfind
        case isTrue heq =>
          cases hfind
          exact .inl ⟨List.mem_cons_self, heq.symm⟩
        case isFalse => exact .inr hfind

theorem noEmptyGroup_foldl_store {refs : List PktRef} {name : PktRef → GroupPacketInfo}
    {h : PktHistory PktRef} (hne : h.NoEmptyGroup) :
    (refs.foldl (fun h ref => h.store (name ref) ref) h).NoEmptyGroup := by
  induction refs generalizing h with
  | nil => exact hne
  | cons ref refs ih => exact ih (hne.store _ _)

/-- `StorePackets` for packets that were never sent. -/
theorem foldl_storePacket {refs : List PktRef} {s : PacketSenderUdp}
    (h : ∀ ref ∈ refs, (s.deref ref).txCount = 0) :
    refs.foldl storePacket s = { s with
      dataPktHistoryKey := s.dataPktHistoryKey ++ refs.map s.infoOf
      dataPktHistory := refs.foldl (fun h ref => h.store (s.infoOf ref) ref) s.dataPktHistory
      stored := s.stored ++ refs.map s.infoOf
      acked := s.acked.filter (· ∉ refs.map s.infoOf) } := by
  induction refs generalizing s with
  | nil => simp
  | cons ref refs ih =>
      have hstore : s.storePacket ref = { s with
          dataPktHistoryKey := s.dataPktHistoryKey ++ [s.infoOf ref]
          dataPktHistory := s.dataPktHistory.store (s.infoOf ref) ref
          stored := s.stored ++ [s.infoOf ref]
          acked := s.acked.filter (· ≠ s.infoOf ref) } :=
        if_neg (not_not.mpr (h ref List.mem_cons_self))
      have hinfo : (s.storePacket ref).infoOf = s.infoOf := by
        rw [hstore]
        rfl
      have hrest := ih (s := s.storePacket ref) fun ref' href' => by
        rw [hstore]
        exact h ref' (List.mem_cons_of_mem _ href')
      have hfilter : (s.acked.filter (· ≠ s.infoOf ref)).filter (· ∉ refs.map s.infoOf)
          = s.acked.filter (· ∉ (ref :: refs).map s.infoOf) := by
        rw [List.filter_filter]
        congr 1
        funext info
        simp [Bool.and_comm]
      rw [List.foldl_cons, hrest, hinfo, hstore]
      simp only [hfilter, List.append_assoc, List.singleton_append, List.map_cons, List.foldl_cons]

theorem deref_append_of_lt {s : PacketSenderUdp} {ref : PktRef} (h : ref < s.heap.length)
    (pkts : List DataPacket) : (s.withHeap (s.heap ++ pkts)).deref ref = s.deref ref := by
  simp [deref, withHeap, List.getElem?_append_left h]

theorem map_deref_append (s : PacketSenderUdp) (pkts : List DataPacket) :
    (List.range' s.heap.length pkts.length).map (s.withHeap (s.heap ++ pkts)).deref = pkts := by
  apply List.ext_getElem
  · simp
  · intro i h₁ h₂
    simp [deref, withHeap, h₂]

theorem deref_append_mem {s : PacketSenderUdp} {pkts : List DataPacket} {ref : PktRef}
    (href : ref ∈ List.range' s.heap.length pkts.length) :
    (s.withHeap (s.heap ++ pkts)).deref ref ∈ pkts := by
  have hmem := List.mem_map_of_mem (f := (s.withHeap (s.heap ++ pkts)).deref) href
  rwa [map_deref_append] at hmem

/-- Packets that were never sent, in groups of which the history knows nothing yet. -/
structure New (refs : List PktRef) (now : Time) (s : PacketSenderUdp) (pkts : List DataPacket) :
    Prop where
  nodup : (pkts.map (·.groupInfo)).Nodup
  data : ∀ pkt ∈ pkts, pkt.groupInfoSetFlag = true ∧ pkt.encodeTime = now ∧ pkt.txCount = 0
  fresh : ∀ ref ∈ refs, ∀ pkt ∈ pkts, (s.infoOf ref).groupId ≠ pkt.groupId
  later : ∀ ref ∈ refs, (s.deref ref).encodeTime ≤ now

theorem New.txCount_eq_zero {refs : List PktRef} {now : Time} {s : PacketSenderUdp}
    {pkts : List DataPacket} (hnew : New refs now s pkts) :
    ∀ ref ∈ List.range' s.heap.length pkts.length,
      ((s.withHeap (s.heap ++ pkts)).deref ref).txCount = 0 :=
  fun _ href => (hnew.data _ (deref_append_mem href)).2.2

/-- New packets are covered once they have their place in the heap and are stored. -/
theorem Covers.foldl_storePacket {refs : List PktRef} {now : Time} {s : PacketSenderUdp}
    {pkts : List DataPacket} (h : Covers refs s) (hnew : New refs now s pkts) :
    Covers (refs ++ List.range' s.heap.length pkts.length)
      ((List.range' s.heap.length pkts.length).foldl storePacket
        (s.withHeap (s.heap ++ pkts))) := by
  have hold := fun ref (href : ref ∈ refs) => deref_append_of_lt (h.lt ref href) pkts
  have hmap := map_deref_append s pkts
  generalize ht : s.withHeap (s.heap ++ pkts) = t at hold hmap ⊢
  generalize hrange : List.range' s.heap.length pkts.length = new at hmap ⊢
  have hinfo : ∀ ref ∈ refs, t.infoOf ref = s.infoOf ref := fun ref href =>
    congrArg DataPacket.groupInfo (hold ref href)
  have hpkt : ∀ ref ∈ new, t.deref ref ∈ pkts := fun ref href =>
    hmap ▸ List.mem_map_of_mem href
  have hinfos : new.map t.infoOf = pkts.map (·.groupInfo) := by
    rw [← hmap, List.map_map]
    rfl
  have hother : ∀ ref ∈ refs, ∀ ref' ∈ new, (t.infoOf ref).groupId ≠ (t.infoOf ref').groupId := by
    intro ref href ref' href'
    rw [hinfo ref href]
    exact hnew.fresh ref href _ (hpkt ref' href')
  have hhist : t.dataPktHistory = s.dataPktHistory := by rw [← ht]; rfl
  have hacked : t.acked = s.acked := by rw [← ht]; rfl
  have hfind : ∀ info ref, (new.foldl (fun h ref => h.store (t.infoOf ref) ref)
      t.dataPktHistory).find info = some ref → (ref ∈ new ∧ t.infoOf ref = info) ∨
      (s.dataPktHistory.find info = some ref ∧ ref ∈ refs ∧ t.infoOf ref = info) := by
    intro info ref hfind
    rcases find_of_foldl_store hfind with hmem | hfind
    · exact .inl hmem
    · rw [hhist] at hfind
      obtain ⟨hmem, heq⟩ := h.found info ref hfind
      exact .inr ⟨hfind, hmem, (hinfo ref hmem).trans heq⟩
  rw [PacketSenderUdp.foldl_storePacket fun ref href => (hnew.data _ (hpkt ref href)).2.2]
  refine ⟨?_, ?_, ?_, ?_, ?_, ?_, ?_, ?_, ?_⟩
  · intro ref href
    have hlen : t.heap.length = s.heap.length + pkts.length := by
      rw [← ht, withHeap, List.length_append]
    change ref < t.heap.length
    rw [hlen]
    rcases List.mem_append.mp href with href | href
    · exact lt_of_lt_of_le (h.lt ref href) (Nat.le_add_right _ _)
    · rw [← hrange, List.mem_range'_1] at href
      exact href.2
  · intro ref href
    change (t.deref ref).groupInfoSetFlag = true
    rcases List.mem_append.mp href with href | href
    · rw [hold ref href]
      exact h.flag ref href
    · exact (hnew.data _ (hpkt ref href)).1
  · change ((refs ++ new).map t.infoOf).Nodup
    rw [List.map_append, hinfos, List.nodup_append, List.map_congr_left hinfo]
    refine ⟨h.nodup, hnew.nodup, ?_⟩
    intro info hmem info' hmem' heq
    obtain ⟨ref, href, rfl⟩ := List.mem_map.mp hmem
    obtain ⟨pkt, hpkt, rfl⟩ := List.mem_map.mp hmem'
    exact hnew.fresh ref href pkt hpkt (congrArg GroupPacketInfo.groupId heq)
  · change (refs ++ new).Pairwise fun ref ref' =>
      (t.deref ref).encodeTime ≤ (t.deref ref').encodeTime
    rw [List.pairwise_append]
    refine ⟨?_, ?_, ?_⟩
    · refine h.sorted.imp_of_mem fun href href' hle => ?_
      rwa [hold _ href, hold _ href']
    · apply List.pairwise_of_forall_mem_list
      intro ref href ref' href'
      rw [(hnew.data _ (hpkt ref href)).2.1, (hnew.data _ (hpkt ref' href')).2.1]
    · intro ref href ref' href'
      rw [hold ref href, (hnew.data _ (hpkt ref' href')).2.1]
      exact hnew.later ref href
  · intro ref href ref' href' hgroup
    change (t.deref ref).encodeTime = (t.deref ref').encodeTime
    change (t.infoOf ref).groupId = (t.infoOf ref').groupId at hgroup
    rcases List.mem_append.mp href with href | href <;>
      rcases List.mem_append.mp href' with href' | href'
    · rw [hinfo ref href, hinfo ref' href'] at hgroup
      rw [hold ref href, hold ref' href']
      exact h.sameGroup ref href ref' href' hgroup
    · exact absurd hgroup (hother ref href ref' href')
    · exact absurd hgroup.symm (hother ref' href' ref href)
    · rw [(hnew.data _ (hpkt ref href)).2.1, (hnew.data _ (hpkt ref' href')).2.1]
  · intro info ref hfound
    rcases hfind info ref hfound with ⟨hmem, heq⟩ | ⟨-, hmem, heq⟩
    · exact ⟨List.mem_append_right _ hmem, heq⟩
    · exact ⟨List.mem_append_left _ hmem, heq⟩
  · intro info info' ref ref' hfound hfound' hgroup
    change (t.deref ref).txCount = (t.deref ref').txCount
    rcases hfind info ref hfound with ⟨hmem, rfl⟩ | ⟨hfs, hmem, rfl⟩ <;>
      rcases hfind info' ref' hfound' with ⟨hmem', rfl⟩ | ⟨hfs', hmem', rfl⟩
    · rw [(hnew.data _ (hpkt ref hmem)).2.2, (hnew.data _ (hpkt ref' hmem')).2.2]
    · exact absurd hgroup.symm (hother ref' hmem' ref hmem)
    · exact absurd hgroup (hother ref hmem ref' hmem')
    · rw [hold ref hmem, hold ref' hmem']
      exact h.txCount _ _ ref ref' hfs hfs' hgroup
  · apply noEmptyGroup_foldl_store
    rw [hhist]
    exact h.noEmptyGroup
  · intro info hinfo'
    rw [List.mem_filter, hacked, decide_eq_true_eq] at hinfo'
    cases hf : (new.foldl (fun h ref => h.store (t.infoOf ref) ref) t.dataPktHistory).find info with
    | none => rfl
    | some ref =>
        rcases hfind info ref hf with ⟨hmem, rfl⟩ | ⟨hfs, -⟩
        · exact absurd (List.mem_map_of_mem hmem) hinfo'.2
        · rw [h.acked info hinfo'.1] at hfs
          cases hfs

theorem foldl_storePacket_eq (refs : List PktRef) (s : PacketSenderUdp) :
    refs.foldl storePacket s = { s with
      dataPktHistoryKey := (refs.foldl storePacket s).dataPktHistoryKey
      dataPktHistory := (refs.foldl storePacket s).dataPktHistory
      stored := (refs.foldl storePacket s).stored
      acked := (refs.foldl storePacket s).acked } := by
  induction refs generalizing s with
  | nil => rfl
  | cons ref refs ih =>
      rw [List.foldl_cons, ih, storePacket]
      split <;> rfl

theorem heap_foldl_storePacket (refs : List PktRef) (s : PacketSenderUdp) :
    (refs.foldl storePacket s).heap = s.heap := by
  rw [foldl_storePacket_eq]

theorem deref_foldl_storePacket (refs : List PktRef) (s : PacketSenderUdp) (ref : PktRef) :
    (refs.foldl storePacket s).deref ref = s.deref ref := by
  rw [deref, heap_foldl_storePacket, deref]

/-- The keys of new packets go to the end. -/
theorem keys_foldl_storePacket {refs : List PktRef} {now : Time} {s : PacketSenderUdp}
    {pkts : List DataPacket} (hnew : New refs now s pkts) :
    ((List.range' s.heap.length pkts.length).foldl storePacket
      (s.withHeap (s.heap ++ pkts))).dataPktHistoryKey
      = s.dataPktHistoryKey ++ (List.range' s.heap.length pkts.length).map
        (s.withHeap (s.heap ++ pkts)).infoOf := by
  rw [PacketSenderUdp.foldl_storePacket hnew.txCount_eq_zero]
  rfl

/-- The data packets of a frame as they go into the heap. -/
def queuedData (now : Time) (batches : List FirstBatch) : List DataPacket :=
  (batches.flatMap (·.dataPkts)).map (setEnqueueTime now)

theorem createFrame_eq_some {policy : FECPolicy} {statistic : NetStat} {now : Time}
    {f : FrameArgs} {s s' : PacketSenderUdp}
    (h : s.createFrame policy statistic now f = some s') :
    ∃ ids batches pkts frame,
      createGroups policy statistic s.delayDdl now s.ids f = some (ids, batches) ∧
      cutPackets now f = some pkts ∧ Groups now s.ids pkts ids batches ∧
      frame.packetsInFrame = queuedBatches now s.heap.length batches ∧
      s' = (List.range' s.heap.length (queuedData now batches).length).foldl storePacket
        (withHeap (s.heap ++ queuedData now batches) { s with
          ids := ids
          sendGroupCnt := s.sendGroupCnt + batches.length
          queue := s.queue ++ [frame]
          frameDataPktCnt := s.frameDataPktCnt.insert f.frameId f.dataPktNum.toUInt8 }) := by
  obtain ⟨⟨ids, batches⟩, hgroups, h⟩ := Option.bind_eq_some_iff.mp h
  obtain ⟨pkts, hcut, hmade⟩ := createGroups_eq_some hgroups
  simp only [Option.some.injEq, sendFirst] at h
  have hlen : (queuedData now batches).length = (batches.flatMap (·.dataPkts)).length :=
    List.length_map _
  rw [← hlen] at h
  exact ⟨ids, batches, pkts, _, hgroups, hcut, hmade, rfl, h.symm⟩

theorem new_queuedData {refs : List PktRef} {now : Time} {f : FrameArgs} {ids ids' : SenderIds}
    {pkts : List DataPacket} {batches : List FirstBatch} {s : PacketSenderUdp}
    (hcut : cutPackets now f = some pkts) (hmade : Groups now ids pkts ids' batches)
    (hfresh : ∀ ref ∈ refs, ∀ b ∈ batches, ∀ pkt ∈ b.dataPkts,
      (s.infoOf ref).groupId ≠ pkt.groupId)
    (hlater : ∀ ref ∈ refs, (s.deref ref).encodeTime ≤ now) :
    New refs now s (queuedData now batches) := by
  have hcutnew := new_of_mem_cutFrame hcut
  refine ⟨?_, ?_, ?_, hlater⟩
  · rw [queuedData, List.map_map]
    exact hmade.nodup hcutnew (Nat.le_of_lt_succ (length_cutFrame_lt hcut))
  · intro pkt hpkt
    obtain ⟨p, hp, rfl⟩ := List.mem_map.mp hpkt
    obtain ⟨b, hb, hp⟩ := List.mem_flatMap.mp hp
    obtain ⟨j, hj, rfl⟩ := List.getElem_of_mem hb
    exact (hmade.isNew hcutnew hj).data p hp
  · intro ref href pkt hpkt
    obtain ⟨p, hp, rfl⟩ := List.mem_map.mp hpkt
    obtain ⟨b, hb, hp⟩ := List.mem_flatMap.mp hp
    exact hfresh ref href b hb p hp

end PacketSenderUdp

end Zhuge
