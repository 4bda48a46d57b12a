-- SUMMARY: What holds of the sender's keys and history in any run, and what every check for retransmissions returns with.
import Zhuge.SenderHistory

/-!
# Retransmission

Frames, acknowledgements and periodic checks come in any order.
-/

namespace Zhuge

namespace PacketSenderUdp

/-! ## Events -/

/-- The time at which a frame is created. -/
def Event.frameTime : Event → Option Time
  | .createFrame now .. => some now
  | _ => none

def frameTimes (events : List Event) : List Time := events.filterMap Event.frameTime

/-- No group made by the event gets an id that one of the keys still has. -/
def Fresh (s : PacketSenderUdp) : Event → Prop
  | .createFrame now policy statistic f => ∀ ids batches,
      createGroups policy statistic s.delayDdl now s.ids f = some (ids, batches) →
      ∀ key ∈ s.dataPktHistoryKey, ∀ b ∈ batches, ∀ pkt ∈ b.dataPkts, key.groupId ≠ pkt.groupId
  | _ => True

/-- The keys are the names of the packets stored under them, none of which was encoded after
one of the `later` times. -/
def Consistent (later : List Time) (s : PacketSenderUdp) : Prop :=
  ∃ refs : List PktRef, s.dataPktHistoryKey = refs.map s.infoOf ∧ Covers refs s ∧
    ∀ ref ∈ refs, ∀ time ∈ later, (s.deref ref).encodeTime ≤ time

/-- The keys have no duplicate, follow the encode times of the packets stored under them, and
are the names of all packets in the history, which has no empty group. -/
structure KeysConsistent (s : PacketSenderUdp) : Prop where
  nodup : s.dataPktHistoryKey.Nodup
  sorted : ∃ refs : List PktRef, s.dataPktHistoryKey = refs.map s.infoOf ∧
    (refs.Pairwise fun ref ref' => (s.deref ref).encodeTime ≤ (s.deref ref').encodeTime) ∧
    ∀ info ref, s.dataPktHistory.find info = some ref → ref ∈ refs ∧ s.infoOf ref = info
  noEmptyGroup : s.dataPktHistory.NoEmptyGroup

/-- What `CheckRetransmission` returns with: every packet left is in time, and the frames put
to the front of the queue resend a group each, no group twice. -/
structure Checked (statistic : NetStat) (now : Time) (s s' : PacketSenderUdp) : Prop where
  inTime : s'.InTime now
  frames : ∃ rtx : List (UInt32 × PacketFrame), s'.queue = rtx.map (·.2) ++ s.queue ∧
    (rtx.map (·.1)).Nodup ∧ ∀ p ∈ rtx, s'.Resends statistic now p.1 p.2

namespace Consistent

variable {later : List Time} {s s' : PacketSenderUdp}

theorem keysConsistent (h : Consistent later s) : s.KeysConsistent := by
  obtain ⟨refs, hkeys, hcov, -⟩ := h
  exact ⟨hkeys ▸ hcov.nodup, ⟨refs, hkeys, hcov.sorted, hcov.found⟩, hcov.noEmptyGroup⟩

theorem sameTxCount (h : Consistent later s) : s.SameTxCount := by
  obtain ⟨refs, -, hcov, -⟩ := h
  exact hcov.txCount

theorem new (later : List Time) (delayDdl : Time) :
    Consistent later (PacketSenderUdp.new delayDdl) := by
  refine ⟨[], rfl, ⟨?_, ?_, List.nodup_nil, .nil, ?_, ?_, ?_, ?_, ?_⟩, ?_⟩
  all_goals simp [PacketSenderUdp.new, SameTxCount, PktHistory.NoEmptyGroup]

/-- New packets are stored under new keys behind the others. -/
theorem foldl_storePacket {now : Time} {pkts : List DataPacket} {refs : List PktRef}
    (hkeys : s.dataPktHistoryKey = refs.map s.infoOf) (hcov : Covers refs s)
    (hnew : New refs now s pkts) (hlater : ∀ time ∈ later, now ≤ time)
    (hle : ∀ ref ∈ refs, ∀ time ∈ later, (s.deref ref).encodeTime ≤ time) :
    Consistent later ((List.range' s.heap.length pkts.length).foldl storePacket
      (s.withHeap (s.heap ++ pkts))) := by
  have hcov' := hcov.foldl_storePacket hnew
  have hkeys' := keys_foldl_storePacket hnew
  have hold := fun ref (href : ref ∈ refs) => deref_append_of_lt (hcov.lt ref href) pkts
  refine ⟨_, hkeys'.trans ?_, hcov', ?_⟩
  · have hinfo : ((List.range' s.heap.length pkts.length).foldl storePacket
        (s.withHeap (s.heap ++ pkts))).infoOf = (s.withHeap (s.heap ++ pkts)).infoOf :=
      funext fun ref => congrArg DataPacket.groupInfo (deref_foldl_storePacket _ _ ref)
    rw [hinfo, List.map_append, hkeys]
    congr 1
    exact List.map_congr_left fun ref href => (congrArg DataPacket.groupInfo (hold ref href)).symm
  · intro ref href time htime
    rw [deref_foldl_storePacket]
    rcases List.mem_append.mp href with href | href
    · rw [hold ref href]
      exact hle ref href time htime
    · rw [(hnew.data _ (deref_append_mem href)).2.1]
      exact hlater time htime

theorem createFrame {policy : FECPolicy} {statistic : NetStat} {now : Time} {f : FrameArgs}
    (h : Consistent (now :: later) s) (hlater : ∀ time ∈ later, now ≤ time)
    (hfresh : s.Fresh (.createFrame now policy statistic f))
    (hrun : s.createFrame policy statistic now f = some s') : Consistent later s' := by
  obtain ⟨refs, hkeys, hcov, hle⟩ := h
  obtain ⟨ids, batches, pkts, frame, hgroups, hcut, hmade, -, rfl⟩ := createFrame_eq_some hrun
  have hnew : New refs now s (queuedData now batches) :=
    new_queuedData hcut hmade
      (fun ref href => hfresh ids batches hgroups _ (hkeys ▸ List.mem_map_of_mem href))
      fun ref href => hle ref href now List.mem_cons_self
  let u : PacketSenderUdp := { s with
    ids := ids
    sendGroupCnt := s.sendGroupCnt + batches.length
    queue := s.queue ++ [frame]
    frameDataPktCnt := s.frameDataPktCnt.insert f.frameId f.dataPktNum.toUInt8 }
  have hcovu : Covers refs u := hcov.mutate ⟨rfl, fun _ => rfl, rfl, rfl, rfl⟩ hcov.txCount
  have hnewu : New refs now u (queuedData now batches) :=
    ⟨hnew.nodup, hnew.data, hnew.fresh, hnew.later⟩
  exact foldl_storePacket (s := u) hkeys hcovu hnewu hlater
    fun ref href time htime => hle ref href time (List.mem_cons_of_mem _ htime)

/-- Nothing of an object that matters for the history changes. -/
theorem mutate (h : Consistent later s) (hsame : SameHistory s s')
    (htx : ∀ ref, (s'.deref ref).txCount = (s.deref ref).txCount)
    (hkeys : s'.dataPktHistoryKey = s.dataPktHistoryKey) : Consistent later s' := by
  obtain ⟨refs, hrefs, hcov, hle⟩ := h
  refine ⟨refs, ?_, hcov.mutate hsame ?_, ?_⟩
  · rw [hkeys, hrefs, hsame.infoOf]
  · intro info info' ref ref' hfind hfind' hgroup
    rw [hsame.dataPktHistory] at hfind hfind'
    rw [htx, htx]
    exact hcov.txCount info info' ref ref' hfind hfind' hgroup
  · simpa only [hsame.encodeTime] using hle

theorem sendPacket (h : Consistent later s) (now : Time) : Consistent later (s.sendPacket now) := by
  cases hqueue : s.queue with
  | nil =>
      simp only [PacketSenderUdp.sendPacket, hqueue]
      exact h
  | cons frame frames =>
      cases hpkts : frame.packetsInFrame with
      | nil =>
          simp only [PacketSenderUdp.sendPacket, hqueue, hpkts]
          exact h
      | cons pkt pkts =>
          simp only [PacketSenderUdp.sendPacket, hqueue, hpkts]
          cases pkt with
          | data ref =>
              refine h.mutate ⟨List.length_modify .., ?_, rfl, rfl, rfl⟩ ?_ rfl
              · exact deref_update_field (s := s) (f := fun pkt => { pkt with
                  sendTime := now
                  globalId := s.ipidCounter }) fixed rfl
              · exact deref_update_field (s := s) (f := fun pkt => { pkt with
                  sendTime := now
                  globalId := s.ipidCounter }) (·.txCount) rfl
          | fec pkt => exact h.mutate ⟨rfl, fun _ => rfl, rfl, rfl, rfl⟩ (fun _ => rfl) rfl

theorem rcvACKPacket (h : Consistent later s) (pkt : AckPacket) :
    Consistent later (s.rcvACKPacket pkt) := by
  obtain ⟨refs, hrefs, hcov, hle⟩ := h
  refine ⟨refs, hrefs, hcov.shrink rfl (.refl _) ?_ (hcov.noEmptyGroup.rcvACKPacket pkt) ?_, hle⟩
  · intro info ref hfind
    change (s.dataPktHistory.rcvACKPacket pkt).find info = some ref at hfind
    rw [PktHistory.find_rcvACKPacket] at hfind
    split at hfind
    · cases hfind
    · exact ⟨hfind, (hcov.found info ref hfind).1⟩
  · intro info hinfo
    change (s.dataPktHistory.rcvACKPacket pkt).find info = none
    rw [PktHistory.find_rcvACKPacket]
    rcases List.mem_append.mp hinfo with hinfo | hinfo
    · rw [hcov.acked info hinfo, ite_self]
    · rw [if_pos (List.mem_filter.mp hinfo).1]

/-- One periodic check. -/
theorem checkRetransmission {iteration : Iteration} {policy : FECPolicy} {statistic : NetStat}
    {now : Time} (h : Consistent later s)
    (hrun : s.checkRetransmission iteration policy statistic now = some s') :
    Consistent later s' ∧ Checked statistic now s s' := by
  obtain ⟨refs, hrefs, hcov, hle⟩ := h
  unfold PacketSenderUdp.checkRetransmission at hrun
  rw [hrefs] at hrun
  obtain ⟨left, hkeys, hsub, hcov', hin⟩ := hcov.dropExpired now
  have hheap := sameHeap_dropExpired now (refs.map s.infoOf) s
  have hqueue : (dropExpired now (refs.map s.infoOf) s).queue = s.queue := by
    rw [dropExpired_eq]
  generalize dropExpired now (refs.map s.infoOf) s = t at hrun hkeys hcov' hin hheap hqueue
  have hderef : ∀ ref, t.deref ref = s.deref ref := fun ref => by rw [deref, hheap, deref]
  have hinfo : t.infoOf = s.infoOf := funext fun ref => congrArg _ (hderef ref)
  simp only at hrun
  rw [hkeys, ← hinfo] at hrun
  have hcovNil : Covers ([] ++ left) t := hcov'
  obtain ⟨⟨hsame, rtx, hrtx, hnodup, -, hresends⟩, kept, hkept, hkeys', hcov''⟩ :=
    hcovNil.retransmitTimedOut hin hrun
  refine ⟨⟨kept, hkeys', hcov'', ?_⟩, ?_, rtx, ?_, hnodup, ?_⟩
  · intro ref href time htime
    rw [hsame.encodeTime, hderef]
    exact hle ref (hsub.subset (hkept.subset href)) time htime
  · simpa only [InTime, hsame.dataPktHistory, hsame.encodeTime, hsame.delayDdl] using hin
  · rw [hrtx, hqueue]
  · exact fun p hp => hsame.symm.resends (hresends p hp)

theorem step {e : Event} (h : Consistent (frameTimes (e :: [])  ++ later) s)
    (hlater : ∀ now ∈ e.frameTime, ∀ time ∈ later, now ≤ time) (hfresh : s.Fresh e)
    (hrun : s.step e = some s') : Consistent later s' := by
  cases e with
  | createFrame now policy statistic f => exact h.createFrame (hlater now rfl) hfresh hrun
  | sendPacket now => cases hrun; exact h.sendPacket now
  | rcvACKPacket now pkt => cases hrun; exact h.rcvACKPacket pkt
  | checkRetransmission now policy statistic iteration => exact (h.checkRetransmission hrun).1

theorem exec {events : List Event} (h : Consistent (frameTimes events) s)
    (hord : (frameTimes events).Pairwise (· ≤ ·))
    (hfresh : Run.Each PacketSenderUdp.step Fresh s events)
    (hrun : Run.exec PacketSenderUdp.step s events = some s') : Consistent [] s' := by
  induction events generalizing s with
  | nil => cases hrun; exact h
  | cons e events ih =>
      obtain ⟨t, ht, hrest⟩ := Run.exec_cons_eq_some.mp hrun
      have hcons : frameTimes (e :: events) = frameTimes [e] ++ frameTimes events := by
        rw [frameTimes, ← List.singleton_append, List.filterMap_append]
        rfl
      rw [hcons] at h hord
      obtain ⟨-, hord', hcross⟩ := List.pairwise_append.mp hord
      have hlater : ∀ now ∈ e.frameTime, ∀ time ∈ frameTimes events, now ≤ time := by
        intro now hnow time htime
        exact hcross now (List.mem_filterMap.mpr ⟨e, List.mem_singleton_self e, hnow⟩) time htime
      exact ih (h.step hlater hfresh.1 ht) hord' (hfresh.2 t ht) hrest

end Consistent

/-- In a run in which frames come in order of time and get no group id that a key still has,
the keys and the history stay consistent, and every check respects the deadlines. -/
theorem history_consistent {delayDdl : Time} {events : List Event} {s : PacketSenderUdp}
    (hord : (frameTimes events).Pairwise (· ≤ ·))
    (hfresh : Run.Each step Fresh (new delayDdl) events)
    (hrun : Run.exec step (new delayDdl) events = some s) :
    s.KeysConsistent ∧ s.SameTxCount ∧ ∀ iteration policy statistic now s',
      s.checkRetransmission iteration policy statistic now = some s' →
      Checked statistic now s s' := by
  have h := (Consistent.new (frameTimes events) delayDdl).exec hord hfresh hrun
  exact ⟨h.keysConsistent, h.sameTxCount,
    fun _ _ _ _ _ hcheck => (h.checkRetransmission hcheck).2⟩

/-! ## When group ids come back -/

/-- A frame of one packet, in a group of its own and without FEC. -/
def onePacketFrame : FrameArgs where
  frameId := 0
  pktId := 0
  dataPktMaxPayload := 1406
  dataPktNum := 1
  dataSize := 1

/-- A policy that puts every packet into a group of its own. -/
def singlePolicy : FECPolicy := fun _ _ => ⟨1, .ofNat 0⟩

def quietStat : NetStat := ⟨0, 0, 0, 0⟩

def frameEvent : Event := .createFrame 0 singlePolicy quietStat onePacketFrame

theorem cutPackets_onePacketFrame : cutPackets 0 onePacketFrame =
    some [{ DataPacket.new 0 0 1 0 with payloadSize := 1 }] := by
  rw [cutPackets, show 2 ^ 32 + 1 = (2 ^ 32 - 1) + 1 + 1 from rfl]
  rfl

theorem createGroups_onePacketFrame (delayDdl : Time) (ids : SenderIds) :
    ∃ b, createGroups singlePolicy quietStat delayDdl 0 ids onePacketFrame
        = some (⟨ids.groupId + 1, ids.batchId + 1⟩, [b]) ∧
      b.dataPkts.map (·.groupInfo) = [⟨ids.groupId, 0⟩] := by
  have hcreate := createPacketBatch_newGroup (.ofNat 0) 0 0 ids
    { DataPacket.new 0 0 1 0 with payloadSize := 1 } []
  simp only [createGroups, cutPackets_onePacketFrame, Option.bind_eq_bind, Option.bind_some,
    List.length_singleton, Nat.one_pos, gt_iff_lt, if_true, groupPackets, fullGroups, singlePolicy, UInt16.toNat_one,
    List.take_one, List.drop_one, List.tail_cons, List.head?_cons, Option.toList_some, hcreate]
  exact ⟨_, rfl, rfl⟩

/-- The keys of a frame's packets go behind the others. -/
theorem keys_createFrame {policy : FECPolicy} {statistic : NetStat} {now : Time} {f : FrameArgs}
    {s s' : PacketSenderUdp} (h : s.createFrame policy statistic now f = some s') :
    ∃ ids batches,
      createGroups policy statistic s.delayDdl now s.ids f = some (ids, batches) ∧
      s'.ids = ids ∧ s'.sendGroupCnt = s.sendGroupCnt + batches.length ∧
      s'.dataPktHistoryKey =
        s.dataPktHistoryKey ++ (batches.flatMap (·.dataPkts)).map (·.groupInfo) := by
  obtain ⟨ids, batches, pkts, frame, hgroups, hcut, hmade, -, rfl⟩ := createFrame_eq_some h
  let u : PacketSenderUdp := { s with
    ids := ids
    sendGroupCnt := s.sendGroupCnt + batches.length
    queue := s.queue ++ [frame]
    frameDataPktCnt := s.frameDataPktCnt.insert f.frameId f.dataPktNum.toUInt8 }
  have hnew : New [] now u (queuedData now batches) :=
    new_queuedData hcut hmade (by simp) (by simp)
  have hinfos := congrArg (List.map (·.groupInfo)) (map_deref_append u (queuedData now batches))
  rw [List.map_map, queuedData, List.map_map] at hinfos
  refine ⟨ids, batches, hgroups, ?_, ?_, ?_⟩
  · rw [foldl_storePacket_eq]
    rfl
  · rw [foldl_storePacket_eq]
    rfl
  · exact (keys_foldl_storePacket hnew).trans (congrArg (s.dataPktHistoryKey ++ ·) hinfos)

theorem step_frameEvent (s : PacketSenderUdp) : ∃ s', s.step frameEvent = some s' ∧
    s'.ids.groupId = s.ids.groupId + 1 ∧
    s'.dataPktHistoryKey = s.dataPktHistoryKey ++ [⟨s.ids.groupId, 0⟩] := by
  obtain ⟨b, hgroups, hinfos⟩ := createGroups_onePacketFrame s.delayDdl s.ids
  have hstep : ∃ s', s.createFrame singlePolicy quietStat 0 onePacketFrame = some s' := by
    simp only [createFrame, hgroups]
    exact ⟨_, rfl⟩
  obtain ⟨s', hstep⟩ := hstep
  obtain ⟨ids, batches, hgroups', hids, -, hkeys⟩ := keys_createFrame hstep
  rw [hgroups] at hgroups'
  cases hgroups'
  refine ⟨s', hstep, congrArg SenderIds.groupId hids, ?_⟩
  rw [hkeys, ← hinfos]
  simp

/-- After `n` frames the keys are the first `n` group ids, as far as 32 bits tell them apart. -/
theorem exec_frameEvents (delayDdl : Time) (n : ℕ) : ∃ s,
    Run.exec step (new delayDdl) (List.replicate n frameEvent) = some s ∧
    s.ids.groupId = .ofNat n ∧
    s.dataPktHistoryKey = (List.range n).map fun i => ⟨.ofNat i, 0⟩ := by
  induction n with
  | zero => exact ⟨new delayDdl, rfl, rfl, rfl⟩
  | succ n ih =>
      obtain ⟨s, hrun, hid, hkeys⟩ := ih
      obtain ⟨s', hstep, hid', hkeys'⟩ := step_frameEvent s
      refine ⟨s', ?_, ?_, ?_⟩
      · rw [List.replicate_succ', Run.exec_append_eq_some]
        exact ⟨s, hrun, Run.exec_cons_eq_some.mpr ⟨s', hstep, rfl⟩⟩
      · rw [hid', hid, UInt32.ofNat_add]
        rfl
      · rw [hkeys', hkeys, hid, List.range_succ, List.map_append]
        rfl

theorem frameTimes_frameEvents (n : ℕ) :
    (frameTimes (List.replicate n frameEvent)).Pairwise (· ≤ ·) := by
  rw [frameTimes, List.filterMap_replicate]
  exact List.pairwise_replicate_of_refl

theorem history_consistent_oneFrame : ∃ s, Run.exec step (new 0) [frameEvent] = some s ∧
    s.KeysConsistent ∧ s.SameTxCount ∧ ∀ iteration policy statistic now s',
      s.checkRetransmission iteration policy statistic now = some s' →
      Checked statistic now s s' := by
  obtain ⟨s, hrun, -⟩ := exec_frameEvents 0 1
  have hfresh : Run.Each step Fresh (new 0) [frameEvent] :=
    ⟨fun _ _ _ key hkey => absurd hkey List.not_mem_nil, fun _ _ => trivial⟩
  exact ⟨s, hrun, history_consistent (frameTimes_frameEvents 1) hfresh hrun⟩

/-- Once 32 bits no longer tell the groups apart, a key comes twice. -/
theorem not_keysConsistent :
    (frameTimes (List.replicate (2 ^ 32 + 1) frameEvent)).Pairwise (· ≤ ·) ∧ ∃ s,
      Run.exec step (new 0) (List.replicate (2 ^ 32 + 1) frameEvent) = some s ∧
      ¬ s.KeysConsistent := by
  refine ⟨frameTimes_frameEvents _, ?_⟩
  obtain ⟨s, hrun, -, hkeys⟩ := exec_frameEvents 0 (2 ^ 32 + 1)
  refine ⟨s, hrun, fun h => ?_⟩
  have hinj := hkeys ▸ h.nodup
  rw [List.nodup_map_iff_inj_on List.nodup_range] at hinj
  have h0 := hinj 0 (List.mem_range.mpr (by norm_num)) (2 ^ 32) (List.mem_range.mpr (by norm_num))
    (by rw [show UInt32.ofNat (2 ^ 32) = UInt32.ofNat 0 by decide])
  norm_num at h0

end PacketSenderUdp

end Zhuge
