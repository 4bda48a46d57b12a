-- SUMMARY: Every group is in one of the receiver's three maps, until a packet arrives for a group that was complete or timed out.
import Zhuge.BuiltGroup
import Zhuge.Receiver

/-!
# Complete, timed out and incomplete groups

The necessity check comes after the group of the packet was looked up among the incomplete
ones, and made there if it was missing. So a packet that trails its group puts the id of a
complete or timed-out group back among the incomplete ones.
-/

namespace Zhuge.PacketReceiverUdp

/-- Each group received is in exactly one of the three maps. -/
structure Classified (received : Finset UInt32) (r : PacketReceiverUdp) : Prop where
  incomplete_complete : Disjoint (Dict.keySet r.incompleteGroups) (Dict.keySet r.completeGroups)
  incomplete_timeout : Disjoint (Dict.keySet r.incompleteGroups) (Dict.keySet r.timeoutGroups)
  complete_timeout : Disjoint (Dict.keySet r.completeGroups) (Dict.keySet r.timeoutGroups)
  union : Dict.keySet r.incompleteGroups ∪ Dict.keySet r.completeGroups ∪
    Dict.keySet r.timeoutGroups = received

/-- The packet's group was not filed yet. -/
def NotFiled (r : PacketReceiverUdp) (a : Arrival) : Prop :=
  a.pkt.header.groupId ∉ r.completeGroups ∧ a.pkt.header.groupId ∉ r.timeoutGroups

instance (r : PacketReceiverUdp) (a : Arrival) : Decidable (r.NotFiled a) :=
  inferInstanceAs (Decidable (_ ∧ _))

/-- The groups of the packets that arrived. -/
def receivedIds (arrivals : List Arrival) : Finset UInt32 :=
  (arrivals.map (·.pkt.header.groupId)).toFinset

/-- Incomplete groups are filed under their own ids. -/
def KeyedById (r : PacketReceiverUdp) : Prop :=
  ∀ k group, r.incompleteGroups.lookup k = some group → group.groupId = k

/-! ## The loop over the incomplete groups -/

/-- What the loop can have done so far. -/
structure Swept (r r' : PacketReceiverUdp) : Prop where
  complete : r'.completeGroups = r.completeGroups
  incomplete : ∀ k group, r'.incompleteGroups.lookup k = some group →
    r.incompleteGroups.lookup k = some group
  timeout : Dict.keySet r'.timeoutGroups ⊆
    Dict.keySet r.timeoutGroups ∪ Dict.keySet r.incompleteGroups
  union : Dict.keySet r'.incompleteGroups ∪ Dict.keySet r'.timeoutGroups
    = Dict.keySet r.incompleteGroups ∪ Dict.keySet r.timeoutGroups
  disjoint : Disjoint (Dict.keySet r.incompleteGroups) (Dict.keySet r.timeoutGroups) →
    Disjoint (Dict.keySet r'.incompleteGroups) (Dict.keySet r'.timeoutGroups)

theorem Swept.refl (r : PacketReceiverUdp) : Swept r r :=
  ⟨rfl, fun _ _ h => h, Finset.subset_union_left, rfl, fun h => h⟩

theorem Swept.checkTimeout {r r' : PacketReceiverUdp} (h : Swept r r') (hkeys : r.KeyedById)
    {entry : Sigma fun _ : UInt32 => PacketGroup} (hentry : entry ∈ r.incompleteGroups.entries)
    (rcvTime : Time) : Swept r (r'.checkTimeout rcvTime entry) := by
  have hlookup := Dict.lookup_of_mem_entries hentry
  have hkey : entry.2.groupId = entry.1 := hkeys _ _ hlookup
  have hmem : entry.1 ∈ Dict.keySet r.incompleteGroups :=
    Dict.mem_keySet.mpr (Dict.mem_of_lookup hlookup)
  unfold PacketReceiverUdp.checkTimeout
  split
  case isFalse => exact h
  case isTrue =>
    refine ⟨h.complete, ?_, ?_, ?_, ?_⟩
    · intro k group hk
      simp only [Dict.lookup_erase_eq] at hk
      split at hk
      · cases hk
      · exact h.incomplete k group hk
    · simp only [Dict.keySet_insert, hkey]
      exact Finset.insert_subset (Finset.mem_union_right _ hmem) h.timeout
    · simp only [Dict.keySet_insert, Dict.keySet_erase, hkey]
      rw [Finset.union_insert, ← Finset.insert_union]
      rw [← h.union]
      ext k
      have hk : entry.1 ∈ Dict.keySet r'.incompleteGroups ∪ Dict.keySet r'.timeoutGroups := by
        rw [h.union]; exact Finset.mem_union_left _ hmem
      simp only [Finset.mem_union, Finset.mem_insert, Finset.mem_erase] at hk ⊢
      by_cases heq : k = entry.1
      · subst heq; simpa using hk
      · simp [heq]
    · intro hdisjoint
      simp only [Dict.keySet_insert, Dict.keySet_erase, hkey, Finset.disjoint_insert_right]
      exact ⟨by simp, (h.disjoint hdisjoint).mono_left (Finset.erase_subset _ _)⟩

theorem swept_checkTimeouts {r : PacketReceiverUdp} (hkeys : r.KeyedById) (rcvTime : Time) :
    Swept r (r.checkTimeouts rcvTime) :=
  List.foldlRecOn _ _ (.refl r) fun _ h _ hentry => h.checkTimeout hkeys hentry rcvTime

/-! ## One packet -/

variable {r r' : PacketReceiverUdp} {a : Arrival} {received : Finset UInt32}

theorem KeyedById.groupOf (hkeys : r.KeyedById) (pkt : VideoPacket) :
    (r.groupOf pkt).groupId = pkt.header.groupId := by
  unfold PacketReceiverUdp.groupOf
  cases hlookup : r.incompleteGroups.lookup pkt.header.groupId with
  | none => rfl
  | some group => exact hkeys _ _ hlookup

theorem KeyedById.insert (hkeys : r.KeyedById) (r' : PacketReceiverUdp) {groupId : UInt32}
    {group : PacketGroup}
    (hgroup : group.groupId = groupId)
    (hincomplete : r'.incompleteGroups = r.incompleteGroups.insert groupId group) :
    r'.KeyedById := by
  intro k g hk
  rw [hincomplete, Dict.lookup_insert_eq] at hk
  split at hk
  case isTrue heq => cases hk; exact hgroup.trans heq.symm
  case isFalse => exact hkeys k g hk

theorem KeyedById.erase (hkeys : r.KeyedById) {groupId : UInt32}
    (hincomplete : r'.incompleteGroups = r.incompleteGroups.erase groupId) : r'.KeyedById := by
  intro k g hk
  rw [hincomplete, Dict.lookup_erase_eq] at hk
  split at hk
  · cases hk
  · exact hkeys k g hk

theorem KeyedById.checkComplete (hkeys : r.KeyedById) (groupId : UInt32) (group : PacketGroup) :
    (r.checkComplete groupId group).KeyedById := by
  unfold PacketReceiverUdp.checkComplete
  split
  · exact hkeys.erase rfl
  · exact hkeys

theorem KeyedById.fileGroups (hkeys : r.KeyedById) (groupId : UInt32) (group : PacketGroup)
    (rcvTime : Time) : (r.fileGroups groupId group rcvTime).KeyedById := by
  unfold PacketReceiverUdp.fileGroups
  split
  · exact hkeys
  · split
    · exact hkeys
    · have hcheck := hkeys.checkComplete groupId group
      intro k g hk
      exact hcheck k g ((swept_checkTimeouts hcheck rcvTime).incomplete k g hk)

theorem KeyedById.step (hkeys : r.KeyedById) (hstep : r.receiveUdpPacket a = some r') :
    r'.KeyedById := by
  obtain ⟨decodePkts, group, decoder, hreceive, -, rfl⟩ := receiveUdpPacket_eq_some.mp hstep
  have hgroup : group.groupId = a.pkt.header.groupId :=
    (PacketGroup.receive_eq_some hreceive).1.groupId.trans (hkeys.groupOf _)
  exact (hkeys.insert (r.beforeFiling _ group decoder decodePkts _) hgroup rfl).fileGroups
    _ _ _

/-- A complete group stays complete. -/
theorem completeGroups_subset (hkeys : r.KeyedById) (hstep : r.receiveUdpPacket a = some r') :
    Dict.keySet r.completeGroups ⊆ Dict.keySet r'.completeGroups := by
  obtain ⟨decodePkts, group, decoder, hreceive, -, rfl⟩ := receiveUdpPacket_eq_some.mp hstep
  have hgroup : group.groupId = a.pkt.header.groupId :=
    (PacketGroup.receive_eq_some hreceive).1.groupId.trans (hkeys.groupOf _)
  have hbefore := hkeys.insert (r.beforeFiling a.pkt.header.groupId group decoder decodePkts
    a.pkt.header.globalId) hgroup rfl
  unfold fileGroups
  split
  · exact subset_rfl
  · split
    · exact subset_rfl
    · rw [(swept_checkTimeouts (hbefore.checkComplete _ _) _).complete]
      unfold PacketReceiverUdp.checkComplete
      split
      · rw [Dict.keySet_insert]; exact Finset.subset_insert _ _
      · exact subset_rfl

theorem Classified.checkComplete (h : r.Classified received) {groupId : UInt32}
    (hmem : groupId ∈ Dict.keySet r.incompleteGroups) (group : PacketGroup) :
    (r.checkComplete groupId group).Classified received := by
  unfold PacketReceiverUdp.checkComplete
  split
  case isFalse => exact h
  case isTrue =>
    have hfiled := Finset.disjoint_left.mp h.incomplete_timeout hmem
    refine ⟨?_, ?_, ?_, ?_⟩
    · simp only [Dict.keySet_insert, Dict.keySet_erase, Finset.disjoint_insert_right]
      exact ⟨by simp, h.incomplete_complete.mono_left (Finset.erase_subset _ _)⟩
    · simp only [Dict.keySet_erase]
      exact h.incomplete_timeout.mono_left (Finset.erase_subset _ _)
    · simp only [Dict.keySet_insert, Finset.disjoint_insert_left]
      exact ⟨hfiled, h.complete_timeout⟩
    · simp only [Dict.keySet_insert, Dict.keySet_erase]
      rw [Finset.union_insert, ← Finset.insert_union, Finset.insert_erase hmem]
      exact h.union

theorem Classified.swept (h : r.Classified received) (hswept : Swept r r') :
    r'.Classified received := by
  have hsub : Dict.keySet r'.incompleteGroups ⊆ Dict.keySet r.incompleteGroups := by
    intro k hk
    obtain ⟨g, hg⟩ := Dict.mem_iff_lookup.mp (Dict.mem_keySet.mp hk)
    exact Dict.mem_keySet.mpr (Dict.mem_of_lookup (hswept.incomplete k g hg))
  refine ⟨?_, hswept.disjoint h.incomplete_timeout, ?_, ?_⟩
  · rw [hswept.complete]
    exact h.incomplete_complete.mono_left hsub
  · rw [hswept.complete]
    refine Disjoint.mono_right hswept.timeout (Finset.disjoint_union_right.mpr ?_)
    exact ⟨h.complete_timeout, h.incomplete_complete.symm⟩
  · rw [hswept.complete, Finset.union_right_comm, hswept.union, Finset.union_right_comm]
    exact h.union

/-- A packet of a group that was not filed yet. -/
theorem Classified.step (h : r.Classified received) (hkeys : r.KeyedById) (hnot : r.NotFiled a)
    (hstep : r.receiveUdpPacket a = some r') :
    r'.Classified (insert a.pkt.header.groupId received) := by
  obtain ⟨decodePkts, group, decoder, hreceive, -, rfl⟩ := receiveUdpPacket_eq_some.mp hstep
  have hgroup : group.groupId = a.pkt.header.groupId :=
    (PacketGroup.receive_eq_some hreceive).1.groupId.trans (hkeys.groupOf _)
  have hbefore := hkeys.insert (r.beforeFiling a.pkt.header.groupId group decoder decodePkts
    a.pkt.header.globalId) hgroup rfl
  have hcomplete : a.pkt.header.groupId ∉ (r.beforeFiling a.pkt.header.groupId group decoder
    decodePkts a.pkt.header.globalId).completeGroups := hnot.1
  have htimeout : a.pkt.header.groupId ∉ (r.beforeFiling a.pkt.header.groupId group decoder
    decodePkts a.pkt.header.globalId).timeoutGroups := hnot.2
  rw [fileGroups, if_neg hcomplete, if_neg htimeout]
  refine Classified.swept (Classified.checkComplete ?_ ?_ group)
    (swept_checkTimeouts (hbefore.checkComplete _ _) _)
  · refine ⟨?_, ?_, h.complete_timeout, ?_⟩
    · simp only [beforeFiling, Dict.keySet_insert, Finset.disjoint_insert_left, Dict.mem_keySet]
      exact ⟨hnot.1, h.incomplete_complete⟩
    · simp only [beforeFiling, Dict.keySet_insert, Finset.disjoint_insert_left, Dict.mem_keySet]
      exact ⟨hnot.2, h.incomplete_timeout⟩
    · simp only [beforeFiling, Dict.keySet_insert, Finset.insert_union, h.union]
  · simp [beforeFiling]

/-- A packet that trails its group puts the group's id back among the incomplete ones. -/
theorem not_classified_of_filed (hnot : ¬ r.NotFiled a) (hstep : r.receiveUdpPacket a = some r') :
    ¬ r'.Classified received := by
  obtain ⟨decodePkts, group, decoder, -, -, rfl⟩ := receiveUdpPacket_eq_some.mp hstep
  intro h
  have hfile : (r.beforeFiling a.pkt.header.groupId group decoder decodePkts
      a.pkt.header.globalId).fileGroups a.pkt.header.groupId group a.pkt.info.rcvTime
        = r.beforeFiling a.pkt.header.groupId group decoder decodePkts a.pkt.header.globalId := by
    unfold fileGroups
    split
    · rfl
    · split
      · rfl
      case isFalse hcomplete htimeout => exact absurd ⟨hcomplete, htimeout⟩ hnot
  rw [hfile] at h
  have hmem : a.pkt.header.groupId ∈ Dict.keySet (r.beforeFiling a.pkt.header.groupId group decoder
      decodePkts a.pkt.header.globalId).incompleteGroups := by
    simp [beforeFiling]
  rcases not_and_or.mp hnot with hcomplete | htimeout
  · exact Finset.disjoint_left.mp h.incomplete_complete hmem
      (Dict.mem_keySet.mpr (not_not.mp hcomplete))
  · exact Finset.disjoint_left.mp h.incomplete_timeout hmem
      (Dict.mem_keySet.mpr (not_not.mp htimeout))

/-! ## Runs -/

theorem KeyedById.exec (hkeys : r.KeyedById) {arrivals : List Arrival}
    (hrun : Run.exec receiveUdpPacket r arrivals = some r') : r'.KeyedById :=
  Run.exec_invariant (fun _ _ _ h hstep => h.step hstep) hkeys hrun

theorem completeGroups_subset_exec (hkeys : r.KeyedById) {arrivals : List Arrival}
    (hrun : Run.exec receiveUdpPacket r arrivals = some r') :
    Dict.keySet r.completeGroups ⊆ Dict.keySet r'.completeGroups := by
  induction arrivals generalizing r with
  | nil => cases hrun; exact subset_rfl
  | cons a arrivals ih =>
      obtain ⟨t, hstep, hrest⟩ := Run.exec_cons_eq_some.mp hrun
      exact (completeGroups_subset hkeys hstep).trans (ih (hkeys.step hstep) hrest)

theorem classified_iff_each (h : r.Classified received) (hkeys : r.KeyedById)
    {arrivals : List Arrival} (hrun : Run.exec receiveUdpPacket r arrivals = some r') :
    (∀ pre post, pre ++ post = arrivals →
        ∃ s, Run.exec receiveUdpPacket r pre = some s ∧ s.Classified (received ∪ receivedIds pre))
      ↔ Run.Each receiveUdpPacket NotFiled r arrivals := by
  induction arrivals generalizing r received with
  | nil =>
      refine ⟨fun _ => trivial, fun _ pre post heq => ?_⟩
      obtain ⟨rfl, -⟩ := List.append_eq_nil_iff.mp heq
      exact ⟨r, rfl, by simpa [receivedIds] using h⟩
  | cons a arrivals ih =>
      obtain ⟨t, hstep, hrest⟩ := Run.exec_cons_eq_some.mp hrun
      have hids : ∀ pre, received ∪ receivedIds (a :: pre)
          = insert a.pkt.header.groupId received ∪ receivedIds pre := by
        intro pre; simp [receivedIds, Finset.union_insert, Finset.insert_union]
      constructor
      · intro hall
        have hnot : r.NotFiled a := by
          obtain ⟨s, hs, hclassified⟩ := hall [a] arrivals rfl
          obtain ⟨s', hs', hnil⟩ := Run.exec_cons_eq_some.mp hs
          cases hnil
          by_contra hfiled
          exact not_classified_of_filed hfiled hs' hclassified
        refine ⟨hnot, fun u hu => ?_⟩
        obtain rfl : t = u := Option.some.inj (hstep.symm.trans hu)
        apply (ih (h.step hkeys hnot hstep) (hkeys.step hstep) hrest).mp
        intro pre post heq
        obtain ⟨s, hs, hclassified⟩ := hall (a :: pre) post (by rw [List.cons_append, heq])
        obtain ⟨u, hu, hrun'⟩ := Run.exec_cons_eq_some.mp hs
        obtain rfl : t = u := Option.some.inj (hstep.symm.trans hu)
        exact ⟨s, hrun', hids pre ▸ hclassified⟩
      · intro heach pre post heq
        cases pre with
        | nil => exact ⟨r, rfl, by simpa [receivedIds] using h⟩
        | cons a' pre =>
            obtain ⟨rfl, htail⟩ := List.cons_eq_cons.mp heq
            obtain ⟨s, hs, hclassified⟩ :=
              (ih (h.step hkeys heach.1 hstep) (hkeys.step hstep) hrest).mpr
                (heach.2 t hstep) pre post htail
            exact ⟨s, Run.exec_cons_eq_some.mpr ⟨t, hstep, hs⟩, hids pre ▸ hclassified⟩

theorem Classified.new (delayDdl : Time) (fps : UInt16) :
    (new delayDdl fps).Classified ∅ := by
  constructor <;> simp [PacketReceiverUdp.new]

theorem KeyedById.new (delayDdl : Time) (fps : UInt16) : (new delayDdl fps).KeyedById := by
  intro k group hk
  cases hk

/-- Along a run, every group received is in exactly one of the three maps after each packet if
and only if no packet arrives for a group that was filed as complete or timed out. A complete
group stays complete in any case. -/
theorem classified_iff_notFiled {delayDdl : Time} {fps : UInt16} {arrivals : List Arrival}
    {r' : PacketReceiverUdp}
    (hrun : Run.exec receiveUdpPacket (new delayDdl fps) arrivals = some r') :
    ((∀ pre post, pre ++ post = arrivals →
        ∃ r, Run.exec receiveUdpPacket (new delayDdl fps) pre = some r ∧
          r.Classified (receivedIds pre))
      ↔ Run.Each receiveUdpPacket NotFiled (new delayDdl fps) arrivals) ∧
    ∀ pre mid r s, Run.exec receiveUdpPacket (new delayDdl fps) pre = some r →
      Run.exec receiveUdpPacket r mid = some s →
      Dict.keySet r.completeGroups ⊆ Dict.keySet s.completeGroups := by
  constructor
  · simpa using classified_iff_each (Classified.new delayDdl fps) (.new delayDdl fps) hrun
  · intro pre mid r s hr hs
    exact completeGroups_subset_exec ((KeyedById.new delayDdl fps).exec hr) hs

theorem classified_iff_notFiled_firstBatch :
    ∃ r', Run.exec receiveUdpPacket (new (.milliSeconds 100) 30) [fecArrival, dataArrival]
        = some r' ∧
      ((∀ pre post, pre ++ post = [fecArrival, dataArrival] →
          ∃ r, Run.exec receiveUdpPacket (new (.milliSeconds 100) 30) pre = some r ∧
            r.Classified (receivedIds pre))
        ↔ Run.Each receiveUdpPacket NotFiled (new (.milliSeconds 100) 30)
            [fecArrival, dataArrival]) ∧
      ∀ pre mid r s, Run.exec receiveUdpPacket (new (.milliSeconds 100) 30) pre = some r →
        Run.exec receiveUdpPacket r mid = some s →
        Dict.keySet r.completeGroups ⊆ Dict.keySet s.completeGroups := by
  have hrun : (Run.exec receiveUdpPacket (new (.milliSeconds 100) 30)
      [fecArrival, dataArrival]).isSome := by decide +kernel
  obtain ⟨r', hr'⟩ := Option.isSome_iff_exists.mp hrun
  exact ⟨r', hr', classified_iff_notFiled hr'⟩

/-- A packet of the group that the two before it completed. -/
def trailingArrival : Arrival := ⟨10, 0, firstBatch.packets[0].delivered 0 10⟩

/-- The packet of a complete group puts its id back among the incomplete ones. -/
theorem not_classified :
    ¬ ∀ (delayDdl : Time) (fps : UInt16) (arrivals : List Arrival) (r : PacketReceiverUdp),
      Run.exec receiveUdpPacket (new delayDdl fps) arrivals = some r →
      r.Classified (receivedIds arrivals) := by
  intro hclaim
  obtain ⟨r, hrun, hincomplete, hcomplete⟩ : ∃ r, Run.exec receiveUdpPacket
      (new (.milliSeconds 100) 30) [fecArrival, dataArrival, trailingArrival] = some r ∧
      0 ∈ r.incompleteGroups ∧ 0 ∈ r.completeGroups := by
    decide +kernel
  exact Finset.disjoint_left.mp (hclaim _ _ _ r hrun).incomplete_complete
    (Dict.mem_keySet.mpr hincomplete) (Dict.mem_keySet.mpr hcomplete)

end Zhuge.PacketReceiverUdp
