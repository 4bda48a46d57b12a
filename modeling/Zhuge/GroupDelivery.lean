-- SUMMARY: A group hands out no data packet twice, unless a batch is recovered over packets that are out already.
import Zhuge.GroupRecovery

/-!
# Delivery without repetition

An arriving packet is checked against the ids that the group decoded. The packets that a
batch recovers from an FEC packet are only checked against those that the batch itself holds.
-/

namespace Zhuge

/-! ## The FEC packets that a group keeps -/

/-- An FEC packet that arrives meets `P`. -/
def VideoPacket.FecMeets (P : FECPacket → Prop) : VideoPacket → Prop
  | .fec pkt => P pkt
  | .data _ | .dupFec _ => True

/-- The packet is the data packet `p`, or a copy of it that was sent as FEC. -/
def VideoPacket.IsData (p : DataPacket) : VideoPacket → Prop
  | .data pkt | .dupFec pkt => p = pkt
  | .fec _ => False

theorem VideoPacket.IsData.pktIdInGroup {p : DataPacket} {pkt : VideoPacket} (h : pkt.IsData p) :
    p.pktIdInGroup = pkt.header.pktIdInGroup := by
  cases pkt with
  | data pkt => rw [show p = pkt from h]; rfl
  | dupFec pkt => rw [show p = pkt from h]; rfl
  | fec pkt => exact h.elim

/-- The FEC packets in the open batches meet `P`. -/
def PacketGroup.KeepsFec (P : FECPacket → Prop) (g : PacketGroup) : Prop :=
  ∀ k b, g.incompleteBatches.lookup k = some b → ∀ i fec, b.fecPkts.lookup i = some fec → P fec

namespace PacketBatch

/-- What `CheckComplete` did, if it returned. -/
theorem checkComplete_eq_some {b b' : PacketBatch} {now : Time} {pick : ℕ}
    {group : PacketGroupIds} {complete : Bool}
    (h : b.checkComplete now pick group = some (complete, b')) :
    (b.held < b.dataNum.toNat ∧ complete = false ∧ b' = b) ∨
    (Dict.size b.dataPkts = b.dataNum.toNat ∧ complete = true ∧ b' = b) ∨
    (b.dataNum.toNat ≤ b.held ∧ Dict.size b.dataPkts ≠ b.dataNum.toNat ∧ complete = true ∧
      ∃ fec, b.fecPkts.entries[pick % Dict.size b.fecPkts]? = some fec ∧
        b' = { b with
          undecodedPkts := b.undecodedPkts ++ recovered now group fec.2 b
          dataPkts := ∅
          fecPkts := ∅ }) := by
  by_cases hheld : b.held ≥ b.dataNum.toNat
  · by_cases hdata : Dict.size b.dataPkts = b.dataNum.toNat
    · simp only [checkComplete, if_pos hheld, if_pos hdata] at h
      cases h
      exact .inr (.inl ⟨hdata, rfl, rfl⟩)
    · simp only [checkComplete, if_pos hheld, if_neg hdata] at h
      cases hfec : b.fecPkts.entries[pick % Dict.size b.fecPkts]? with
      | none =>
          rw [hfec] at h
          cases h
      | some fec =>
          rw [hfec] at h
          cases h
          exact .inr (.inr ⟨hheld, hdata, rfl, fec, rfl, rfl⟩)
  · simp only [checkComplete, if_neg hheld] at h
    cases h
    exact .inl ⟨not_le.mp hheld, rfl, rfl⟩

theorem fecPkts_addPacket {P : FECPacket → Prop} {b : PacketBatch} {pkt : VideoPacket}
    (hb : ∀ i fec, b.fecPkts.lookup i = some fec → P fec) (hpkt : pkt.FecMeets P) :
    ∀ i fec, (b.addPacket pkt).fecPkts.lookup i = some fec → P fec := by
  unfold addPacket
  split
  · exact hb
  · cases pkt with
    | data p => exact hb
    | dupFec p => exact hb
    | fec p =>
        intro i fec hlookup
        simp only [storeFec, Dict.lookup_insert_eq] at hlookup
        split at hlookup
        · cases hlookup
          exact hpkt
        · exact hb i fec hlookup

/-- An arriving packet waits alone. -/
theorem undecodedPkts_addPacket {b : PacketBatch} (hb : b.undecodedPkts = []) (pkt : VideoPacket) :
    (b.addPacket pkt).undecodedPkts = [] ∨
      ∃ p, (b.addPacket pkt).undecodedPkts = [p] ∧ pkt.IsData p := by
  unfold addPacket
  split
  · exact .inl hb
  · cases pkt with
    | data p => exact .inr ⟨p, by simp only [storeData, hb, List.nil_append], rfl⟩
    | dupFec p => exact .inr ⟨p, by simp only [storeData, hb, List.nil_append], rfl⟩
    | fec p => exact .inl hb

end PacketBatch

namespace PacketGroup

variable {P : FECPacket → Prop} {g g' : PacketGroup} {pkt : VideoPacket}

theorem KeepsFec.new (groupId : UInt32) (dataNum : UInt16) (encodeTime : Time) :
    (new groupId dataNum encodeTime).KeepsFec P := fun _ _ h => by cases h

theorem KeepsFec.batchWith (h : g.KeepsFec P) (hpkt : pkt.FecMeets P) {b : PacketBatch}
    (hb : g.batchWith pkt = some b) : ∀ i fec, b.fecPkts.lookup i = some fec → P fec := by
  obtain ⟨b₀, rfl, hlookup | ⟨-, rfl, -⟩⟩ := batchWith_eq_some hb
  · exact PacketBatch.fecPkts_addPacket (h _ b₀ hlookup) hpkt
  · exact PacketBatch.fecPkts_addPacket (fun i fec hnone => by cases hnone) hpkt

theorem KeepsFec.receive (h : g.KeepsFec P) (hpkt : pkt.FecMeets P) {now : Time} {pick : ℕ}
    {out : List DataPacket} (hreceive : g.receive now pick pkt = some (out, g')) :
    g'.KeepsFec P := by
  intro k b₁ hlookup
  obtain ⟨-, ⟨-, -, hincomplete, -⟩ |
    ⟨-, b, complete, b', hb, hcheck, -, hincomplete, -⟩⟩ := receive_eq_some hreceive
  · rw [hincomplete] at hlookup
    exact h k b₁ hlookup
  · rw [hincomplete] at hlookup
    cases complete with
    | true =>
        simp only [if_true, Dict.lookup_erase_eq] at hlookup
        split at hlookup
        · cases hlookup
        · exact h k b₁ hlookup
    | false =>
        simp only [Bool.false_eq_true, if_false, Dict.lookup_insert_eq] at hlookup
        split at hlookup
        · cases hlookup
          obtain ⟨-, -, rfl⟩ | ⟨-, hfalse, -⟩ | ⟨-, -, hfalse, -⟩ :=
            PacketBatch.checkComplete_eq_some hcheck
          · exact fun i fec hfec => h.batchWith hpkt hb i fec hfec
          · cases hfalse
          · cases hfalse
        · exact h k b₁ hlookup

/-! ## Recovered packets that are out already -/

/-- The packet completes its batch, and an FEC packet stands in for a data packet that the
batch does not hold, but that was handed out or arrives just now. -/
def Redelivers (g : PacketGroup) (a : Arrival) : Prop :=
  ¬ g.isUseless a.pkt ∧ ∃ b ∈ g.batchWith a.pkt,
    b.dataNum.toNat ≤ b.held ∧ Dict.size b.dataPkts ≠ b.dataNum.toNat ∧
    ∃ fec ∈ b.fecPkts.entries[a.pick % Dict.size b.fecPkts]?, ∃ d ∈ fec.2.dataPkts,
      d.pktIdInBatch ∉ b.dataPkts ∧ (d.pktIdInGroup ∈ g.decodedPkts ∨
        d.pktIdInGroup ∈ b.undecodedPkts.map (·.pktIdInGroup))

instance (g : PacketGroup) (a : Arrival) : Decidable (g.Redelivers a) :=
  inferInstanceAs (Decidable (_ ∧ ∃ b ∈ g.batchWith a.pkt, _))

end PacketGroup

/-- The packets inside an FEC packet are different ones. -/
def FECPacket.Distinct (fec : FECPacket) : Prop := (fec.dataPkts.map (·.pktIdInGroup)).Nodup

namespace PacketGroup

variable {groupId : UInt32} {origins : Finset PktOrigin} {dataNum : UInt16} {g g' : PacketGroup}
  {emitted out : List DataPacket} {now : Time} {pick : ℕ} {pkt : VideoPacket}

theorem undecodedPkts_batchWith
    (h : ∀ k b, g.incompleteBatches.lookup k = some b → b.undecodedPkts = [])
    {b : PacketBatch} (hb : g.batchWith pkt = some b) :
    b.undecodedPkts = [] ∨ ∃ p, b.undecodedPkts = [p] ∧ pkt.IsData p := by
  obtain ⟨b₀, rfl, hlookup | ⟨-, rfl, -⟩⟩ := batchWith_eq_some hb
  · exact PacketBatch.undecodedPkts_addPacket (h _ b₀ hlookup) pkt
  · exact PacketBatch.undecodedPkts_addPacket rfl pkt

/-- A packet that arrives is new to the group if it is useful. -/
theorem Sound.nodup_arriving (h : g.Sound groupId origins dataNum emitted)
    (hnodup : (emitted.map (·.pktIdInGroup)).Nodup) (huseful : ¬ g.isUseless pkt)
    {b : PacketBatch} (hb : g.batchWith pkt = some b) :
    ((emitted ++ b.undecodedPkts).map (·.pktIdInGroup)).Nodup := by
  obtain hnone | ⟨p, hone, hid⟩ :=
    undecodedPkts_batchWith (fun k b hk => (h.batches k b hk).undecoded) hb
  · rwa [hnone, List.append_nil]
  · rw [hone, List.map_append, List.map_singleton]
    refine List.nodup_append.mpr ⟨hnodup, List.nodup_singleton _, ?_⟩
    rintro i hi j hj rfl
    rw [List.mem_singleton.mp hj, hid.pktIdInGroup] at hi
    refine huseful (.inr ?_)
    rw [h.decoded]
    exact List.mem_toFinset.mpr hi

/-- One genuine packet: no id comes twice if and only if nothing is recovered that was out. -/
theorem Sound.receive_nodup_iff (h : g.Sound groupId origins dataNum emitted)
    (hfec : g.KeepsFec FECPacket.Distinct) (hpkt : pkt.FecMeets FECPacket.Distinct)
    (hnodup : (emitted.map (·.pktIdInGroup)).Nodup)
    (hreceive : g.receive now pick pkt = some (out, g')) :
    ((emitted ++ out).map (·.pktIdInGroup)).Nodup ↔ ¬ g.Redelivers ⟨now, pick, pkt⟩ := by
  obtain ⟨-, ⟨huseless, hout, -⟩ | ⟨huseful, b, complete, b', hb, hcheck, hout, -⟩⟩ :=
    receive_eq_some hreceive
  · rw [hout, h.undecoded, List.append_nil]
    exact ⟨fun _ hredelivers => hredelivers.1 huseless, fun _ => hnodup⟩
  · have harriving := h.nodup_arriving hnodup huseful hb
    rw [h.undecoded, List.nil_append] at hout
    obtain ⟨hfew, -, rfl⟩ | ⟨hfull, -, rfl⟩ | ⟨hheld, hdata, -, fec, hpick, rfl⟩ :=
      PacketBatch.checkComplete_eq_some hcheck
    · rw [hout]
      refine ⟨fun _ => ?_, fun _ => harriving⟩
      rintro ⟨-, b, hb', hheld, -⟩
      cases hb.symm.trans hb'
      exact absurd hheld (not_le.mpr hfew)
    · rw [hout]
      refine ⟨fun _ => ?_, fun _ => harriving⟩
      rintro ⟨-, b, hb', -, hdata, -⟩
      cases hb.symm.trans hb'
      exact hdata hfull
    · have hdistinct : ((PacketBatch.recovered now (g.recordPacket pkt).toPacketGroupIds fec.2
          b).map (·.pktIdInGroup)).Nodup := by
        have hkept := hfec.batchWith hpkt hb fec.1 fec.2
          (Dict.lookup_of_mem_entries (List.mem_of_getElem? hpick))
        rw [PacketBatch.recovered, List.map_map]
        exact hkept.sublist (List.filter_sublist.map _)
      rw [hout, ← List.append_assoc, List.map_append, List.nodup_append]
      constructor
      · rintro ⟨-, -, hdisjoint⟩ ⟨-, b, hb', -, -, fec', hpick', d, hd, hmissing, hout'⟩
        cases hb.symm.trans hb'
        cases hpick.symm.trans hpick'
        refine hdisjoint d.pktIdInGroup ?_ d.pktIdInGroup ?_ rfl
        · rw [h.decoded] at hout'
          rw [List.map_append, List.mem_append]
          exact hout'.imp_left List.mem_toFinset.mp
        · exact List.mem_map.mpr ⟨_, List.mem_map.mpr
            ⟨d, List.mem_filter.mpr ⟨hd, decide_eq_true hmissing⟩, rfl⟩, rfl⟩
      · intro hnone
        refine ⟨harriving, hdistinct, ?_⟩
        rintro i hi j hj rfl
        obtain ⟨p, hp, rfl⟩ := List.mem_map.mp hj
        obtain ⟨d, hd, rfl⟩ := List.mem_map.mp hp
        obtain ⟨hmem, hmissing⟩ := List.mem_filter.mp hd
        refine hnone ⟨huseful, b, hb, hheld, hdata, fec, hpick, d, hmem,
          of_decide_eq_true hmissing, ?_⟩
        rw [List.map_append, List.mem_append] at hi
        rw [h.decoded]
        exact hi.imp_left List.mem_toFinset.mpr

end PacketGroup

/-! ## Runs -/

namespace Reassembly

variable {groupId : UInt32} {origins : Finset PktOrigin} {dataNum : UInt16}

/-- What was handed out stays handed out. -/
theorem emitted_isInitial {arrivals : List Arrival} {s s' : Reassembly}
    (hrun : Run.exec step s arrivals = some s') : s.emitted <+: s'.emitted := by
  refine Run.exec_invariant (P := fun t => s.emitted <+: t.emitted) (fun t a t' ht hstep => ?_)
    (List.prefix_refl _) hrun
  obtain ⟨out, -, rfl⟩ := Option.map_eq_some_iff.mp hstep
  exact ht.trans (List.prefix_append _ _)

/-- Over genuine packets, no id comes twice if and only if no arrival recovers one that was
out. -/
theorem exec_nodup_iff {arrivals : List Arrival}
    (hgenuine : ∀ a ∈ arrivals, a.pkt.Genuine groupId origins ∧ a.pkt.FecMeets FECPacket.Distinct)
    {s : Reassembly} (h : s.group.Sound groupId origins dataNum s.emitted)
    (hfec : s.group.KeepsFec FECPacket.Distinct)
    (hnodup : (s.emitted.map (·.pktIdInGroup)).Nodup) :
    ∃ s', Run.exec step s arrivals = some s' ∧ ((s'.emitted.map (·.pktIdInGroup)).Nodup ↔
      Run.Each step (fun s a => ¬ s.group.Redelivers a) s arrivals) := by
  induction arrivals generalizing s with
  | nil => exact ⟨s, rfl, fun _ => trivial, fun _ => hnodup⟩
  | cons a arrivals ih =>
      obtain ⟨hpkt, hmeets⟩ := hgenuine a List.mem_cons_self
      have hrest := fun a' ha' => hgenuine a' (List.mem_cons_of_mem _ ha')
      obtain ⟨out, g', hreceive, hg'⟩ := h.receive a.now a.pick hpkt
      have hstep : step s a = some ⟨g', s.emitted ++ out⟩ := by
        rw [step, hreceive, Option.map_some]
      have honce := h.receive_nodup_iff hfec hmeets hnodup hreceive
      by_cases hnodup' : ((s.emitted ++ out).map (·.pktIdInGroup)).Nodup
      · obtain ⟨s', hrun, hiff⟩ :=
          ih (s := ⟨g', s.emitted ++ out⟩) hrest hg' (hfec.receive hmeets hreceive) hnodup'
        refine ⟨s', Run.exec_cons_eq_some.mpr ⟨_, hstep, hrun⟩, hiff.trans ?_⟩
        constructor
        · intro heach
          refine ⟨honce.mp hnodup', fun t ht => ?_⟩
          cases hstep.symm.trans ht
          exact heach
        · exact fun heach => heach.2 _ hstep
      · obtain ⟨s', hrun, -⟩ := exec_sound (fun a' ha' => (hrest a' ha').1) (s := ⟨g', _⟩) hg'
        refine ⟨s', Run.exec_cons_eq_some.mpr ⟨_, hstep, hrun⟩, fun hfinal => ?_, fun heach => ?_⟩
        · have hprefix := (emitted_isInitial hrun).map (·.pktIdInGroup)
          exact absurd (hfinal.sublist hprefix.sublist) hnodup'
        · exact absurd (honce.mpr heach.1) hnodup'

end Reassembly

namespace BuiltGroup

variable {groupId : UInt32} {originals objects : List DataPacket} {batches : List SentBatch}

/-- A batch has no data packet twice. -/
theorem nodup_pktIdInGroup (h : BuiltGroup groupId originals objects batches) :
    ∀ b ∈ batches, (b.dataPkts.map (·.pktIdInGroup)).Nodup := by
  induction h with
  | @first _ _ ids _ _ data fec hid hlen h =>
      intro b hb
      rw [List.mem_singleton.mp hb]
      have hw := GroupWellFormed.first hid hlen h
      rw [hw.pktIds]
      refine List.Nodup.map_on ?_ List.nodup_range
      intro i hi j hj hij
      have hsmall : ∀ k ∈ List.range data.length, (UInt16.ofNat k).toNat = k := fun k hk =>
        UInt16.toNat_ofNat_of_lt'
          (lt_of_lt_of_le (List.mem_range.mp hk) (hw.length_le.trans (by decide)))
      rw [← hsmall i hi, ← hsmall j hj, hij]
  | @rtx _ _ _ fecRate now txCount ids _ chosen data _ hbuilt hsub hnodup h ih =>
      intro b hb
      rcases List.mem_append.mp hb with hb | hb
      · exact ih b hb
      · rw [List.mem_singleton.mp hb]
        have hw := GroupWellFormed.of_built hbuilt
        obtain ⟨-, -, f, -, hdata, -⟩ := hw.created_rtx hsub h
        have hids : data.map (·.pktIdInGroup)
            = (chosen.map (·.retransmit txCount now)).map (·.pktIdInGroup) := by
          rw [hdata]
          refine map_mapIdx_field (fun k pkt => ?_) _
          rfl
        rw [List.map_map] at hids
        change (data.map (·.pktIdInGroup)).Nodup
        rw [hids]
        exact hnodup

/-- What the group needs to know of the FEC packets that arrive. -/
theorem fecMeets_distinct (h : BuiltGroup groupId originals objects batches) {pkt : VideoPacket}
    (hpkt : Delivers batches pkt) : pkt.FecMeets FECPacket.Distinct := by
  obtain ⟨b, hb, sent, hsent, id, time, rfl⟩ := hpkt
  rcases List.mem_append.mp hsent with hsent | hsent
  · obtain ⟨d, -, rfl⟩ := List.mem_map.mp hsent
    trivial
  · obtain ⟨fec, hfec, rfl⟩ := List.mem_map.mp hsent
    have hdigests := (((GroupWellFormed.of_built h).batches b hb).fec fec hfec).2.2
    have hids := h.nodup_pktIdInGroup b hb
    change (fec.dataPkts.map (·.pktIdInGroup)).Nodup
    rw [hdigests, List.map_map]
    exact hids

/-- Whatever packets of a group arrive, in any order and any number of times: no data packet is
handed out twice if and only if no arrival recovers one that was handed out before. -/
theorem emitted_nodup_iff (h : BuiltGroup groupId originals objects batches) {first : Arrival}
    {arrivals : List Arrival} (hpkts : ∀ a ∈ first :: arrivals, Delivers batches a.pkt) :
    ∃ s, Run.exec Reassembly.step (.start first.pkt) (first :: arrivals) = some s ∧
      ((s.emitted.map (·.pktIdInGroup)).Nodup ↔
        Run.Each Reassembly.step (fun s a => ¬ s.group.Redelivers a) (.start first.pkt)
          (first :: arrivals)) := by
  have hw := GroupWellFormed.of_built h
  exact Reassembly.exec_nodup_iff
    (fun a ha => ⟨hw.genuine (hpkts a ha), h.fecMeets_distinct (hpkts a ha)⟩)
    (hw.start_sound (hpkts first List.mem_cons_self)) (.new _ _ _) .nil

theorem emitted_nodup_iff_firstBatch :
    ∃ s, Run.exec Reassembly.step (.start fecArrival.pkt) [fecArrival, dataArrival] = some s ∧
      (s.emitted.map (·.pktIdInGroup)).Nodup := by
  obtain ⟨s, hrun, hiff⟩ := emitted_nodup_iff firstBatch_built delivers_firstBatch
  exact ⟨s, hrun, hiff.mpr (by decide +kernel)⟩

/-- Both packets of `firstBatch`, and then the FEC packets of its retransmission. -/
def redelivered : List Arrival :=
  [⟨10, 0, (firstBatch.packets.get 1).delivered 1 10⟩,
    ⟨70, 0, (rtxBatch.packets.get 2).delivered 6 70⟩,
    ⟨71, 0, (rtxBatch.packets.get 3).delivered 7 71⟩]

theorem delivers_redelivered :
    ∀ a ∈ fromFirst :: redelivered, Delivers [firstBatch, rtxBatch] a.pkt := by
  simp only [redelivered, List.mem_cons, List.not_mem_nil, or_false, forall_eq_or_imp, forall_eq]
  exact ⟨⟨firstBatch, by simp, firstBatch.packets[0], List.getElem_mem _, 0, 9, rfl⟩,
    ⟨firstBatch, by simp, firstBatch.packets[1], List.getElem_mem _, 1, 10, rfl⟩,
    ⟨rtxBatch, by simp, rtxBatch.packets[2], List.getElem_mem _, 6, 70, rfl⟩,
    ⟨rtxBatch, by simp, rtxBatch.packets[3], List.getElem_mem _, 7, 71, rfl⟩⟩

/-- The retransmission is recovered over packets that were handed out. -/
theorem emitted_twice :
    ¬ ∀ (groupId : UInt32) (originals objects : List DataPacket) (batches : List SentBatch)
      (first : Arrival) (arrivals : List Arrival) (s : Reassembly),
      BuiltGroup groupId originals objects batches →
      (∀ a ∈ first :: arrivals, Delivers batches a.pkt) →
      Run.exec Reassembly.step (.start first.pkt) (first :: arrivals) = some s →
      (s.emitted.map (·.pktIdInGroup)).Nodup := by
  intro hclaim
  obtain ⟨s, hrun, hemitted⟩ : ∃ s, Run.exec Reassembly.step (.start fromFirst.pkt)
      (fromFirst :: redelivered) = some s ∧ s.emitted.map (·.pktIdInGroup) = [0, 1, 0, 1] := by
    decide +kernel
  have honce := hclaim 0 _ _ _ _ _ s rtxBatch_built delivers_redelivered hrun
  rw [hemitted] at honce
  exact absurd honce (by decide)

end BuiltGroup

end Zhuge
