-- SUMMARY: FEC decoding of a group is sound: what is handed out is genuine, and a group is complete exactly when all of it was.
import Zhuge.Lib.Run
import Zhuge.PacketGroup

/-!
# Soundness of FEC decoding

A packet is genuine for a group when the data it carries, or the digests inside it,
belong to data packets of that group. Nothing else is needed of the packets that
arrive: batches may overlap, and packets may be lost, repeated and reordered.
-/

namespace Zhuge

/-- Which data packet of the group a packet or a digest stands for. -/
structure PktOrigin where
  pktIdInGroup : UInt16
  frameId : UInt32
  framePktNum : UInt16
  pktIdInFrame : UInt16
deriving DecidableEq

def DataPktDigest.origin (d : DataPktDigest) : PktOrigin :=
  ⟨d.pktIdInGroup, d.frameId, d.framePktNum, d.pktIdInFrame⟩

def DataPacket.origin (pkt : DataPacket) : PktOrigin :=
  ⟨pkt.pktIdInGroup, pkt.frameId, pkt.framePktNum, pkt.pktIdInFrame⟩

@[simp] theorem DataPacket.origin_digest (pkt : DataPacket) : pkt.digest.origin = pkt.origin := rfl

namespace PacketBatch

@[simp] theorem ofDigest_origin (now : Time) (group : PacketGroupIds) (fec : FECPacket)
    (b : PacketBatch) (d : DataPktDigest) : (ofDigest now group fec b d).origin = d.origin := rfl

@[simp] theorem ofDigest_groupId (now : Time) (group : PacketGroupIds) (fec : FECPacket)
    (b : PacketBatch) (d : DataPktDigest) :
    (ofDigest now group fec b d).groupId = group.groupId := rfl

@[simp] theorem ofDigest_pktIdInGroup (now : Time) (group : PacketGroupIds) (fec : FECPacket)
    (b : PacketBatch) (d : DataPktDigest) :
    (ofDigest now group fec b d).pktIdInGroup = d.pktIdInGroup := rfl

/-! ## Batch operations -/

@[simp] theorem addPacket_dataNum (pkt : VideoPacket) (b : PacketBatch) :
    (addPacket pkt b).dataNum = b.dataNum := by
  unfold addPacket
  split
  · rfl
  · cases pkt <;> rfl

/-- Storing one packet counts at most one more. -/
theorem held_addPacket_le (pkt : VideoPacket) (b : PacketBatch) :
    (addPacket pkt b).held ≤ b.held + 1 := by
  unfold addPacket
  split
  · exact Nat.le_succ _
  · cases pkt with
    | data p =>
        have := Dict.size_insert_le p.pktIdInBatch p b.dataPkts
        simp only [storeData, held]; omega
    | dupFec p =>
        have := Dict.size_insert_le p.pktIdInBatch p b.dataPkts
        simp only [storeData, held]; omega
    | fec p =>
        have := Dict.size_insert_le p.pktIdInBatch p b.fecPkts
        simp only [storeFec, held]; omega

/-- What `CheckComplete` can do when no more packets are held than needed: nothing, or
confirm that all data packets are there, or recover the missing ones from an FEC packet. -/
theorem checkComplete_cases {b : PacketBatch} (hheld : b.held ≤ b.dataNum.toNat) (now : Time)
    (pick : ℕ) (group : PacketGroupIds) :
    (b.held < b.dataNum.toNat ∧ b.checkComplete now pick group = some (false, b)) ∨
    (Dict.size b.dataPkts = b.dataNum.toNat ∧ b.checkComplete now pick group = some (true, b)) ∨
    ∃ i fec, b.fecPkts.lookup i = some fec ∧
      b.checkComplete now pick group = some (true, { b with
        undecodedPkts := b.undecodedPkts ++ recovered now group fec b
        dataPkts := ∅
        fecPkts := ∅ }) := by
  by_cases hfull : b.held ≥ b.dataNum.toNat
  · by_cases hdata : Dict.size b.dataPkts = b.dataNum.toNat
    · exact .inr (.inl ⟨hdata, by simp [checkComplete, hfull, hdata]⟩)
    · -- the packets held are not all data packets, so one of them is FEC
      have hpos : 0 < Dict.size b.fecPkts := by
        unfold held at hheld hfull; omega
      have hlt : pick % Dict.size b.fecPkts < b.fecPkts.entries.length := by
        rw [Dict.length_entries]; exact Nat.mod_lt _ hpos
      refine .inr (.inr ⟨_, _, Dict.lookup_of_mem_entries (List.getElem_mem hlt), ?_⟩)
      simp only [checkComplete, if_pos hfull, if_neg hdata, List.getElem?_eq_getElem hlt]
  · exact .inl ⟨not_le.mp hfull, by simp [checkComplete, hfull]⟩

end PacketBatch

/-! ## Genuine packets -/

section Genuine

variable (groupId : UInt32) (origins : Finset PktOrigin)

/-- A data packet of the group. -/
def DataPacket.Genuine (pkt : DataPacket) : Prop :=
  pkt.groupId = groupId ∧ pkt.origin ∈ origins

/-- An FEC packet over data packets of the group. -/
def FECPacket.Genuine (pkt : FECPacket) : Prop := ∀ d ∈ pkt.dataPkts, d.origin ∈ origins

/-- A packet of the group, in a batch that has data packets. -/
def VideoPacket.Genuine (pkt : VideoPacket) : Prop :=
  0 < pkt.header.batchDataNum ∧
    match pkt with
    | .data pkt => pkt.Genuine groupId origins
    | .dupFec pkt => pkt.Genuine groupId origins
    | .fec pkt => pkt.Genuine origins

/-- A batch between two packets: everything recovered is taken out, its FEC packets are
genuine, and it is not complete. -/
structure PacketBatch.Sound (b : PacketBatch) : Prop where
  undecoded : b.undecodedPkts = []
  fec : ∀ i fec, b.fecPkts.lookup i = some fec → fec.Genuine origins
  held : b.held < b.dataNum.toNat

/-- A group between two packets, after it handed out `emitted`. -/
structure PacketGroup.Sound (dataNum : UInt16) (g : PacketGroup) (emitted : List DataPacket) :
    Prop where
  sameGroup : g.groupId = groupId
  sameNum : g.dataNum = dataNum
  undecoded : g.undecodedPkts = []
  decoded : g.decodedPkts = (emitted.map (·.pktIdInGroup)).toFinset
  genuine : ∀ p ∈ emitted, p.Genuine groupId origins
  batches : ∀ k b, g.incompleteBatches.lookup k = some b → b.Sound origins

end Genuine

variable {groupId : UInt32} {origins : Finset PktOrigin}

namespace PacketBatch

/-- A genuine packet added to a sound batch. -/
theorem Sound.addPacket {b : PacketBatch} (hundecoded : b.undecodedPkts = [])
    (hfec : ∀ i fec, b.fecPkts.lookup i = some fec → fec.Genuine origins) {pkt : VideoPacket}
    (hpkt : pkt.Genuine groupId origins) :
    (∀ p ∈ (b.addPacket pkt).undecodedPkts, p.Genuine groupId origins) ∧
      ∀ i fec, (b.addPacket pkt).fecPkts.lookup i = some fec → fec.Genuine origins := by
  unfold PacketBatch.addPacket
  split
  · exact ⟨by simp [hundecoded], hfec⟩
  · cases pkt with
    | data p => exact ⟨by simpa [storeData, hundecoded] using hpkt.2, hfec⟩
    | dupFec p => exact ⟨by simpa [storeData, hundecoded] using hpkt.2, hfec⟩
    | fec p =>
        refine ⟨by simp [storeFec, hundecoded], ?_⟩
        intro i fec hlookup
        simp only [storeFec, Dict.lookup_insert_eq] at hlookup
        split at hlookup
        case isTrue => cases hlookup; exact hpkt.2
        case isFalse => exact hfec i fec hlookup

/-- `CheckComplete` never fails, adds genuine packets only, and leaves a batch that is
not complete as it was. -/
theorem Sound.checkComplete {b : PacketBatch}
    (hundecoded : ∀ p ∈ b.undecodedPkts, p.Genuine groupId origins)
    (hfec : ∀ i fec, b.fecPkts.lookup i = some fec → fec.Genuine origins)
    (hheld : b.held ≤ b.dataNum.toNat) (now : Time) (pick : ℕ) {group : PacketGroupIds}
    (hgroup : group.groupId = groupId) :
    ∃ complete b', b.checkComplete now pick group = some (complete, b') ∧
      (∀ p ∈ b'.undecodedPkts, p.Genuine groupId origins) ∧
      (complete = false → b' = b ∧ b.held < b.dataNum.toNat) := by
  obtain ⟨hlt, hcheck⟩ | ⟨-, hcheck⟩ | ⟨i, fec, hlookup, hcheck⟩ :=
    checkComplete_cases hheld now pick group
  · exact ⟨_, _, hcheck, hundecoded, fun _ => ⟨rfl, hlt⟩⟩
  · exact ⟨_, _, hcheck, hundecoded, by simp⟩
  · refine ⟨_, _, hcheck, ?_, by simp⟩
    intro p hp
    rcases List.mem_append.mp hp with hp | hp
    · exact hundecoded p hp
    · obtain ⟨d, hd, rfl⟩ := List.mem_map.mp hp
      exact ⟨hgroup, hfec i fec hlookup d (List.mem_filter.mp hd).1⟩

end PacketBatch

namespace PacketGroup

/-! ## What recording a packet leaves alone -/

section Record

variable (pkt : VideoPacket) (g : PacketGroup)

theorem countPacket_eq : ∃ a b c d, g.countPacket pkt = { g with
    firstTxDataCount := a, firstTxFecCount := b, rtxDataCount := c, rtxFecCount := d } := by
  unfold countPacket
  split <;> cases pkt <;> exact ⟨_, _, _, _, rfl⟩

theorem recordPacket_frame :
    (g.recordPacket pkt).groupId = g.groupId ∧ (g.recordPacket pkt).dataNum = g.dataNum ∧
      (g.recordPacket pkt).decodedPkts = g.decodedPkts ∧
      (g.recordPacket pkt).undecodedPkts = g.undecodedPkts ∧
      (g.recordPacket pkt).incompleteBatches = g.incompleteBatches ∧
      (g.recordPacket pkt).completeBatches = g.completeBatches := by
  simp only [recordPacket]
  split
  · obtain ⟨a, b, c, d, h⟩ := countPacket_eq pkt (g.initGroup pkt)
    rw [h]; exact ⟨rfl, rfl, rfl, rfl, rfl, rfl⟩
  · obtain ⟨a, b, c, d, h⟩ := countPacket_eq pkt g
    rw [h]; exact ⟨rfl, rfl, rfl, rfl, rfl, rfl⟩

@[simp] theorem recordPacket_groupId : (g.recordPacket pkt).groupId = g.groupId :=
  (recordPacket_frame pkt g).1

@[simp] theorem recordPacket_dataNum : (g.recordPacket pkt).dataNum = g.dataNum :=
  (recordPacket_frame pkt g).2.1

@[simp] theorem recordPacket_decodedPkts : (g.recordPacket pkt).decodedPkts = g.decodedPkts :=
  (recordPacket_frame pkt g).2.2.1

@[simp] theorem recordPacket_undecodedPkts :
    (g.recordPacket pkt).undecodedPkts = g.undecodedPkts :=
  (recordPacket_frame pkt g).2.2.2.1

@[simp] theorem recordPacket_incompleteBatches :
    (g.recordPacket pkt).incompleteBatches = g.incompleteBatches :=
  (recordPacket_frame pkt g).2.2.2.2.1

@[simp] theorem recordPacket_completeBatches :
    (g.recordPacket pkt).completeBatches = g.completeBatches :=
  (recordPacket_frame pkt g).2.2.2.2.2

@[simp] theorem isUseless_recordPacket (pkt' : VideoPacket) :
    (g.recordPacket pkt).isUseless pkt' ↔ g.isUseless pkt' := by
  simp [isUseless]

@[simp] theorem batchWith_recordPacket (pkt' : VideoPacket) :
    (g.recordPacket pkt).batchWith pkt' = g.batchWith pkt' := by
  simp [batchWith]

end Record

/-! ## What `receive` does -/

/-- `g'` is `g` after `out` was taken out of it. -/
structure Emptied (g : PacketGroup) (out : List DataPacket) (g' : PacketGroup) : Prop where
  groupId : g'.groupId = g.groupId
  dataNum : g'.dataNum = g.dataNum
  undecoded : g'.undecodedPkts = []
  decoded : g'.decodedPkts = g.decodedPkts ∪ (out.map (·.pktIdInGroup)).toFinset

/-- A useless packet: only what was waiting comes out. -/
theorem receive_useless {pkt : VideoPacket} {g : PacketGroup} (h : g.isUseless pkt) (now : Time)
    (pick : ℕ) : ∃ g', g.receive now pick pkt = some (g.undecodedPkts, g') ∧
      Emptied g g.undecodedPkts g' ∧ g'.incompleteBatches = g.incompleteBatches ∧
      g'.completeBatches = g.completeBatches := by
  refine ⟨(getUndecodedPackets (g.recordPacket pkt)).2, ?_, ⟨?_, ?_, rfl, ?_⟩, ?_, ?_⟩
  · simp [receive, addPacket, h, getUndecodedPackets]
  all_goals simp [getUndecodedPackets]

/-- A useful packet: its batch is checked, emptied, and filed as complete or incomplete. -/
theorem receive_useful {pkt : VideoPacket} {g : PacketGroup} (h : ¬ g.isUseless pkt) {now : Time}
    {pick : ℕ} {b b' : PacketBatch} {complete : Bool} (hb : g.batchWith pkt = some b)
    (hcheck : b.checkComplete now pick (g.recordPacket pkt).toPacketGroupIds
      = some (complete, b')) :
    ∃ g', g.receive now pick pkt = some (g.undecodedPkts ++ b'.undecodedPkts, g') ∧
      Emptied g (g.undecodedPkts ++ b'.undecodedPkts) g' ∧
      g'.incompleteBatches = (if complete then g.incompleteBatches.erase pkt.header.batchId
        else g.incompleteBatches.insert pkt.header.batchId b'.getUndecodedPackets.2) ∧
      g'.completeBatches = (if complete then
          g.completeBatches.insert pkt.header.batchId b'.getUndecodedPackets.2
        else g.completeBatches) := by
  have hreceive : g.receive now pick pkt = some (getUndecodedPackets
      ((g.recordPacket pkt).putBatch pkt.header.batchId complete b')) := by
    simp [receive, addPacket, h, hb, hcheck]
  rw [hreceive]
  refine ⟨(getUndecodedPackets ((g.recordPacket pkt).putBatch pkt.header.batchId complete b')).2,
    ?_, ⟨?_, ?_, rfl, ?_⟩, ?_, ?_⟩
  all_goals
    cases complete <;> simp [putBatch, getUndecodedPackets, PacketBatch.getUndecodedPackets]

/-- What `receive` did, if it returned. -/
theorem receive_eq_some {pkt : VideoPacket} {g g' : PacketGroup} {now : Time} {pick : ℕ}
    {out : List DataPacket} (h : g.receive now pick pkt = some (out, g')) :
    Emptied g out g' ∧
      (g.isUseless pkt ∧ out = g.undecodedPkts ∧
          g'.incompleteBatches = g.incompleteBatches ∧ g'.completeBatches = g.completeBatches ∨
        ¬ g.isUseless pkt ∧ ∃ b complete b', g.batchWith pkt = some b ∧
          b.checkComplete now pick (g.recordPacket pkt).toPacketGroupIds = some (complete, b') ∧
          out = g.undecodedPkts ++ b'.undecodedPkts ∧
          g'.incompleteBatches = (if complete then g.incompleteBatches.erase pkt.header.batchId
            else g.incompleteBatches.insert pkt.header.batchId b'.getUndecodedPackets.2) ∧
          g'.completeBatches = (if complete then
              g.completeBatches.insert pkt.header.batchId b'.getUndecodedPackets.2
            else g.completeBatches)) := by
  by_cases huseless : g.isUseless pkt
  · obtain ⟨g'', hreceive, hempty, hincomplete, hcomplete⟩ := receive_useless huseless now pick
    rw [h] at hreceive
    cases hreceive
    exact ⟨hempty, .inl ⟨huseless, rfl, hincomplete, hcomplete⟩⟩
  · have hadd := h
    simp only [receive, addPacket, isUseless_recordPacket, if_neg huseless, batchWith_recordPacket,
      Option.bind_eq_bind, Option.map_eq_some_iff, Option.bind_eq_some_iff] at hadd
    obtain ⟨-, ⟨b, hb, ⟨complete, b'⟩, hcheck, -⟩, -⟩ := hadd
    obtain ⟨g'', hreceive, hempty, hincomplete, hcomplete⟩ := receive_useful huseless hb hcheck
    rw [h] at hreceive
    cases hreceive
    exact ⟨hempty, .inr ⟨huseless, b, complete, b', hb, hcheck, rfl, hincomplete, hcomplete⟩⟩

/-- A packet joins its batch, or it is the first of a new one. -/
theorem batchWith_eq_some {pkt : VideoPacket} {g : PacketGroup} {b : PacketBatch}
    (h : g.batchWith pkt = some b) : ∃ b₀ : PacketBatch, b = b₀.addPacket pkt ∧
      (g.incompleteBatches.lookup pkt.header.batchId = some b₀ ∨
        g.incompleteBatches.lookup pkt.header.batchId = none ∧ b₀ = .empty pkt ∧
          0 < pkt.header.batchDataNum) := by
  unfold PacketGroup.batchWith at h
  cases hlookup : g.incompleteBatches.lookup pkt.header.batchId with
  | none =>
      simp only [hlookup, PacketBatch.new] at h
      split at h
      case isTrue hpos =>
        cases h
        exact ⟨_, rfl, .inr ⟨rfl, rfl, hpos⟩⟩
      case isFalse => cases h
  | some b₀ =>
      rw [hlookup] at h
      cases h
      exact ⟨b₀, rfl, .inl rfl⟩

/-- The batch that a genuine packet ends up in exists, is not over-full, and holds genuine
packets. -/
theorem Sound.batchWith {dataNum : UInt16} {g : PacketGroup} {emitted : List DataPacket}
    (h : g.Sound groupId origins dataNum emitted) {pkt : VideoPacket}
    (hpkt : pkt.Genuine groupId origins) :
    ∃ b, g.batchWith pkt = some b ∧ b.held ≤ b.dataNum.toNat ∧
      (∀ p ∈ b.undecodedPkts, p.Genuine groupId origins) ∧
      ∀ i fec, b.fecPkts.lookup i = some fec → fec.Genuine origins := by
  unfold PacketGroup.batchWith
  cases hlookup : g.incompleteBatches.lookup pkt.header.batchId with
  | none =>
      have hadd := PacketBatch.Sound.addPacket (b := .empty pkt) rfl (by simp [PacketBatch.empty])
        hpkt
      refine ⟨_, by simp [PacketBatch.new, hpkt.1], ?_, hadd⟩
      have hheld := PacketBatch.held_addPacket_le pkt (.empty pkt)
      have hnum : 0 < pkt.header.batchDataNum.toNat := UInt16.lt_iff_toNat_lt.mp hpkt.1
      simp only [PacketBatch.addPacket_dataNum]
      have hempty : (PacketBatch.empty pkt).held = 0 := rfl
      have hdata : (PacketBatch.empty pkt).dataNum = pkt.header.batchDataNum := rfl
      rw [hdata]; omega
  | some b =>
      have hb := h.batches _ b hlookup
      refine ⟨_, rfl, ?_, PacketBatch.Sound.addPacket hb.undecoded hb.fec hpkt⟩
      have hheld := PacketBatch.held_addPacket_le pkt b
      have hlt := hb.held
      rw [PacketBatch.addPacket_dataNum]
      omega

/-- One genuine packet: no assertion fails, and the group stays sound for what it has
handed out so far. -/
theorem Sound.receive {dataNum : UInt16} {g : PacketGroup} {emitted : List DataPacket}
    (h : g.Sound groupId origins dataNum emitted) (now : Time) (pick : ℕ) {pkt : VideoPacket}
    (hpkt : pkt.Genuine groupId origins) :
    ∃ out g', g.receive now pick pkt = some (out, g') ∧
      g'.Sound groupId origins dataNum (emitted ++ out) := by
  by_cases huseless : g.isUseless pkt
  · obtain ⟨g', hreceive, hempty, hbatches, -⟩ := receive_useless huseless now pick
    rw [h.undecoded] at hreceive hempty
    refine ⟨_, g', hreceive, hempty.groupId.trans h.sameGroup, hempty.dataNum.trans h.sameNum,
      hempty.undecoded, ?_, ?_, ?_⟩
    · simpa [h.decoded] using hempty.decoded
    · simpa using h.genuine
    · rw [hbatches]; exact h.batches
  · obtain ⟨b, hb, hheld, hundecoded, hfec⟩ := h.batchWith hpkt
    have hgroup : (g.recordPacket pkt).groupId = groupId := by simp [h.sameGroup]
    obtain ⟨complete, b', hcheck, hout, hincomplete⟩ :=
      PacketBatch.Sound.checkComplete hundecoded hfec hheld now pick hgroup
    obtain ⟨g', hreceive, hempty, hbatches, -⟩ := receive_useful huseless hb hcheck
    rw [h.undecoded, List.nil_append] at hreceive hempty
    refine ⟨_, g', hreceive, hempty.groupId.trans h.sameGroup, hempty.dataNum.trans h.sameNum,
      hempty.undecoded, ?_, ?_, ?_⟩
    · rw [hempty.decoded, h.decoded, List.map_append, List.toFinset_append]
    · intro p hp
      rcases List.mem_append.mp hp with hp | hp
      · exact h.genuine p hp
      · exact hout p hp
    · intro k b'' hk
      rw [hbatches] at hk
      cases complete with
      | true =>
          simp only [if_true, Dict.lookup_erase_eq] at hk
          split at hk
          · cases hk
          · exact h.batches k b'' hk
      | false =>
          simp only [Bool.false_eq_true, if_false, Dict.lookup_insert_eq] at hk
          split at hk
          · obtain ⟨rfl, hlt⟩ := hincomplete rfl
            cases hk
            exact ⟨rfl, hfec, hlt⟩
          · exact h.batches k b'' hk

theorem Sound.new (dataNum : UInt16) (encodeTime : Time) :
    (new groupId dataNum encodeTime).Sound groupId origins dataNum [] :=
  ⟨rfl, rfl, rfl, rfl, by simp, by simp [PacketGroup.new]⟩

/-- More packets are genuine. -/
theorem Sound.mono {dataNum : UInt16} {g : PacketGroup} {emitted : List DataPacket}
    {origins' : Finset PktOrigin} (h : g.Sound groupId origins dataNum emitted)
    (hsub : origins ⊆ origins') : g.Sound groupId origins' dataNum emitted :=
  { h with
    genuine := fun p hp => ⟨(h.genuine p hp).1, hsub (h.genuine p hp).2⟩
    batches := fun k b hk =>
      { h.batches k b hk with
        fec := fun i fec hfec digest hdigest =>
          hsub ((h.batches k b hk).fec i fec hfec digest hdigest) } }

/-- With one origin for each id below the group's size, only such ids are decoded. -/
theorem Sound.decodedPkts_lt {dataNum : UInt16} {g : PacketGroup} {emitted : List DataPacket}
    (h : g.Sound groupId origins dataNum emitted)
    (hids : ∀ o ∈ origins, o.pktIdInGroup.toNat < dataNum.toNat) :
    ∀ i ∈ g.decodedPkts, i.toNat < dataNum.toNat := by
  intro i hi
  rw [h.decoded, List.mem_toFinset] at hi
  obtain ⟨p, hp, rfl⟩ := List.mem_map.mp hi
  exact hids _ (h.genuine p hp).2

/-- The size comparison in `CheckComplete` is exact. -/
theorem Sound.checkComplete_iff {dataNum : UInt16} {g : PacketGroup} {emitted : List DataPacket}
    (h : g.Sound groupId origins dataNum emitted)
    (hids : ∀ o ∈ origins, o.pktIdInGroup.toNat < dataNum.toNat) :
    g.checkComplete = true ↔
      ∀ i : UInt16, i.toNat < dataNum.toNat → ∃ p ∈ emitted, p.pktIdInGroup = i := by
  have hmem : ∀ i, i ∈ g.decodedPkts ↔ ∃ p ∈ emitted, p.pktIdInGroup = i := by
    intro i; simp [h.decoded]
  have himage : g.decodedPkts.image UInt16.toNat ⊆ Finset.range dataNum.toNat := by
    intro n hn
    obtain ⟨i, hi, rfl⟩ := Finset.mem_image.mp hn
    exact Finset.mem_range.mpr (h.decodedPkts_lt hids i hi)
  have hcard : (g.decodedPkts.image UInt16.toNat).card = g.decodedPkts.card :=
    Finset.card_image_of_injective _ fun _ _ => UInt16.toNat_inj.mp
  simp only [checkComplete, beq_iff_eq, h.sameNum, ← hmem]
  constructor
  · intro hfull i hi
    have hall : g.decodedPkts.image UInt16.toNat = Finset.range dataNum.toNat :=
      Finset.eq_of_subset_of_card_le himage (by rw [hcard, hfull, Finset.card_range])
    have hin : i.toNat ∈ g.decodedPkts.image UInt16.toNat := by
      rw [hall]; exact Finset.mem_range.mpr hi
    obtain ⟨j, hj, heq⟩ := Finset.mem_image.mp hin
    exact UInt16.toNat_inj.mp heq ▸ hj
  · intro hall
    have hsub : Finset.range dataNum.toNat ⊆ g.decodedPkts.image UInt16.toNat := by
      intro n hn
      have hlt := Finset.mem_range.mp hn
      have hn' : (UInt16.ofNat n).toNat = n :=
        UInt16.toNat_ofNat_of_lt' (hlt.trans dataNum.toNat_lt)
      exact Finset.mem_image.mpr ⟨.ofNat n, hall _ (by rw [hn']; exact hlt), hn'⟩
    have := Finset.card_le_card hsub
    have := Finset.card_le_card himage
    rw [Finset.card_range] at *
    omega

end PacketGroup

/-! ## Runs -/

/-- A packet reaching the receiver, with the time and the choice among FEC packets. -/
structure Arrival where
  now : Time
  pick : ℕ
  pkt : VideoPacket

/-- A group and everything it has handed out. -/
structure Reassembly where
  group : PacketGroup
  emitted : List DataPacket

namespace Reassembly

/-- The receiver creates a group from the header of the first packet it sees. -/
def start (first : VideoPacket) : Reassembly where
  group := .new first.header.groupId first.header.groupDataNum first.header.encodeTime
  emitted := []

def step (s : Reassembly) (a : Arrival) : Option Reassembly :=
  (s.group.receive a.now a.pick a.pkt).map fun r => ⟨r.2, s.emitted ++ r.1⟩

/-- Genuine packets never fail an assertion and keep the group sound. -/
theorem exec_sound {dataNum : UInt16} {arrivals : List Arrival}
    (hgenuine : ∀ a ∈ arrivals, a.pkt.Genuine groupId origins) {s : Reassembly}
    (h : s.group.Sound groupId origins dataNum s.emitted) :
    ∃ s', Run.exec step s arrivals = some s' ∧
      s'.group.Sound groupId origins dataNum s'.emitted := by
  induction arrivals generalizing s with
  | nil => exact ⟨s, rfl, h⟩
  | cons a arrivals ih =>
      obtain ⟨out, g', hreceive, hg'⟩ := h.receive a.now a.pick (hgenuine a List.mem_cons_self)
      have hstep : step s a = some ⟨g', s.emitted ++ out⟩ := by simp [step, hreceive]
      obtain ⟨s', hrun, hs'⟩ := ih (s := ⟨g', s.emitted ++ out⟩)
        (fun a' ha' => hgenuine a' (List.mem_cons_of_mem _ ha')) hg'
      exact ⟨s', Run.exec_cons_eq_some.mpr ⟨_, hstep, hrun⟩, hs'⟩

end Reassembly

end Zhuge
