-- SUMMARY: Cutting data packets into a batch: the ids the sender assigns and the FEC packets it adds.
import Zhuge.Packet

/-!
# Creating batches

`createPacketBatch` numbers the data packets of a batch, puts them into a new group
or leaves them in the one they have, and adds FEC packets that carry a digest of
every data packet of the batch.
-/

namespace Zhuge

/-- The counters behind `GetNextGroupId` and `GetNextBatchId`. -/
structure SenderIds where
  groupId : UInt32
  batchId : UInt32
deriving DecidableEq

/-- `(uint16_t) round(batch_data_num * fec_rate)`. -/
def fecCount (batchDataNum : UInt16) (fecRate : Binary64) : UInt16 :=
  .ofInt (Binary64.roundHalfAway ((Binary64.ofNat batchDataNum.toNat).mul fecRate).val)

/-- A whole number of FEC packets for each data packet. -/
theorem fecCount_ofNat (n : UInt16) {k : ℕ} (hk : k ≤ 2 ^ 37) :
    fecCount n (Binary64.ofNat k) = n * .ofNat k := by
  have hn := n.toNat_lt
  have hmul : n.toNat * k ≤ 2 ^ 53 := by nlinarith
  have hprod : ((Binary64.ofNat n.toNat).mul (Binary64.ofNat k)).val = ((n.toNat * k : ℕ) : ℚ) := by
    rw [Binary64.mul_val, Binary64.ofNat_val (by omega), Binary64.ofNat_val (by omega),
      ← Nat.cast_mul]
    exact Binary64.ofNat_val hmul
  have hint : (((n.toNat * k : ℕ) : ℤ) % 2 ^ 16).toNat = n.toNat * k % 2 ^ 16 := by omega
  rw [fecCount, hprod, Binary64.roundHalfAway_natCast, UInt16.ofInt, hint]
  apply UInt16.toNat_inj.mp
  simp

/-- The header fields that all packets of one batch share. -/
structure BatchFields where
  groupId : UInt32
  groupDataNum : UInt16
  groupFecNum : UInt16
  batchId : UInt32
  batchDataNum : UInt16
  batchFecNum : UInt16
deriving DecidableEq

namespace BatchFields

def setBatch (f : BatchFields) (pktIdInBatch : UInt16) (pkt : DataPacket) : DataPacket :=
  pkt.setFECBatch f.batchId f.batchDataNum f.batchFecNum pktIdInBatch

def setGroup (f : BatchFields) (pktIdInGroup : UInt16) (pkt : DataPacket) : DataPacket :=
  pkt.setFECGroup f.groupId f.groupDataNum f.groupFecNum pktIdInGroup

/-- The loop over the data packets. It returns the next free group id, too. `none`: a
packet is in another group, and the assertion fails. -/
def assignIds (f : BatchFields) (newGroup : Bool) :
    UInt16 → UInt16 → List DataPacket → Option (List DataPacket × UInt16)
  | _, pktIdInGroup, [] => some ([], pktIdInGroup)
  | pktIdInBatch, pktIdInGroup, pkt :: pkts =>
    let pkt := f.setBatch pktIdInBatch pkt
    if !newGroup && pkt.groupInfoSetFlag then
      if pkt.groupId = f.groupId then do
        let (pkts, next) ← f.assignIds newGroup (pktIdInBatch + 1) pktIdInGroup pkts
        some (pkt :: pkts, next)
      else none
    else do
      let (pkts, next) ← f.assignIds newGroup (pktIdInBatch + 1) (pktIdInGroup + 1) pkts
      some (f.setGroup pktIdInGroup pkt :: pkts, next)

/-- The `i`-th FEC packet. `nextInGroup` is the next group id after the data packets. -/
def fecPacket (f : BatchFields) (isRtx : Bool) (now : Time) (txCount : UInt8)
    (dataPkts : List DataPacket) (nextInGroup : UInt16) (i : ℕ) : FECPacket :=
  let pktIdInGroup := if isRtx then rtxFecGroupId else nextInGroup + .ofNat i
  let pkt := FECPacket.new txCount dataPkts
    |>.setFECBatch f.batchId f.batchDataNum f.batchFecNum (f.batchDataNum + .ofNat i)
    |>.setFECGroup f.groupId f.groupDataNum f.groupFecNum pktIdInGroup
  { pkt with encodeTime := now }

end BatchFields

/-- The fields that `CreatePacketBatch` computes before its loops. With no new group, the
group's FEC number is read from the batch field of the first packet. -/
def batchFields (fecRate : Binary64) (newGroup : Bool) (groupId : UInt32) (ids : SenderIds)
    (front : DataPacket) (count : ℕ) : BatchFields :=
  let batchDataNum := UInt16.ofNat count
  let batchFecNum := fecCount batchDataNum fecRate
  { groupId := if newGroup then ids.groupId else groupId
    groupDataNum := if newGroup then batchDataNum else front.groupDataNum
    groupFecNum := if newGroup then batchFecNum else front.batchFecNum
    batchId := ids.batchId
    batchDataNum := batchDataNum
    batchFecNum := batchFecNum }

/-- What `RetransmitGroup` does to each packet before it makes a batch of them. -/
def DataPacket.retransmit (txCount : UInt8) (now : Time) (pkt : DataPacket) : DataPacket :=
  { pkt with
    txCount := txCount
    enqueueTime := now
    batchInfoSetFlag := false }

/-- `CreatePacketBatch`: the counters afterwards, the data packets with their ids, and the
new FEC packets. `none`: an assertion fails. -/
def createPacketBatch (fecRate : Binary64) (newGroup : Bool) (groupId : UInt32) (isRtx : Bool)
    (now : Time) (ids : SenderIds) (dataPkts : List DataPacket) :
    Option (SenderIds × List DataPacket × List FECPacket) :=
  match dataPkts.head? with
  | none => none
  | some front => do
    let f := batchFields fecRate newGroup groupId ids front dataPkts.length
    let ids : SenderIds :=
      { groupId := if newGroup then ids.groupId + 1 else ids.groupId, batchId := ids.batchId + 1 }
    let (dataPkts, next) ← f.assignIds newGroup 0 0 dataPkts
    let fecPkts :=
      (List.range f.batchFecNum.toNat).map (f.fecPacket isRtx now front.txCount dataPkts next)
    some (ids, dataPkts, fecPkts)

/-- Every batch comes of its first packet and of one pass over its data packets. -/
theorem createPacketBatch_eq_some {fecRate : Binary64} {newGroup isRtx : Bool} {groupId : UInt32}
    {now : Time} {ids ids' : SenderIds} {pkts data : List DataPacket} {fec : List FECPacket}
    (h : createPacketBatch fecRate newGroup groupId isRtx now ids pkts = some (ids', data, fec)) :
    ∃ (front : DataPacket) (f : BatchFields) (next : UInt16), pkts.head? = some front ∧
      f = batchFields fecRate newGroup groupId ids front pkts.length ∧
      ids' = ⟨if newGroup then ids.groupId + 1 else ids.groupId, ids.batchId + 1⟩ ∧
      f.assignIds newGroup 0 0 pkts = some (data, next) ∧
      fec = (List.range f.batchFecNum.toNat).map
        (f.fecPacket isRtx now front.txCount data next) := by
  unfold createPacketBatch at h
  split at h
  case h_1 => cases h
  case h_2 front hfront =>
    obtain ⟨⟨data', next⟩, hassign, h⟩ := Option.bind_eq_some_iff.mp h
    cases h
    exact ⟨front, _, next, hfront, rfl, rfl, hassign, rfl⟩

/-! ## What the loops compute -/

namespace BatchFields

theorem assignIds_newGroup (f : BatchFields) (i j : ℕ) (pkts : List DataPacket) :
    f.assignIds true (.ofNat i) (.ofNat j) pkts
      = some (pkts.mapIdx fun k pkt =>
          f.setGroup (.ofNat (j + k)) (f.setBatch (.ofNat (i + k)) pkt),
        .ofNat (j + pkts.length)) := by
  induction pkts generalizing i j with
  | nil => rfl
  | cons pkt pkts ih =>
      have hrest := ih (i + 1) (j + 1)
      rw [UInt16.ofNat_add, UInt16.ofNat_add] at hrest
      simp only [assignIds, Bool.not_true, Bool.false_and, Bool.false_eq_true, if_false]
      rw [show (1 : UInt16) = UInt16.ofNat 1 from rfl, hrest]
      simp [List.mapIdx_cons, add_assoc, add_comm 1]

theorem assignIds_sameGroup (f : BatchFields) (i : ℕ) (next : UInt16) {pkts : List DataPacket}
    (h : ∀ pkt ∈ pkts, pkt.groupInfoSetFlag = true ∧ pkt.groupId = f.groupId) :
    f.assignIds false (.ofNat i) next pkts
      = some (pkts.mapIdx fun k pkt => f.setBatch (.ofNat (i + k)) pkt, next) := by
  induction pkts generalizing i with
  | nil => rfl
  | cons pkt pkts ih =>
      obtain ⟨hflag, hgroup⟩ := h pkt List.mem_cons_self
      have hrest := ih (i + 1) fun p hp => h p (List.mem_cons_of_mem _ hp)
      rw [UInt16.ofNat_add] at hrest
      have hflag' : (f.setBatch (.ofNat i) pkt).groupInfoSetFlag = true := hflag
      have hgroup' : (f.setBatch (.ofNat i) pkt).groupId = f.groupId := hgroup
      simp only [assignIds, Bool.not_false, Bool.true_and, hflag', hgroup', if_true]
      rw [show (1 : UInt16) = UInt16.ofNat 1 from rfl, hrest]
      simp [List.mapIdx_cons, add_assoc, add_comm 1]

end BatchFields

/-- A first batch: every packet is put into the new group under its position. -/
theorem createPacketBatch_newGroup (fecRate : Binary64) (groupId : UInt32) (now : Time)
    (ids : SenderIds) (front : DataPacket) (pkts : List DataPacket) :
    let f := batchFields fecRate true groupId ids front (pkts.length + 1)
    createPacketBatch fecRate true groupId false now ids (front :: pkts)
      = some (⟨ids.groupId + 1, ids.batchId + 1⟩,
          (front :: pkts).mapIdx fun k pkt => f.setGroup (.ofNat k) (f.setBatch (.ofNat k) pkt),
          (List.range f.batchFecNum.toNat).map (f.fecPacket false now front.txCount
            ((front :: pkts).mapIdx fun k pkt => f.setGroup (.ofNat k) (f.setBatch (.ofNat k) pkt))
            (.ofNat (pkts.length + 1)))) := by
  intro f
  have hassign := f.assignIds_newGroup 0 0 (front :: pkts)
  simp only [zero_add] at hassign
  simp only [createPacketBatch, List.head?_cons, List.length_cons]
  rw [show (0 : UInt16) = UInt16.ofNat 0 from rfl, hassign]
  rfl

/-- A group of at least one packet is always made. -/
theorem createPacketBatch_isSome (fecRate : Binary64) (now : Time) (ids : SenderIds)
    {pkts : List DataPacket} (h : 0 < pkts.length) :
    ∃ p, createPacketBatch fecRate true 0 false now ids pkts = some p := by
  cases pkts with
  | nil => cases h
  | cons front rest => exact ⟨_, createPacketBatch_newGroup ..⟩

/-- What a first batch is made of. -/
theorem createPacketBatch_first_eq_some {fecRate : Binary64} {now : Time} {ids ids' : SenderIds}
    {pkts data : List DataPacket} {fec : List FECPacket}
    (h : createPacketBatch fecRate true 0 false now ids pkts = some (ids', data, fec)) :
    pkts ≠ [] ∧ ids' = ⟨ids.groupId + 1, ids.batchId + 1⟩ ∧ ∃ f : BatchFields,
      f.groupId = ids.groupId ∧
      data = pkts.mapIdx fun k pkt => f.setGroup (.ofNat k) (f.setBatch (.ofNat k) pkt) := by
  cases pkts with
  | nil => simp [createPacketBatch] at h
  | cons front rest =>
      have hcreate := createPacketBatch_newGroup fecRate 0 now ids front rest
      simp only [hcreate, Option.some.injEq, Prod.mk.injEq] at h
      obtain ⟨hids, hdata, -⟩ := h
      exact ⟨List.cons_ne_nil _ _, hids.symm,
        batchFields fecRate true 0 ids front (rest.length + 1), rfl, hdata.symm⟩

/-- A retransmission batch: every packet keeps its group fields. -/
theorem createPacketBatch_rtx (fecRate : Binary64) {groupId : UInt32} (now : Time)
    (ids : SenderIds) {front : DataPacket} {pkts : List DataPacket}
    (h : ∀ pkt ∈ front :: pkts, pkt.groupInfoSetFlag = true ∧ pkt.groupId = groupId) :
    let f := batchFields fecRate false groupId ids front (pkts.length + 1)
    createPacketBatch fecRate false groupId true now ids (front :: pkts)
      = some (⟨ids.groupId, ids.batchId + 1⟩,
          (front :: pkts).mapIdx fun k pkt => f.setBatch (.ofNat k) pkt,
          (List.range f.batchFecNum.toNat).map (f.fecPacket true now front.txCount
            ((front :: pkts).mapIdx fun k pkt => f.setBatch (.ofNat k) pkt) 0)) := by
  intro f
  have hassign := f.assignIds_sameGroup 0 (.ofNat 0) h
  simp only [zero_add] at hassign
  simp only [createPacketBatch, List.head?_cons, List.length_cons]
  rw [show (0 : UInt16) = UInt16.ofNat 0 from rfl, hassign]
  rfl

end Zhuge
