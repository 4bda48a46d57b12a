-- SUMMARY: Packet batches and packet groups: how arriving packets are stored, recovered from FEC, and handed out.
import Zhuge.Lib.Dict
import Zhuge.Packet

/-!
# Batches and groups

A group collects the packets of one group of data packets, batch by batch. A batch
is complete once it holds as many packets as it has data packets; then the digests
of one of its FEC packets stand in for the data packets that are missing.
-/

namespace Zhuge

/-- What a batch reads of the group it belongs to. -/
structure PacketGroupIds where
  groupId : UInt32
  dataNum : UInt16
  fecNum : UInt16

/-! ## Batches -/

structure PacketBatch where
  batchId : UInt32
  dataNum : UInt16
  fecNum : UInt16
  decodedPkts : Finset UInt16
  undecodedPkts : List DataPacket
  dataPkts : Dict UInt16 DataPacket
  fecPkts : Dict UInt16 FECPacket

namespace PacketBatch

/-- The number of packets that count towards completion. -/
def held (b : PacketBatch) : ℕ := Dict.size b.dataPkts + Dict.size b.fecPkts

def storeData (pkt : DataPacket) (b : PacketBatch) : PacketBatch :=
  { b with
    dataPkts := b.dataPkts.insert pkt.pktIdInBatch pkt
    undecodedPkts := b.undecodedPkts ++ [pkt] }

def storeFec (pkt : FECPacket) (b : PacketBatch) : PacketBatch :=
  { b with fecPkts := b.fecPkts.insert pkt.pktIdInBatch pkt }

def addPacket (pkt : VideoPacket) (b : PacketBatch) : PacketBatch :=
  if pkt.header.pktIdInBatch ∈ b.decodedPkts then b
  else
    match pkt with
    | .data pkt => storeData pkt b
    | .dupFec pkt => storeData pkt b
    | .fec pkt => storeFec pkt b

/-- A batch before its first packet is added. -/
def empty (pkt : VideoPacket) : PacketBatch where
  batchId := pkt.header.batchId
  dataNum := pkt.header.batchDataNum
  fecNum := pkt.header.batchFecNum
  decodedPkts := ∅
  undecodedPkts := []
  dataPkts := ∅
  fecPkts := ∅

/-- The constructor. `none`: its assertion fails. -/
def new (pkt : VideoPacket) : Option PacketBatch :=
  if 0 < pkt.header.batchDataNum then some (addPacket pkt (empty pkt)) else none

/-- The data packet made from a digest of `fec`. -/
def ofDigest (now : Time) (group : PacketGroupIds) (fec : FECPacket) (b : PacketBatch)
    (digest : DataPktDigest) : DataPacket :=
  { DataPacket.ofDigest digest group.groupId group.dataNum group.fecNum b.batchId b.dataNum
      b.fecNum with
    rcvTime := now
    encodeTime := fec.encodeTime }

/-- The data packets that `fec` stands in for. -/
def recovered (now : Time) (group : PacketGroupIds) (fec : FECPacket) (b : PacketBatch) :
    List DataPacket :=
  (fec.dataPkts.filter fun digest => digest.pktIdInBatch ∉ b.dataPkts).map
    (ofDigest now group fec b)

/-- `CheckComplete`. `pick` says which entry is the first one when the unordered map of
FEC packets is iterated. `none`: there is no FEC packet, and the assertion fails. -/
def checkComplete (now : Time) (pick : ℕ) (group : PacketGroupIds) (b : PacketBatch) :
    Option (Bool × PacketBatch) :=
  if b.held ≥ b.dataNum.toNat then
    if Dict.size b.dataPkts = b.dataNum.toNat then some (true, b)
    else
      match b.fecPkts.entries[pick % Dict.size b.fecPkts]? with
      | none => none
      | some fec =>
        some (true, { b with
          undecodedPkts := b.undecodedPkts ++ recovered now group fec.2 b
          dataPkts := ∅
          fecPkts := ∅ })
  else some (false, b)

def getUndecodedPackets (b : PacketBatch) : List DataPacket × PacketBatch :=
  (b.undecodedPkts, { b with
    undecodedPkts := []
    decodedPkts := b.decodedPkts ∪ (b.undecodedPkts.map (·.pktIdInBatch)).toFinset })

end PacketBatch

/-! ## Groups -/

structure PacketGroup extends PacketGroupIds where
  encodeTime : Time
  firstRcvTime : Time
  lastRcvTimeTx0 : Time
  decodedPkts : Finset UInt16
  undecodedPkts : List DataPacket
  incompleteBatches : Dict UInt32 PacketBatch
  completeBatches : Dict UInt32 PacketBatch
  lastPktIdTx0 : UInt16
  maxTxCount : UInt8
  firstTxDataCount : UInt16
  firstTxFecCount : UInt16
  rtxDataCount : UInt16
  rtxFecCount : UInt16
  pktArriveDis : Dict UInt8 UInt32

namespace PacketGroup

/-- The constructor for a group without packets. `initGroup` sets what is zero here
before anything reads it. -/
def new (groupId : UInt32) (dataNum : UInt16) (encodeTime : Time) : PacketGroup where
  groupId := groupId
  dataNum := dataNum
  fecNum := 0
  encodeTime := encodeTime
  firstRcvTime := 0
  lastRcvTimeTx0 := 0
  decodedPkts := ∅
  undecodedPkts := []
  incompleteBatches := ∅
  completeBatches := ∅
  lastPktIdTx0 := 0
  maxTxCount := 0
  firstTxDataCount := 0
  firstTxFecCount := 0
  rtxDataCount := 0
  rtxFecCount := 0
  pktArriveDis := ∅

def initGroup (pkt : VideoPacket) (g : PacketGroup) : PacketGroup :=
  { g with
    fecNum := pkt.header.groupFecNum
    firstRcvTime := pkt.info.rcvTime
    lastRcvTimeTx0 := pkt.info.rcvTime
    maxTxCount := pkt.header.txCount
    lastPktIdTx0 := pkt.header.pktIdInGroup }

/-- The counters by transmission and class. -/
def countPacket (pkt : VideoPacket) (g : PacketGroup) : PacketGroup :=
  if pkt.header.txCount = 0 then
    match pkt with
    | .data _ => { g with firstTxDataCount := g.firstTxDataCount + 1 }
    | .dupFec _ | .fec _ => { g with firstTxFecCount := g.firstTxFecCount + 1 }
  else
    match pkt with
    | .data _ => { g with rtxDataCount := g.rtxDataCount + 1 }
    | .dupFec _ | .fec _ => { g with rtxFecCount := g.rtxFecCount + 1 }

/-- The first part of `AddPacket`: what is recorded of a packet whether or not it is useful. -/
def recordPacket (pkt : VideoPacket) (g : PacketGroup) : PacketGroup :=
  let g := if g.decodedPkts.card + g.undecodedPkts.length = 0 then g.initGroup pkt else g
  let g := g.countPacket pkt
  let first := pkt.header.txCount = 0
  { g with
    maxTxCount := if pkt.header.txCount > g.maxTxCount then pkt.header.txCount else g.maxTxCount
    encodeTime :=
      if pkt.header.encodeTime < g.encodeTime then pkt.header.encodeTime else g.encodeTime
    lastRcvTimeTx0 :=
      if pkt.info.rcvTime > g.lastRcvTimeTx0 ∧ first then pkt.info.rcvTime else g.lastRcvTimeTx0
    lastPktIdTx0 :=
      if pkt.header.pktIdInGroup > g.lastPktIdTx0 ∧
          pkt.header.pktIdInGroup.toNat < g.dataNum.toNat + g.fecNum.toNat ∧ first then
        pkt.header.pktIdInGroup
      else g.lastPktIdTx0 }

/-- The packet can no longer help: its batch is complete, or its id is decoded. -/
def isUseless (pkt : VideoPacket) (g : PacketGroup) : Prop :=
  pkt.header.batchId ∈ g.completeBatches ∨ pkt.header.pktIdInGroup ∈ g.decodedPkts

instance (pkt : VideoPacket) (g : PacketGroup) : Decidable (g.isUseless pkt) :=
  inferInstanceAs (Decidable (_ ∨ _))

/-- The batch of a packet with the packet added. `none`: an assertion fails. -/
def batchWith (pkt : VideoPacket) (g : PacketGroup) : Option PacketBatch :=
  match g.incompleteBatches.lookup pkt.header.batchId with
  | none => PacketBatch.new pkt
  | some b => some (b.addPacket pkt)

/-- What the end of `AddPacket` does with the checked batch. -/
def putBatch (batchId : UInt32) (batchComplete : Bool) (b : PacketBatch) (g : PacketGroup) :
    PacketGroup :=
  let (batchUndecodedPkts, b) := b.getUndecodedPackets
  let g := { g with undecodedPkts := g.undecodedPkts ++ batchUndecodedPkts }
  if batchComplete then
    { g with
      completeBatches := g.completeBatches.insert batchId b
      incompleteBatches := g.incompleteBatches.erase batchId }
  else { g with incompleteBatches := g.incompleteBatches.insert batchId b }

/-- `AddPacket`. `none`: an assertion fails. -/
def addPacket (now : Time) (pick : ℕ) (pkt : VideoPacket) (g : PacketGroup) :
    Option PacketGroup := do
  let g := g.recordPacket pkt
  if g.isUseless pkt then some g
  else
    let b ← g.batchWith pkt
    let (batchComplete, b) ← b.checkComplete now pick g.toPacketGroupIds
    some (g.putBatch pkt.header.batchId batchComplete b)

/-- `pkt_arrive_dis[tx_count] ++`, from zero for a new key. -/
def countArrival (dis : Dict UInt8 UInt32) (pkt : DataPacket) : Dict UInt8 UInt32 :=
  dis.insert pkt.txCount ((dis.lookup pkt.txCount).getD 0 + 1)

def getUndecodedPackets (g : PacketGroup) : List DataPacket × PacketGroup :=
  (g.undecodedPkts, { g with
    undecodedPkts := []
    decodedPkts := g.decodedPkts ∪ (g.undecodedPkts.map (·.pktIdInGroup)).toFinset
    pktArriveDis := g.undecodedPkts.foldl countArrival g.pktArriveDis })

def checkComplete (g : PacketGroup) : Bool := g.decodedPkts.card == g.dataNum.toNat

/-- `GetAvgPktInterval`. -/
def avgPktInterval (g : PacketGroup) : Time :=
  if g.lastPktIdTx0 = 0 then Time.microSeconds 0
  else (g.lastRcvTimeTx0 - g.firstRcvTime).tdiv (g.dataNum.toNat + g.fecNum.toNat)

/-- One packet, as the receiver feeds it: added, and then everything that became
available taken out. -/
def receive (now : Time) (pick : ℕ) (pkt : VideoPacket) (g : PacketGroup) :
    Option (List DataPacket × PacketGroup) :=
  (g.addPacket now pick pkt).map getUndecodedPackets

end PacketGroup

end Zhuge
