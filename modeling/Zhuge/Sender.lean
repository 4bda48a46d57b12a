-- SUMMARY: The sender: its packet objects, sending queue and history, and what frames, acknowledgements and the periodic check do to them.
import Zhuge.Lib.Run
import Zhuge.PktHistory
import Zhuge.SendPackets

/-!
# The sender

Data packets are objects that the sending queue and the history share: a retransmission
changes the object that is still in the history. They live in a heap here, and the queue
and the history hold references.
-/

namespace Zhuge

/-- A reference to a data packet: its index in the heap. -/
abbrev PktRef := ℕ

/-- A packet in the sending queue. -/
inductive QueuedPkt where
  | data (ref : PktRef)
  | fec (pkt : FECPacket)

structure PacketFrame where
  packetsInFrame : List QueuedPkt
  retransmission : Bool
  frameEncodeTime : Time

structure PacketSenderUdp where
  delayDdl : Time
  ids : SenderIds
  /-- A 64-bit counter of the groups made so far. -/
  sendGroupCnt : ℕ
  heap : List DataPacket
  queue : List PacketFrame
  dataPktHistoryKey : List GroupPacketInfo
  dataPktHistory : PktHistory PktRef
  frameDataPktCnt : Dict UInt32 UInt8
  ipidCounter : UInt16
  /-- The packets handed to the socket so far. -/
  sent : List VideoPacket
  /-- The packets stored in the history so far. -/
  stored : List GroupPacketInfo
  /-- The packets removed for missing the deadline so far, each with its age then. -/
  expired : List (GroupPacketInfo × Time)
  /-- The packets named by an acknowledgement since they were stored. -/
  acked : List GroupPacketInfo

namespace PacketSenderUdp

def new (delayDdl : Time) : PacketSenderUdp where
  delayDdl := delayDdl
  ids := ⟨0, 0⟩
  sendGroupCnt := 0
  heap := []
  queue := []
  dataPktHistoryKey := []
  dataPktHistory := ∅
  frameDataPktCnt := ∅
  ipidCounter := 0
  sent := []
  stored := []
  expired := []
  acked := []

/-! ## Objects -/

/-- The object behind a reference. No reference dangles. -/
def deref (ref : PktRef) (s : PacketSenderUdp) : DataPacket := s.heap.getD ref (.new 0 0 0 0)

/-- Change an object. -/
def update (ref : PktRef) (f : DataPacket → DataPacket) (s : PacketSenderUdp) :
    PacketSenderUdp :=
  { s with heap := s.heap.modify ref f }

/-- Change several objects in the same way. -/
def updateAll (refs : List PktRef) (f : DataPacket → DataPacket) (s : PacketSenderUdp) :
    PacketSenderUdp :=
  refs.foldl (fun s ref => s.update ref f) s

/-- Give each object its new value. -/
def writeBack (refs : List PktRef) (pkts : List DataPacket) (s : PacketSenderUdp) :
    PacketSenderUdp :=
  (refs.zip pkts).foldl (fun s p => s.update p.1 fun _ => p.2) s

def setEnqueueTime (now : Time) (pkt : DataPacket) : DataPacket := { pkt with enqueueTime := now }

/-- A new FEC packet, put into the queue at `now`. -/
def enqueueFec (now : Time) (pkt : FECPacket) : QueuedPkt := .fec { pkt with enqueueTime := now }

/-! ## New frames -/

/-- `StorePackets`, for one packet. -/
def storePacket (s : PacketSenderUdp) (ref : PktRef) : PacketSenderUdp :=
  let pkt := s.deref ref
  if pkt.txCount ≠ 0 then s
  else
    { s with
      dataPktHistoryKey := s.dataPktHistoryKey ++ [pkt.groupInfo]
      dataPktHistory := s.dataPktHistory.store pkt.groupInfo ref
      stored := s.stored ++ [pkt.groupInfo]
      acked := s.acked.filter (· ≠ pkt.groupInfo) }

/-- The packets of a batch whose first data packet is at `first` in the heap. -/
def queuedBatch (now : Time) (first : PktRef) (b : FirstBatch) : List QueuedPkt :=
  ((List.range' first b.dataPkts.length).map .data) ++ b.fecPkts.map (enqueueFec now)

/-- The packets of several batches, whose data packets follow each other in the heap. -/
def queuedBatches (now : Time) : PktRef → List FirstBatch → List QueuedPkt
  | _, [] => []
  | first, b :: batches =>
    queuedBatch now first b ++ queuedBatches now (first + b.dataPkts.length) batches

/-- `SendPackets` for new packets, after they were grouped: they get their place in the heap,
go to the end of the queue, and are stored. -/
def sendFirst (now : Time) (ids : SenderIds) (batches : List FirstBatch) (s : PacketSenderUdp) :
    PacketSenderUdp :=
  let pkts := batches.flatMap (·.dataPkts)
  let frame : PacketFrame := {
    packetsInFrame := queuedBatches now s.heap.length batches
    retransmission := false
    frameEncodeTime := (pkts.head?.map (·.encodeTime)).getD 0 }
  let refs := List.range' s.heap.length pkts.length
  let s := { s with
    ids := ids
    sendGroupCnt := s.sendGroupCnt + batches.length
    heap := s.heap ++ pkts.map (setEnqueueTime now)
    queue := s.queue ++ [frame] }
  refs.foldl storePacket s

/-- `CreateFrame`. `none`: an assertion fails. -/
def createFrame (policy : FECPolicy) (statistic : NetStat) (now : Time) (f : FrameArgs)
    (s : PacketSenderUdp) : Option PacketSenderUdp := do
  let (ids, batches) ← createGroups policy statistic s.delayDdl now s.ids f
  let s := { s with frameDataPktCnt := s.frameDataPktCnt.insert f.frameId f.dataPktNum.toUInt8 }
  some (s.sendFirst now ids batches)

/-! ## Sending -/

/-- `SendPacket`: the first packet of the first frame in the queue goes out. -/
def sendPacket (now : Time) (s : PacketSenderUdp) : PacketSenderUdp :=
  match s.queue with
  | [] => s
  | frame :: frames =>
    match frame.packetsInFrame with
    | [] => s
    | pkt :: pkts =>
      let globalId := s.ipidCounter
      let s := { s with
        queue := if pkts.isEmpty then frames else { frame with packetsInFrame := pkts } :: frames
        ipidCounter := s.ipidCounter + 1 }
      match pkt with
      | .data ref =>
        let s := s.update ref fun pkt => { pkt with
          sendTime := now
          globalId := globalId }
        { s with sent := s.sent ++ [.data (s.deref ref)] }
      | .fec pkt =>
        { s with sent := s.sent ++ [.fec { pkt with
            sendTime := now
            globalId := globalId }] }

/-! ## Acknowledgements -/

def rcvACKPacket (pkt : AckPacket) (s : PacketSenderUdp) : PacketSenderUdp :=
  { s with
    dataPktHistory := s.dataPktHistory.rcvACKPacket pkt
    acked := s.acked ++ pkt.pktInfos.filter (· ∈ s.stored) }

/-! ## The periodic check -/

/-- `MissesDdl`. -/
def missesDdl (now : Time) (pkt : DataPacket) (s : PacketSenderUdp) : Bool :=
  now - pkt.encodeTime > s.delayDdl

/-- `IsRtxTimeout`. -/
def isRtxTimeout (statistic : NetStat) (now : Time) (pkt : DataPacket) : Bool :=
  let batchSize := pkt.batchDataNum.toNat + pkt.batchFecNum.toNat
  now > pkt.enqueueTime &&
    now - pkt.sendTime > statistic.srtt + Time.microSeconds statistic.rttSdUs * 4 +
      batchSize * statistic.oneWayDispersion

/-- An order in which an unordered map may be iterated. -/
structure Iteration where
  order : List PktRef → List PktRef
  perm : ∀ refs, (order refs).Perm refs

/-- The encode time that `RetransmitGroup` reads off the packets: the first that is not 0. -/
def firstEncodeTime (pkts : List DataPacket) : Time :=
  ((pkts.find? (·.encodeTime ≠ 0)).map (·.encodeTime)).getD 0

/-- `SendPackets` for packets sent again: one batch of them all, which goes to the front of
the queue. `none`: an assertion fails. -/
def sendRtx (policy : FECPolicy) (call : ℕ) (statistic : NetStat) (now ddlLeft : Time)
    (frameId groupId : UInt32) (refs : List PktRef) (s : PacketSenderUdp) :
    Option PacketSenderUdp := do
  let frameSize ← s.frameDataPktCnt.lookup frameId
  let c : PolicyContext := ⟨statistic, s.delayDdl, frameSize⟩
  let param := policy call (c.query (.ofNat refs.length) ddlLeft true true)
  if refs.length = param.fecGroupSize.toNat then
    let (ids, data, fec) ← createPacketBatch param.fecRate false groupId true now s.ids
      (refs.map s.deref)
    let s := (s.writeBack refs data).updateAll refs (setEnqueueTime now)
    let frame : PacketFrame := {
      packetsInFrame := refs.map .data ++ fec.map (enqueueFec now)
      retransmission := true
      frameEncodeTime := (data.head?.map (·.encodeTime)).getD 0 }
    some { s with
      ids := ids
      queue := frame :: s.queue }
  else none

/-- `RetransmitGroup`. -/
def retransmitGroup (iteration : Iteration) (policy : FECPolicy) (call : ℕ) (statistic : NetStat)
    (now : Time) (groupId : UInt32) (s : PacketSenderUdp) : Option PacketSenderUdp :=
  match s.dataPktHistory.lookup groupId with
  | none => some s
  | some group =>
    let refs := iteration.order (group.entries.map (·.2))
    match refs with
    | [] => some s
    | front :: _ =>
      let txCount := (s.deref front).txCount + 1
      let encodeTime := firstEncodeTime (refs.map s.deref)
      let s := s.updateAll refs (·.retransmit txCount now)
      s.sendRtx policy call statistic now (s.delayDdl - (now - encodeTime))
        (s.deref front).frameId (s.deref front).groupId refs

/-- The first loop of `CheckRetransmission`: expired packets leave the history, and keys
without a packet are dropped, up to the first packet in time. -/
def dropExpired (now : Time) : List GroupPacketInfo → PacketSenderUdp → PacketSenderUdp
  | [], s => { s with dataPktHistoryKey := [] }
  | info :: keys, s =>
    match s.dataPktHistory.find info with
    | none => dropExpired now keys s
    | some ref =>
      if s.missesDdl now (s.deref ref) then
        dropExpired now keys { s with
          dataPktHistory := s.dataPktHistory.remove info
          expired := s.expired ++ [(info, now - (s.deref ref).encodeTime)] }
      else { s with dataPktHistoryKey := info :: keys }

/-- The second loop: groups with a packet that timed out are sent again, each once. `kept`
are the keys passed so far. -/
def retransmitTimedOut (iteration : Iteration) (policy : FECPolicy) (statistic : NetStat)
    (now : Time) : List GroupPacketInfo → List GroupPacketInfo → Finset UInt32 →
      PacketSenderUdp → Option PacketSenderUdp
  | kept, [], _, s => some { s with dataPktHistoryKey := kept }
  | kept, info :: keys, rtxGroupId, s =>
    match s.dataPktHistory.find info with
    | none => retransmitTimedOut iteration policy statistic now kept keys rtxGroupId s
    | some ref =>
      let pkt := s.deref ref
      if now - pkt.encodeTime < statistic.minRtt then
        some { s with dataPktHistoryKey := kept ++ info :: keys }
      else if pkt.groupId ∈ rtxGroupId then
        retransmitTimedOut iteration policy statistic now (kept ++ [info]) keys rtxGroupId s
      else if isRtxTimeout statistic now pkt then do
        let s ← s.retransmitGroup iteration policy rtxGroupId.card statistic now pkt.groupId
        retransmitTimedOut iteration policy statistic now (kept ++ [info]) keys
          (insert pkt.groupId rtxGroupId) s
      else retransmitTimedOut iteration policy statistic now (kept ++ [info]) keys rtxGroupId s

/-- `CheckRetransmission`. `none`: an assertion fails. -/
def checkRetransmission (iteration : Iteration) (policy : FECPolicy) (statistic : NetStat)
    (now : Time) (s : PacketSenderUdp) : Option PacketSenderUdp :=
  let s := dropExpired now s.dataPktHistoryKey s
  retransmitTimedOut iteration policy statistic now [] s.dataPktHistoryKey ∅ s

/-! ## Events -/

inductive Event where
  | createFrame (now : Time) (policy : FECPolicy) (statistic : NetStat) (f : FrameArgs)
  | sendPacket (now : Time)
  | rcvACKPacket (now : Time) (pkt : AckPacket)
  | checkRetransmission (now : Time) (policy : FECPolicy) (statistic : NetStat)
      (iteration : Iteration)

def Event.now : Event → Time
  | .createFrame now .. => now
  | .sendPacket now => now
  | .rcvACKPacket now _ => now
  | .checkRetransmission now .. => now

def step (s : PacketSenderUdp) : Event → Option PacketSenderUdp
  | .createFrame now policy statistic f => s.createFrame policy statistic now f
  | .sendPacket now => some (s.sendPacket now)
  | .rcvACKPacket _ pkt => some (s.rcvACKPacket pkt)
  | .checkRetransmission now policy statistic iteration =>
    s.checkRetransmission iteration policy statistic now

end PacketSenderUdp

end Zhuge
