-- SUMMARY: The packets of the video session: header fields, the objects the two ends hold, and the digests inside FEC packets.
import Zhuge.Lib.Binary64
import Zhuge.Time

/-!
# Packets

A `VideoPacket` is a data packet, a copy of one sent as FEC, or an FEC packet that
carries digests of the data packets of its batch. The structures below hold the
fields of the source's classes; a class that inherits from another extends it.
-/

namespace Zhuge

inductive PacketType where
  | dataPkt
  | dupFecPkt
  | fecPkt
  | rtxReqPkt
  | ackPkt
  | frameAckPkt
  | netstatePkt
deriving DecidableEq, Repr

/-! ## Headers -/

structure VideoPacketHeader where
  encodeTime : Time
  /-- Global id that each packet sent from the server has. -/
  globalId : UInt16
  groupId : UInt32
  /-- The numbers of data and FEC packets in the group initially. -/
  groupDataNum : UInt16
  groupFecNum : UInt16
  pktIdInGroup : UInt16
  batchId : UInt32
  batchDataNum : UInt16
  batchFecNum : UInt16
  pktIdInBatch : UInt16
  /-- The number of retransmissions of this packet. -/
  txCount : UInt8
deriving DecidableEq

structure DataPacketHeader where
  frameId : UInt32
  /-- The number of data packets that the frame was cut into. -/
  framePktNum : UInt16
  pktIdInFrame : UInt16
  frameSize : UInt32
deriving DecidableEq

structure DataPktDigest where
  pktIdInBatch : UInt16
  pktIdInGroup : UInt16
  frameId : UInt32
  framePktNum : UInt16
  pktIdInFrame : UInt16
deriving DecidableEq

structure GroupPacketInfo where
  groupId : UInt32
  pktIdInGroup : UInt16
deriving DecidableEq

structure RcvTime where
  pktId : UInt32
  rtUs : UInt32
  pktSize : UInt32
deriving DecidableEq

structure NetStates where
  lossRate : Binary64
  throughputKbps : UInt32
  fecGroupDelayUs : UInt16
  /-- Lengths of the runs of received packets, and of lost ones with a minus sign. -/
  lossSeq : List Int
  recvtimeHist : List RcvTime
deriving DecidableEq

/-! ## Packet objects -/

/-- What every `NetworkPacket` object holds besides its headers. -/
structure NetworkPacketMeta where
  sendTime : Time
  rcvTime : Time
  payloadSize : UInt32
deriving DecidableEq

/-- The constructor of `NetworkPacket`. -/
def NetworkPacketMeta.init : NetworkPacketMeta := ⟨0, 0, 0⟩

/-- What every `VideoPacket` object holds besides its headers. -/
structure VideoPacketMeta extends NetworkPacketMeta where
  enqueueTime : Time
  groupInfoSetFlag : Bool
  batchInfoSetFlag : Bool
deriving DecidableEq

/-- The constructor of `VideoPacket`. -/
def VideoPacketMeta.init : VideoPacketMeta where
  toNetworkPacketMeta := .init
  enqueueTime := 0
  groupInfoSetFlag := false
  batchInfoSetFlag := false

structure DataPacket extends VideoPacketMeta, VideoPacketHeader, DataPacketHeader
deriving DecidableEq

structure FECPacket extends VideoPacketMeta, VideoPacketHeader where
  /-- `fec_header.data_pkts`. -/
  dataPkts : List DataPktDigest
deriving DecidableEq

/-- A `VideoPacket` with its run-time type. -/
inductive VideoPacket where
  | data (pkt : DataPacket)
  | dupFec (pkt : DataPacket)
  | fec (pkt : FECPacket)
deriving DecidableEq

structure AckPacket extends NetworkPacketMeta where
  pktInfos : List GroupPacketInfo
  lastPktId : UInt16
deriving DecidableEq

structure FrameAckPacket extends NetworkPacketMeta where
  frameId : UInt32
  frameEncodeTime : Time
deriving DecidableEq

structure NetStatePacket extends NetworkPacketMeta where
  netstates : NetStates
deriving DecidableEq

/-- A `NetworkPacket` with its run-time type. -/
inductive NetworkPacket where
  | video (pkt : VideoPacket)
  | ack (pkt : AckPacket)
  | frameAck (pkt : FrameAckPacket)
  | netState (pkt : NetStatePacket)
deriving DecidableEq

/-! ## Accessors and constructors -/

namespace VideoPacket

def packetType : VideoPacket → PacketType
  | data _ => .dataPkt
  | dupFec _ => .dupFecPkt
  | fec _ => .fecPkt

def header : VideoPacket → VideoPacketHeader
  | data pkt => pkt.toVideoPacketHeader
  | dupFec pkt => pkt.toVideoPacketHeader
  | fec pkt => pkt.toVideoPacketHeader

def info : VideoPacket → VideoPacketMeta
  | data pkt => pkt.toVideoPacketMeta
  | dupFec pkt => pkt.toVideoPacketMeta
  | fec pkt => pkt.toVideoPacketMeta

/-- `SetRcvTime`. -/
def setRcvTime (time : Time) : VideoPacket → VideoPacket
  | data pkt => data { pkt with rcvTime := time }
  | dupFec pkt => dupFec { pkt with rcvTime := time }
  | fec pkt => fec { pkt with rcvTime := time }

/-- `SetGlobalId`. -/
def setGlobalId (id : UInt16) : VideoPacket → VideoPacket
  | data pkt => data { pkt with globalId := id }
  | dupFec pkt => dupFec { pkt with globalId := id }
  | fec pkt => fec { pkt with globalId := id }

@[simp] theorem header_setRcvTime (time : Time) (pkt : VideoPacket) :
    (pkt.setRcvTime time).header = pkt.header := by cases pkt <;> rfl

@[simp] theorem packetType_setRcvTime (time : Time) (pkt : VideoPacket) :
    (pkt.setRcvTime time).packetType = pkt.packetType := by cases pkt <;> rfl

end VideoPacket

namespace DataPacket

/-- The constructor for a packet cut from a frame. The group and batch fields are set
when the packet is put into a group. -/
def new (frameId frameSize : UInt32) (framePktNum pktIdInFrame : UInt16) : DataPacket where
  toVideoPacketMeta := .init
  encodeTime := 0
  globalId := 0
  groupId := 0
  groupDataNum := 0
  groupFecNum := 0
  pktIdInGroup := 0
  batchId := 0
  batchDataNum := 0
  batchFecNum := 0
  pktIdInBatch := 0
  txCount := 0
  frameId := frameId
  framePktNum := framePktNum
  pktIdInFrame := pktIdInFrame
  frameSize := frameSize

/-- The name of the packet in acknowledgements and in the sender's history. -/
def groupInfo (pkt : DataPacket) : GroupPacketInfo := ⟨pkt.groupId, pkt.pktIdInGroup⟩

/-- `SetFECGroup`. -/
def setFECGroup (groupId : UInt32) (groupDataNum groupFecNum pktIdInGroup : UInt16)
    (pkt : DataPacket) : DataPacket :=
  { pkt with groupId, groupDataNum, groupFecNum, pktIdInGroup, groupInfoSetFlag := true }

/-- `SetFECBatch`. -/
def setFECBatch (batchId : UInt32) (batchDataNum batchFecNum pktIdInBatch : UInt16)
    (pkt : DataPacket) : DataPacket :=
  { pkt with batchId, batchDataNum, batchFecNum, pktIdInBatch, batchInfoSetFlag := true }

/-- The constructor of `DataPktDigest`. -/
def digest (pkt : DataPacket) : DataPktDigest where
  pktIdInBatch := pkt.pktIdInBatch
  pktIdInGroup := pkt.pktIdInGroup
  frameId := pkt.frameId
  framePktNum := pkt.framePktNum
  pktIdInFrame := pkt.pktIdInFrame

/-- The constructor for a packet recovered from a digest. Global id and frame size are
left as they are by the code; nothing reads them. -/
def ofDigest (digest : DataPktDigest) (groupId : UInt32) (groupDataNum groupFecNum : UInt16)
    (batchId : UInt32) (batchDataNum batchFecNum : UInt16) : DataPacket :=
  new digest.frameId 0 digest.framePktNum digest.pktIdInFrame
    |> setFECBatch batchId batchDataNum batchFecNum digest.pktIdInBatch
    |> setFECGroup groupId groupDataNum groupFecNum digest.pktIdInGroup

end DataPacket

namespace FECPacket

/-- The constructor for a packet made by the sender. -/
def new (txCount : UInt8) (dataPkts : List DataPacket) : FECPacket where
  toVideoPacketMeta := .init
  encodeTime := 0
  globalId := 0
  groupId := 0
  groupDataNum := 0
  groupFecNum := 0
  pktIdInGroup := 0
  batchId := 0
  batchDataNum := 0
  batchFecNum := 0
  pktIdInBatch := 0
  txCount := txCount
  dataPkts := dataPkts.map DataPacket.digest

/-- `SetFECGroup`. -/
def setFECGroup (groupId : UInt32) (groupDataNum groupFecNum pktIdInGroup : UInt16)
    (pkt : FECPacket) : FECPacket :=
  { pkt with groupId, groupDataNum, groupFecNum, pktIdInGroup, groupInfoSetFlag := true }

/-- `SetFECBatch`. -/
def setFECBatch (batchId : UInt32) (batchDataNum batchFecNum pktIdInBatch : UInt16)
    (pkt : FECPacket) : FECPacket :=
  { pkt with batchId, batchDataNum, batchFecNum, pktIdInBatch, batchInfoSetFlag := true }

end FECPacket

/-- `VideoPacket::RTX_FEC_GROUP_ID`. -/
def rtxFecGroupId : UInt16 := 65535

end Zhuge
