-- SUMMARY: The receiver: packets sorted into groups, recovered, handed to the decoder and acknowledged; groups filed as complete or timed out.
import Zhuge.GroupFec
import Zhuge.VideoDecoder

/-!
# The receiver

`receiveUdpPacket` follows the source step by step: find or make the group, add the
packet, hand out what became available, acknowledge it, and then see whether the group
is complete and which groups are too old.
-/

namespace Zhuge

structure PacketReceiverUdp where
  delayDdl : Time
  decoder : VideoDecoder
  oneWayDispersion : Time
  incompleteGroups : Dict UInt32 PacketGroup
  completeGroups : Dict UInt32 PacketGroup
  timeoutGroups : Dict UInt32 PacketGroup
  /-- The data packets handed to the decoder so far. -/
  handed : List DataPacket
  /-- The acknowledgements sent so far. -/
  acks : List AckPacket

namespace PacketReceiverUdp

def new (delayDdl : Time) (fps : UInt16) : PacketReceiverUdp where
  delayDdl := delayDdl
  decoder := .new delayDdl fps
  oneWayDispersion := 0
  incompleteGroups := ∅
  completeGroups := ∅
  timeoutGroups := ∅
  handed := []
  acks := []

/-- The group a packet is added to, made when it is not among the incomplete ones. -/
def groupOf (pkt : VideoPacket) (r : PacketReceiverUdp) : PacketGroup :=
  (r.incompleteGroups.lookup pkt.header.groupId).getD
    (.new pkt.header.groupId pkt.header.groupDataNum pkt.header.encodeTime)

/-- The packet that `ReplyACK` sends. -/
def ackFor (dataPkts : List DataPacket) (lastPktId : UInt16) : AckPacket where
  toNetworkPacketMeta := .init
  pktInfos := dataPkts.map (·.groupInfo)
  lastPktId := lastPktId

def replyACK (dataPkts : List DataPacket) (lastPktId : UInt16) (r : PacketReceiverUdp) :
    PacketReceiverUdp :=
  { r with acks := r.acks ++ [ackFor dataPkts lastPktId] }

/-- Hand data packets to the decoder. `none`: it does not return. -/
def decode (dataPkts : List DataPacket) (r : PacketReceiverUdp) : Option PacketReceiverUdp :=
  (r.decoder.decodeDataPacket dataPkts).map fun decoder =>
    { r with
      decoder := decoder
      handed := r.handed ++ dataPkts }

/-- File the group as complete, if it is. -/
def checkComplete (groupId : UInt32) (group : PacketGroup) (r : PacketReceiverUdp) :
    PacketReceiverUdp :=
  if group.checkComplete then
    { r with
      oneWayDispersion :=
        if group.avgPktInterval > Time.microSeconds 0 then group.avgPktInterval
        else r.oneWayDispersion
      completeGroups := r.completeGroups.insert groupId group
      incompleteGroups := r.incompleteGroups.erase groupId }
  else r

/-- One round of the loop over the incomplete groups. -/
def checkTimeout (rcvTime : Time) (r : PacketReceiverUdp)
    (entry : Sigma fun _ : UInt32 => PacketGroup) : PacketReceiverUdp :=
  if rcvTime > entry.2.encodeTime + r.delayDdl then
    { r with
      timeoutGroups := r.timeoutGroups.insert entry.2.groupId entry.2
      incompleteGroups := r.incompleteGroups.erase entry.1 }
  else r

def checkTimeouts (rcvTime : Time) (r : PacketReceiverUdp) : PacketReceiverUdp :=
  r.incompleteGroups.entries.foldl (checkTimeout rcvTime) r

/-- What is left to do after the acknowledgement. The necessity check stands here. -/
def fileGroups (groupId : UInt32) (group : PacketGroup) (rcvTime : Time)
    (r : PacketReceiverUdp) : PacketReceiverUdp :=
  if groupId ∈ r.completeGroups then r
  else if groupId ∈ r.timeoutGroups then r
  else (r.checkComplete groupId group).checkTimeouts rcvTime

/-- `ReceiveUdpPacket`. `none`: an assertion fails or the decoder does not return. -/
def receiveUdpPacket (r : PacketReceiverUdp) (a : Arrival) : Option PacketReceiverUdp := do
  let groupId := a.pkt.header.groupId
  let (decodePkts, group) ← (r.groupOf a.pkt).receive a.now a.pick a.pkt
  let r := { r with incompleteGroups := r.incompleteGroups.insert groupId group }
  let r ← r.decode decodePkts
  let r := r.replyACK decodePkts a.pkt.header.globalId
  some (r.fileGroups groupId group a.pkt.info.rcvTime)

/-! ## What one packet does -/

/-- The state in which the groups are filed. -/
def beforeFiling (groupId : UInt32) (group : PacketGroup) (decoder : VideoDecoder)
    (decodePkts : List DataPacket) (lastPktId : UInt16) (r : PacketReceiverUdp) :
    PacketReceiverUdp :=
  { r with
    incompleteGroups := r.incompleteGroups.insert groupId group
    decoder := decoder
    handed := r.handed ++ decodePkts
    acks := r.acks ++ [ackFor decodePkts lastPktId] }

theorem receiveUdpPacket_eq_some {r r' : PacketReceiverUdp} {a : Arrival} :
    r.receiveUdpPacket a = some r' ↔ ∃ decodePkts group decoder,
      (r.groupOf a.pkt).receive a.now a.pick a.pkt = some (decodePkts, group) ∧
      r.decoder.decodeDataPacket decodePkts = some decoder ∧
      r' = (r.beforeFiling a.pkt.header.groupId group decoder decodePkts
        a.pkt.header.globalId).fileGroups a.pkt.header.groupId group a.pkt.info.rcvTime := by
  simp only [receiveUdpPacket, decode, Option.bind_eq_bind, Option.bind_eq_some_iff,
    Option.map_eq_some_iff, Option.some.injEq, Prod.exists]
  constructor
  · rintro ⟨decodePkts, group, hreceive, r₁, ⟨decoder, hdecode, rfl⟩, rfl⟩
    exact ⟨decodePkts, group, decoder, hreceive, hdecode, rfl⟩
  · rintro ⟨decodePkts, group, decoder, hreceive, hdecode, rfl⟩
    exact ⟨decodePkts, group, hreceive, _, ⟨decoder, hdecode, rfl⟩, rfl⟩

/-! ## Filing groups leaves the rest alone -/

/-- The parts of the state that filing groups does not touch. -/
structure SameOutput (r r' : PacketReceiverUdp) : Prop where
  delayDdl : r'.delayDdl = r.delayDdl
  decoder : r'.decoder = r.decoder
  handed : r'.handed = r.handed
  acks : r'.acks = r.acks

theorem SameOutput.refl (r : PacketReceiverUdp) : SameOutput r r := ⟨rfl, rfl, rfl, rfl⟩

theorem SameOutput.trans {r₁ r₂ r₃ : PacketReceiverUdp} (h : SameOutput r₁ r₂)
    (h' : SameOutput r₂ r₃) : SameOutput r₁ r₃ :=
  ⟨h'.delayDdl.trans h.delayDdl, h'.decoder.trans h.decoder, h'.handed.trans h.handed,
    h'.acks.trans h.acks⟩

theorem sameOutput_fileGroups (groupId : UInt32) (group : PacketGroup) (rcvTime : Time)
    (r : PacketReceiverUdp) : SameOutput r (r.fileGroups groupId group rcvTime) := by
  have hcheck : SameOutput r (r.checkComplete groupId group) := by
    unfold checkComplete
    split <;> exact ⟨rfl, rfl, rfl, rfl⟩
  have hsweep : SameOutput (r.checkComplete groupId group)
      ((r.checkComplete groupId group).checkTimeouts rcvTime) := by
    apply List.foldlRecOn (motive := SameOutput (r.checkComplete groupId group)) _ _ (.refl _)
    intro s hs entry _
    apply hs.trans
    unfold checkTimeout
    split <;> exact ⟨rfl, rfl, rfl, rfl⟩
  unfold fileGroups
  split
  · exact .refl r
  · split
    · exact .refl r
    · exact hcheck.trans hsweep

/-- What a packet makes available is handed to the decoder and acknowledged. -/
theorem receiveUdpPacket_output {r r' : PacketReceiverUdp} {a : Arrival}
    (h : r.receiveUdpPacket a = some r') : ∃ decodePkts group,
      (r.groupOf a.pkt).receive a.now a.pick a.pkt = some (decodePkts, group) ∧
      r.decoder.decodeDataPacket decodePkts = some r'.decoder ∧
      r'.handed = r.handed ++ decodePkts ∧
      r'.acks = r.acks ++ [ackFor decodePkts a.pkt.header.globalId] := by
  obtain ⟨decodePkts, group, decoder, hreceive, hdecode, rfl⟩ := receiveUdpPacket_eq_some.mp h
  have hsame := sameOutput_fileGroups a.pkt.header.groupId group a.pkt.info.rcvTime
    (r.beforeFiling a.pkt.header.groupId group decoder decodePkts a.pkt.header.globalId)
  refine ⟨decodePkts, group, hreceive, ?_, hsame.handed, hsame.acks⟩
  rw [hsame.decoder]
  exact hdecode

end PacketReceiverUdp

end Zhuge
