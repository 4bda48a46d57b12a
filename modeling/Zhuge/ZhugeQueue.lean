-- SUMMARY: The whole Zhuge queue: ticks, packets from the sender, and the feedback sent back in the client's place.
import Zhuge.AckHold
import Zhuge.Packet
import Zhuge.TxRate

/-!
# The feedback of the Zhuge queue

A packet of the flow that passes `OnRecv_rcvdev` is marked, and one millisecond
later `Sendback` builds the report that the client would have sent for it, with the
delay that the queues promise. Until then further packets are only tallied, so that
the bytes behind the marked packet can be taken off. `UpdateTxRate` ticks beside
this; for TCP, `SetAckDelay` feeds the acknowledgement hold instead.

What `NetworkPacket::ToInstance` makes of a datagram is a field of the datagram.
-/

namespace Zhuge

/-! ## Packets at the access point -/

/-- A packet with its IP header in front, as the device hands it to `OnRecv_rcvdev`. -/
structure DownlinkPacket where
  source : UInt32
  destination : UInt32
  identification : UInt16
  protocol : UInt8
  /-- Of the IP header: the bytes after it. -/
  payloadSize : UInt16
  ipHeaderSize : UInt32
  /-- `GetSize`. -/
  size : UInt32
  /-- Of the UDP header. -/
  sourcePort : UInt16
  /-- Of the TCP header. -/
  flags : UInt8
  /-- What `ToInstance` makes of the datagram. `none`: the null pointer. -/
  toInstance : Option NetworkPacket
  /-- The bytes that `ToInstance` leaves. -/
  restSize : UInt32
  /-- An IP header has at least 20 bytes, and the packet has it. -/
  header_mem : 20 ≤ ipHeaderSize ∧ ipHeaderSize ≤ size
deriving DecidableEq

namespace DownlinkPacket

/-- `GetSize` after the IP header is removed. -/
def bodySize (packet : DownlinkPacket) : UInt32 := packet.size - packet.ipHeaderSize

/-- A packet from the sender to the receiver, of any protocol. -/
def isBetween (sendIP recvIP : UInt32) (packet : DownlinkPacket) : Bool :=
  packet.source == sendIP && packet.destination == recvIP

/-- A UDP packet sent from `port`. -/
def isUdpFrom (port : UInt16) (packet : DownlinkPacket) : Bool :=
  packet.protocol == 17 && packet.sourcePort == port

end DownlinkPacket

/-- A packet in the queue of a device, behind the header of the link. -/
structure LinkFrame where
  linkHeaderSize : UInt32
  packet : DownlinkPacket
deriving DecidableEq

namespace LinkFrame

/-- `GetSize`. -/
def size (frame : LinkFrame) : UInt32 := frame.linkHeaderSize + frame.packet.size

def removeLinkHeader (frame : LinkFrame) : LinkFrame := { frame with linkHeaderSize := 0 }

/-- How `UpdateTxRate` reads a frame. -/
def ops : HeaderOps LinkFrame where
  removePpp := removeLinkHeader
  removeLlcSnap := removeLinkHeader
  identification frame := frame.packet.identification
  destination frame := frame.packet.destination

end LinkFrame

/-- The queue of the device in front of `m_mode`. -/
def Observation.device (mode : Int) (o : Observation LinkFrame) : QueueView LinkFrame :=
  if mode = 0 then { o.wmq with items := o.wmq.items.map (·.packet) } else o.dlQueue

/-- Remembering a header where `UpdateTxRate` remembers that of the head. -/
def TxEstimator.remember (id : UInt16) (ipaddr : UInt32) (s : TxEstimator) : TxEstimator :=
  { s with lastHeadId := id, lastHeadDstAddr := ipaddr }

/-! ## The object -/

/-- The fields of `NetworkQueueZhuge`: those of the tick, those of the acknowledgement hold, and
those of the feedback. -/
structure ZhugeQueue extends TxEstimator, NetworkQueueZhuge where
  recvIP : UInt32
  sendPort : UInt16
  ccCreate : Bool
  fastAckRtx : Bool
  curQSizeByte : UInt32
  cache : List DownlinkPacket
  scheduleFlag : Bool
  extraBytes : UInt32
  sndbackPkt : Option NetworkPacket
  pktSize : UInt32
  lastId : UInt16
  /-- The `Sendback` events on the simulator's calendar. -/
  pendingSendbacks : ℕ
  /-- What the NETSTATE packets built so far carry, the latest last. -/
  built : List NetStates
  /-- Those that were sent. -/
  sent : List NetStates

namespace ZhugeQueue

/-! ## The delay that the queues promise -/

/-- The scan from the back of the device's queue, its last packet first: down to the bytes ahead
of the last UDP packet from `sendPort`. -/
def scanTail (sendPort : UInt16) (curQSizeByte : UInt32) : List LinkFrame → UInt32
  | [] => curQSizeByte
  | tailpkt :: frames =>
    let curQSizeByte := curQSizeByte - tailpkt.size
    if tailpkt.packet.isUdpFrom sendPort then curQSizeByte
    else scanTail sendPort curQSizeByte frames

/-- `m_curQSizeByte` as `CalculateTotalDelayMs` sets it. `none`: `NS_FATAL_ERROR`. -/
def queueAhead (extraByte : UInt32) (o : Observation LinkFrame) (s : ZhugeQueue) :
    Option UInt32 :=
  let device := o.device s.mode
  if extraByte > o.qdiscBytes then
    some (scanTail s.sendPort device.nBytes device.items.reverse)
  else if s.mode = 0 ∨ s.mode = 1 then
    some (max (o.qdiscBytes + device.nBytes - extraByte) 0)
  else none

/-- `kAmpduMaxWaitMs`. -/
def kAmpduMaxWaitMs : UInt32 := 5

/-- The time to send what is ahead, truncated to whole milliseconds. -/
def curQDelayMs (s : ZhugeQueue) : UInt32 :=
  if s.mode = 0 ∧ s.curQSizeByte ≤ kAmpduMaxWaitMs * s.curTxRateBps / 1000 / 8 ∧
      s.curQSizeByte ≥ s.lastQSizeByte then 0
  else
    let bits := Binary64.ofNat (s.curQSizeByte * 8).toNat
    let delay := Binary64.mul (.ofNat 1000) (.div bits (.ofNat s.curTxRateBps.toNat))
    UInt32.ofNat ⌊delay.val⌋₊

/-- `CalculateTotalDelayMs`: the delay, and the state with `m_curQSizeByte`. -/
def calculateTotalDelayMs (extraByte : UInt32) (o : Observation LinkFrame) (s : ZhugeQueue) :
    Option (UInt32 × ZhugeQueue) :=
  (s.queueAhead extraByte o).map fun curQSizeByte =>
    let s := { s with curQSizeByte }
    let curQHeadTimeMs := if s.mode = 0 then s.curQHeadTimeMs else 0
    let curTxTimeMs := s.curTxDelayUs / 1000
    (s.curQDelayMs + curQHeadTimeMs + curTxTimeMs, s)

/-- `SetAckDelay`. -/
def setAckDelay (now : Time) (o : Observation LinkFrame) (s : ZhugeQueue) : Option ZhugeQueue :=
  (s.calculateTotalDelayMs 0 o).map fun (curTotalDelayMs, s) =>
    { s with
      toNetworkQueueZhuge :=
        s.toNetworkQueueZhuge.setAckDelay now curTotalDelayMs s.curQSizeByte }

/-! ## Packets from the sender -/

/-- `extra_bytes += bytes`, while a packet is marked. -/
def tally (bytes : UInt32) (s : ZhugeQueue) : ZhugeQueue :=
  if s.scheduleFlag then { s with extraBytes := s.extraBytes + bytes } else s

/-- Marking a packet: `Sendback` will report it in a millisecond. -/
def mark (packet : DownlinkPacket) (s : ZhugeQueue) : ZhugeQueue :=
  { s with
    sndbackPkt := packet.toInstance
    pktSize := packet.restSize
    extraBytes := 0
    scheduleFlag := true
    pendingSendbacks := s.pendingSendbacks + 1 }

/-- Keeping a data segment of TCP, to be sent again. -/
def keep (packet : DownlinkPacket) (s : ZhugeQueue) : ZhugeQueue :=
  if packet.flags = 16 ∧ packet.payloadSize > 20 ∧ s.fastAckRtx then
    { s with cache := s.cache ++ [packet] }
  else s

/-- The branch for TCP. The delay is not recorded in the first three seconds. -/
def recvTcp (now : Time) (packet : DownlinkPacket) (o : Observation LinkFrame) (s : ZhugeQueue) :
    Option ZhugeQueue :=
  (if now > Time.milliSeconds 3000 ∧ packet.flags = 16 then s.setAckDelay now o
    else some s).map (keep packet)

/-- The branch for UDP. -/
def recvUdp (packet : DownlinkPacket) (s : ZhugeQueue) : ZhugeQueue :=
  if packet.sourcePort ≠ s.sendPort then s.tally packet.bodySize
  else if s.scheduleFlag then s.tally packet.bodySize
  else s.mark packet

def note (packet : DownlinkPacket) (s : ZhugeQueue) : ZhugeQueue :=
  { s with
    toTxEstimator := s.toTxEstimator.remember packet.identification packet.destination }

/-- `OnRecv_rcvdev`. `none`: the program ends with an error. -/
def onRecvRcvdev (now : Time) (packet : DownlinkPacket) (o : Observation LinkFrame)
    (s : ZhugeQueue) : Option ZhugeQueue :=
  if ¬ packet.isBetween s.sendIP s.recvIP then
    if s.ccCreate then some s
    else some (s.tally (packet.size - 20))
  else
    let s := s.note packet
    if s.ccCreate then
      if packet.protocol = 6 ∧ packet.destination = s.recvIP then s.recvTcp now packet o
      else some s
    else if packet.protocol = 17 then some (s.recvUdp packet)
    else some s

/-! ## Feedback -/

/-- Whether a global id is newer than the last one reported. The operands are promoted before
they are compared and subtracted. -/
def isFresh (id lastId : UInt16) : Bool :=
  id.toUInt32 > lastId.toUInt32 || lastId.toUInt32 - id.toUInt32 > 32768

/-- The value pushed to `loss_seq`. -/
def lossValue (id lastId : UInt16) : UInt32 :=
  (id.toUInt32 + 65536 - lastId.toUInt32) % 65536

/-- The report on a DATA packet. -/
def report (now : Time) (curTotalDelayMs : UInt32) (id : UInt16) (s : ZhugeQueue) : NetStates where
  lossRate := .ofNat 0
  throughputKbps := s.curTxRateBps >>> 10
  fecGroupDelayUs := 0
  lossSeq := [(lossValue id s.lastId).toNat]
  recvtimeHist :=
    [{ pktId := id.toUInt32
       rtUs := UInt32.ofNat (Time.getMicroSeconds now).toNat + curTotalDelayMs * 1000
       pktSize := s.pktSize }]

/-- Building the NETSTATE packet, and sending it if `m_wirtcEnable`. -/
def build (now : Time) (curTotalDelayMs : UInt32) (id : UInt16) (s : ZhugeQueue) : ZhugeQueue :=
  let netstate := s.report now curTotalDelayMs id
  { s with
    built := s.built ++ [netstate]
    sent := if s.wirtcEnable then s.sent ++ [netstate] else s.sent
    lastId := id }

/-- What `Sendback` does with the marked packet: only DATA packets are reported. -/
def answer (now : Time) (curTotalDelayMs : UInt32) (pkt : NetworkPacket) (s : ZhugeQueue) :
    ZhugeQueue :=
  match pkt with
  | .video (.data pkt) =>
    if isFresh pkt.globalId s.lastId then s.build now curTotalDelayMs pkt.globalId else s
  | _ => s

/-- The start of `Sendback`: its event is off the calendar, and the next packet is marked again. -/
def unmark (s : ZhugeQueue) : ZhugeQueue :=
  { s with scheduleFlag := false, pendingSendbacks := s.pendingSendbacks - 1 }

/-- `Sendback`. `none`: the program ends with an error, such as the null pointer for a packet of
no known type. -/
def sendback (now : Time) (o : Observation LinkFrame) (s : ZhugeQueue) : Option ZhugeQueue :=
  let s := s.unmark
  if s.txBytesList.length = 0 then some s
  else
    (s.calculateTotalDelayMs s.extraBytes o).bind fun (curTotalDelayMs, s) =>
      s.sndbackPkt.map fun pkt => s.answer now curTotalDelayMs pkt

/-! ## Runs -/

/-- The handlers, each with the queues at the time it runs. -/
inductive Event where
  | updateTxRate (o : Observation LinkFrame)
  | recvRcvdev (now : Time) (packet : DownlinkPacket) (o : Observation LinkFrame)
  | sendback (now : Time) (o : Observation LinkFrame)

/-- One handler. `none`: it ends with an error, or it is not on the calendar. -/
def step (s : ZhugeQueue) : Event → Option ZhugeQueue
  | .updateTxRate o =>
    (NetworkQueueZhuge.updateTxRate LinkFrame.ops s.toTxEstimator o).map fun est =>
      { s with toTxEstimator := est }
  | .recvRcvdev now packet o => s.onRecvRcvdev now packet o
  | .sendback now o => if s.pendingSendbacks = 0 then none else s.sendback now o

/-- The arguments of `Setup`, and the fields that the code leaves uninitialised. -/
structure Config where
  wirtcEnable : Bool
  sendIP : UInt32
  recvIP : UInt32
  sendPort : UInt16
  ccCreate : Bool
  fastAckRtx : Bool
  window : UInt16
  unsetAddr : UInt32
  unsetQSizeByte : UInt32
  unsetLastQSizeByte : UInt32
  unsetExtraBytes : UInt32
  unsetPktSize : UInt32

/-- The object after `Setup` and `InitSocket`. -/
def init (mode : Int) (c : Config) : ZhugeQueue where
  mode := mode
  kTxBytesListWindow := c.window
  txBytesList := []
  lastHeadId := 0
  lastHeadDstAddr := c.unsetAddr
  curQHeadTimeMs := 0
  lastTotalTxBytes := 0
  curTxRateBps := kMinTxRateBps
  curTxDelayUs := 0
  toNetworkQueueZhuge := .init c.wirtcEnable c.sendIP c.unsetLastQSizeByte
  recvIP := c.recvIP
  sendPort := c.sendPort
  ccCreate := c.ccCreate
  fastAckRtx := c.fastAckRtx
  curQSizeByte := c.unsetQSizeByte
  cache := []
  scheduleFlag := false
  extraBytes := c.unsetExtraBytes
  sndbackPkt := none
  pktSize := c.unsetPktSize
  lastId := 0
  pendingSendbacks := 0
  built := []
  sent := []

/-! ## What a handler can do -/

variable {now : Time} {packet : DownlinkPacket} {o : Observation LinkFrame} {s s' : ZhugeQueue}

/-- The bytes ahead are found without an error. -/
theorem queueAhead_isSome (hmode : s.mode = 0 ∨ s.mode = 1) (extraByte : UInt32)
    (o : Observation LinkFrame) :
    ∃ curQSizeByte, s.queueAhead extraByte o = some curQSizeByte := by
  unfold queueAhead
  split_ifs <;> exact ⟨_, rfl⟩

/-- `CalculateTotalDelayMs` only sets `m_curQSizeByte`. -/
theorem calculateTotalDelayMs_eq_some {extraByte delay : UInt32}
    (h : s.calculateTotalDelayMs extraByte o = some (delay, s')) :
    ∃ curQSizeByte, s.queueAhead extraByte o = some curQSizeByte ∧
      s' = { s with curQSizeByte } := by
  obtain ⟨curQSizeByte, hahead, hs'⟩ := Option.map_eq_some_iff.mp h
  exact ⟨curQSizeByte, hahead, (Prod.mk.inj hs').2.symm⟩

theorem setAckDelay_eq_some (h : s.setAckDelay now o = some s') :
    ∃ hold curQSizeByte, s' = { s with toNetworkQueueZhuge := hold, curQSizeByte } := by
  obtain ⟨⟨delay, t⟩, ht, rfl⟩ := Option.map_eq_some_iff.mp h
  obtain ⟨curQSizeByte, -, rfl⟩ := calculateTotalDelayMs_eq_some ht
  exact ⟨_, _, rfl⟩

/-- The branch for TCP leaves the tick and the feedback alone. -/
theorem recvTcp_eq_some (h : s.recvTcp now packet o = some s') :
    ∃ hold curQSizeByte cache,
      s' = { s with toNetworkQueueZhuge := hold, curQSizeByte, cache } := by
  obtain ⟨t, ht, rfl⟩ := Option.map_eq_some_iff.mp h
  have hhold : ∃ hold curQSizeByte,
      t = { s with toNetworkQueueZhuge := hold, curQSizeByte } := by
    split_ifs at ht
    · exact setAckDelay_eq_some ht
    · cases ht
      exact ⟨_, _, rfl⟩
  obtain ⟨hold, curQSizeByte, rfl⟩ := hhold
  unfold keep
  split_ifs <;> exact ⟨_, _, _, rfl⟩

/-- What `OnRecv_rcvdev` does without TCP. -/
def recvNoTcp (packet : DownlinkPacket) (s : ZhugeQueue) : ZhugeQueue :=
  if packet.isBetween s.sendIP s.recvIP then
    if packet.protocol = 17 then (s.note packet).recvUdp packet else s.note packet
  else s.tally (packet.size - 20)

theorem onRecvRcvdev_eq (hcc : s.ccCreate = false) :
    s.onRecvRcvdev now packet o = some (s.recvNoTcp packet) := by
  have hnote : (s.note packet).ccCreate = false := hcc
  simp only [onRecvRcvdev, recvNoTcp, hcc, hnote]
  cases packet.isBetween s.sendIP s.recvIP
  · rfl
  · simp only [not_true_eq_false, if_false, if_true, Bool.false_eq_true]
    split_ifs <;> rfl

/-- With TCP it leaves the feedback alone. -/
theorem onRecvRcvdev_eq_some_of_cc (hcc : s.ccCreate = true)
    (h : s.onRecvRcvdev now packet o = some s') :
    ∃ id ipaddr hold curQSizeByte cache,
      s' = { s with
        toTxEstimator := s.toTxEstimator.remember id ipaddr
        toNetworkQueueZhuge := hold
        curQSizeByte, cache } := by
  have hnote : (s.note packet).ccCreate = true := hcc
  simp only [onRecvRcvdev, hcc, hnote, if_true] at h
  split_ifs at h with hhosts htcp
  · obtain ⟨hold, curQSizeByte, cache, rfl⟩ := recvTcp_eq_some h
    exact ⟨_, _, _, _, _, rfl⟩
  · cases h
    exact ⟨_, _, _, _, _, rfl⟩
  · cases h
    exact ⟨_, _, _, _, _, rfl⟩

/-- What `Sendback` can do: give up before the first tick, or find the bytes ahead and then answer
the marked packet. -/
theorem sendback_cases (h : s.sendback now o = some s') :
    (s.txBytesList = [] ∧ s' = s.unmark) ∨
      ∃ curQSizeByte delay pkt, s.txBytesList ≠ [] ∧
        s.unmark.queueAhead s.extraBytes o = some curQSizeByte ∧
        s.sndbackPkt = some pkt ∧ s' = { s.unmark with curQSizeByte }.answer now delay pkt := by
  simp only [sendback] at h
  split_ifs at h with hempty
  · exact .inl ⟨List.length_eq_zero_iff.mp hempty, (Option.some.inj h).symm⟩
  · obtain ⟨⟨delay, t⟩, ht, hanswer⟩ := Option.bind_eq_some_iff.mp h
    obtain ⟨curQSizeByte, hahead, rfl⟩ := calculateTotalDelayMs_eq_some ht
    obtain ⟨pkt, hpkt, rfl⟩ := Option.map_eq_some_iff.mp hanswer
    exact .inr ⟨curQSizeByte, delay, pkt, fun hnil => hempty (List.length_eq_zero_iff.mpr hnil),
      hahead, hpkt, rfl⟩

/-- A `Sendback` on the calendar that finds a packet returns. -/
theorem sendback_isSome (hmode : s.mode = 0 ∨ s.mode = 1) {pkt : NetworkPacket}
    (hpkt : s.sndbackPkt = some pkt) (now : Time) (o : Observation LinkFrame) :
    ∃ s', s.sendback now o = some s' := by
  obtain ⟨curQSizeByte, hahead⟩ := queueAhead_isSome (s := s.unmark) hmode s.unmark.extraBytes o
  have hpkt' : s.unmark.sndbackPkt = some pkt := hpkt
  simp only [sendback, calculateTotalDelayMs, hahead, Option.map_some, Option.bind_some, hpkt']
  split_ifs <;> exact ⟨_, rfl⟩

/-- Without TCP, a packet changes the header that the tick remembers, and what is marked. -/
theorem recvNoTcp_frame (packet : DownlinkPacket) (s : ZhugeQueue) :
    ∃ id ipaddr scheduleFlag extraBytes sndbackPkt pktSize pendingSendbacks,
      s.recvNoTcp packet =
        { s with
          toTxEstimator := s.toTxEstimator.remember id ipaddr
          scheduleFlag, extraBytes, sndbackPkt, pktSize, pendingSendbacks } := by
  unfold recvNoTcp recvUdp tally
  split_ifs <;> exact ⟨_, _, _, _, _, _, _, rfl⟩

/-- An answer changes the reports and the last id. -/
theorem answer_frame (now : Time) (delay : UInt32) (pkt : NetworkPacket) (s : ZhugeQueue) :
    ∃ lastId built sent, s.answer now delay pkt = { s with lastId, built, sent } := by
  unfold answer
  split
  · split_ifs <;> exact ⟨_, _, _, rfl⟩
  · exact ⟨_, _, _, rfl⟩

/-- The other handlers only touch the header that the tick remembers. -/
theorem step_keeps_tick {e : Event} (htick : ∀ o, e ≠ .updateTxRate o)
    (h : s.step e = some s') :
    ∃ id ipaddr, s'.toTxEstimator = s.toTxEstimator.remember id ipaddr := by
  cases e with
  | updateTxRate o => exact absurd rfl (htick o)
  | recvRcvdev now packet o =>
      cases hcc : s.ccCreate with
      | false =>
          cases (onRecvRcvdev_eq hcc).symm.trans h
          obtain ⟨_, _, _, _, _, _, _, hrecv⟩ := recvNoTcp_frame packet s
          rw [hrecv]
          exact ⟨_, _, rfl⟩
      | true =>
          obtain ⟨id, ipaddr, hold, curQSizeByte, cache, rfl⟩ :=
            onRecvRcvdev_eq_some_of_cc hcc h
          exact ⟨_, _, rfl⟩
  | sendback now o =>
      simp only [step] at h
      split_ifs at h
      obtain ⟨-, rfl⟩ | ⟨curQSizeByte, delay, pkt, -, -, -, rfl⟩ := sendback_cases h
      · exact ⟨_, _, rfl⟩
      · obtain ⟨_, _, _, hanswer⟩ := answer_frame now delay pkt { s.unmark with curQSizeByte }
        rw [hanswer]
        exact ⟨_, _, rfl⟩

/-- A tick in mode 1, or in mode 0 with no packet in the queue. -/
theorem step_updateTxRate (h : s.mode = 1 ∨ s.mode = 0 ∧ o.wmqHead = none) :
    s.step (.updateTxRate o) = some { s with
      toTxEstimator := s.toTxEstimator.tick LinkFrame.ops (headOf LinkFrame.ops s.mode o) o } := by
  simp only [step, NetworkQueueZhuge.updateTxRate_eq LinkFrame.ops h, Option.map_some]

/-- In both modes a tick that returns is of that form. -/
theorem eq_tick_of_step (hmode : s.mode = 0 ∨ s.mode = 1)
    (h : s.step (.updateTxRate o) = some s') :
    s' = { s with
      toTxEstimator :=
        s.toTxEstimator.tick LinkFrame.ops (headOf LinkFrame.ops s.mode o) o } := by
  have hform : s.mode = 1 ∨ s.mode = 0 ∧ o.wmqHead = none := by
    by_contra hother
    obtain ⟨hone, hzero⟩ := not_or.mp hother
    have hmode := hmode.resolve_right hone
    have hnone := NetworkQueueZhuge.updateTxRate_eq_none LinkFrame.ops hmode
      (fun hnone => hzero ⟨hmode, hnone⟩)
    simp only [step, hnone, Option.map_none] at h
    cases h
  exact Option.some.inj (h.symm.trans (step_updateTxRate hform))

/-- The mode never changes. -/
theorem mode_step {e : Event} (hmode : s.mode = 0 ∨ s.mode = 1) (h : s.step e = some s') :
    s'.mode = s.mode := by
  by_cases htick : ∃ o, e = .updateTxRate o
  · obtain ⟨o, rfl⟩ := htick
    rw [eq_tick_of_step hmode h]
    exact TxEstimator.mode_tick _ _ _ _
  · obtain ⟨id, ipaddr, hest⟩ := step_keeps_tick (fun o ho => htick ⟨o, ho⟩) h
    rw [hest]
    rfl

end ZhugeQueue

/-! ## A flow to try the queue on -/

/-- Video over UDP from port 7 of host 1 to host 2, with a window of 200 slots. -/
def ZhugeQueue.Config.udpFlow : ZhugeQueue.Config where
  wirtcEnable := true
  sendIP := 1
  recvIP := 2
  sendPort := 7
  ccCreate := false
  fastAckRtx := false
  window := 200
  unsetAddr := 0x66666666
  unsetQSizeByte := 0
  unsetLastQSizeByte := 0
  unsetExtraBytes := 0
  unsetPktSize := 0

/-- A DATA packet of the flow, with the same number as identification and as global id. -/
def DownlinkPacket.ofFlow (id : UInt16) : DownlinkPacket where
  source := 1
  destination := 2
  identification := id
  protocol := 17
  payloadSize := 1008
  ipHeaderSize := 20
  size := 1028
  sourcePort := 7
  flags := 0
  toInstance := some (.video (.data { DataPacket.new 0 954 1 0 with globalId := id }))
  restSize := 954
  header_mem := by decide

/-- The queue of the point-to-point device with some packets of 1028 bytes in it. -/
def Observation.waiting (packets : List DownlinkPacket) : Observation LinkFrame where
  dlQueue :=
    { items := packets.map fun packet => ⟨2, packet⟩
      totalReceivedBytes := UInt32.ofNat (1030 * packets.length)
      nBytes := UInt32.ofNat (1030 * packets.length) }
  wmq := ⟨[], 0, 0⟩
  qdiscBytes := 0

end Zhuge
