-- SUMMARY: The FastAck queue: early acknowledgements for transmitted segments, and a cache to retransmit from.
import Zhuge.Lib.Run
import Zhuge.Time

/-!
# FastAck

`NetworkQueueFastAck` remembers the length of every data segment that arrives from
the sender. Once the downlink device has transmitted a segment, `CheckAck` looks
the length up and acknowledges the segment in the client's place.

A segment carries the position of its first byte in the stream, which the program
does not see: the header has it modulo 2³². The first data byte is at position 1.
-/

namespace Zhuge

structure Segment where
  destination : UInt32
  protocol : UInt8
  /-- Of the IP packet: the TCP header and the data. -/
  payloadSize : UInt16
  flags : UInt8
  /-- The TCP header with its options. -/
  headerSize : ℕ
  pos : ℕ
deriving DecidableEq

namespace Segment

/-- `GetSequenceNumber`. -/
def seq (seg : Segment) : UInt32 := UInt32.ofNat seg.pos

/-- The number of data bytes. -/
def dataSize (seg : Segment) : ℕ := seg.payloadSize.toNat - seg.headerSize

/-- A TCP segment for the client. -/
def isTcpTo (recvIP : UInt32) (seg : Segment) : Bool :=
  seg.destination == recvIP && seg.protocol == 6

end Segment

/-- A TCP packet of the client. -/
structure ClientPacket where
  destination : UInt32
  protocol : UInt8
  flags : UInt8
  ackNumber : UInt32
  windowSize : UInt16

/-- An acknowledgement made by `CreateAckPkt`, sent after `delay`. -/
structure FastAck where
  ackNumber : UInt32
  windowSize : UInt16
  identification : UInt16
  delay : Time
  /-- The position in the stream that the number stands for. -/
  pos : ℕ

structure NetworkQueueFastAck where
  mode : Int
  ccCreate : Bool
  sendIP : UInt32
  recvIP : UInt32
  rxWinSize : UInt16
  lastAckId : UInt16
  lastAckNumber : UInt32
  expAckNumber : UInt32
  highestSeq : UInt32
  lastRcvAck : UInt32
  dupNumber : UInt32
  sndTimeHistory : List (UInt32 × UInt32)
  sndLengthHistory : List (UInt32 × UInt16)
  qseq : List Segment
  cache : List Segment
  /-- The `CheckAck` events on the simulator's calendar. -/
  pendingChecks : ℕ
  /-- The acknowledgements made so far, the latest last. -/
  acks : List FastAck
  /-- The client's packets passed on to the sender. -/
  forwarded : List ClientPacket
  /-- The segments sent to the client once more. -/
  retransmitted : List Segment

namespace NetworkQueueFastAck

/-- The state after `InitSocket`. The code initialises neither `cc_create`, which it sets to
itself, nor the identification and the count of duplicates. -/
def init (mode : Int) (ccCreate : Bool) (sendIP recvIP : UInt32) (lastAckId : UInt16)
    (dupNumber : UInt32) : NetworkQueueFastAck where
  mode := mode
  ccCreate := ccCreate
  sendIP := sendIP
  recvIP := recvIP
  rxWinSize := 65535
  lastAckId := lastAckId
  lastAckNumber := 0
  expAckNumber := 1
  highestSeq := 1
  lastRcvAck := 0
  dupNumber := dupNumber
  sndTimeHistory := []
  sndLengthHistory := []
  qseq := []
  cache := []
  pendingChecks := 1
  acks := []
  forwarded := []
  retransmitted := []

/-! ## Segments from the sender -/

/-- `OnRecv_rcvdev`: the segment is remembered under its sequence number. -/
def onRecvRcvdev (now : Time) (packet : Segment) (s : NetworkQueueFastAck) :
    NetworkQueueFastAck :=
  if s.ccCreate ∧ packet.isTcpTo s.recvIP ∧ packet.flags = 16 ∧ packet.payloadSize > 20 then
    let sndTime := UInt32.ofNat (Time.getMilliSeconds now).toNat - 25
    let sndLength := packet.payloadSize - 20
    let seq := packet.seq
    { s with
      sndTimeHistory := s.sndTimeHistory ++ [(seq, sndTime)]
      sndLengthHistory := s.sndLengthHistory ++ [(seq, sndLength)]
      highestSeq := if seq = s.expAckNumber then seq else s.highestSeq
      expAckNumber := seq + sndLength.toUInt32
      cache := s.cache ++ [packet] }
  else s

/-! ## Acknowledging transmitted segments -/

/-- Where the two histories both have `seq`, and the length they have there. -/
def remembered (seq : UInt32) (s : NetworkQueueFastAck) : Option (ℕ × UInt16) := do
  let i ← (s.sndTimeHistory.zip s.sndLengthHistory).findIdx?
    fun entry => entry.1.1 == seq && entry.2.1 == seq
  let entry ← s.sndLengthHistory[i]?
  return (i, entry.2)

def forget (i : ℕ) (s : NetworkQueueFastAck) : NetworkQueueFastAck :=
  { s with
    sndTimeHistory := s.sndTimeHistory.eraseIdx i
    sndLengthHistory := s.sndLengthHistory.eraseIdx i }

/-- The acknowledgement of a segment that is remembered with `length` bytes. -/
def createAck (pktToAck : Segment) (length : UInt16) (s : NetworkQueueFastAck) :
    NetworkQueueFastAck :=
  let ackNumber := pktToAck.seq + length.toUInt32
  { s with
    lastAckId := s.lastAckId + 1
    lastAckNumber := ackNumber
    acks := s.acks ++
      [{ ackNumber := ackNumber
         windowSize := s.rxWinSize
         identification := s.lastAckId + 1
         delay := if s.mode = 0 then 0 else Time.milliSeconds 16
         pos := pktToAck.pos + length.toNat }] }

/-- One round of the loop in `CreateAckPkt`, which takes the front of `m_Qseq`. -/
def examine (pktToAck : Segment) (s : NetworkQueueFastAck) : NetworkQueueFastAck :=
  if pktToAck.isTcpTo s.recvIP then
    if pktToAck.seq = s.lastAckNumber then
      match s.remembered pktToAck.seq with
      | some (i, _) => s.forget i
      | none => s
    else
      match s.remembered pktToAck.seq with
      | some (i, length) => (s.createAck pktToAck length).forget i
      | none => s
  else s

/-- The loop of `CreateAckPkt` from the round `index` on. The size of the queue is read
again before every round. -/
def createAckLoop (index : ℕ) (s : NetworkQueueFastAck) : List Segment → NetworkQueueFastAck
  | [] => { s with qseq := [] }
  | pktToAck :: qseq =>
    if index < qseq.length + 1 then createAckLoop (index + 1) (s.examine pktToAck) qseq
    else { s with qseq := pktToAck :: qseq }

def createAckPkt (s : NetworkQueueFastAck) : NetworkQueueFastAck := createAckLoop 0 s s.qseq

/-- `if(m_Qseq.size()>0){CreateAckPkt();}` and the next `CheckAck`. -/
def ackAndSchedule (s : NetworkQueueFastAck) : NetworkQueueFastAck :=
  let s := if s.qseq.length > 0 then s.createAckPkt else s
  { s with pendingChecks := s.pendingChecks + 1 }

/-- The start of `CheckAck`: its event is off the calendar, and the device's list is taken. -/
def collect (packetList : List Segment) (s : NetworkQueueFastAck) : NetworkQueueFastAck :=
  { s with qseq := s.qseq ++ packetList, pendingChecks := s.pendingChecks - 1 }

@[simp] theorem recvIP_collect (packetList : List Segment) (s : NetworkQueueFastAck) :
    (s.collect packetList).recvIP = s.recvIP := rfl

@[simp] theorem acks_collect (packetList : List Segment) (s : NetworkQueueFastAck) :
    (s.collect packetList).acks = s.acks := rfl

/-- `CheckAck`, given the packets that the device has put on its list since the last time. Any
mode but 0 acknowledges and schedules twice. -/
def checkAck (packetList : List Segment) (s : NetworkQueueFastAck) : NetworkQueueFastAck :=
  let s := s.collect packetList
  if s.mode = 0 then s.ackAndSchedule else s.ackAndSchedule.ackAndSchedule

/-! ## Acknowledgements of the client -/

/-- The order of `SequenceNumber32`: `a > b`. -/
def seqGt (a b : UInt32) : Bool :=
  (a > b && a - b ≤ 0x7fffffff) || (b > a && b - a > 0x7fffffff)

/-- The third acknowledgement of `seq`: the segment at `seq` is sent again from the cache. -/
def retransmit (seq : UInt32) (s : NetworkQueueFastAck) : NetworkQueueFastAck :=
  match s.cache.findIdx? fun packet => packet.seq == seq with
  | some i =>
    { s with
      retransmitted := s.retransmitted ++ s.cache[i]?.toList
      cache := s.cache.eraseIdx i }
  | none => s

/-- The cache without the segments up to one that ends at `m_LastRcvAck`. -/
def trimCache (s : NetworkQueueFastAck) : NetworkQueueFastAck :=
  match s.cache.findIdx? fun packet =>
      packet.seq + (packet.payloadSize.toUInt32 - 20) == s.lastRcvAck with
  | some i => { s with cache := s.cache.drop (i + 1) }
  | none => s

/-- `OnRecv_snddev`: pure acknowledgements end here, other packets for the sender go on. -/
def onRecvSnddev (packet : ClientPacket) (s : NetworkQueueFastAck) : NetworkQueueFastAck :=
  if packet.destination = s.sendIP ∧ packet.protocol = 6 then
    if packet.flags = 16 then
      let s := { s with rxWinSize := packet.windowSize }
      let seq := packet.ackNumber
      if seq = s.lastRcvAck then
        let s := { s with dupNumber := s.dupNumber + 1 }
        if s.dupNumber = 3 then s.retransmit seq else s
      else if seqGt seq s.lastRcvAck then
        { ({ s with dupNumber := 1 } : NetworkQueueFastAck).trimCache with lastRcvAck := seq }
      else s
    else { s with forwarded := s.forwarded ++ [packet] }
  else s

end NetworkQueueFastAck

/-! ## The queue and its downlink device -/

structure FastAckLink where
  queue : NetworkQueueFastAck
  /-- `m_PacketList` of the device: transmitted and not yet taken by `CheckAck`. -/
  packetList : List Segment
  /-- All packets ever transmitted. -/
  transmitted : List Segment

namespace FastAckLink

inductive Event where
  | recvRcvdev (now : Time) (packet : Segment)
  | transmit (packet : Segment)
  | checkAck
  | recvSnddev (packet : ClientPacket)

/-- One handler. `none`: no `CheckAck` is on the calendar. -/
def step (s : FastAckLink) : Event → Option FastAckLink
  | .recvRcvdev now packet => some { s with queue := s.queue.onRecvRcvdev now packet }
  | .transmit packet =>
    some { s with
      packetList := s.packetList ++ [packet]
      transmitted := s.transmitted ++ [packet] }
  | .checkAck =>
    if s.queue.pendingChecks = 0 then none
    else some { s with queue := s.queue.checkAck s.packetList, packetList := [] }
  | .recvSnddev packet => some { s with queue := s.queue.onRecvSnddev packet }

end FastAckLink

end Zhuge
