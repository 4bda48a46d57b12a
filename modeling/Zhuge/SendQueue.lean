-- SUMMARY: The sending queue with its events, its windows of sent packets and the controller.
import Zhuge.Lib.Dict
import Zhuge.SenderBasedController
import Zhuge.Time

/-!
# The sending queue

With pacing off each call of `SendFrame` and `SendRtx` schedules a `SendPacket` event at
once, and each `SendPacket` that finds a packet schedules the next one. A `SendPacket` event
sends one packet, records it in the windows and tells the controller.
-/

namespace Zhuge

/-- A frame in `m_queue`. The number says which of the enqueued frames it is. -/
structure QueuedFrame (P : Type) where
  number : Nat
  packetsInFrame : List P
  retransmission : Bool
  frameEncodeTime : Time

/-- What the windows know about a packet. -/
structure SentPacketInfo where
  pktSendTime : Time
  isGoodput : Bool
  pktSize : UInt16

/-- A packet handed to the socket. -/
structure SentRecord (P : Type) where
  frame : Nat
  packet : P
  globalId : UInt16
  /-- The answer of `processSendPacket`. -/
  accepted : Bool

/-- What a packet object says when it is sent. -/
structure PacketLook where
  isGoodput : Bool
  size : UInt32

/-- The part of `PacketSenderUdp` around `m_queue`, for any kind of pointer to a packet. -/
structure SendQueue (P : Type) where
  sendTimeLimit : Time
  queue : List (QueuedFrame P) := []
  ipidCounter : UInt16 := 0
  pktsHistory : Dict UInt16 SentPacketInfo := ∅
  sendWnd : List UInt16 := []
  goodputWnd : List UInt16 := []
  goodputPktsInwnd : UInt64 := 0
  totalPktsInwnd : UInt64 := 0
  pacingInterval : Time := 0
  controller : SenderBasedController := {}
  /-- The `SendPacket` events that are scheduled. -/
  pending : Nat := 0
  /-- The packets of all frames so far, in the order of the calls. -/
  enqueued : List (List P) := []
  sent : List (SentRecord P) := []

namespace SendQueue

variable {P : Type}

/-- `m_send_wnd_size`. -/
def sendWndSize : Nat := 10000

/-- `m_goodput_wnd_size`, in microseconds. -/
def goodputWndSize : UInt64 := 50000

/-- `(uint64_t) t.GetMicroSeconds ()`. -/
def toUs (t : Time) : UInt64 := .ofInt (Time.getMicroSeconds t)

/-! ## Enqueuing -/

/-- The loop of `Calculate_pacing_rate` over the frames. `none` is a division by zero. -/
def pacingLoop (sendTimeLimit now : Time) :
    List (QueuedFrame P) → UInt32 → Time → Option Time
  | [], _, pacingInterval => some pacingInterval
  | frame :: frames, numPacketsLeft, pacingInterval =>
    if frame.retransmission then pacingLoop sendTimeLimit now frames numPacketsLeft pacingInterval
    else
      let numPacketsLeft := numPacketsLeft + .ofNat frame.packetsInFrame.length
      if numPacketsLeft = 0 then none
      else
        let timeBeforeDdlLeft := sendTimeLimit + frame.frameEncodeTime - now
        let intervalMax : Time := timeBeforeDdlLeft.tdiv numPacketsLeft.toNat
        pacingLoop sendTimeLimit now frames numPacketsLeft
          (if 0 < timeBeforeDdlLeft ∧ intervalMax < pacingInterval then intervalMax
          else pacingInterval)

def calculatePacingRate (now : Time) (s : SendQueue P) : Option (SendQueue P) :=
  (pacingLoop s.sendTimeLimit now s.queue 0 s.pacingInterval).map fun pacingInterval =>
    { s with pacingInterval }

/-- `SendPacket` is scheduled to run at once. -/
def scheduleSend (s : SendQueue P) : SendQueue P := { s with pending := s.pending + 1 }

/-- The new frame of `SendFrame` and `SendRtx`. -/
def newFrame (packets : List P) (retransmission : Bool) (frameEncodeTime : Time)
    (s : SendQueue P) : QueuedFrame P :=
  { number := s.enqueued.length, packetsInFrame := packets, retransmission, frameEncodeTime }

/-- `SendFrame`, for packets the first of which has this encode time. -/
def sendFrame (now : Time) (packets : List P) (encodeTime : Time) (s : SendQueue P) :
    Option (SendQueue P) :=
  if packets.isEmpty then none
  else
    (calculatePacingRate now { s with
      queue := s.queue ++ [s.newFrame packets false encodeTime]
      enqueued := s.enqueued ++ [packets] }).map scheduleSend

def sendRtx (now : Time) (packets : List P) (encodeTime : Time) (s : SendQueue P) :
    Option (SendQueue P) :=
  if packets.isEmpty then none
  else
    (calculatePacingRate now { s with
      queue := s.newFrame packets true encodeTime :: s.queue
      enqueued := s.enqueued ++ [packets] }).map scheduleSend

/-! ## Sending -/

/-- The loop over `m_goodput_wnd`: packets that were sent too long ago leave it. `none` is a
packet without an entry in the history. -/
def trimGoodput (pktsHistory : Dict UInt16 SentPacketInfo) (nowUs : UInt64) :
    List UInt16 → UInt64 → UInt64 → Option (List UInt16 × UInt64 × UInt64)
  | [], total, goodput => some ([], total, goodput)
  | id :: rest, total, goodput =>
    match pktsHistory.lookup id with
    | none => none
    | some info =>
      if toUs info.pktSendTime < nowUs - goodputWndSize then
        trimGoodput pktsHistory nowUs rest (total - info.pktSize.toUInt64)
          (if info.isGoodput then goodput - info.pktSize.toUInt64 else goodput)
      else some (id :: rest, total, goodput)

/-- The loop over `m_send_wnd`: the oldest packets leave the history. -/
def trimSendWnd : List UInt16 → Dict UInt16 SentPacketInfo →
    Option (List UInt16 × Dict UInt16 SentPacketInfo)
  | [], pktsHistory => some ([], pktsHistory)
  | id :: rest, pktsHistory =>
    if sendWndSize < (id :: rest).length then
      if (pktsHistory.lookup id).isSome then trimSendWnd rest (pktsHistory.erase id) else none
    else some (id :: rest, pktsHistory)

/-- The two windows and the history after a packet with id `m_IPIDCounter` was sent. -/
def recordSent (now : Time) (look : PacketLook) (s : SendQueue P) : Option (SendQueue P) := do
  let pktSize := look.size.toUInt16
  let info : SentPacketInfo := { pktSendTime := now, isGoodput := look.isGoodput, pktSize }
  let pktsHistory := s.pktsHistory.insert s.ipidCounter info
  let (goodputWnd, totalPktsInwnd, goodputPktsInwnd) ←
    trimGoodput pktsHistory (toUs now) (s.goodputWnd ++ [s.ipidCounter])
      (s.totalPktsInwnd + pktSize.toUInt64)
      (if look.isGoodput then s.goodputPktsInwnd + pktSize.toUInt64 else s.goodputPktsInwnd)
  let (sendWnd, pktsHistory) ← trimSendWnd (s.sendWnd ++ [s.ipidCounter]) pktsHistory
  some { s with
    pktsHistory, sendWnd, goodputWnd, totalPktsInwnd, goodputPktsInwnd
    ipidCounter := s.ipidCounter + 1 }

/-- The first packet has left the frame: an empty frame leaves the queue. -/
def popPacket (now : Time) (frame : QueuedFrame P) (rest : List P)
    (frames : List (QueuedFrame P)) (s : SendQueue P) : Option (SendQueue P) :=
  if rest.isEmpty then calculatePacingRate now { s with queue := frames }
  else some { s with queue := { frame with packetsInFrame := rest } :: frames }

/-- `SendPacket`, an event that was scheduled. `look` says what the packet objects say at that
time. -/
def sendPacket (now : Time) (look : P → PacketLook) (s : SendQueue P) : Option (SendQueue P) :=
  let s := { s with pending := s.pending - 1 }
  match s.queue with
  | [] => some s
  | frame :: frames =>
    match frame.packetsInFrame with
    | [] => none
    | packet :: rest => do
      let (accepted, controller) ← s.controller.processSendPacket (toUs now) s.ipidCounter
        (look packet).size
      let record : SentRecord P :=
        { frame := frame.number, packet, globalId := s.ipidCounter, accepted }
      let s ← recordSent now (look packet) { s with controller, sent := s.sent ++ [record] }
      let s ← s.popPacket now frame rest frames
      some s.scheduleSend

/-! ## Events -/

inductive Event (P : Type)
  | sendFrame (now : Time) (packets : List P) (encodeTime : Time)
  | sendRtx (now : Time) (packets : List P) (encodeTime : Time)
  | sendPacket (now : Time) (look : P → PacketLook)

def step (s : SendQueue P) : Event P → Option (SendQueue P)
  | .sendFrame now packets encodeTime => s.sendFrame now packets encodeTime
  | .sendRtx now packets encodeTime => s.sendRtx now packets encodeTime
  | .sendPacket now look => s.sendPacket now look

end SendQueue

end Zhuge
