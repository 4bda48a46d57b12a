-- SUMMARY: The receiver's window of arrivals and the network feedback that is made from it.
import Zhuge.Packet
import Zhuge.SenderBasedController

/-!
# The window of arrivals

`OnSocketRecv_receiver` enters every video packet in `m_record`, in the order of the
16-bit ids, after it has removed entries that are too old. `Feedback_NetState` is run by
a timer: it reads losses off the record and reports the arrivals it has not reported yet.

The loop that removes old entries erases from the deque it iterates over, which C++
leaves undefined. Here it may miss any of the old entries.
-/

namespace Zhuge

namespace RcvTime

/-- The id as the comparisons see it. -/
def id (rt : RcvTime) : UInt16 := rt.pktId.toUInt16

end RcvTime

/-- `lessThan_simple`. -/
def lessThanSimple (id1 id2 : UInt16) : Prop := id2 - id1 < id1 - id2

instance (id1 id2 : UInt16) : Decidable (lessThanSimple id1 id2) :=
  inferInstanceAs (Decidable (_ < _))

theorem lessThanSimple_irrefl (a : UInt16) : ¬ lessThanSimple a a := UInt16.lt_irrefl _

theorem lessThanSimple_asymm {a b : UInt16} (h : lessThanSimple a b) : ¬ lessThanSimple b a :=
  fun h' => UInt16.lt_irrefl _ (UInt16.lt_trans h h')

/-- What `Feedback_NetState` puts into the `NetStates` object. The loss rate and the
throughput are the quotients of their numbers. -/
structure NetFeedback where
  lossRate : UInt32 × UInt16
  /-- Bytes over microseconds. -/
  throughput : UInt32 × UInt32
  fecGroupDelayUs : UInt16
  lossSeq : List Int32
  recvtimeHist : List RcvTime

structure ReceiveWindow where
  record : List RcvTime
  lastFeedback : UInt16
  timeWndSize : UInt32
  lastId : UInt16
  pktsInWnd : UInt16
  bytesInWnd : UInt32
  lossesInWnd : UInt32
  lossRate : UInt32 × UInt16
  oneWayDispersion : Time
  feedbackInterval : Time
  /-- When `m_feedbackTimer` runs out, if it is running. -/
  feedbackTimer : Option Time

namespace ReceiveWindow

/-- The constructor and `StartApplication`. -/
def init (wndsize : UInt32) (interval : UInt16) : ReceiveWindow where
  record := []
  lastFeedback := 65535
  timeWndSize := wndsize
  lastId := 0
  pktsInWnd := 0
  bytesInWnd := 0
  lossesInWnd := 0
  lossRate := (0, 1)
  oneWayDispersion := Time.microSeconds 180
  feedbackInterval := Time.milliSeconds interval.toNat
  feedbackTimer := none

/-! ## An arrival -/

/-- Older than the window, the difference being taken in `uint32_t`. -/
def expired (timeWndSize rxTime : UInt32) (rt : RcvTime) : Bool := rt.rtUs < rxTime - timeWndSize

/-- The entries that the loop erases: those of the expired ones that `removed` picks. -/
def erased (timeWndSize rxTime : UInt32) (removed : ℕ → Bool) (entry : RcvTime × ℕ) : Bool :=
  expired timeWndSize rxTime entry.1 && removed entry.2

/-- The record after the loop over the expired entries. -/
def kept (rxTime : UInt32) (removed : ℕ → Bool) (s : ReceiveWindow) : List RcvTime :=
  (s.record.zipIdx.filter fun entry => !erased s.timeWndSize rxTime removed entry).map (·.1)

/-- Sliding the window. -/
def slide (rxTime : UInt32) (removed : ℕ → Bool) (s : ReceiveWindow) : ReceiveWindow :=
  let gone := s.record.zipIdx.filter (erased s.timeWndSize rxTime removed)
  { s with
    record := s.kept rxTime removed
    bytesInWnd := gone.foldl (fun bytes entry => bytes - entry.1.pktSize) s.bytesInWnd }

/-- The search from the end: `rt` goes behind the last entry that is before it. `none`: there
is no such entry, and `rt` is not entered. -/
def insertBehind (rt : RcvTime) : List RcvTime → Option (List RcvTime)
  | [] => none
  | entry :: record =>
    match insertBehind rt record with
    | some record' => some (entry :: record')
    | none => if lessThanSimple entry.id rt.id then some (entry :: rt :: record) else none

/-- Inserting the new packet into the record that the loop has left. -/
def insert (rt : RcvTime) : List RcvTime → List RcvTime
  | [] => [rt]
  | front :: record =>
    if lessThanSimple rt.id front.id then rt :: front :: record
    else (insertBehind rt (front :: record)).getD (front :: record)

/-- The time of an arrival as `RcvTime` has it. -/
def rxTimeOf (now : Time) : UInt32 := UInt32.ofNat (Time.getMicroSeconds now).toNat

/-- The entry for a packet. -/
def arrival (now : Time) (id : UInt16) (size : UInt32) : RcvTime :=
  ⟨id.toUInt32, rxTimeOf now, size⟩

/-- The statistics in `OnSocketRecv_receiver`, for a video packet with global id `id`. -/
def onSocketRecv (now : Time) (id : UInt16) (size : UInt32) (removed : ℕ → Bool)
    (s : ReceiveWindow) : ReceiveWindow :=
  let rt := arrival now id size
  let s :=
    if s.record.isEmpty then
      { s with
        record := [rt]
        lastId := id
        feedbackTimer :=
          if s.feedbackTimer.isNone then some (now + s.feedbackInterval) else s.feedbackTimer }
    else
      let s := s.slide (rxTimeOf now) removed
      { s with record := insert rt s.record }
  { s with bytesInWnd := s.bytesInWnd + size }

/-! ## Feedback -/

/-- The variables of the loop in `Feedback_NetState`. -/
structure Scan where
  prevId : UInt32
  first : Bool
  consecutiveRecv : Int32
  lossSeq : List Int32
  lossesInWnd : UInt32
  lastFeedback : UInt16
  recvSample : List RcvTime

namespace Scan

/-- Before the loop. -/
def start (lastFeedback : UInt16) (record : List RcvTime) : Scan where
  prevId := (record.head?.elim 0 (·.pktId)) - 1
  first := true
  consecutiveRecv := 0
  lossSeq := []
  lossesInWnd := 0
  lastFeedback := lastFeedback
  recvSample := []

/-- The run of received packets goes on, or it ends and lost packets follow. -/
def countLosses (rt : RcvTime) (isLast : Bool) (scan : Scan) : Scan :=
  let id := rt.pktId
  let gap := (id - scan.prevId + 65536) % 65536
  if gap = 1 then
    let consecutiveRecv := scan.consecutiveRecv + 1
    { scan with
      consecutiveRecv := consecutiveRecv
      lossSeq := if isLast then scan.lossSeq ++ [consecutiveRecv] else scan.lossSeq }
  else
    { scan with
      consecutiveRecv := 1
      lossSeq := scan.lossSeq ++ [scan.consecutiveRecv, (1 - gap).toInt32]
      lossesInWnd := scan.lossesInWnd + (id - scan.prevId - 1) }

/-- An arrival ahead of all reported ones is reported. -/
def sample (rt : RcvTime) (scan : Scan) : Scan :=
  if lessThanSimple scan.lastFeedback rt.id then
    { scan with recvSample := scan.recvSample ++ [rt], lastFeedback := rt.id }
  else scan

def setPrevId (prevId : UInt32) (scan : Scan) : Scan := { scan with prevId := prevId }

def setFirst (first : Bool) (scan : Scan) : Scan := { scan with first := first }

/-- A round of the loop behind the assertion. -/
def round (rt : RcvTime) (isLast : Bool) (scan : Scan) : Scan :=
  (((scan.setFirst false).countLosses rt isLast).sample rt).setPrevId rt.pktId

/-- The loop. `none`: the record is not ordered, and the assertion fails. -/
def loop (scan : Scan) : List RcvTime → Option Scan
  | [] => some scan
  | rt :: record =>
    if ¬ scan.first ∧ ¬ lessThanSimple scan.prevId.toUInt16 rt.id then none
    else loop (scan.round rt record.isEmpty) record

end Scan

/-- The number of ids from the first entry of the record to the last. -/
def countPkts (record : List RcvTime) : UInt16 :=
  match record.head?, record.getLast? with
  | some front, some back =>
    if record.length > 1 then ((back.pktId - front.pktId + 65537) % 65536).toUInt16 else 0
  | _, _ => 0

/-- `Feedback_NetState`. `none`: its assertion fails. -/
def feedbackNetState (now : Time) (s : ReceiveWindow) : Option (ReceiveWindow × NetFeedback) := do
  let pktsInWnd := countPkts s.record
  let scan ← (Scan.start s.lastFeedback s.record).loop s.record
  let lossRate := if pktsInWnd ≥ 1 then (scan.lossesInWnd, pktsInWnd) else s.lossRate
  return (
    { s with
      lastFeedback := scan.lastFeedback
      pktsInWnd := pktsInWnd
      lossesInWnd := scan.lossesInWnd
      lossRate := lossRate
      feedbackTimer := some (now + s.feedbackInterval) },
    { lossRate := lossRate
      throughput := (s.bytesInWnd, s.timeWndSize)
      fecGroupDelayUs := UInt16.ofInt (Time.getMicroSeconds s.oneWayDispersion)
      lossSeq := scan.lossSeq
      recvtimeHist := scan.recvSample })

end ReceiveWindow

end Zhuge
