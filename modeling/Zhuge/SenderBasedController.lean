-- SUMMARY: The base class of the congestion controllers: its records of sent and acknowledged packets.
import Mathlib.Data.UInt
import Zhuge.Lib.Run
import Zhuge.Lib.Serial

/-!
# The sender-based controller

Sequences (16 bits) and timestamps in microseconds (64 bits) wrap, and `lessThan`
compares them on the circle. A function that can hit a failing assertion, an access out
of range or an invalidated iterator returns an `Option`, and `none` stands for all three.
-/

namespace Zhuge

/-! ## Order on the circle -/

/-- The template `lessThan`. -/
def lessThan {α : Type} [Sub α] [LT α] (lhs rhs : α) : Prop :=
  rhs - lhs < lhs - rhs

instance {α : Type} [Sub α] [LT α] [DecidableLT α] (lhs rhs : α) :
    Decidable (lessThan lhs rhs) := inferInstanceAs (Decidable (_ < _))

/-- `UINT = uint16_t`. -/
theorem lessThan_iff_sequence {a b : UInt16} :
    lessThan a b ↔ 0 < (b - a).toNat ∧ (b - a).toNat < 32768 := by
  have h : lessThan a b ↔ Serial.Before a.toBitVec b.toBitVec := by
    simp [lessThan, Serial.Before, UInt16.lt_iff_toBitVec_lt]
  rw [h, Serial.before_iff, ← UInt16.toBitVec_sub, UInt16.toNat_toBitVec]
  omega

/-- `UINT = uint64_t`. -/
theorem lessThan_iff_time {a b : UInt64} :
    lessThan a b ↔ 0 < (b - a).toNat ∧ (b - a).toNat < 2 ^ 63 := by
  have h : lessThan a b ↔ Serial.Before a.toBitVec b.toBitVec := by
    simp [lessThan, Serial.Before, UInt64.lt_iff_toBitVec_lt]
  rw [h, Serial.before_iff, ← UInt64.toBitVec_sub, UInt64.toNat_toBitVec]
  omega

/-! ## The state -/

structure PacketRecord where
  sequence : UInt16
  txTimestampUs : UInt64
  size : UInt32
  owdUs : UInt64
  rttUs : UInt64
deriving Repr, DecidableEq

/-- The lengths of the intervals between losses, the most recent one first. -/
structure InterLossState where
  intervals : List UInt16 := [0]
  expectedSeq : UInt16 := 0
  /-- Did the first loss happen? -/
  initialized : Bool := false
deriving Repr, DecidableEq

/-- `MAX_INTER_PACKET_TIME_US`. -/
def maxInterPacketTimeUs : UInt64 := 500 * 1000

/-- `DEFAULT_HISTORY_LENGTH_US`. -/
def defaultHistoryLengthUs : UInt64 := 500 * 1000

/-- `MIN_PACKET_LOGLEN`. -/
def minPacketLoglen : Nat := 1

structure SenderBasedController where
  firstSend : Bool := true
  lastSequence : UInt16 := 0
  baseDelayUs : UInt64 := 0
  /-- Sent packets without feedback yet. -/
  inTransitPackets : List PacketRecord := []
  /-- All sent packets. -/
  packetTransitHistory : List PacketRecord := []
  /-- Packets with feedback. -/
  packetHistory : List PacketRecord := []
  recvHistory : List PacketRecord := []
  pktSizeSum : UInt32 := 0
  lastRecvSequence : UInt16 := 0
  ilState : InterLossState := {}
  lost : UInt32 := 0
  lastFractionLoss : UInt8 := 0
  lossCounter : Int := 0
  historyLengthUs : UInt64 := defaultHistoryLengthUs
deriving Repr, DecidableEq

namespace SenderBasedController

/-! ## Sending -/

/-- The record of a packet when it is sent. -/
def sentRecord (txTimestampUs : UInt64) (sequence : UInt16) (size : UInt32) : PacketRecord :=
  { sequence, txTimestampUs, size, owdUs := 0, rttUs := 0 }

/-- The loop over `m_PacketTransitHistory` erases a record with the new sequence and
then increments the iterator that `erase` has invalidated. -/
def recordSent (record : PacketRecord) (history : List PacketRecord) :
    Option (List PacketRecord) :=
  if ∃ r ∈ history, r.sequence = record.sequence then none
  else some (history ++ [record])

/-- Packets that have been in transit for over ten times the maximal gap are forgotten. -/
def evictOld (txTimestampUs : UInt64) (inTransit : List PacketRecord) : List PacketRecord :=
  inTransit.dropWhile fun r =>
    lessThan (r.txTimestampUs + 10 * maxInterPacketTimeUs) txTimestampUs

/-- `m_lastSequence` once it is incremented for a packet with this sequence. -/
def nextSequence (sequence : UInt16) (c : SenderBasedController) : UInt16 :=
  if c.firstSend then sequence else c.lastSequence + 1

def processSendPacket (txTimestampUs : UInt64) (sequence : UInt16) (size : UInt32)
    (c : SenderBasedController) : Option (Bool × SenderBasedController) :=
  let lastSequence := c.nextSequence sequence
  let c := { c with lastSequence, firstSend := false }
  if sequence ≠ lastSequence then some (false, c)
  else
    let record := sentRecord txTimestampUs lastSequence size
    (recordSent record c.packetTransitHistory).map fun packetTransitHistory =>
      (true, { c with
        inTransitPackets := evictOld txTimestampUs (c.inTransitPackets ++ [record])
        packetTransitHistory })

/-! ## Feedback -/

/-- The part of `updateInterLossData` that edits the intervals. -/
def updateIntervals (sequence : UInt16) (il : InterLossState) : Option InterLossState :=
  if sequence = il.expectedSeq then
    match il.intervals with
    | [] => none
    | i :: rest =>
      some { il with intervals := (i + 1) :: rest, expectedSeq := il.expectedSeq + 1 }
  else if lessThan il.expectedSeq sequence then
    let intervals := 1 :: il.intervals
    some
      { intervals := if 9 < intervals.length then intervals.dropLast else intervals
        expectedSeq := sequence + 1
        initialized := true }
  else none

def updateInterLossData (packet : PacketRecord) (c : SenderBasedController) :
    Option SenderBasedController :=
  let il : InterLossState :=
    if c.packetHistory.isEmpty then { expectedSeq := packet.sequence } else c.ilState
  (updateIntervals packet.sequence il).map fun ilState => { c with ilState }

/-- The bytes sent since the last acknowledged packet, that one excluded. The sequences
are compared as plain numbers here. -/
def intvlPseudoSize (nowUs : UInt64) (sequence : UInt16) (c : SenderBasedController) : UInt32 :=
  ((c.packetTransitHistory.filter fun r =>
    c.lastRecvSequence < r.sequence ∧ r.sequence ≤ sequence ∧
      nowUs - r.txTimestampUs < 1000000).map PacketRecord.size).sum

/-- The loop that drops packets older than the history from its front, for the last
timestamp `lastUs`. -/
def collectGarbage (historyLengthUs lastUs : UInt64) :
    List PacketRecord → UInt32 → Option (List PacketRecord × UInt32)
  | [], _ => none
  | r :: rest, pktSizeSum =>
    if lessThan lastUs r.txTimestampUs then none
    else if lessThan lastUs (r.txTimestampUs + historyLengthUs) then
      some (r :: rest, pktSizeSum)
    else if pktSizeSum < r.size then none
    else collectGarbage historyLengthUs lastUs rest (pktSizeSum - r.size)

/-- The check of the packet's send time against the last acknowledged one: `none` when it
decreases, and a history that is too old is cleared. -/
def clearObsolete (packet : PacketRecord) (c : SenderBasedController) :
    Option SenderBasedController :=
  match c.packetHistory.getLast? with
  | none => some c
  | some lastPacket =>
    if lessThan packet.txTimestampUs lastPacket.txTimestampUs then none
    else if lessThan (lastPacket.txTimestampUs + maxInterPacketTimeUs) packet.txTimestampUs then
      some { c with packetHistory := [], pktSizeSum := 0 }
    else some c

/-- The packet's one-way delay, and the base delay it may lower. -/
def measureDelay (nowUs rxTimestampUs : UInt64) (packet : PacketRecord)
    (c : SenderBasedController) : PacketRecord × SenderBasedController :=
  let owdUs := rxTimestampUs - packet.txTimestampUs
  ({ packet with owdUs, rttUs := nowUs - packet.txTimestampUs },
    { c with
      baseDelayUs :=
        if c.packetHistory.isEmpty ∨ lessThan owdUs c.baseDelayUs then owdUs
        else c.baseDelayUs })

/-- The packet goes into both histories with the bytes it stands for. -/
def recordReceived (nowUs : UInt64) (packet : PacketRecord) (c : SenderBasedController) :
    Option SenderBasedController :=
  let packet := { packet with size := c.intvlPseudoSize nowUs packet.sequence }
  (collectGarbage c.historyLengthUs packet.txTimestampUs (c.packetHistory ++ [packet])
    (c.pktSizeSum + packet.size)).map fun (packetHistory, pktSizeSum) =>
    { c with
      lastRecvSequence := packet.sequence
      packetHistory
      recvHistory := c.recvHistory ++ [packet]
      pktSizeSum }

/-- The rest of `processFeedback` for the packet that the feedback is about, once it has
left `m_inTransitPackets`. -/
def acknowledge (nowUs rxTimestampUs : UInt64) (packet : PacketRecord)
    (c : SenderBasedController) : Option (Bool × SenderBasedController) :=
  match c.clearObsolete packet with
  | none => some (false, c)
  | some c =>
    if packet.owdUs ≠ 0 ∨ packet.rttUs ≠ 0 then none
    else
      let (packet, c) := c.measureDelay nowUs rxTimestampUs packet
      ((c.updateInterLossData packet).bind (recordReceived nowUs packet)).map (true, ·)

/-- The packets in front of `sequence` are taken for lost. -/
def dropStale (sequence : UInt16) (c : SenderBasedController) : SenderBasedController :=
  let stale := c.inTransitPackets.takeWhile fun r => lessThan r.sequence sequence
  { c with
    lost := .ofNat stale.length
    lossCounter := c.lossCounter + stale.length
    inTransitPackets := c.inTransitPackets.dropWhile fun r => lessThan r.sequence sequence }

def processFeedback (nowUs : UInt64) (sequence : UInt16) (rxTimestampUs : UInt64)
    (c : SenderBasedController) : Option (Bool × SenderBasedController) :=
  if lessThan c.lastSequence sequence then some (false, c)
  else
    match c.inTransitPackets.getLast? with
    | none => some (true, c)
    | some newest =>
      if newest.sequence ≠ c.lastSequence then none
      else
        let c := c.dropStale sequence
        match c.inTransitPackets with
        | [] => none
        | packet :: rest =>
          if lessThan sequence packet.sequence then some (true, c)
          else if sequence ≠ packet.sequence then none
          else { c with inTransitPackets := rest }.acknowledge nowUs rxTimestampUs packet

def updateLossRate (lossQ8 : UInt8) (c : SenderBasedController) : SenderBasedController :=
  { c with lastFractionLoss := lossQ8 }

/-! ## The transit history -/

/-- `PrunTransitHistory`. The loop looks at the front of the deque without a test that
there is one. -/
def prunTransitHistory (tarSeq : UInt32) (c : SenderBasedController) :
    Option SenderBasedController :=
  match c.packetTransitHistory.dropWhile fun r => r.sequence.toUInt32 < tarSeq with
  | [] => none
  | r :: rest => some { c with packetTransitHistory := r :: rest }

/-- The search is from the back; `-1` is returned for a packet that is not found. -/
def getPacketTxTimestamp (sequence : UInt16) (c : SenderBasedController) : UInt64 :=
  match c.packetTransitHistory.reverse.find? (·.sequence = sequence) with
  | some r => r.txTimestampUs
  | none => -1

def getPacketSize (sequence : UInt16) (c : SenderBasedController) : UInt64 :=
  match c.packetTransitHistory.find? (·.sequence = sequence) with
  | some r => r.size.toUInt64
  | none => -1

/-! ## Metrics -/

/-- The least value over the last fifteen packets of the history, from the back. -/
def tabMin (value : PacketRecord → UInt64) (history : List PacketRecord) : Option UInt64 :=
  ((history.reverse.take 15).map value).min?

/-- The queueing delay, `none` for an empty history. -/
def getCurrentQdelay (c : SenderBasedController) : Option UInt64 :=
  tabMin (fun r => r.owdUs - c.baseDelayUs) c.packetHistory

def getCurrentRTT (c : SenderBasedController) : Option UInt64 :=
  tabMin PacketRecord.rttUs c.packetHistory

/-- The outer `none` is the failing assertion, the inner one a history too short. The pair is
`nLoss` and `nPkt`; the loss ratio is their quotient. -/
def getPktLossInfo (c : SenderBasedController) : Option (Option (UInt32 × UInt32)) :=
  if c.packetHistory.length < minPacketLoglen then some none
  else
    match c.packetHistory.head?, c.packetHistory.getLast? with
    | some front, some back =>
      let seqSpan : UInt16 := 1 + back.sequence - front.sequence
      if seqSpan.toNat < c.packetHistory.length then none
      else some (some (.ofNat (seqSpan.toNat - c.packetHistory.length), seqSpan.toUInt32))
    | _, _ => none

/-- The loop of `getCurrentRecvRate` over `m_recvHistory` from index `i` down: the index,
the time and the bytes it ends with. The outer `none` is an index out of range, the inner
one the early return. -/
def recvWindow (history : List PacketRecord) (lastRxUs : UInt64) :
    Nat → UInt64 → UInt32 → Option (Option (Nat × UInt64 × UInt32))
  | i, curr, pktcnt =>
    if lastRxUs - curr < 1000000 then
      match history[i]? with
      | none => none
      | some r =>
        let curr := min (r.txTimestampUs + r.owdUs) lastRxUs
        match i with
        | 0 => some none
        | i + 1 => recvWindow history lastRxUs i curr (pktcnt + r.size)
    else some (some (i, curr, pktcnt))

/-- The receive rate, and how many records leave the front of `m_recvHistory`. The outer
`none` is an assertion that fails or an index out of range, the inner one that there is no
rate. A rate is the bits received and the microseconds they took. -/
def recvRate (c : SenderBasedController) : Option (Option (UInt32 × UInt64) × Nat) :=
  match c.packetHistory.head?, c.packetHistory.getLast? with
  | some front, some back =>
    let firstRxUs := front.txTimestampUs + front.owdUs
    let lastRxUs := back.txTimestampUs + back.owdUs
    if ¬ lessThan firstRxUs (lastRxUs + 1) ∨ lastRxUs - firstRxUs = 0 then some (none, 0)
    else if c.recvHistory.isEmpty then none
    else
      (recvWindow c.recvHistory lastRxUs (c.recvHistory.length - 1) lastRxUs 0).bind fun
      | none => some (none, 0)
      | some (i, curr, pktcnt) =>
        (c.recvHistory[i]?).bind fun r =>
          let bytes := if r.size < pktcnt then pktcnt - r.size else pktcnt
          if c.pktSizeSum < front.size then none
          else some (some (bytes * 8, lastRxUs - curr), i + 1)
  | _, _ => some (none, 0)

def getCurrentRecvRate (c : SenderBasedController) :
    Option (Option (UInt32 × UInt64) × SenderBasedController) :=
  c.recvRate.map fun (rate, popped) =>
    (rate, { c with recvHistory := c.recvHistory.drop popped })

/-! ## Reset -/

/-- `reset` leaves the transit history, the packet history, the last received sequence and
the loss counters as they are. -/
def reset (c : SenderBasedController) : SenderBasedController :=
  { c with
    firstSend := true
    lastSequence := 0
    baseDelayUs := 0
    inTransitPackets := []
    recvHistory := []
    pktSizeSum := 0
    ilState := {}
    historyLengthUs := defaultHistoryLengthUs }

/-! ## Calls and their answers -/

/-- The calls that a caller or a derived controller gets an answer from. -/
inductive Call
  | processSendPacket (txTimestampUs : UInt64) (sequence : UInt16) (size : UInt32)
  | processFeedback (nowUs : UInt64) (sequence : UInt16) (rxTimestampUs : UInt64)
  | getPacketTxTimestamp (sequence : UInt16)
  | getPacketSize (sequence : UInt16)
  | getCurrentQdelay
  | getPktLossInfo
  | getCurrentRecvRate
deriving Repr, DecidableEq

inductive Answer
  | accepted (ok : Bool)
  | value (v : UInt64)
  | qdelay (v : Option UInt64)
  | lossInfo (v : Option (UInt32 × UInt32))
  | recvRate (v : Option (UInt32 × UInt64))
deriving Repr, DecidableEq

def call (c : SenderBasedController) : Call → Option (Answer × SenderBasedController)
  | .processSendPacket txTimestampUs sequence size =>
    (c.processSendPacket txTimestampUs sequence size).map (Prod.map .accepted id)
  | .processFeedback nowUs sequence rxTimestampUs =>
    (c.processFeedback nowUs sequence rxTimestampUs).map (Prod.map .accepted id)
  | .getPacketTxTimestamp sequence => some (.value (c.getPacketTxTimestamp sequence), c)
  | .getPacketSize sequence => some (.value (c.getPacketSize sequence), c)
  | .getCurrentQdelay => some (.qdelay c.getCurrentQdelay, c)
  | .getPktLossInfo => c.getPktLossInfo.map fun info => (.lossInfo info, c)
  | .getCurrentRecvRate => c.getCurrentRecvRate.map (Prod.map .recvRate id)

/-- Everything that can happen to a controller. -/
inductive Event
  | call (call : Call)
  | updateLossRate (lossQ8 : UInt8)
  | prunTransitHistory (tarSeq : UInt32)
  | setHistoryLength (lenUs : UInt64)
  | reset

def step (c : SenderBasedController) : Event → Option SenderBasedController
  | .call call => (c.call call).map Prod.snd
  | .updateLossRate lossQ8 => some (c.updateLossRate lossQ8)
  | .prunTransitHistory tarSeq => c.prunTransitHistory tarSeq
  | .setHistoryLength lenUs => some { c with historyLengthUs := lenUs }
  | .reset => some c.reset

/-! ## Feedback and the record of sent packets -/

theorem clearObsolete_transitHistory {packet : PacketRecord} {c c' : SenderBasedController}
    (h : c.clearObsolete packet = some c') :
    c'.packetTransitHistory = c.packetTransitHistory := by
  simp only [clearObsolete] at h
  split at h
  · cases h; rfl
  · split_ifs at h <;> cases h <;> rfl

theorem updateInterLossData_transitHistory {packet : PacketRecord}
    {c c' : SenderBasedController} (h : c.updateInterLossData packet = some c') :
    c'.packetTransitHistory = c.packetTransitHistory := by
  obtain ⟨il, -, rfl⟩ := Option.map_eq_some_iff.mp h
  rfl

theorem recordReceived_transitHistory {nowUs : UInt64} {packet : PacketRecord}
    {c c' : SenderBasedController} (h : c.recordReceived nowUs packet = some c') :
    c'.packetTransitHistory = c.packetTransitHistory := by
  obtain ⟨collected, -, rfl⟩ := Option.map_eq_some_iff.mp h
  rfl

theorem acknowledge_transitHistory {nowUs rxTimestampUs : UInt64} {packet : PacketRecord}
    {c c' : SenderBasedController} {ok : Bool}
    (h : c.acknowledge nowUs rxTimestampUs packet = some (ok, c')) :
    c'.packetTransitHistory = c.packetTransitHistory := by
  simp only [acknowledge] at h
  cases hclear : c.clearObsolete packet with
  | none => rw [hclear] at h; cases h; rfl
  | some d =>
      simp only [hclear] at h
      split at h
      · cases h
      · obtain ⟨e, hbind, heq⟩ := Option.map_eq_some_iff.mp h
        obtain ⟨f, hloss, hrecord⟩ := Option.bind_eq_some_iff.mp hbind
        cases heq
        rw [recordReceived_transitHistory hrecord, updateInterLossData_transitHistory hloss,
          ← clearObsolete_transitHistory hclear]
        rfl

/-- Feedback leaves the record of sent packets alone. -/
theorem processFeedback_transitHistory {nowUs : UInt64} {sequence : UInt16}
    {rxTimestampUs : UInt64} {c c' : SenderBasedController} {ok : Bool}
    (h : c.processFeedback nowUs sequence rxTimestampUs = some (ok, c')) :
    c'.packetTransitHistory = c.packetTransitHistory := by
  simp only [processFeedback] at h
  split at h
  · cases h; rfl
  · split at h
    · cases h; rfl
    · split at h
      · cases h
      · split at h
        · cases h
        · split at h
          · cases h; rfl
          · split at h
            · cases h
            · exact (acknowledge_transitHistory h).trans rfl

end SenderBasedController

end Zhuge
