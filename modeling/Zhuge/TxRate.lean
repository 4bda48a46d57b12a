-- SUMMARY: The dequeue-rate estimator of the access point, in the two copies the code has of it.
import Zhuge.Lib.Run
import Zhuge.Time

/-!
# The dequeue rate

Once a millisecond `UpdateTxRate` looks at the queue of the downlink device and
pushes one slot: the bytes that left since the last tick, `0` if none did although
some wait, `-1` if the queue is empty. The slots of the last
`kTxBytesListWindow` ticks give the rate and the delay. `NetworkQueueZhuge` and
`NetworkQueueAbc` each have a copy of the routine.

The header classes belong to the simulator and are parameters here.
-/

namespace Zhuge

/-! ## What a tick reads -/

/-- Removing a link header, and reading the identification and the destination of the IP header. -/
structure HeaderOps (Pkt : Type) where
  removePpp : Pkt → Pkt
  removeLlcSnap : Pkt → Pkt
  identification : Pkt → UInt16
  destination : Pkt → UInt32

/-- What `UpdateTxRate` reads of a queue. -/
structure QueueView (Item : Type) where
  items : List Item
  totalReceivedBytes : UInt32
  nBytes : UInt32

/-- A frame in the queue of the Wi-Fi device. -/
structure WifiItem (Pkt : Type) where
  isAction : Bool
  packet : Pkt

/-- The queues behind `m_dlQueue`, `m_wmq` and `m_qdisc` at a tick. -/
structure Observation (Pkt : Type) where
  dlQueue : QueueView Pkt
  wmq : QueueView (WifiItem Pkt)
  qdiscBytes : UInt32

namespace Observation

variable {Pkt : Type}

def dlHead (o : Observation Pkt) : Option Pkt := o.dlQueue.items.head?

/-- The first frame that is not an action frame. -/
def wmqHead (o : Observation Pkt) : Option Pkt :=
  (o.wmq.items.find? fun item => !item.isAction).map (·.packet)

/-- Bytes that have left the queue, modulo 2³². -/
def totalTxBytes (mode : Int) (o : Observation Pkt) : UInt32 :=
  if mode = 0 then o.wmq.totalReceivedBytes - o.wmq.nBytes
  else o.dlQueue.totalReceivedBytes - o.dlQueue.nBytes

/-- `emptyqueue`, which is true of a queue that is not. -/
def emptyqueue (mode : Int) (o : Observation Pkt) : Bool :=
  if mode = 0 then 0 < o.wmq.nBytes else 0 < o.dlQueue.nBytes

end Observation

/-! ## The state that both copies keep -/

/-- `kTxBytesListInterval`. -/
def kTxBytesListInterval : Time := Time.milliSeconds 1

/-- `kMinTxRateBps`. -/
def kMinTxRateBps : UInt32 := (500 : UInt32) <<< 10

structure TxEstimator where
  mode : Int
  kTxBytesListWindow : UInt16
  txBytesList : List Int32
  lastHeadId : UInt16
  lastHeadDstAddr : UInt32
  curQHeadTimeMs : UInt32
  lastTotalTxBytes : UInt32
  curTxRateBps : UInt32
  curTxDelayUs : UInt32

namespace TxEstimator

variable {Pkt : Type}

/-- The branch without a head packet. -/
def noHead (s : TxEstimator) : TxEstimator := { s with curQHeadTimeMs := 0 }

/-- How long the head packet, its link header removed, has been at the head. -/
def updateHead (ops : HeaderOps Pkt) (pkt : Pkt) (s : TxEstimator) : TxEstimator :=
  let id := ops.identification pkt
  let ipaddr := ops.destination pkt
  if id ≠ s.lastHeadId ∨ ipaddr ≠ s.lastHeadDstAddr then
    { s with lastHeadId := id, lastHeadDstAddr := ipaddr, curQHeadTimeMs := 0 }
  else
    { s with
      curQHeadTimeMs :=
        s.curQHeadTimeMs + UInt32.ofNat (Time.getMilliSeconds kTxBytesListInterval).toNat }

/-- The slot of this tick. The difference is taken in `uint32_t` and stored as `int32_t`. -/
def slot (curTotalTxBytes lastTotalTxBytes : UInt32) (emptyqueue : Bool) : Int32 :=
  if curTotalTxBytes > lastTotalTxBytes then (curTotalTxBytes - lastTotalTxBytes).toInt32
  else if emptyqueue then 0
  else -1

/-- Pushing the slot and popping the front while the list is longer than the window. -/
def pushSlot (o : Observation Pkt) (s : TxEstimator) : TxEstimator :=
  let curTotalTxBytes := o.totalTxBytes s.mode
  let txBytesList :=
    s.txBytesList ++ [slot curTotalTxBytes s.lastTotalTxBytes (o.emptyqueue s.mode)]
  { s with
    txBytesList := txBytesList.drop (txBytesList.length - s.kTxBytesListWindow.toNat)
    lastTotalTxBytes := curTotalTxBytes }

end TxEstimator

/-- The counters of the pass over `m_txBytesList`. -/
structure SlotSums where
  txBytesSum : UInt32
  txIdleSlotSum : UInt32
  txBusySlotSum : UInt32

namespace SlotSums

def add (sums : SlotSums) (slot : Int32) : SlotSums :=
  if slot > 0 then { sums with txBytesSum := sums.txBytesSum + slot.toUInt32 }
  else if slot = 0 then { sums with txBusySlotSum := sums.txBusySlotSum + 1 }
  else { sums with txIdleSlotSum := sums.txIdleSlotSum + 1 }

def ofList (txBytesList : List Int32) : SlotSums := txBytesList.foldl add ⟨0, 0, 0⟩

end SlotSums

/-- Integer division. `none`: the program divides by zero. -/
def checkedDiv (a b : ℕ) : Option ℕ := if b = 0 then none else some (a / b)

/-- A rate in bits per second out of the bytes sent in a number of slots. -/
def slotRate (txBytesSum : UInt32) (slots : ℕ) : Option UInt32 :=
  (checkedDiv (txBytesSum * 8).toNat ((Time.getMilliSeconds kTxBytesListInterval).toNat * slots)).map
    fun q => UInt32.ofNat (1000 * q)

/-- The average number of slots that a packet waits at the head, in microseconds. -/
def slotDelay (window : UInt16) (size : ℕ) (sums : SlotSums) : Option UInt32 :=
  if sums.txBusySlotSum.toNat < size - sums.txIdleSlotSum.toNat then
    (checkedDiv (1000 * (size - sums.txIdleSlotSum.toNat))
      (size - sums.txIdleSlotSum.toNat - sums.txBusySlotSum.toNat)).map UInt32.ofNat
  else
    some (UInt32.ofNat (window.toNat * (Time.getMicroSeconds kTxBytesListInterval).toNat))

/-! ## The copy of `NetworkQueueZhuge` -/

namespace NetworkQueueZhuge

variable {Pkt : Type}

/-- The packet to look at, if there is one. `none`: `NS_FATAL_ERROR`. -/
def headPkt (mode : Int) (o : Observation Pkt) : Option (Option Pkt) :=
  if mode = 1 then some o.dlHead
  else if mode = 0 then some o.wmqHead
  else none

/-- Removing the link header. The second branch asks for mode 1 once more, so that mode 0
runs into `NS_FATAL_ERROR`. -/
def removeLinkHeader (ops : HeaderOps Pkt) (mode : Int) (pkt : Pkt) : Option Pkt :=
  if mode = 1 then some (ops.removePpp pkt)
  else if mode = 1 then some (ops.removeLlcSnap pkt)
  else none

def updateHeadTime (ops : HeaderOps Pkt) (o : Observation Pkt) (s : TxEstimator) :
    Option TxEstimator := do
  match ← headPkt s.mode o with
  | some pktinfo =>
      let pkt ← removeLinkHeader ops s.mode pktinfo
      return s.updateHead ops pkt
  | none => return s.noHead

/-- The rate and the delay out of the slots in the list. -/
def updateRates (s : TxEstimator) : Option TxEstimator := do
  let size := s.txBytesList.length
  let sums := SlotSums.ofList s.txBytesList
  if sums.txIdleSlotSum.toNat < size then
    let curTxRateBps ← slotRate sums.txBytesSum
      (s.kTxBytesListWindow.toUInt32 - sums.txIdleSlotSum).toNat
    let curTxDelayUs ← slotDelay s.kTxBytesListWindow size sums
    return { s with
      curTxRateBps := max curTxRateBps kMinTxRateBps
      curTxDelayUs := curTxDelayUs }
  else
    return { s with curTxRateBps := max s.curTxRateBps kMinTxRateBps }

/-- `UpdateTxRate`. `none`: the program ends with an error. -/
def updateTxRate (ops : HeaderOps Pkt) (s : TxEstimator) (o : Observation Pkt) :
    Option TxEstimator := do
  let s ← updateHeadTime ops o s
  updateRates (s.pushSlot o)

end NetworkQueueZhuge

/-! ## The copy of `NetworkQueueAbc` -/

/-- What `UpdateFromQueue` is told. The delay is the quotient of the last two numbers. -/
structure QueueReport where
  rateBps : UInt32
  transRateBps : UInt32
  delayBits : UInt32
  delayRate : UInt32

structure NetworkQueueAbc extends TxEstimator where
  curTxTransRateBps : UInt32
  /-- The calls of `UpdateFromQueue` so far, the latest last. -/
  reports : List QueueReport

namespace NetworkQueueAbc

variable {Pkt : Type}

def headPkt (mode : Int) (o : Observation Pkt) : Option Pkt :=
  if mode = 1 then o.dlHead else o.wmqHead

def removeLinkHeader (ops : HeaderOps Pkt) (mode : Int) (pkt : Pkt) : Pkt :=
  if mode = 1 then ops.removePpp pkt else ops.removeLlcSnap pkt

def updateHeadTime (ops : HeaderOps Pkt) (o : Observation Pkt) (s : NetworkQueueAbc) :
    NetworkQueueAbc :=
  match headPkt s.mode o with
  | some pktinfo =>
      { s with
        toTxEstimator := s.toTxEstimator.updateHead ops (removeLinkHeader ops s.mode pktinfo) }
  | none => { s with toTxEstimator := s.toTxEstimator.noHead }

/-- The rates, one over the slots that are not idle and one over the window, and the delay. -/
def updateRates (s : NetworkQueueAbc) : Option NetworkQueueAbc := do
  let size := s.txBytesList.length
  let sums := SlotSums.ofList s.txBytesList
  if sums.txIdleSlotSum.toNat < size then
    let curTxRateBps ← slotRate sums.txBytesSum
      (s.kTxBytesListWindow.toUInt32 - sums.txIdleSlotSum).toNat
    let curTxTransRateBps ← slotRate sums.txBytesSum s.kTxBytesListWindow.toNat
    let curTxDelayUs ← slotDelay s.kTxBytesListWindow size sums
    return { s with
      curTxRateBps := max curTxRateBps kMinTxRateBps
      curTxTransRateBps := max curTxTransRateBps kMinTxRateBps
      curTxDelayUs := curTxDelayUs }
  else
    return { s with
      curTxRateBps := max s.curTxRateBps kMinTxRateBps
      curTxTransRateBps := max s.curTxTransRateBps kMinTxRateBps }

/-- Telling the interface, with the bits that wait in the queueing discipline and in the device. -/
def report (o : Observation Pkt) (s : NetworkQueueAbc) : NetworkQueueAbc :=
  let qsizeAp := if s.mode = 1 then o.dlQueue.nBytes else o.wmq.nBytes
  { s with
    reports := s.reports ++
      [⟨s.curTxRateBps, s.curTxTransRateBps, 1000 * 8 * (o.qdiscBytes + qsizeAp),
        s.curTxRateBps⟩] }

/-- `UpdateTxRate`. `none`: the program ends with an error. -/
def updateTxRate (ops : HeaderOps Pkt) (s : NetworkQueueAbc) (o : Observation Pkt) :
    Option NetworkQueueAbc := do
  let s := updateHeadTime ops o s
  let s ← updateRates { s with toTxEstimator := s.toTxEstimator.pushSlot o }
  return report o s

end NetworkQueueAbc

/-! ## The estimate that both copies compute -/

namespace TxEstimator

variable {Pkt : Type}

/-- The rate over the slots that are not idle. -/
def dequeueRate (s : TxEstimator) : UInt32 :=
  let sums := SlotSums.ofList s.txBytesList
  UInt32.ofNat (1000 *
    ((sums.txBytesSum * 8).toNat / (s.kTxBytesListWindow.toNat - sums.txIdleSlotSum.toNat)))

def dequeueDelay (s : TxEstimator) : UInt32 :=
  let sums := SlotSums.ofList s.txBytesList
  let slots := s.txBytesList.length - sums.txIdleSlotSum.toNat
  if sums.txBusySlotSum.toNat < slots then
    UInt32.ofNat (1000 * slots / (slots - sums.txBusySlotSum.toNat))
  else UInt32.ofNat (s.kTxBytesListWindow.toNat * 1000)

def rates (s : TxEstimator) : TxEstimator :=
  if (SlotSums.ofList s.txBytesList).txIdleSlotSum.toNat < s.txBytesList.length then
    { s with
      curTxRateBps := max s.dequeueRate kMinTxRateBps
      curTxDelayUs := s.dequeueDelay }
  else { s with curTxRateBps := max s.curTxRateBps kMinTxRateBps }

/-- One tick that looks at `head`, a packet without its link header. -/
def tick (ops : HeaderOps Pkt) (head : Option Pkt) (o : Observation Pkt) (s : TxEstimator) :
    TxEstimator :=
  ((head.elim s.noHead fun pkt => s.updateHead ops pkt).pushSlot o).rates

@[simp] theorem mode_noHead (s : TxEstimator) : s.noHead.mode = s.mode := rfl

@[simp] theorem mode_updateHead (ops : HeaderOps Pkt) (pkt : Pkt) (s : TxEstimator) :
    (s.updateHead ops pkt).mode = s.mode := by
  simp only [updateHead]
  split <;> rfl

@[simp] theorem mode_pushSlot (o : Observation Pkt) (s : TxEstimator) :
    (s.pushSlot o).mode = s.mode := rfl

@[simp] theorem mode_rates (s : TxEstimator) : s.rates.mode = s.mode := by
  simp only [rates]
  split <;> rfl

@[simp] theorem mode_tick (ops : HeaderOps Pkt) (head : Option Pkt) (o : Observation Pkt)
    (s : TxEstimator) : (s.tick ops head o).mode = s.mode := by
  cases head <;> simp [tick]

/-- After a push the list fits the window. -/
theorem length_pushSlot_le (o : Observation Pkt) (s : TxEstimator) :
    (s.pushSlot o).txBytesList.length ≤ (s.pushSlot o).kTxBytesListWindow.toNat := by
  simp only [pushSlot, List.length_drop]
  omega

end TxEstimator

/-! ### No division by zero -/

theorem checkedDiv_of_pos {a b : ℕ} (h : 0 < b) : checkedDiv a b = some (a / b) := if_neg h.ne'

/-- With fewer idle slots than the window has, the divisor is their difference. -/
theorem toNat_window_sub {window : UInt16} {idle : UInt32} (h : idle.toNat ≤ window.toNat) :
    (window.toUInt32 - idle).toNat = window.toNat - idle.toNat := by
  rw [UInt32.toNat_sub_of_le _ _ (by simpa [UInt32.le_iff_toNat_le] using h)]
  simp

theorem slotRate_of_pos {txBytesSum : UInt32} {slots : ℕ} (h : 0 < slots) :
    slotRate txBytesSum slots = some (UInt32.ofNat (1000 * ((txBytesSum * 8).toNat / slots))) := by
  have hms : (Time.getMilliSeconds kTxBytesListInterval).toNat = 1 := by decide
  simp only [slotRate, hms, one_mul, checkedDiv_of_pos h, Option.map_some]

theorem slotDelay_eq (s : TxEstimator) :
    slotDelay s.kTxBytesListWindow s.txBytesList.length (SlotSums.ofList s.txBytesList) =
      some s.dequeueDelay := by
  have hus : (Time.getMicroSeconds kTxBytesListInterval).toNat = 1000 := by decide
  simp only [slotDelay, TxEstimator.dequeueDelay]
  split_ifs with hbusy
  · rw [checkedDiv_of_pos (by omega)]
    rfl
  · rw [hus]


/-! ### The copies compute the estimate -/

theorem NetworkQueueZhuge.updateRates_eq {s : TxEstimator}
    (h : s.txBytesList.length ≤ s.kTxBytesListWindow.toNat) :
    updateRates s = some s.rates := by
  simp only [updateRates, TxEstimator.rates]
  split_ifs with hidle
  · rw [toNat_window_sub (by omega), slotRate_of_pos (by omega), slotDelay_eq]
    rfl
  · rfl

theorem NetworkQueueAbc.updateRates_eq {s : NetworkQueueAbc}
    (h : s.txBytesList.length ≤ s.kTxBytesListWindow.toNat) :
    ∃ s', s.updateRates = some s' ∧ s'.toTxEstimator = s.toTxEstimator.rates := by
  simp only [updateRates, TxEstimator.rates]
  split_ifs with hidle
  · rw [toNat_window_sub (by omega), slotRate_of_pos (by omega), slotRate_of_pos (by omega),
      slotDelay_eq]
    exact ⟨_, rfl, rfl⟩
  · exact ⟨_, rfl, rfl⟩

section Tick

variable {Pkt : Type} (ops : HeaderOps Pkt)

/-- The head packet without its link header, as `NetworkQueueAbc` finds it. -/
def headOf (mode : Int) (o : Observation Pkt) : Option Pkt :=
  (NetworkQueueAbc.headPkt mode o).map (NetworkQueueAbc.removeLinkHeader ops mode)

/-- `NetworkQueueAbc` finishes every tick. -/
theorem NetworkQueueAbc.updateTxRate_eq (s : NetworkQueueAbc) (o : Observation Pkt) :
    ∃ s', updateTxRate ops s o = some s' ∧
      s'.toTxEstimator = s.toTxEstimator.tick ops (headOf ops s.mode o) o := by
  have hhead : (updateHeadTime ops o s).toTxEstimator =
      (headOf ops s.mode o).elim s.noHead fun pkt => s.updateHead ops pkt := by
    simp only [updateHeadTime, headOf]
    cases headPkt s.mode o <;> rfl
  obtain ⟨s', hs', hrates⟩ := updateRates_eq
    (s := { updateHeadTime ops o s with
      toTxEstimator := (updateHeadTime ops o s).toTxEstimator.pushSlot o })
    (TxEstimator.length_pushSlot_le o _)
  refine ⟨report o s', ?_, ?_⟩
  · simp only [updateTxRate, hs']
    rfl
  · rw [show (report o s').toTxEstimator = s'.toTxEstimator from rfl, hrates, hhead]
    rfl

/-- `NetworkQueueZhuge` finishes a tick of mode 1, and a tick of mode 0 that finds no packet. -/
theorem NetworkQueueZhuge.updateTxRate_eq {s : TxEstimator} {o : Observation Pkt}
    (h : s.mode = 1 ∨ s.mode = 0 ∧ o.wmqHead = none) :
    updateTxRate ops s o = some (s.tick ops (headOf ops s.mode o) o) := by
  have hhead : updateHeadTime ops o s = some
      ((headOf ops s.mode o).elim s.noHead fun pkt => s.updateHead ops pkt) := by
    obtain hmode | ⟨hmode, hnone⟩ := h
    · simp only [updateHeadTime, headPkt, removeLinkHeader, headOf, NetworkQueueAbc.headPkt, hmode]
      cases o.dlHead <;> simp [NetworkQueueAbc.removeLinkHeader]
    · simp [updateHeadTime, headPkt, headOf, NetworkQueueAbc.headPkt, hmode, hnone]
  simp only [updateTxRate, hhead, Option.bind_eq_bind, Option.bind_some]
  exact updateRates_eq (TxEstimator.length_pushSlot_le o _)

/-- In mode 0 a packet at the head of the queue ends the program. -/
theorem NetworkQueueZhuge.updateTxRate_eq_none {s : TxEstimator} {o : Observation Pkt}
    (hmode : s.mode = 0) (hhead : o.wmqHead ≠ none) : updateTxRate ops s o = none := by
  obtain ⟨pkt, hpkt⟩ := Option.ne_none_iff_exists'.mp hhead
  simp [updateTxRate, updateHeadTime, headPkt, removeLinkHeader, hmode, hpkt]

end Tick

/-! ### The copies in lockstep -/

/-- The fields that the two copies are compared in. -/
def SameEstimate (s : TxEstimator) (t : NetworkQueueAbc) : Prop :=
  s.txBytesList = t.txBytesList ∧ s.curQHeadTimeMs = t.curQHeadTimeMs ∧
    s.lastTotalTxBytes = t.lastTotalTxBytes ∧ s.curTxRateBps = t.curTxRateBps ∧
    s.curTxDelayUs = t.curTxDelayUs

theorem SameEstimate.of_eq {s : TxEstimator} {t : NetworkQueueAbc}
    (h : s = t.toTxEstimator) : SameEstimate s t := by
  simp only [SameEstimate, h, and_self]

/-- Over any ticks in mode 0 or 1, both copies return and agree if and only if no tick in mode 0
finds a packet in the queue. -/
theorem updateTxRate_agree_iff {Pkt : Type} (ops : HeaderOps Pkt) {s : TxEstimator}
    {t : NetworkQueueAbc} (hmode : s.mode = 0 ∨ s.mode = 1)
    (hsame : s = t.toTxEstimator) (obs : List (Observation Pkt)) :
    (∃ s' t', Run.exec (NetworkQueueZhuge.updateTxRate ops) s obs = some s' ∧
        Run.exec (NetworkQueueAbc.updateTxRate ops) t obs = some t' ∧ SameEstimate s' t') ↔
      ∀ o ∈ obs, s.mode = 0 → o.wmqHead = none := by
  refine Run.exec_lockstep_iff
    (R := fun s' t' => s' = t'.toTxEstimator ∧ s'.mode = s.mode)
    ?_ ?_ ⟨hsame, rfl⟩ obs (fun s' t' h => .of_eq h.1)
  · rintro s' t' o ⟨hsame', hmode'⟩ hnone
    obtain ⟨t₁, ht₁, hest⟩ := NetworkQueueAbc.updateTxRate_eq ops t' o
    have htick : s'.mode = 1 ∨ s'.mode = 0 ∧ o.wmqHead = none := by
      rw [hmode']
      exact hmode.symm.imp_right fun h => ⟨h, hnone h⟩
    refine ⟨_, t₁, NetworkQueueZhuge.updateTxRate_eq ops htick, ht₁, ?_, ?_⟩
    · rw [hest, hsame']
    · simpa using hmode'
  · rintro s' t' o ⟨-, hmode'⟩ hhead
    obtain ⟨hzero, hsome⟩ := Classical.not_imp.mp hhead
    exact NetworkQueueZhuge.updateTxRate_eq_none ops (hmode'.trans hzero) hsome

/-- Headers that are numbers: the packet is its identification, and no header is removed. -/
private def numbered : HeaderOps UInt16 := ⟨id, id, id, fun _ => 0⟩

/-- Both copies as `InitSocket` leaves them, with a window of two slots. -/
private def freshEstimator (mode : Int) : TxEstimator :=
  ⟨mode, 2, [], 0, 0, 0, 0, kMinTxRateBps, 0⟩

/-- A tick that finds packet 7, of 1500 bytes, in either queue. -/
private def onePacket : Observation UInt16 :=
  ⟨⟨[7], 1500, 1500⟩, ⟨[⟨false, 7⟩], 1500, 1500⟩, 0⟩

theorem updateTxRate_agree_p2p :
    ∃ s' t',
      Run.exec (NetworkQueueZhuge.updateTxRate numbered) (freshEstimator 1)
          [onePacket, onePacket] = some s' ∧
        Run.exec (NetworkQueueAbc.updateTxRate numbered) ⟨freshEstimator 1, 0, []⟩
          [onePacket, onePacket] = some t' ∧ SameEstimate s' t' :=
  (updateTxRate_agree_iff numbered
    (t := ⟨freshEstimator 1, 0, []⟩) (.inr rfl) rfl [onePacket, onePacket]).mpr
    fun _ _ hzero => absurd hzero (by decide)

/-- One packet in the queue of the Wi-Fi device ends `NetworkQueueZhuge` in mode 0, and only it. -/
theorem not_updateTxRate_agree_wifi :
    ¬ ∀ (mode : Int) (obs : List (Observation UInt16)), mode = 0 ∨ mode = 1 →
      ∃ s' t',
        Run.exec (NetworkQueueZhuge.updateTxRate numbered) (freshEstimator mode) obs =
            some s' ∧
          Run.exec (NetworkQueueAbc.updateTxRate numbered) ⟨freshEstimator mode, 0, []⟩ obs =
            some t' ∧ SameEstimate s' t' := by
  intro h
  obtain ⟨s', -, hs', -⟩ := h 0 [onePacket] (.inl rfl)
  exact absurd hs' (by simp [NetworkQueueZhuge.updateTxRate, NetworkQueueZhuge.updateHeadTime,
    NetworkQueueZhuge.headPkt, NetworkQueueZhuge.removeLinkHeader, freshEstimator, onePacket,
    Observation.wmqHead, Run.exec])

end Zhuge
