-- SUMMARY: The access point of ABC: how it marks packets, and what the marks say about its queue.
import Zhuge.Lib.Floating
import Zhuge.DequeueRate

/-!
# The marks of the access point

Every tick of `NetworkQueueAbc` tells the interface of the downlink device two rates and a
delay. The interface turns them into the probability with which it marks a packet of the flow
`ECN_ECT1`, which tells the sender to accelerate; any other packet of the flow is marked
`ECN_ECT0` and tells it to brake. The random numbers are the caller's here.
-/

namespace Zhuge

/-- `Ipv4Header::EcnType`. -/
inductive EcnType where
  | notEct
  | ect1
  | ect0
  | ce
deriving Repr, DecidableEq

/-- What the interface reads and writes of an IP header. -/
structure IpHeader where
  protocol : UInt8
  ecn : EcnType
deriving Repr, DecidableEq

/-- The members that ABC adds. The address has no default. -/
structure Ipv4Interface (D : Type) [Floating D] where
  curDequeueRate : D := 62.5
  tarDequeueRate : D := 62.5
  queueDelay : D := 0.0
  abcMode : Bool := false
  adr : UInt32

namespace Ipv4Interface

variable {D : Type} [Floating D]

open Floating Widening

def setABCMode (flag : Bool) (adr : UInt32) (i : Ipv4Interface D) : Ipv4Interface D :=
  { i with abcMode := flag, adr }

def updateFromQueue (tarRate curRate delay : D) (i : Ipv4Interface D) : Ipv4Interface D :=
  { i with tarDequeueRate := tarRate, curDequeueRate := curRate, queueDelay := delay }

/-- `credit_prob` in `ABCEstimation`. -/
def creditProb (i : Ipv4Interface D) : D :=
  let qdelayRef : D := 10.0
  let delta : D := 133.0
  let spare := qdelayRef - i.queueDelay
  let targetRate := 0.98 * i.tarDequeueRate
    + i.tarDequeueRate / delta * (if spare < 0.0 then spare else 0.0)
  targetRate / i.curDequeueRate * 0.5

def abcEstimation (randNum : D) (hdr : IpHeader) (i : Ipv4Interface D) : IpHeader :=
  { hdr with ecn := if randNum < i.creditProb then .ect1 else .ect0 }

/-- The header that `Send` puts in front of a packet for `dest`. -/
def sentHeader (randNum : D) (hdr : IpHeader) (dest : UInt32) (i : Ipv4Interface D) : IpHeader :=
  if i.abcMode ∧ dest = i.adr ∧ hdr.protocol = 6 then i.abcEstimation randNum hdr else hdr

end Ipv4Interface

/-! ## The access point -/

/-- `NetworkQueueAbc` and its `m_interface`. -/
structure AbcRouter (D : Type) [Floating D] where
  queue : NetworkQueueAbc
  interface : Ipv4Interface D

namespace AbcRouter

open Floating Widening

section

variable (F : Type) {D : Type} [Floating F] [Floating D] [Widening F D]

/-- The call of `UpdateFromQueue`. The delay is a quotient of type `float`. -/
def tell (r : QueueReport) (i : Ipv4Interface D) : Ipv4Interface D :=
  i.updateFromQueue (ofInt r.rateBps.toNat) (ofInt r.transRateBps.toNat)
    (widen (ofInt r.delayBits.toNat / ofInt r.delayRate.toNat : F))

/-- One tick. -/
def updateTxRate {Pkt : Type} (ops : HeaderOps Pkt) (a : AbcRouter D) (o : Observation Pkt) :
    Option (AbcRouter D) :=
  (a.queue.updateTxRate ops o).map fun queue =>
    { queue, interface := queue.reports.getLast?.elim a.interface fun r => tell F r a.interface }

end

/-- The state after `Setup` and `InitSocket`. `unsetAdr` is an address that nobody has set, and
`unsetRate` what the constructor leaves in `m_curTxTransRateBps`. -/
def init (D : Type) [Floating D] (mode : Int) (interval : UInt16)
    (recvIP unsetAdr unsetRate : UInt32) : AbcRouter D where
  queue := {
    mode
    kTxBytesListWindow := interval / UInt16.ofNat (Time.getMilliSeconds kTxBytesListInterval).toNat
    txBytesList := []
    lastHeadId := 0
    lastHeadDstAddr := unsetAdr
    curQHeadTimeMs := 0
    lastTotalTxBytes := 0
    curTxRateBps := kMinTxRateBps
    curTxDelayUs := 0
    curTxTransRateBps := unsetRate
    reports := [] }
  interface := { adr := unsetAdr : Ipv4Interface D }.setABCMode true recvIP

end AbcRouter

/-! ## What a tick does -/

namespace NetworkQueueAbc

/-- The rate over the whole window. -/
def transRate (s : TxEstimator) : UInt32 :=
  UInt32.ofNat (1000 *
    (((SlotSums.ofList s.txBytesList).txBytesSum * 8).toNat / s.kTxBytesListWindow.toNat))

/-- `m_curTxTransRateBps` after a tick. -/
def nextTransRate (s : NetworkQueueAbc) : UInt32 :=
  max (if (SlotSums.ofList s.txBytesList).txIdleSlotSum.toNat < s.txBytesList.length then
    transRate s.toTxEstimator else s.curTxTransRateBps) kMinTxRateBps

theorem updateRates_spec {s : NetworkQueueAbc}
    (h : s.txBytesList.length ≤ s.kTxBytesListWindow.toNat) :
    s.updateRates = some { s with
      toTxEstimator := s.toTxEstimator.rates
      curTxTransRateBps := s.nextTransRate } := by
  simp only [updateRates, TxEstimator.rates, nextTransRate]
  split_ifs with hidle
  · rw [toNat_window_sub (by omega), slotRate_of_pos (by omega), slotRate_of_pos (by omega),
      slotDelay_eq]
    rfl
  · rfl

end NetworkQueueAbc

namespace AbcRouter

variable {F D Pkt : Type} [Floating F] [Floating D] [Widening F D]

/-- The estimator when its slots are up to date. -/
def pushed (ops : HeaderOps Pkt) (a : AbcRouter D) (o : Observation Pkt) : NetworkQueueAbc :=
  { a.queue with
    toTxEstimator := ((headOf ops a.queue.mode o).elim a.queue.noHead fun pkt =>
      a.queue.updateHead ops pkt).pushSlot o }

/-- The bytes that wait in the queueing discipline and in the device. -/
def waiting (o : Observation Pkt) (a : AbcRouter D) : UInt32 :=
  o.qdiscBytes + if a.queue.mode = 1 then o.dlQueue.nBytes else o.wmq.nBytes

/-- What the tick reports. -/
def reported (ops : HeaderOps Pkt) (a : AbcRouter D) (o : Observation Pkt) : QueueReport :=
  let rate := (a.pushed ops o).toTxEstimator.rates.curTxRateBps
  ⟨rate, (a.pushed ops o).nextTransRate, 1000 * 8 * a.waiting o, rate⟩

/-- Every tick returns, and tells the interface what it reports. -/
theorem updateTxRate_spec (ops : HeaderOps Pkt) (a : AbcRouter D) (o : Observation Pkt) :
    a.updateTxRate F ops o = some {
      queue := {
        toTxEstimator := (a.pushed ops o).toTxEstimator.rates
        curTxTransRateBps := (a.pushed ops o).nextTransRate
        reports := a.queue.reports ++ [a.reported ops o] }
      interface := tell F (a.reported ops o) a.interface } := by
  have hpush : { NetworkQueueAbc.updateHeadTime ops o a.queue with
      toTxEstimator := (NetworkQueueAbc.updateHeadTime ops o a.queue).toTxEstimator.pushSlot o } =
      a.pushed ops o := by
    simp only [NetworkQueueAbc.updateHeadTime, pushed, headOf]
    cases NetworkQueueAbc.headPkt a.queue.mode o <;> rfl
  have hmode : (a.pushed ops o).toTxEstimator.rates.mode = a.queue.mode := by
    simp only [pushed, TxEstimator.mode_rates, TxEstimator.mode_pushSlot]
    cases headOf ops a.queue.mode o <;> simp
  have hreport : NetworkQueueAbc.updateTxRate ops a.queue o = some {
      toTxEstimator := (a.pushed ops o).toTxEstimator.rates
      curTxTransRateBps := (a.pushed ops o).nextTransRate
      reports := a.queue.reports ++ [a.reported ops o] } := by
    have hlength : (a.pushed ops o).txBytesList.length ≤
        (a.pushed ops o).kTxBytesListWindow.toNat := TxEstimator.length_pushSlot_le o _
    simp only [NetworkQueueAbc.updateTxRate, hpush, NetworkQueueAbc.updateRates_spec hlength,
      Option.bind_eq_bind, Option.bind_some, NetworkQueueAbc.report, hmode]
    rfl
  simp only [updateTxRate, hreport, Option.map_some, List.getLast?_append, List.getLast?_singleton,
    Option.some_or, Option.elim_some]

/-! ## The rates -/

/-- The bytes of the slots fit 32 bits, and so does the rate over those that are not idle. -/
def Fits (a : AbcRouter D) (o : Observation Pkt) : Prop :=
  let slots := (a.queue.pushSlot o).txBytesList
  8 * sentBytes slots < 2 ^ 32 ∧ 1000 * (8 * sentBytes slots / activeSlots slots) < 2 ^ 32

instance (a : AbcRouter D) (o : Observation Pkt) : Decidable (a.Fits o) :=
  inferInstanceAs (Decidable (_ ∧ _))

/-- Not all slots of the window are idle. -/
def Active (a : AbcRouter D) (o : Observation Pkt) : Prop :=
  0 < activeSlots (a.queue.pushSlot o).txBytesList

instance (a : AbcRouter D) (o : Observation Pkt) : Decidable (a.Active o) :=
  inferInstanceAs (Decidable (_ < _))

/-- The rate over the window is not above the rate over the slots that are not idle. -/
structure Paced (q : NetworkQueueAbc) : Prop where
  min_le : kMinTxRateBps.toNat ≤ q.curTxTransRateBps.toNat
  trans_le : q.curTxTransRateBps.toNat ≤ q.curTxRateBps.toNat

theorem Paced.rates {q : NetworkQueueAbc}
    (hlength : q.txBytesList.length ≤ q.kTxBytesListWindow.toNat)
    (hfits : 8 * sentBytes q.txBytesList < 2 ^ 32 ∧
      1000 * (8 * sentBytes q.txBytesList / activeSlots q.txBytesList) < 2 ^ 32)
    (hactive : 0 < activeSlots q.txBytesList ∨ Paced q) (reports : List QueueReport) :
    Paced {
      toTxEstimator := q.toTxEstimator.rates
      curTxTransRateBps := q.nextTransRate
      reports } := by
  obtain ⟨hbits, hrate⟩ := hfits
  have hwindow := q.kTxBytesListWindow.toNat_lt
  have hsum := idleSlots_add_activeSlots q.txBytesList
  have hidle : (SlotSums.ofList q.txBytesList).txIdleSlotSum.toNat = idleSlots q.txBytesList :=
    SlotSums.toNat_txIdleSlotSum (by omega)
  have hsent : ((SlotSums.ofList q.txBytesList).txBytesSum * 8).toNat =
      8 * sentBytes q.txBytesList := by
    rw [SlotSums.toNat_txBytesSum_mul, Nat.mod_eq_of_lt hbits]
  by_cases hsome : 0 < activeSlots q.txBytesList
  · -- the same bytes, over more slots in the second rate than in the first
    have hslots : 8 * sentBytes q.txBytesList /
        (q.kTxBytesListWindow.toNat - idleSlots q.txBytesList) ≤
          8 * sentBytes q.txBytesList / activeSlots q.txBytesList :=
      Nat.div_le_div_left (by omega) hsome
    have hall : 8 * sentBytes q.txBytesList / q.kTxBytesListWindow.toNat ≤
        8 * sentBytes q.txBytesList /
          (q.kTxBytesListWindow.toNat - idleSlots q.txBytesList) :=
      Nat.div_le_div_left (Nat.sub_le _ _) (by omega)
    have hlt : idleSlots q.txBytesList < q.txBytesList.length := by omega
    constructor
    · simp only [NetworkQueueAbc.nextTransRate, UInt32.toNat_max]
      exact le_max_right _ _
    · simp only [NetworkQueueAbc.nextTransRate, TxEstimator.rates, hidle, if_pos hlt,
        UInt32.toNat_max, NetworkQueueAbc.transRate, TxEstimator.dequeueRate, hsent,
        UInt32.toNat_ofNat']
      rw [Nat.mod_eq_of_lt (by omega), Nat.mod_eq_of_lt (by omega)]
      exact max_le_max_right _ (Nat.mul_le_mul_left 1000 hall)
  · have hpaced := hactive.resolve_left hsome
    have hnot : ¬ idleSlots q.txBytesList < q.txBytesList.length := by omega
    constructor
    · simp only [NetworkQueueAbc.nextTransRate, UInt32.toNat_max]
      exact le_max_right _ _
    · simp only [NetworkQueueAbc.nextTransRate, TxEstimator.rates, hidle, if_neg hnot,
        UInt32.toNat_max]
      exact max_le_max_right _ hpaced.trans_le

variable {a a' : AbcRouter D} {ops : HeaderOps Pkt}

theorem Paced.tick {o : Observation Pkt} (hfits : a.Fits o)
    (hactive : a.Active o ∨ Paced a.queue) (h : a.updateTxRate F ops o = some a') :
    Paced a'.queue := by
  cases (updateTxRate_spec (F := F) ops a o).symm.trans h
  have hslots : (a.pushed ops o).txBytesList = (a.queue.pushSlot o).txBytesList :=
    (TxEstimator.pushSlot_head ops _ o _).1
  have hrates : (a.pushed ops o).curTxRateBps = a.queue.curTxRateBps := by
    simp only [pushed, TxEstimator.pushSlot]
    cases headOf ops a.queue.mode o with
    | none => rfl
    | some pkt => simp only [Option.elim_some, TxEstimator.updateHead]; split <;> rfl
  refine Paced.rates (TxEstimator.length_pushSlot_le o _) (hslots ▸ hfits) ?_ _
  rw [hslots]
  exact hactive.imp_right fun hpaced => ⟨hpaced.min_le, by rw [hrates]; exact hpaced.trans_le⟩

/-- Once a tick has found a slot that is not idle, the rates are in order for good. -/
theorem Paced.exec {obs : List (Observation Pkt)}
    (hfits : Run.Each (updateTxRate F ops) Fits a obs)
    (hactive : ¬ Run.Each (updateTxRate F ops) (fun a o => ¬ a.Active o) a obs ∨ Paced a.queue)
    (hrun : Run.exec (updateTxRate F ops) a obs = some a') : Paced a'.queue := by
  induction obs generalizing a with
  | nil =>
      cases hrun
      exact hactive.resolve_left fun hnone => hnone trivial
  | cons o obs ih =>
      obtain ⟨t, ht, hrest⟩ := Run.exec_cons_eq_some.mp hrun
      refine ih (hfits.2 t ht) ?_ hrest
      by_cases hpaced : a.Active o ∨ Paced a.queue
      · exact .inr (Paced.tick hfits.1 hpaced ht)
      · obtain ⟨hidle, hnot⟩ := not_or.mp hpaced
        refine .inl fun hnone => hactive.resolve_right hnot ⟨hidle, fun t' ht' => ?_⟩
        cases ht.symm.trans ht'
        exact hnone

/-- The mode and the address stay. -/
theorem updateTxRate_keeps {o : Observation Pkt} (h : a.updateTxRate F ops o = some a') :
    a'.queue.mode = a.queue.mode ∧ a'.interface.abcMode = a.interface.abcMode ∧
      a'.interface.adr = a.interface.adr := by
  cases (updateTxRate_spec (F := F) ops a o).symm.trans h
  refine ⟨?_, rfl, rfl⟩
  simp only [pushed, TxEstimator.mode_rates, TxEstimator.mode_pushSlot]
  cases headOf ops a.queue.mode o <;> simp

end AbcRouter

/-! ## The marks -/

/-- The share of accelerating marks, for two rates and a delay in milliseconds. -/
def credit (tar cur delay : ℚ) : ℚ := tar / cur * (49 / 100 - max 0 (delay - 10) / 266)

namespace Ipv4Interface

variable {i : Ipv4Interface ℚ}

theorem creditProb_eq (i : Ipv4Interface ℚ) :
    i.creditProb = credit i.tarDequeueRate i.curDequeueRate i.queueDelay := by
  have hspare : (if (10.0 : ℚ) - i.queueDelay < 0.0 then 10.0 - i.queueDelay else 0.0) =
      -max 0 (i.queueDelay - 10) := by
    norm_num only
    split_ifs with hneg
    · rw [max_eq_right (by linarith), neg_sub]
    · rw [max_eq_left (by linarith), neg_zero]
  have hprob : i.creditProb = (0.98 * i.tarDequeueRate + i.tarDequeueRate / 133.0 *
      (if (10.0 : ℚ) - i.queueDelay < 0.0 then 10.0 - i.queueDelay else 0.0)) /
        i.curDequeueRate * 0.5 := rfl
  rw [hprob, hspare, credit]
  norm_num only
  ring

/-- No more than half of the marks accelerate where the rates agree, and a little less than half
do where nothing waits. -/
theorem credit_self {rate delay : ℚ} (h : 0 < rate) :
    credit rate rate delay = 49 / 100 - max 0 (delay - 10) / 266 := by
  rw [credit, div_self h.ne', one_mul]

theorem le_credit {tar cur delay : ℚ} (hcur : 0 < cur) (hle : cur ≤ tar) (hdelay : delay ≤ 10) :
    49 / 100 ≤ credit tar cur delay := by
  have hratio : 1 ≤ tar / cur := (one_le_div hcur).mpr hle
  rw [credit, max_eq_left (by linarith)]
  linarith

theorem credit_nonpos_iff {tar cur delay : ℚ} (hcur : 0 < cur) (hle : cur ≤ tar) :
    credit tar cur delay ≤ 0 ↔ 14034 / 100 ≤ delay := by
  have hratio : 0 < tar / cur := div_pos (hcur.trans_le hle) hcur
  have hmax : max 0 (delay - 10) < 13034 / 100 ↔ delay < 14034 / 100 := by
    rw [max_lt_iff]
    constructor
    · rintro ⟨-, h⟩
      linarith
    · intro h
      exact ⟨by norm_num, by linarith⟩
  rw [← not_lt, ← not_lt, ← hmax, credit, mul_pos_iff_of_pos_left hratio, sub_pos,
    div_lt_iff₀ (by norm_num)]
  norm_num

end Ipv4Interface

namespace AbcRouter

variable {Pkt : Type} {ops : HeaderOps Pkt}

/-- What the delay of a tick is computed from: a thousand times the bits that wait, in 32 bits. -/
def delayBits (mode : Int) (o : Observation Pkt) : ℕ :=
  8000 * (o.qdiscBytes.toNat + (if mode = 1 then o.dlQueue.nBytes else o.wmq.nBytes).toNat) % 2 ^ 32

theorem toNat_delayBits (a : AbcRouter ℚ) (o : Observation Pkt) :
    (1000 * 8 * a.waiting o).toNat = delayBits a.queue.mode o := by
  have hfactor : (1000 * 8 : UInt32).toNat = 8000 := by decide
  rw [waiting, delayBits, UInt32.toNat_mul, hfactor, UInt32.toNat_add, Nat.mul_mod_mod]

/-- The marks in a state where the rates are in order, after a tick that looked at `o`. -/
structure MarksFollow (recvIP : UInt32) (mode : Int) (o : Observation Pkt) (a : AbcRouter ℚ) :
    Prop where
  /-- Packets to others, and packets that are not TCP, keep their mark. -/
  others : ∀ x hdr dest, ¬ (dest = recvIP ∧ hdr.protocol = 6) →
    a.interface.sentHeader x hdr dest = hdr
  flow : ∀ x hdr, hdr.protocol = 6 → (a.interface.sentHeader x hdr recvIP).ecn =
    if x < credit a.queue.curTxRateBps.toNat a.queue.curTxTransRateBps.toNat
      (delayBits mode o / a.queue.curTxRateBps.toNat) then .ect1 else .ect0
  /-- With at most ten milliseconds of queue, almost half of the marks accelerate. -/
  spare : delayBits mode o ≤ 10 * a.queue.curTxRateBps.toNat →
    ∀ x hdr, x < 49 / 100 → hdr.protocol = 6 →
      (a.interface.sentHeader x hdr recvIP).ecn = .ect1
  /-- From 140.34 milliseconds of queue on, none does. -/
  full : 14034 * a.queue.curTxRateBps.toNat ≤ 100 * delayBits mode o ↔
    ∀ x hdr, 0 ≤ x → hdr.protocol = 6 → (a.interface.sentHeader x hdr recvIP).ecn = .ect0
  /-- On a link without an idle slot, no more do. -/
  busy : a.queue.txBytesList ≠ [] → idleSlots a.queue.txBytesList = 0 →
    ∀ x hdr, 49 / 100 ≤ x → hdr.protocol = 6 →
      (a.interface.sentHeader x hdr recvIP).ecn = .ect0

theorem MarksFollow.of_tick {recvIP : UInt32} {o : Observation Pkt} {a a' : AbcRouter ℚ}
    (hmode : a.interface.abcMode = true) (hadr : a.interface.adr = recvIP)
    (hpaced : Paced a'.queue) (h : a.updateTxRate ℚ ops o = some a') :
    MarksFollow recvIP a.queue.mode o a' := by
  have hmin : kMinTxRateBps.toNat = 512000 := by decide
  obtain ⟨hlow, hle⟩ := hpaced
  rw [hmin] at hlow
  have hcur : (0 : ℚ) < a'.queue.curTxTransRateBps.toNat := by exact_mod_cast (by omega)
  have hrates : (a'.queue.curTxTransRateBps.toNat : ℚ) ≤ a'.queue.curTxRateBps.toNat := by
    exact_mod_cast hle
  have hrate : (0 : ℚ) < a'.queue.curTxRateBps.toNat := hcur.trans_le hrates
  obtain ⟨-, hmode', hadr'⟩ := updateTxRate_keeps h
  have hprob : a'.interface.creditProb =
      credit a'.queue.curTxRateBps.toNat a'.queue.curTxTransRateBps.toNat
        (delayBits a.queue.mode o / a'.queue.curTxRateBps.toNat) := by
    cases (updateTxRate_spec (F := ℚ) ops a o).symm.trans h
    rw [Ipv4Interface.creditProb_eq, ← toNat_delayBits]
    rfl
  have hflow : ∀ x hdr, hdr.protocol = 6 → (a'.interface.sentHeader x hdr recvIP).ecn =
      if x < credit a'.queue.curTxRateBps.toNat a'.queue.curTxTransRateBps.toNat
        (delayBits a.queue.mode o / a'.queue.curTxRateBps.toNat) then .ect1 else .ect0 := by
    intro x hdr htcp
    rw [Ipv4Interface.sentHeader, if_pos ⟨hmode'.trans hmode, (hadr'.trans hadr).symm, htcp⟩,
      Ipv4Interface.abcEstimation, hprob]
  refine ⟨?_, hflow, ?_, ?_, ?_⟩
  · intro x hdr dest hother
    rw [Ipv4Interface.sentHeader, if_neg]
    rintro ⟨-, hdest, htcp⟩
    exact hother ⟨hdest.trans (hadr'.trans hadr), htcp⟩
  · intro hdelay x hdr hx htcp
    have hten : (delayBits a.queue.mode o : ℚ) / a'.queue.curTxRateBps.toNat ≤ 10 := by
      rw [div_le_iff₀ hrate]
      exact_mod_cast hdelay
    rw [hflow x hdr htcp, if_pos (hx.trans_le (Ipv4Interface.le_credit hcur hrates hten))]
  · have hdelay : 14034 * a'.queue.curTxRateBps.toNat ≤ 100 * delayBits a.queue.mode o ↔
        (14034 / 100 : ℚ) ≤ delayBits a.queue.mode o / a'.queue.curTxRateBps.toNat := by
      rw [le_div_iff₀ hrate, div_mul_eq_mul_div, div_le_iff₀ (by norm_num),
        mul_comm _ (100 : ℚ)]
      exact_mod_cast Iff.rfl
    rw [hdelay, ← Ipv4Interface.credit_nonpos_iff hcur hrates]
    constructor
    · intro hnone x hdr hx htcp
      rw [hflow x hdr htcp, if_neg (not_lt.mpr (hnone.trans hx))]
    · intro hall
      by_contra hsome
      have hzero := hall 0 ⟨6, .notEct⟩ le_rfl rfl
      rw [hflow 0 _ rfl, if_pos (not_le.mp hsome)] at hzero
      cases hzero
  · intro hne hbusy x hdr hx htcp
    have hsame : a'.queue.curTxTransRateBps = a'.queue.curTxRateBps := by
      cases (updateTxRate_spec (F := ℚ) ops a o).symm.trans h
      rw [TxEstimator.txBytesList_rates] at hne hbusy
      have hlength : (a.pushed ops o).txBytesList.length ≤
          (a.pushed ops o).kTxBytesListWindow.toNat := TxEstimator.length_pushSlot_le o _
      have hwindow := (a.pushed ops o).kTxBytesListWindow.toNat_lt
      have hidle : (SlotSums.ofList (a.pushed ops o).txBytesList).txIdleSlotSum.toNat = 0 :=
        (SlotSums.toNat_txIdleSlotSum (by omega)).trans hbusy
      have hpos := List.length_pos_iff.mpr hne
      simp only [NetworkQueueAbc.nextTransRate, TxEstimator.rates, hidle, if_pos hpos,
        NetworkQueueAbc.transRate, TxEstimator.dequeueRate, Nat.sub_zero]
    rw [hflow x hdr htcp, if_neg]
    rw [hsame, Ipv4Interface.credit_self hrate, not_lt]
    have hmax : 0 ≤
        max 0 ((delayBits a.queue.mode o : ℚ) / a'.queue.curTxRateBps.toNat - 10) / 266 :=
      div_nonneg (le_max_left _ _) (by norm_num)
    linarith

/-- What `InitSocket` sets stays for good. -/
theorem exec_keeps {a a' : AbcRouter ℚ} {obs : List (Observation Pkt)}
    (h : Run.exec (updateTxRate ℚ ops) a obs = some a') :
    a'.queue.mode = a.queue.mode ∧ a'.interface.abcMode = a.interface.abcMode ∧
      a'.interface.adr = a.interface.adr := by
  refine Run.exec_invariant (P := fun t => t.queue.mode = a.queue.mode ∧
    t.interface.abcMode = a.interface.abcMode ∧ t.interface.adr = a.interface.adr) ?_
    ⟨rfl, rfl, rfl⟩ h
  rintro t o t' ⟨hmode, habc, hadr⟩ hstep
  obtain ⟨hmode', habc', hadr'⟩ := updateTxRate_keeps hstep
  exact ⟨hmode'.trans hmode, habc'.trans habc, hadr'.trans hadr⟩

/-- Over any ticks whose sums fit, from the first one on that finds a slot that is not idle, the
marks follow the queue that the last tick looked at. -/
theorem marksFollow_of_run (ops : HeaderOps Pkt) {mode : Int} {interval : UInt16}
    {recvIP unsetAdr unsetRate : UInt32} {obs : List (Observation Pkt)} {o : Observation Pkt}
    {a : AbcRouter ℚ}
    (hfits : Run.Each (updateTxRate ℚ ops) Fits (init ℚ mode interval recvIP unsetAdr unsetRate)
      (obs ++ [o]))
    (hactive : ¬ Run.Each (updateTxRate ℚ ops) (fun a o => ¬ a.Active o)
      (init ℚ mode interval recvIP unsetAdr unsetRate) (obs ++ [o]))
    (hrun : Run.exec (updateTxRate ℚ ops) (init ℚ mode interval recvIP unsetAdr unsetRate)
      (obs ++ [o]) = some a) :
    MarksFollow recvIP mode o a := by
  have hpaced := Paced.exec hfits (.inl hactive) hrun
  obtain ⟨t, ht, hlast⟩ := Run.exec_append_eq_some.mp hrun
  obtain ⟨t', ht', hnil⟩ := Run.exec_cons_eq_some.mp hlast
  cases hnil
  obtain ⟨hmode, habc, hadr⟩ := exec_keeps ht
  have hfollow := MarksFollow.of_tick habc hadr hpaced ht'
  rwa [hmode] at hfollow

/-- A queue of one packet of 1500 bytes, on a link with one slot in its window. -/
private def onePacketWaits : Observation UInt16 :=
  ⟨⟨[7], 1500, 1500⟩, ⟨[], 0, 0⟩, 0⟩

theorem fits_onePacketWaits :
    Run.Each (updateTxRate ℚ (⟨id, id, id, fun _ => 0⟩ : HeaderOps UInt16)) Fits
      (init ℚ 1 1 9 0 77) ([] ++ [onePacketWaits]) :=
  ⟨by decide, fun _ _ => trivial⟩

theorem marksFollow_of_run_onePacket :
    ∃ a, MarksFollow 9 1 onePacketWaits a :=
  ⟨_, marksFollow_of_run ⟨id, id, id, fun _ => 0⟩ fits_onePacketWaits
    (fun hidle => absurd hidle.1 (by decide))
    (Run.exec_cons_eq_some.mpr ⟨_, updateTxRate_spec _ _ _, rfl⟩)⟩

end AbcRouter

end Zhuge
