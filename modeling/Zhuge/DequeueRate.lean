-- SUMMARY: When the dequeue rate is the rate over the slots that are in the list and not idle.
import Mathlib.Data.List.Basic
import Zhuge.TxRate

/-!
# The rate over the slots in the list

The rate is meant to be the bytes of the slots in `m_txBytesList` over the time of
those that are not idle. The routine takes the idle slots off the nominal length of
the window instead of the length of the list, so the slots that are still missing
count as busy ones until the window has filled.
-/

namespace Zhuge

/-! ## The slots of a list -/

/-- Bytes of the positive slots. -/
def sentBytes (txBytesList : List Int32) : ℕ := (txBytesList.map Int32.toNatClampNeg).sum

def idleSlots (txBytesList : List Int32) : ℕ := txBytesList.countP fun slot => slot < 0

/-- The slots that are not idle. -/
def activeSlots (txBytesList : List Int32) : ℕ := txBytesList.countP fun slot => ¬ slot < 0

theorem idleSlots_add_activeSlots (txBytesList : List Int32) :
    idleSlots txBytesList + activeSlots txBytesList = txBytesList.length := by
  have h := List.length_eq_countP_add_countP (fun slot : Int32 => decide (slot < 0))
    (l := txBytesList)
  simpa [idleSlots, activeSlots] using h.symm

/-- A slot that counts as sent adds its bytes. -/
theorem toUInt32_of_pos {slot : Int32} (h : slot > 0) :
    slot.toUInt32 = UInt32.ofNat slot.toNatClampNeg := by
  rw [← Int32.toNat_toUInt32_of_le (Int32.le_of_lt h), UInt32.ofNat_toNat]

theorem toNatClampNeg_of_not_pos {slot : Int32} (h : ¬ slot > 0) : slot.toNatClampNeg = 0 := by
  have hle : slot.toInt ≤ 0 := by simpa [Int32.lt_iff_toInt_lt] using h
  exact Int.toNat_eq_zero.mpr hle

namespace SlotSums

theorem txBytesSum_add (sums : SlotSums) (slot : Int32) :
    (sums.add slot).txBytesSum = sums.txBytesSum + UInt32.ofNat slot.toNatClampNeg := by
  unfold add
  split_ifs with hpos hzero
  · simp only [toUInt32_of_pos hpos]
  all_goals simp [toNatClampNeg_of_not_pos hpos]

theorem txIdleSlotSum_add (sums : SlotSums) (slot : Int32) :
    (sums.add slot).txIdleSlotSum =
      sums.txIdleSlotSum + UInt32.ofNat (if slot < 0 then 1 else 0) := by
  unfold add
  split_ifs with hpos hneg hzero hneg hneg
  · exact (Int32.lt_irrefl (Int32.lt_trans hneg hpos)).elim
  · simp
  · exact (Int32.lt_irrefl (hzero ▸ hneg)).elim
  · simp
  · rfl
  · -- neither positive nor zero, so the slot is negative
    exact absurd (Int32.lt_of_le_of_ne (Int32.not_lt.mp hpos) hzero) hneg

/-- What the pass over a list adds to the counters. -/
theorem foldl_add (txBytesList : List Int32) (sums : SlotSums) :
    (txBytesList.foldl add sums).txBytesSum =
        sums.txBytesSum + UInt32.ofNat (sentBytes txBytesList) ∧
      (txBytesList.foldl add sums).txIdleSlotSum =
        sums.txIdleSlotSum + UInt32.ofNat (idleSlots txBytesList) := by
  induction txBytesList generalizing sums with
  | nil => simp [sentBytes, idleSlots]
  | cons slot txBytesList ih =>
      obtain ⟨hbytes, hidle⟩ := ih (sums.add slot)
      have hcount : idleSlots (slot :: txBytesList) =
          (if slot < 0 then 1 else 0) + idleSlots txBytesList := by
        simp [idleSlots, List.countP_cons, Nat.add_comm]
      rw [List.foldl_cons, hbytes, hidle, txBytesSum_add, txIdleSlotSum_add, hcount]
      simp [sentBytes, UInt32.ofNat_add, UInt32.add_assoc]

theorem toNat_txBytesSum_mul (txBytesList : List Int32) :
    ((ofList txBytesList).txBytesSum * 8).toNat = 8 * sentBytes txBytesList % 2 ^ 32 := by
  rw [ofList, (foldl_add txBytesList _).1]
  simp [UInt32.toNat_mul, Nat.mul_comm]

theorem toNat_txIdleSlotSum {txBytesList : List Int32} (h : txBytesList.length < 2 ^ 32) :
    (ofList txBytesList).txIdleSlotSum.toNat = idleSlots txBytesList := by
  have hle : idleSlots txBytesList ≤ txBytesList.length := List.countP_le_length
  rw [ofList, (foldl_add txBytesList _).2, UInt32.zero_add, UInt32.toNat_ofNat',
    Nat.mod_eq_of_lt (hle.trans_lt h)]

end SlotSums

/-! ## The rate by its definition -/

/-- Where a slot is not idle, the rate is the bytes sent over the slots that are not idle, a
millisecond each, in whole kbit/s, and at least the minimum. -/
def RateFollows (s : TxEstimator) : Prop :=
  0 < activeSlots s.txBytesList →
    s.curTxRateBps.toNat =
      max kMinTxRateBps.toNat
        (1000 * (8 * sentBytes s.txBytesList / activeSlots s.txBytesList))

/-- Counting `missing` slots more makes no difference: the rate is at most the minimum, or it fits
its type and has the same quotient. -/
def SlotsSettle (bytes slots missing : ℕ) : Prop :=
  8 * bytes < 513 * slots ∨
    8 * bytes < 2 ^ 32 ∧ 1000 * (8 * bytes / slots) < 2 ^ 32 ∧
      8 * bytes / (slots + missing) = 8 * bytes / slots

instance (bytes slots missing : ℕ) : Decidable (SlotsSettle bytes slots missing) :=
  inferInstanceAs (Decidable (_ ∨ _))

/-- The condition on one tick, given the state before it. -/
def RateSettles {Pkt : Type} (s : TxEstimator) (o : Observation Pkt) : Prop :=
  let txBytesList := (s.pushSlot o).txBytesList
  0 < activeSlots txBytesList →
    SlotsSettle (sentBytes txBytesList) (activeSlots txBytesList)
      (s.kTxBytesListWindow.toNat - txBytesList.length)

/-- Bytes that overflow give a smaller quotient than they should. -/
theorem div_mod_lt {bits slots missing : ℕ} (hslots : 0 < slots) (hslots32 : slots ≤ 2 ^ 32)
    (hbits : 2 ^ 32 ≤ bits) : bits % 2 ^ 32 / (slots + missing) < bits / slots := by
  have hmod : bits % 2 ^ 32 ≤ bits - 2 ^ 32 := by
    rw [Nat.mod_eq_sub_mod hbits]
    exact Nat.mod_le _ _
  calc bits % 2 ^ 32 / (slots + missing)
      ≤ (bits - 2 ^ 32) / slots :=
        (Nat.div_le_div_left (Nat.le_add_right _ _) hslots).trans (Nat.div_le_div_right hmod)
    _ < (bits - 2 ^ 32) / slots + 1 := Nat.lt_succ_self _
    _ = (bits - 2 ^ 32 + slots) / slots := (Nat.add_div_right _ hslots).symm
    _ ≤ bits / slots := Nat.div_le_div_right (by omega)

/-- The quotient over too many slots, as the machine computes it, gives the rate exactly if the
slots settle it. -/
theorem max_rate_eq_iff {bytes slots missing : ℕ} (hslots : 0 < slots)
    (hwindow : slots + missing < 2 ^ 16) :
    max (1000 * (8 * bytes % 2 ^ 32 / (slots + missing)) % 2 ^ 32) 512000 =
        max 512000 (1000 * (8 * bytes / slots)) ↔
      SlotsSettle bytes slots missing := by
  have hquot : 8 * bytes % 2 ^ 32 / (slots + missing) ≤ 8 * bytes / slots :=
    (Nat.div_le_div_left (by omega) hslots).trans (Nat.div_le_div_right (Nat.mod_le _ _))
  have hlow : 8 * bytes / slots < 513 ↔ 8 * bytes < 513 * slots := Nat.div_lt_iff_lt_mul hslots
  unfold SlotsSettle
  constructor
  · intro heq
    rcases Nat.lt_or_ge (8 * bytes / slots) 513 with hq | hq
    · exact .inl (hlow.mp hq)
    · -- above the minimum, the two quotients are the same and nothing is reduced
      have hmod := Nat.mod_le (1000 * (8 * bytes % 2 ^ 32 / (slots + missing))) (2 ^ 32)
      have hlt := Nat.mod_lt (1000 * (8 * bytes % 2 ^ 32 / (slots + missing)))
        (Nat.two_pow_pos 32)
      have hsame : 8 * bytes % 2 ^ 32 / (slots + missing) = 8 * bytes / slots := by omega
      have hbytes : 8 * bytes < 2 ^ 32 := by
        by_contra hover
        exact (div_mod_lt hslots (by omega) (not_lt.mp hover)).ne hsame
      rw [Nat.mod_eq_of_lt hbytes] at hsame
      exact .inr ⟨hbytes, by omega, hsame⟩
  · rintro (hrate | ⟨hbytes, hrate, hsame⟩)
    · have hmod := Nat.mod_le (1000 * (8 * bytes % 2 ^ 32 / (slots + missing))) (2 ^ 32)
      have hq := hlow.mpr hrate
      omega
    · rw [Nat.mod_eq_of_lt hbytes, hsame, Nat.mod_eq_of_lt hrate, max_comm]

/-! ## Ticks -/

namespace TxEstimator

variable {Pkt : Type} (ops : HeaderOps Pkt)

@[simp] theorem txBytesList_rates (s : TxEstimator) : s.rates.txBytesList = s.txBytesList := by
  unfold rates
  split <;> rfl

/-- What is at the head does not matter to the slots. -/
theorem pushSlot_head (head : Option Pkt) (o : Observation Pkt) (s : TxEstimator) :
    ((head.elim s.noHead fun pkt => s.updateHead ops pkt).pushSlot o).txBytesList =
        (s.pushSlot o).txBytesList ∧
      ((head.elim s.noHead fun pkt => s.updateHead ops pkt).pushSlot o).kTxBytesListWindow =
        s.kTxBytesListWindow := by
  cases head with
  | none => exact ⟨rfl, rfl⟩
  | some pkt =>
      simp only [Option.elim_some, updateHead]
      split <;> exact ⟨rfl, rfl⟩

/-- With a list that fits the window, the rate follows its definition exactly if the slots
settle it. -/
theorem rateFollows_rates_iff {s : TxEstimator}
    (hlength : s.txBytesList.length ≤ s.kTxBytesListWindow.toNat) :
    RateFollows s.rates ↔
      (0 < activeSlots s.txBytesList →
        SlotsSettle (sentBytes s.txBytesList) (activeSlots s.txBytesList)
          (s.kTxBytesListWindow.toNat - s.txBytesList.length)) := by
  unfold RateFollows
  rw [txBytesList_rates]
  apply forall_congr'
  intro hactive
  have hwindow := s.kTxBytesListWindow.toNat_lt
  have hsum := idleSlots_add_activeSlots s.txBytesList
  have hidle : (SlotSums.ofList s.txBytesList).txIdleSlotSum.toNat = idleSlots s.txBytesList :=
    SlotSums.toNat_txIdleSlotSum (by omega)
  have hslots : s.kTxBytesListWindow.toNat - idleSlots s.txBytesList =
      activeSlots s.txBytesList + (s.kTxBytesListWindow.toNat - s.txBytesList.length) := by omega
  have hrate : s.rates.curTxRateBps.toNat =
      max (1000 * (8 * sentBytes s.txBytesList % 2 ^ 32 /
        (activeSlots s.txBytesList +
          (s.kTxBytesListWindow.toNat - s.txBytesList.length))) % 2 ^ 32) 512000 := by
    have hmin : kMinTxRateBps.toNat = 512000 := by decide
    rw [rates, if_pos (by omega), UInt32.toNat_max, hmin, dequeueRate, UInt32.toNat_ofNat',
      SlotSums.toNat_txBytesSum_mul, hidle, hslots]
  rw [hrate]
  exact max_rate_eq_iff hactive (by omega)

end TxEstimator

/-! ## Runs -/

variable {Pkt : Type}

/-- The estimator after `Setup` and `InitSocket` in mode 1. The destination is that of an address
nobody has set. -/
def TxEstimator.init (window : UInt16) (lastHeadDstAddr : UInt32) : TxEstimator where
  mode := 1
  kTxBytesListWindow := window
  txBytesList := []
  lastHeadId := 0
  lastHeadDstAddr := lastHeadDstAddr
  curQHeadTimeMs := 0
  lastTotalTxBytes := 0
  curTxRateBps := kMinTxRateBps
  curTxDelayUs := 0

/-- Over any ticks in mode 1, the rate follows its definition after every tick if and only if
every tick settles it: the missing slots make no difference, and the rate fits its type. -/
theorem rateFollows_iff_rateSettles (ops : HeaderOps Pkt) (window : UInt16)
    (lastHeadDstAddr : UInt32) (obs : List (Observation Pkt)) :
    Run.Always (NetworkQueueZhuge.updateTxRate ops) RateFollows (.init window lastHeadDstAddr) obs ↔
      Run.Each (NetworkQueueZhuge.updateTxRate ops) RateSettles (.init window lastHeadDstAddr)
        obs := by
  have hreturns := fun (s : TxEstimator) (o : Observation Pkt) (hmode : s.mode = 1) =>
    NetworkQueueZhuge.updateTxRate_eq ops (o := o) (.inl hmode)
  apply Run.always_iff_each (I := fun s => s.mode = 1)
  · intro s o s' hmode hstep
    cases (hreturns s o hmode).symm.trans hstep
    simpa using hmode
  · intro s o s' hmode _ hstep
    cases (hreturns s o hmode).symm.trans hstep
    obtain ⟨hlist, hwindow⟩ := TxEstimator.pushSlot_head ops (headOf ops s.mode o) o s
    rw [TxEstimator.tick, TxEstimator.rateFollows_rates_iff (TxEstimator.length_pushSlot_le o _),
      hlist, hwindow]
    rfl
  · intro s o hmode _
    exact ⟨_, hreturns s o hmode⟩
  · rfl
  · intro hactive
    exact absurd hactive (Nat.lt_irrefl 0)

/-- A tick that finds the queue empty after one packet of 1500 bytes has left it. -/
private def onePacketSent : Observation Unit := ⟨⟨[], 1500, 0⟩, ⟨[], 0, 0⟩, 0⟩

/-- With a window of 200 slots the first packet gives the minimum rate, instead of 12 Mbit/s. -/
theorem not_rateFollows_firstTick :
    ¬ Run.Always (NetworkQueueZhuge.updateTxRate ⟨id, id, fun _ => 0, fun _ => 0⟩) RateFollows
      (.init 200 0x66666666) [onePacketSent] := by
  intro h
  obtain ⟨s, hs⟩ : ∃ s, Run.exec
      (NetworkQueueZhuge.updateTxRate ⟨id, id, fun _ => 0, fun _ => 0⟩)
      (.init 200 0x66666666) [onePacketSent] = some s := ⟨_, rfl⟩
  have hfollows := h.exec hs
  cases hs
  exact absurd (hfollows (by decide)) (by decide)

end Zhuge
