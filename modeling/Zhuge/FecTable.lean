-- SUMMARY: Which entry of the table of FEC counts the policies read, and when narrowing to 8 bits picks another one.
import Zhuge.Policies

/-!
# The table of FEC counts

`beta_array` has an entry for each step of the loss rate, step of the frame size, number of
round trips that are left and number of packets, each within its bounds. `get_fec_count` clamps
what it is given to the bounds, but the sizes and the number of round trips are narrowed to
8 bits before. The loss rate is exact here.
-/

namespace Zhuge

/-! ## Places in the table -/

/-- A place in the table, by its steps in each dimension. -/
structure FecCell where
  lossStep : Fin 51
  frameStep : Fin 11
  layer : Fin 15
  packet : Fin 55
deriving DecidableEq

/-- `beta_array`. -/
abbrev BetaArray := Fin (51 * 11 * 15 * 55) → UInt8

namespace FecCell

/-- The dimensions follow each other in rows. -/
def index (c : FecCell) : ℕ :=
  c.lossStep * 9075 + c.frameStep * 825 + c.layer * 55 + c.packet

theorem index_lt (c : FecCell) : c.index < 51 * 11 * 15 * 55 := by
  have hloss := c.lossStep.isLt
  have hframe := c.frameStep.isLt
  have hlayer := c.layer.isLt
  have hpacket := c.packet.isLt
  rw [index]
  omega

theorem index_inj {c c' : FecCell} : c.index = c'.index ↔ c = c' := by
  constructor
  · obtain ⟨⟨i, hi⟩, ⟨j, hj⟩, ⟨k, hk⟩, ⟨l, hl⟩⟩ := c
    obtain ⟨⟨i', hi'⟩, ⟨j', hj'⟩, ⟨k', hk'⟩, ⟨l', hl'⟩⟩ := c'
    intro h
    simp only [index] at h
    simp only [FecCell.mk.injEq, Fin.mk.injEq]
    omega
  · rintro rfl
    rfl

/-- What a table has in a place. -/
def entry (table : BetaArray) (c : FecCell) : UInt8 := table ⟨c.index, c.index_lt⟩

/-- Tables tell all places apart. -/
theorem entry_inj {c c' : FecCell} : (∀ table, c.entry table = c'.entry table) ↔ c = c' := by
  constructor
  · intro h
    have hat := h fun i => if i.val = c'.index then 1 else 0
    simp only [entry, if_true] at hat
    by_contra hne
    rw [if_neg (mt index_inj.mp hne)] at hat
    exact absurd hat (by decide)
  · rintro rfl table
    rfl

theorem lossStep_lt (loss : ℚ) :
    (Binary64.roundHalfAway (max 0 (min (1 / 2) loss) / (1 / 100))).toNat < 51 := by
  have hle : max 0 (min (1 / 2) loss) / (1 / 100) ≤ 50 := by
    have hclamp : max 0 (min (1 / 2) loss) ≤ 1 / 2 := max_le (by norm_num) (min_le_left _ _)
    linarith
  have hnonneg : 0 ≤ max 0 (min (1 / 2) loss) / (1 / 100) := by positivity
  rw [Binary64.roundHalfAway, if_pos hnonneg]
  have hfloor : ⌊max 0 (min (1 / 2) loss) / (1 / 100) + 1 / 2⌋ ≤ 50 := by
    rw [← Int.lt_add_one_iff, Int.floor_lt]
    push_cast
    linarith
  omega

/-- The place for a loss rate, a frame size, a number of round trips and a number of packets,
each taken to the nearest of its bounds when it is out of them. -/
def saturated (loss : ℚ) (frameSize roundTrips packets : ℕ) : FecCell where
  lossStep := ⟨(Binary64.roundHalfAway (max 0 (min (1 / 2) loss) / (1 / 100))).toNat,
    lossStep_lt loss⟩
  -- steps of five packets, rounded up
  frameStep := ⟨(min 55 (max 5 frameSize) - 5 + 4) / 5, by omega⟩
  layer := ⟨min 15 (max 1 roundTrips) - 1, by omega⟩
  packet := ⟨min 55 (max 1 packets) - 1, by omega⟩

end FecCell

/-! ## The lookup -/

/-- The arguments of `get_fec_count`, the loss rate exact. -/
structure FecLookup where
  loss : ℚ
  frameSize : UInt8
  remainingTime : UInt16
  rtt : UInt16
  packet : UInt8

namespace FecLookup

/-- `(uint8_t) round((loss - 0.00) / 0.01)` for the clamped loss rate. -/
def lossIndex (loss : ℚ) : UInt8 :=
  let loss := if loss < 0 then 0 else if 1 / 2 < loss then 1 / 2 else loss
  .ofInt (Binary64.roundHalfAway (loss / (1 / 100)))

/-- `(uint8_t) ceil(((double_t) frame_size - 5) / 5)` for the clamped frame size. -/
def frameSizeIndex (frameSize : UInt8) : ℕ :=
  let frameSize := if frameSize < 5 then 5 else if frameSize > 55 then 55 else frameSize
  ⌈((Binary64.ofNat (frameSize.toNat - 5)).div (.ofNat 5)).val⌉.toNat

/-- The clamped `(uint8_t) (remaining_time / rtt)`, less 1. -/
def layerIndex (remainingTime rtt : UInt16) : ℕ :=
  let layer := (remainingTime / rtt).toUInt8
  let layer := if layer < 1 then 1 else if layer > 15 then 15 else layer
  layer.toNat - 1

/-- The clamped number of packets, less 1. -/
def packetIndex (packet : UInt8) : ℕ :=
  let packet := if packet < 1 then 1 else if packet > 55 then 55 else packet
  packet.toNat - 1

/-- The index that `get_fec_count` computes when `rtt` is not 0. -/
def index (a : FecLookup) : ℕ :=
  (lossIndex a.loss).toNat * 9075 + frameSizeIndex a.frameSize * 825 +
    layerIndex a.remainingTime a.rtt * 55 + packetIndex a.packet

/-- `get_fec_count`. `none`: it divides by 0 or reads past the end of the table. -/
def getFecCount (table : BetaArray) (a : FecLookup) : Option UInt8 :=
  if a.rtt = 0 then none
  else if h : a.index < 51 * 11 * 15 * 55 then some (table ⟨a.index, h⟩)
  else none

/-- With the index of the loss rate in floating point this is the lookup of the policies. -/
theorem betaIndex_eq (loss : Binary64) (frameSize : UInt8) (remainingTime rtt : UInt16)
    (packet : UInt8) : betaIndex loss frameSize remainingTime rtt packet =
      Zhuge.lossIndex loss * 9075 + frameSizeIndex frameSize * 825 +
        layerIndex remainingTime rtt * 55 + packetIndex packet := rfl

/-! ## The steps that are computed -/

theorem lossIndex_eq (loss : ℚ) (frameSize roundTrips packets : ℕ) :
    (lossIndex loss).toNat = (FecCell.saturated loss frameSize roundTrips packets).lossStep := by
  have hclamp : (if loss < 0 then 0 else if 1 / 2 < loss then 1 / 2 else loss) =
      max 0 (min (1 / 2) loss) := by
    split_ifs with hneg hhalf
    · rw [max_eq_left ((min_le_right _ _).trans hneg.le)]
    · rw [min_eq_left hhalf.le, max_eq_right (by norm_num)]
    · rw [min_eq_right (not_lt.mp hhalf), max_eq_right (not_lt.mp hneg)]
  have hlt := FecCell.lossStep_lt loss
  have hstep : ((FecCell.saturated loss frameSize roundTrips packets).lossStep : ℕ) =
      (Binary64.roundHalfAway (max 0 (min (1 / 2) loss) / (1 / 100))).toNat := rfl
  have hnonneg : 0 ≤ Binary64.roundHalfAway (max 0 (min (1 / 2) loss) / (1 / 100)) := by
    have hpos : 0 ≤ max 0 (min (1 / 2) loss) / (1 / 100) := by positivity
    rw [Binary64.roundHalfAway, if_pos hpos]
    exact Int.floor_nonneg.mpr (by linarith)
  rw [hstep, lossIndex, hclamp, UInt8.ofInt, UInt8.toNat_ofNat']
  omega

theorem frameSizeIndex_eq : ∀ frameSize : UInt8,
    frameSizeIndex frameSize = (min 55 (max 5 frameSize.toNat) - 5 + 4) / 5 := by
  decide +kernel

/-- A clamp from 1 to `hi` in 8 bits, less 1. -/
theorem toNat_clamp (n hi : UInt8) (hhi : 1 ≤ hi.toNat) :
    (if n < 1 then 1 else if n > hi then hi else n).toNat = min hi.toNat (max 1 n.toNat) := by
  have hone : (1 : UInt8).toNat = 1 := rfl
  split_ifs with hlow hhigh
  · rw [UInt8.lt_iff_toNat_lt] at hlow
    omega
  · rw [gt_iff_lt, UInt8.lt_iff_toNat_lt] at hhigh
    omega
  · rw [UInt8.lt_iff_toNat_lt] at hlow
    rw [gt_iff_lt, UInt8.lt_iff_toNat_lt] at hhigh
    omega

theorem layerIndex_eq (remainingTime rtt : UInt16) : layerIndex remainingTime rtt =
    min 15 (max 1 (remainingTime.toNat / rtt.toNat % 256)) - 1 := by
  simp only [layerIndex]
  rw [toNat_clamp _ 15 (by decide), UInt16.toNat_toUInt8, UInt16.toNat_div]
  rfl

theorem packetIndex_eq (packet : UInt8) :
    packetIndex packet = min 55 (max 1 packet.toNat) - 1 := by
  simp only [packetIndex]
  rw [toNat_clamp _ 55 (by decide)]
  rfl

/-- The place of the entry that is read. -/
def cell (a : FecLookup) : FecCell :=
  .saturated a.loss a.frameSize.toNat (a.remainingTime.toNat / a.rtt.toNat % 256) a.packet.toNat

theorem index_eq (a : FecLookup) : a.index = a.cell.index := by
  rw [index, lossIndex_eq a.loss a.frameSize.toNat (a.remainingTime.toNat / a.rtt.toNat % 256)
    a.packet.toNat, frameSizeIndex_eq, layerIndex_eq, packetIndex_eq]
  rfl

/-- The lookup fails for a divisor of 0 only. -/
theorem getFecCount_eq (table : BetaArray) (a : FecLookup) :
    a.getFecCount table = if a.rtt = 0 then none else some (a.cell.entry table) := by
  simp only [getFecCount, index_eq, a.cell.index_lt, dif_pos, FecCell.entry]

end FecLookup

/-! ## Narrowing before clamping -/

/-- Nothing is lost by narrowing to 8 bits what is clamped to at most `top`. -/
def Narrows (top n : ℕ) : Prop := n < 256 ∨ top ≤ n % 256

theorem clamp_mod_eq_iff {top n : ℕ} (htop : 1 < top) (hle : top < 256) :
    min top (max 1 (n % 256)) - 1 = min top (max 1 n) - 1 ↔ Narrows top n := by
  rw [Narrows]
  omega

/-- The last step of the frame size begins at 51 packets. -/
theorem frameStep_mod_eq_iff (n : ℕ) :
    (min 55 (max 5 (n % 256)) - 5 + 4) / 5 = (min 55 (max 5 n) - 5 + 4) / 5 ↔ Narrows 51 n := by
  rw [Narrows]
  omega

/-- The place is right exactly if narrowing changes none of its steps. -/
theorem saturated_mod_eq_iff (loss : ℚ) (frameSize roundTrips packets : ℕ) :
    FecCell.saturated loss (frameSize % 256) (roundTrips % 256) (packets % 256) =
      FecCell.saturated loss frameSize roundTrips packets ↔
    Narrows 51 frameSize ∧ Narrows 15 roundTrips ∧ Narrows 55 packets := by
  simp only [FecCell.saturated, FecCell.mk.injEq, Fin.mk.injEq, true_and, frameStep_mod_eq_iff,
    clamp_mod_eq_iff (show 1 < 15 by decide) (by decide),
    clamp_mod_eq_iff (show 1 < 55 by decide) (by decide)]

/-! ## What the policies look up -/

/-- What the sender asks a policy for, before anything is narrowed: for packets of a frame of
`dataPktNum` data packets. -/
structure FecQuestion where
  loss : ℚ
  dataPktNum : UInt16
  maxGroupSize : UInt16
  statistic : NetStat
  delayDdl : Time
  ddlLeft : Time
  fixGroupSize : Bool
  isRtx : Bool

/-- `PacketSenderUdp::GetFECParam`, with the size of the frame as `CreateFrame` keeps it. -/
def FecQuestion.query (q : FecQuestion) : FECQuery :=
  PolicyContext.query ⟨q.statistic, q.delayDdl, q.dataPktNum.toUInt8⟩ q.maxGroupSize q.ddlLeft
    q.fixGroupSize q.isRtx

namespace ShippedPolicy

/-- The call of `get_fec_count` within `GetFECParam`. `HairpinPolicy` passes its 8-bit
`block_size`, and `FECOnlyPolicy` divides the time that is left by itself. -/
def lookup (loss : ℚ) (q : FECQuery) : ShippedPolicy → Option FecLookup
  | hairpin => some ⟨loss, q.frameSize, q.ddlLeft, q.srttMs, q.maxGroupSize.toUInt8⟩
  | fecOnly =>
    if q.isRtx then none
    else some ⟨loss, q.frameSize, q.ddlLeft, q.ddlLeft, q.maxGroupSize.toUInt8⟩
  | rtxOnly | webRTC _ | webRTCStar _ _ => none

/-- Where the lookup divides by 0 the policy does not answer. -/
theorem getFECParam_of_rtt_eq_zero {sqrt : Binary64 → Binary64} {tables : FecTables}
    {link : LinkStat} {bitrate : UInt32} {loss : ℚ} {q : FECQuery} {policy : ShippedPolicy}
    {a : FecLookup} (h : a ∈ policy.lookup loss q) (hrtt : a.rtt = 0) :
    policy.getFECParam sqrt tables link bitrate q = none := by
  cases policy with
  | hairpin =>
    cases h
    change q.srttMs = 0 at hrtt
    rw [getFECParam, hairpinParam, getFecCount, if_pos hrtt]
    rfl
  | fecOnly =>
    by_cases hrtx : q.isRtx = true
    · rw [lookup, if_pos hrtx] at h
      cases h
    · rw [lookup, if_neg hrtx] at h
      cases h
      change q.ddlLeft = 0 at hrtt
      rw [getFECParam, fecOnlyParam, if_neg hrtx, getFecCount, if_pos hrtt]
      rfl
  | rtxOnly => cases h
  | webRTC fixed => cases h
  | webRTCStar fixed order => cases h

end ShippedPolicy

namespace FecQuestion

/-- The lookup reads the entry for the saturated numbers, whatever the table. -/
def Right (q : FecQuestion) (a : FecLookup) : Prop :=
  ∀ table, a.getFecCount table = some ((FecCell.saturated q.loss q.dataPktNum.toNat
    (a.remainingTime.toNat / a.rtt.toNat) q.maxGroupSize.toNat).entry table)

/-- The divisor is not 0, and the sizes and the round trips that are left are narrowed without
loss. -/
def Fits (q : FecQuestion) : ShippedPolicy → Prop
  | .hairpin => q.query.srttMs ≠ 0 ∧ Narrows 51 q.dataPktNum.toNat ∧
      Narrows 15 (q.query.ddlLeft.toNat / q.query.srttMs.toNat) ∧ Narrows 55 q.maxGroupSize.toNat
  | .fecOnly => q.isRtx = true ∨
      q.query.ddlLeft ≠ 0 ∧ Narrows 51 q.dataPktNum.toNat ∧ Narrows 55 q.maxGroupSize.toNat
  | .rtxOnly | .webRTC _ | .webRTCStar _ _ => True

/-- A lookup with the sizes of the question in 8 bits. -/
theorem right_iff (q : FecQuestion) (remainingTime rtt : UInt16) :
    q.Right ⟨q.loss, q.dataPktNum.toUInt8, remainingTime, rtt, q.maxGroupSize.toUInt8⟩ ↔
      rtt ≠ 0 ∧ Narrows 51 q.dataPktNum.toNat ∧
        Narrows 15 (remainingTime.toNat / rtt.toNat) ∧ Narrows 55 q.maxGroupSize.toNat := by
  simp only [Right, FecLookup.getFecCount_eq]
  by_cases hrtt : rtt = 0
  · simp [hrtt]
  · simp only [hrtt, if_false, Option.some.injEq, FecCell.entry_inj, ne_eq, not_false_eq_true,
      true_and, FecLookup.cell, UInt16.toNat_toUInt8]
    exact saturated_mod_eq_iff _ _ _ _

theorem div_self_narrows (n : ℕ) : Narrows 15 (n / n) :=
  by
  refine .inl ?_
  rcases Nat.eq_zero_or_pos n with rfl | hpos
  · decide
  · rw [Nat.div_self hpos]
    decide

/-- Every lookup of a policy is safe and reads the right entry exactly if no divisor is 0 and
no number is too large for the 8 bits it is narrowed to. -/
theorem lookup_right_iff (q : FecQuestion) (policy : ShippedPolicy) :
    (∀ a ∈ policy.lookup q.loss q.query, q.Right a) ↔ q.Fits policy := by
  cases policy with
  | hairpin =>
    simp only [ShippedPolicy.lookup, Option.mem_some_iff, forall_eq']
    exact q.right_iff _ _
  | fecOnly =>
    have hquery : q.query.isRtx = q.isRtx := rfl
    rw [ShippedPolicy.lookup, Fits, hquery]
    by_cases hrtx : q.isRtx = true
    · simp [hrtx]
    · rw [if_neg hrtx, or_iff_right hrtx]
      simp only [Option.mem_some_iff, forall_eq']
      refine (q.right_iff _ _).trans ?_
      simp only [div_self_narrows, true_and]
  | rtxOnly => simp [ShippedPolicy.lookup, Fits]
  | webRTC fixed => simp [ShippedPolicy.lookup, Fits]
  | webRTCStar fixed order => simp [ShippedPolicy.lookup, Fits]

/-- A frame of 256 data packets, two round trips before its deadline. -/
def wideFrame : FecQuestion where
  loss := 1 / 100
  dataPktNum := 256
  maxGroupSize := 256
  statistic := ⟨.milliSeconds 50, .milliSeconds 50, 0, 0⟩
  delayDdl := .milliSeconds 100
  ddlLeft := .milliSeconds 100
  fixGroupSize := false
  isRtx := false

/-- The 256 packets are looked up as one, in a frame of five. -/
theorem not_right_wideFrame :
    ¬ ∀ a ∈ ShippedPolicy.hairpin.lookup wideFrame.loss wideFrame.query, wideFrame.Right a := by
  intro h
  have hright := (wideFrame.right_iff _ _).mp (h _ rfl)
  exact absurd hright.2.2.2 (by unfold Narrows; decide)

end FecQuestion

end Zhuge
