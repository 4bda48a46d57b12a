-- SUMMARY: The FEC policies the program ships, and when the group size one of them answers lets the loop over full groups end.
import Zhuge.SendPackets

/-!
# The FEC policies

Each policy answers with a group size and an FEC rate. The group size passes through variables
of 16 and of 8 bits; the rates come out of tables, which are parameters here.
-/

namespace Zhuge

/-- What the policies read of `FECPolicy::NetStat` and the sender does not. -/
structure LinkStat where
  currentLossRate : Binary64
  currentRtt : Time

/-- The tables of bytes: `beta_array` and `fec_array_webrtc`. -/
structure FecTables where
  beta : ℕ → UInt8
  webrtc : ℕ → UInt8

/-- What `GetFECParam` answers. The rate is `none` when it is infinite or not a number. -/
structure FECAnswer where
  fecGroupSize : UInt16
  fecRate : Option Binary64
deriving DecidableEq

inductive ShippedPolicy where
  | hairpin
  | fecOnly
  | rtxOnly
  /-- `fixed` holds the loss rate when it is fixed. -/
  | webRTC (fixed : Option Binary64)
  /-- `fixed` holds the loss rate and the round-trip time when they are fixed. -/
  | webRTCStar (fixed : Option (Binary64 × Binary64)) (order : Int)

/-! ## Numbers -/

/-- A quotient that may be infinite or not a number. -/
def quotient (x y : Binary64) : Option Binary64 := if y.val = 0 then none else some (x.div y)

/-- The conversion to an integer, towards zero. -/
def truncate (x : Binary64) : ℤ := if 0 ≤ x.val then ⌊x.val⌋ else ⌈x.val⌉

/-- `MIN` of a number and 1. -/
def minOne (x : Binary64) : Binary64 := if x.val < 1 then x else .ofNat 1

/-- `(uint8_t) round((loss - 0.00) / 0.01)`, with the loss between 0 and one half. -/
def lossIndex (loss : Binary64) : ℕ :=
  let loss := if loss.val < 0 then .ofNat 0 else if 1 / 2 < loss.val then .ofRat (1 / 2) else loss
  (UInt8.ofInt (Binary64.roundHalfAway (loss.div (.ofRat (1 / 100))).val)).toNat

/-! ## The tables -/

/-- The index that `get_fec_count` computes when `rtt` is not 0. -/
def betaIndex (loss : Binary64) (frameSize : UInt8) (remainingTime rtt : UInt16)
    (packet : UInt8) : ℕ :=
  let frameSize := if frameSize < 5 then 5 else if frameSize > 55 then 55 else frameSize
  let frameSizeIndex := ⌈((Binary64.ofNat (frameSize.toNat - 5)).div (.ofNat 5)).val⌉.toNat
  let layer := (remainingTime / rtt).toUInt8
  let layer := if layer < 1 then 1 else if layer > 15 then 15 else layer
  let packet := if packet < 1 then 1 else if packet > 55 then 55 else packet
  lossIndex loss * 9075 + frameSizeIndex * 825 + (layer.toNat - 1) * 55 + (packet.toNat - 1)

/-- `get_fec_count`. `none`: it divides by 0. -/
def getFecCount (beta : ℕ → UInt8) (loss : Binary64) (frameSize : UInt8)
    (remainingTime rtt : UInt16) (packet : UInt8) : Option UInt8 :=
  if rtt = 0 then none else some (beta (betaIndex loss frameSize remainingTime rtt packet))

/-- `get_fec_rate_webrtc`. -/
def getFecRateWebrtc (webrtc : ℕ → UInt8) (loss : Binary64) (groupSize : UInt8)
    (bitrate : UInt16) : Binary64 :=
  let groupSize := if groupSize < 5 then 5 else groupSize
  let groupSize := if groupSize > 55 then 55 else groupSize
  let groupSizeIndex := (Binary64.roundHalfAway
    ((Binary64.ofNat (groupSize.toNat - 5)).div (.ofNat 5)).val).toNat
  let groupSize := groupSizeIndex * 5 + 5
  let bitrate := if bitrate < 2 then 2 else bitrate
  let bitrate := if bitrate > 30 then 30 else bitrate
  let index := lossIndex loss * 319 + groupSizeIndex * 29 + (bitrate.toNat - 2)
  (Binary64.ofNat (webrtc index).toNat).div (.ofNat groupSize)

/-! ## The policies -/

/-- The smoothed round-trip time in milliseconds, rounded up. -/
def FECQuery.srttMs (q : FECQuery) : UInt16 :=
  .ofInt ⌈((Binary64.ofRat q.statistic.srtt.getMicroSeconds).div (.ofNat 1000)).val⌉

/-- The bitrate in kilobits per second, as `get_fec_rate_webrtc` receives it. -/
def bitrateKbps (bitrate : UInt32) : UInt16 :=
  .ofInt (truncate ((Binary64.ofNat bitrate.toNat).div (.ofNat 1000)))

namespace ShippedPolicy

/-- `HairpinPolicy::GetFECParam`. Its `block_size` has 8 bits, and the optimization of the
block size is switched off. -/
def hairpinParam (tables : FecTables) (link : LinkStat) (q : FECQuery) : Option FECAnswer := do
  let blockSize := q.maxGroupSize.toUInt8
  let fecCount ← getFecCount tables.beta link.currentLossRate q.frameSize q.ddlLeft q.srttMs
    blockSize
  if fecCount = 255 then none
  else some ⟨blockSize.toUInt16, quotient (.ofNat fecCount.toNat) (.ofNat blockSize.toNat)⟩

/-- `FECOnlyPolicy::GetFECParam`. -/
def fecOnlyParam (tables : FecTables) (link : LinkStat) (q : FECQuery) : Option FECAnswer := do
  let fecCount ← (if q.isRtx then some 0
    else getFecCount tables.beta link.currentLossRate q.frameSize q.ddlLeft q.ddlLeft
      q.maxGroupSize.toUInt8 : Option UInt8)
  if !q.isRtx && fecCount = 255 then none
  else some ⟨q.maxGroupSize, quotient (.ofNat fecCount.toNat) (.ofNat q.maxGroupSize.toNat)⟩

/-- The group size of the WebRTC policies. -/
def atMost48 (maxGroupSize : UInt16) : UInt16 := if maxGroupSize > 48 then 48 else maxGroupSize

/-- `WebRTCPolicy::GetFECParam`. -/
def webRTCParam (fixed : Option Binary64) (tables : FecTables) (link : LinkStat)
    (bitrate : UInt32) (q : FECQuery) : FECAnswer :=
  if q.isRtx then ⟨q.maxGroupSize, some (.ofNat 0)⟩
  else
    let loss := fixed.getD link.currentLossRate
    let maxGroupSize := atMost48 q.maxGroupSize
    let fecRate := getFecRateWebrtc tables.webrtc loss maxGroupSize.toUInt8 (bitrateKbps bitrate)
    ⟨maxGroupSize, some (minOne fecRate)⟩

/-- `LinearFECRate`. -/
def linearFECRate (beta : Binary64) (rttToDdlLeft : Option Binary64) : Binary64 :=
  match rttToDdlLeft with
  | none => .ofNat 1
  | some ratio => minOne (((Binary64.ofNat 2).mul beta).mul ratio)

/-- `QuadraticFECRate`. -/
def quadraticFECRate (beta : Binary64) (rttToDdlLeft : Option Binary64) : Option Binary64 :=
  rttToDdlLeft.map fun ratio => (((Binary64.ofNat 4).mul beta).mul ratio).mul ratio

/-- `SqrtFECRate`. The square root is a parameter. -/
def sqrtFECRate (sqrt : Binary64 → Binary64) (beta : Binary64)
    (rttToDdlLeft : Option Binary64) : Option Binary64 :=
  rttToDdlLeft.map fun ratio => beta.mul (sqrt ((Binary64.ofNat 2).mul ratio))

/-- `WebRTCStarPolicy::GetFECParam`. -/
def webRTCStarParam (sqrt : Binary64 → Binary64) (fixed : Option (Binary64 × Binary64))
    (order : Int) (tables : FecTables) (link : LinkStat) (bitrate : UInt32) (q : FECQuery) :
    FECAnswer :=
  let loss := (fixed.map (·.1)).getD link.currentLossRate
  let rtt : UInt16 := match fixed with
    | some (_, rtt) => .ofInt (truncate rtt)
    | none => .ofInt link.currentRtt.getMilliSeconds
  let maxGroupSize := atMost48 q.maxGroupSize
  let fec := minOne
    (getFecRateWebrtc tables.webrtc loss maxGroupSize.toUInt8 (bitrateKbps bitrate))
  let rttToDdlLeft := quotient (.ofNat rtt.toNat) (.ofNat q.ddlLeft.toNat)
  if order = 1 then ⟨maxGroupSize, some (linearFECRate fec rttToDdlLeft)⟩
  else if order = 2 then ⟨maxGroupSize, quadraticFECRate fec rttToDdlLeft⟩
  else if order = 0 then ⟨maxGroupSize, sqrtFECRate sqrt fec rttToDdlLeft⟩
  else ⟨maxGroupSize, some fec⟩

/-- `GetFECParam`. `none`: it divides by 0 or an assertion fails. -/
def getFECParam (sqrt : Binary64 → Binary64) (tables : FecTables) (link : LinkStat)
    (bitrate : UInt32) (q : FECQuery) : ShippedPolicy → Option FECAnswer
  | hairpin => hairpinParam tables link q
  | fecOnly => fecOnlyParam tables link q
  | rtxOnly => some ⟨q.maxGroupSize, some (.ofNat 0)⟩
  | webRTC fixed => some (webRTCParam fixed tables link bitrate q)
  | webRTCStar fixed order => some (webRTCStarParam sqrt fixed order tables link bitrate q)

/-- The question does not run into a division by 0, into an entry of the table that stands for
no count, or into a group size that 8 bits cannot hold. -/
def Answers (tables : FecTables) (link : LinkStat) (q : FECQuery) : ShippedPolicy → Prop
  | hairpin => q.maxGroupSize.toNat % 256 ≠ 0 ∧ q.srttMs ≠ 0 ∧
      tables.beta (betaIndex link.currentLossRate q.frameSize q.ddlLeft q.srttMs
        q.maxGroupSize.toUInt8) ≠ 255
  | fecOnly => q.isRtx = true ∨ q.ddlLeft ≠ 0 ∧
      tables.beta (betaIndex link.currentLossRate q.frameSize q.ddlLeft q.ddlLeft
        q.maxGroupSize.toUInt8) ≠ 255
  | rtxOnly | webRTC _ | webRTCStar _ _ => True

end ShippedPolicy

/-! ## The loop over full groups -/

/-- The loop over full groups of `groupSize` packets ends for `count` packets, and none of its
groups is empty. -/
def LoopEnds (groupSize : UInt16) (count : ℕ) : Prop :=
  ∀ (fecRate : Binary64) (now : Time) (ids : SenderIds) (pkts : List DataPacket),
    pkts.length = count → ∃ ids' batches rest,
      fullGroups ⟨groupSize, fecRate⟩ now count ids pkts = some (ids', batches, rest) ∧
      rest.length < groupSize.toNat ∧ ∀ b ∈ batches, b.dataPkts ≠ []

theorem loopEnds_of_pos {groupSize : UInt16} (hpos : 0 < groupSize.toNat) (count : ℕ) :
    LoopEnds groupSize count := by
  intro fecRate now ids pkts hlen
  exact fullGroups_ends now hpos ids hlen.le

/-- A group without packets fails an assertion. -/
theorem not_loopEnds_zero (count : ℕ) : ¬ LoopEnds 0 count := by
  intro h
  obtain ⟨ids', batches, rest, -, hrest, -⟩ := h (.ofNat 0) 0 ⟨0, 0⟩
    (List.replicate count (.new 0 0 0 0)) List.length_replicate
  exact absurd hrest (Nat.not_lt_zero _)

namespace ShippedPolicy

/-- The policy answers, with a group of at least one packet and of no more than there are, and
the loop over full groups ends. -/
def Serves (sqrt : Binary64 → Binary64) (tables : FecTables) (link : LinkStat)
    (bitrate : UInt32) (q : FECQuery) (policy : ShippedPolicy) : Prop :=
  ∃ p, policy.getFECParam sqrt tables link bitrate q = some p ∧
    1 ≤ p.fecGroupSize.toNat ∧ p.fecGroupSize.toNat ≤ q.maxGroupSize.toNat ∧
    LoopEnds p.fecGroupSize q.maxGroupSize.toNat

section

variable {sqrt : Binary64 → Binary64} {tables : FecTables} {link : LinkStat} {bitrate : UInt32}
  {q : FECQuery} {policy : ShippedPolicy}

theorem Serves.of_answer {p : FECAnswer}
    (h : policy.getFECParam sqrt tables link bitrate q = some p)
    (hpos : 0 < p.fecGroupSize.toNat) (hle : p.fecGroupSize.toNat ≤ q.maxGroupSize.toNat) :
    policy.Serves sqrt tables link bitrate q :=
  ⟨p, h, hpos, hle, loopEnds_of_pos hpos _⟩

theorem atMost48_mem {n : UInt16} (hn : 0 < n) :
    0 < (atMost48 n).toNat ∧ (atMost48 n).toNat ≤ n.toNat := by
  rw [UInt16.lt_iff_toNat_lt] at hn
  unfold atMost48
  split
  case isTrue hgt =>
    have hgt' := UInt16.lt_iff_toNat_lt.mp hgt
    exact ⟨by decide, hgt'.le⟩
  case isFalse => exact ⟨hn, le_rfl⟩

theorem hairpinParam_eq_some {p : FECAnswer} : hairpinParam tables link q = some p ↔
    q.srttMs ≠ 0 ∧ ∃ fecCount, fecCount = tables.beta (betaIndex link.currentLossRate q.frameSize
        q.ddlLeft q.srttMs q.maxGroupSize.toUInt8) ∧ fecCount ≠ 255 ∧
      p = ⟨q.maxGroupSize.toUInt8.toUInt16, quotient (.ofNat fecCount.toNat)
        (.ofNat q.maxGroupSize.toUInt8.toNat)⟩ := by
  simp only [hairpinParam, getFecCount]
  by_cases hrtt : q.srttMs = 0
  · simp [hrtt]
  · simp [hrtt, eq_comm]

theorem serves_hairpin_iff : hairpin.Serves sqrt tables link bitrate q ↔
    hairpin.Answers tables link q := by
  have hsize : (q.maxGroupSize.toUInt8.toUInt16).toNat = q.maxGroupSize.toNat % 256 := by
    rw [UInt8.toNat_toUInt16, UInt16.toNat_toUInt8]
  constructor
  case mp =>
    rintro ⟨p, hp, hpos, -, -⟩
    obtain ⟨hrtt, fecCount, rfl, hcount, rfl⟩ := hairpinParam_eq_some.mp hp
    rw [hsize] at hpos
    exact ⟨by omega, hrtt, hcount⟩
  case mpr =>
    rintro ⟨hmod, hrtt, hcount⟩
    refine .of_answer (hairpinParam_eq_some.mpr ⟨hrtt, _, rfl, hcount, rfl⟩) ?_ ?_
    · rw [hsize]
      omega
    · rw [hsize]
      exact Nat.mod_le _ _

theorem fecOnlyParam_eq_some {p : FECAnswer} (h : fecOnlyParam tables link q = some p) :
    p.fecGroupSize = q.maxGroupSize := by
  obtain ⟨fecCount, -, h⟩ := Option.bind_eq_some_iff.mp h
  split at h
  case isTrue => cases h
  case isFalse =>
    cases h
    rfl

theorem fecOnlyParam_isSome_iff : (∃ p, fecOnlyParam tables link q = some p) ↔
    fecOnly.Answers tables link q := by
  simp only [fecOnlyParam, getFecCount, Answers]
  cases hrtx : q.isRtx with
  | true => simp
  | false =>
      by_cases hddl : q.ddlLeft = 0
      · simp [hddl]
      · simp [hddl]

theorem serves_fecOnly_iff (hn : 0 < q.maxGroupSize) :
    fecOnly.Serves sqrt tables link bitrate q ↔ fecOnly.Answers tables link q := by
  rw [← fecOnlyParam_isSome_iff]
  constructor
  case mp =>
    rintro ⟨p, hp, -⟩
    exact ⟨p, hp⟩
  case mpr =>
    rintro ⟨p, hp⟩
    have hsize := fecOnlyParam_eq_some hp
    refine .of_answer hp ?_ ?_
    · rw [hsize]
      exact UInt16.lt_iff_toNat_lt.mp hn
    · rw [hsize]

end

/-- A policy serves a question exactly when nothing on its way to an answer goes wrong. -/
theorem serves_iff_answers (sqrt : Binary64 → Binary64) (tables : FecTables) (link : LinkStat)
    (bitrate : UInt32) (q : FECQuery) (policy : ShippedPolicy) (hn : 0 < q.maxGroupSize) :
    policy.Serves sqrt tables link bitrate q ↔ policy.Answers tables link q := by
  have hpos := UInt16.lt_iff_toNat_lt.mp hn
  obtain ⟨hpos48, hle48⟩ := atMost48_mem hn
  cases policy with
  | hairpin => exact serves_hairpin_iff
  | fecOnly => exact serves_fecOnly_iff hn
  | rtxOnly => exact iff_of_true (.of_answer rfl hpos le_rfl) trivial
  | webRTC fixed =>
      have hsize : (webRTCParam fixed tables link bitrate q).fecGroupSize
          = if q.isRtx then q.maxGroupSize else atMost48 q.maxGroupSize := by
        unfold webRTCParam
        split <;> rfl
      refine iff_of_true (.of_answer rfl ?_ ?_) trivial
      · rw [hsize]
        split
        · exact hpos
        · exact hpos48
      · rw [hsize]
        split
        · exact le_rfl
        · exact hle48
  | webRTCStar fixed order =>
      have hsize : (webRTCStarParam sqrt fixed order tables link bitrate q).fecGroupSize
          = atMost48 q.maxGroupSize := by
        simp only [webRTCStarParam]
        split_ifs <;> rfl
      refine iff_of_true (.of_answer rfl ?_ ?_) trivial
      · rw [hsize]
        exact hpos48
      · rw [hsize]
        exact hle48

/-- The first question about a frame of `count` packets on a quiet link. -/
def frameQuery (count : UInt16) : FECQuery where
  statistic := ⟨50000000, 50000000, 0, 0⟩
  ddl := 100
  ddlLeft := 100
  isRtx := false
  frameSize := count.toUInt8
  maxGroupSize := count
  fixGroupSize := false

/-- Tables that ask for no FEC packets. -/
def noFec : FecTables := ⟨fun _ => 0, fun _ => 0⟩

def quietLink : LinkStat := ⟨.ofNat 0, 50000000⟩

theorem serves_iff_answers_fivePackets :
    hairpin.Serves id noFec quietLink 0 (frameQuery 5) ↔
      hairpin.Answers noFec quietLink (frameQuery 5) :=
  serves_iff_answers id noFec quietLink 0 (frameQuery 5) hairpin (by decide)

/-- For a frame of 256 packets the 8-bit block size is 0, and the loop does not end. -/
theorem not_serves_256Packets :
    (∃ p, hairpin.getFECParam id noFec quietLink 0 (frameQuery 256) = some p ∧
      p.fecGroupSize = 0) ∧ ¬ LoopEnds 0 256 ∧
    ¬ hairpin.Serves id noFec quietLink 0 (frameQuery 256) := by
  have hparam : ∃ p, hairpin.getFECParam id noFec quietLink 0 (frameQuery 256) = some p ∧
      p.fecGroupSize = 0 := ⟨⟨0, none⟩, by decide +kernel, rfl⟩
  refine ⟨hparam, not_loopEnds_zero 256, ?_⟩
  rintro ⟨p, hp, hpos, -⟩
  obtain ⟨p', hp', hzero⟩ := hparam
  rw [hp] at hp'
  cases hp'
  rw [hzero] at hpos
  exact absurd hpos (by decide)

end ShippedPolicy

end Zhuge
