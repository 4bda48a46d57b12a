-- SUMMARY: The rates of the NADA controller: flows with the same signals come together, and a steady signal fixes the rate.
import Zhuge.Lib.Contraction
import Zhuge.NadaController

/-!
# NADA rates

An update of the rate depends on the controller through the measurements that it reads. In the
gradual update the new rate is affine in the old one.
-/

namespace Zhuge

/-! ## Updates -/

/-- An update of the rate, with what it is computed from. -/
inductive NadaUpdate
  | rampUp (rttUs : UInt64) (recvR : ℚ)
  | gradual (deltaUs : UInt64) (xcurr xprev : ℚ)
deriving Repr, DecidableEq

namespace NadaUpdate

open NadaController (gamma)

/-- The rate between the configured ones. -/
def clip (r : ℚ) : ℚ := max (min 1500000 r) 150000

/-- The part of the rate that a gradual update keeps. -/
def kept (deltaUs : UInt64) (xcurr xprev : ℚ) : ℚ :=
  1 - deltaUs.toNat * xcurr / 500000000 - (xcurr - xprev) / 500

def apply (r : ℚ) : NadaUpdate → ℚ
  | .rampUp rttUs recvR => clip (max r ((1 + gamma rttUs) * recvR))
  | .gradual deltaUs xcurr xprev => clip (kept deltaUs xcurr xprev * r + 3 / 100 * deltaUs.toNat)

/-- How much nearer two rates are after the update. -/
def factor : NadaUpdate → ℚ
  | .rampUp .. => 1
  | .gradual deltaUs xcurr xprev => |kept deltaUs xcurr xprev|

theorem factor_nonneg (u : NadaUpdate) : 0 ≤ u.factor := by
  cases u with
  | rampUp => exact zero_le_one
  | gradual => exact abs_nonneg _

theorem abs_apply_sub_apply_le (u : NadaUpdate) (r r' : ℚ) :
    |u.apply r - u.apply r'| ≤ u.factor * |r - r'| := by
  cases u with
  | rampUp rttUs recvR =>
      calc _ ≤ |max r ((1 + gamma rttUs) * recvR) - max r' ((1 + gamma rttUs) * recvR)| :=
            Contraction.abs_clip_sub_clip_le _ _ _ _
        _ ≤ |r - r'| := abs_max_sub_max_le_abs _ _ _
        _ = 1 * |r - r'| := (one_mul _).symm
  | gradual deltaUs xcurr xprev =>
      calc _ ≤ |kept deltaUs xcurr xprev * r + 3 / 100 * deltaUs.toNat
              - (kept deltaUs xcurr xprev * r' + 3 / 100 * deltaUs.toNat)| :=
            Contraction.abs_clip_sub_clip_le _ _ _ _
        _ = |kept deltaUs xcurr xprev| * |r - r'| := by
            rw [add_sub_add_right_eq_sub, ← mul_sub, abs_mul]

/-! ## A steady signal -/

/-- The rate at which the signal `x` is the reference. -/
def target (x : ℚ) : ℚ := clip (15000000 / x)

section Steady

variable {x : ℚ} {deltaUs : UInt64}

theorem kept_steady (x : ℚ) (deltaUs : UInt64) :
    kept deltaUs x x = 1 - deltaUs.toNat * x / 500000000 := by
  rw [kept, sub_self, zero_div, sub_zero]

/-- The signal is at most half a second, and so is the distance that an update covers. -/
theorem kept_nonneg (hx : 0 < x) (hx' : x ≤ 500) (hdelta : deltaUs ≤ 1000000) :
    0 ≤ kept deltaUs x x := by
  have hle : (deltaUs.toNat : ℚ) ≤ 1000000 := by
    exact_mod_cast UInt64.le_iff_toNat_le.mp hdelta
  have hprod : (deltaUs.toNat : ℚ) * x ≤ 1000000 * 500 :=
    mul_le_mul hle hx' hx.le (by norm_num)
  rw [kept_steady]
  linarith

theorem kept_le (hx : 0 < x) (hdelta : nadaDeltaUs ≤ deltaUs) :
    kept deltaUs x x ≤ 1 - x / 5000 := by
  have hle : (100000 : ℚ) ≤ deltaUs.toNat := by
    exact_mod_cast UInt64.le_iff_toNat_le.mp hdelta
  have hprod : 100000 * x ≤ deltaUs.toNat * x := mul_le_mul_of_nonneg_right hle hx.le
  rw [kept_steady]
  linarith

theorem clip_mono {r r' : ℚ} (h : r ≤ r') : clip r ≤ clip r' :=
  max_le_max_right _ (min_le_min_left _ h)

theorem apply_mono (hkept : 0 ≤ kept deltaUs x x) {r r' : ℚ} (h : r ≤ r') :
    apply r (.gradual deltaUs x x) ≤ apply r' (.gradual deltaUs x x) :=
  clip_mono (add_le_add_left (mul_le_mul_of_nonneg_left h hkept) _)

/-- What an update adds to what it keeps is a step to the reference. -/
theorem kept_mul_add (hx : 0 < x) (r : ℚ) : kept deltaUs x x * r + 3 / 100 * deltaUs.toNat =
    r + (1 - kept deltaUs x x) * (15000000 / x - r) := by
  rw [kept_steady]
  field_simp
  ring

theorem apply_target (hx : 0 < x) (deltaUs : UInt64) :
    apply (target x) (.gradual deltaUs x x) = target x := by
  have hstep : 0 ≤ 1 - kept deltaUs x x := by
    rw [kept_steady, sub_sub_cancel]
    positivity
  rw [apply, kept_mul_add hx, target]
  rcases le_total (15000000 / x) 150000 with hlow | hlow
  · have hclip : clip (15000000 / x) = 150000 := max_eq_right ((min_le_right _ _).trans hlow)
    rw [hclip]
    refine max_eq_right ((min_le_right _ _).trans ?_)
    have := mul_nonneg hstep (sub_nonneg.mpr hlow)
    linarith
  rcases le_total 1500000 (15000000 / x) with hhigh | hhigh
  · have hclip : clip (15000000 / x) = 1500000 := by
      rw [clip, min_eq_left hhigh]
      norm_num
    have hover : 1500000 ≤ 1500000 + (1 - kept deltaUs x x) * (15000000 / x - 1500000) :=
      le_add_of_nonneg_right (mul_nonneg hstep (sub_nonneg.mpr hhigh))
    rw [hclip, clip, min_eq_left hover]
    norm_num
  · have hclip : clip (15000000 / x) = 15000000 / x := by
      rw [clip, min_eq_right hhigh, max_eq_left hlow]
    rw [hclip, sub_self, mul_zero, add_zero, hclip]

end Steady

end NadaUpdate

/-! ## The updates of a run -/

namespace NadaController

/-- What the update reads. -/
def update (deltaUs : UInt64) (c : NadaController ℚ) : NadaUpdate :=
  if c.rampsUp then .rampUp c.rttUs c.recvR else .gradual deltaUs c.xcurr c.xprev

theorem updateBw_currBw {c : NadaController ℚ} (hc : c.Bounded) (deltaUs : UInt64) :
    (c.updateBw ℚ deltaUs).currBw = (c.update deltaUs).apply c.currBw := by
  rw [updateBw_eq, update, hc.minBw, hc.maxBw]
  change NadaUpdate.clip (c.proposed deltaUs) = _
  split
  case isTrue hup =>
    rw [proposed_of_rampsUp hup]
    rfl
  case isFalse hgradual =>
    have hpos : c.currBw ≠ 0 := by linarith [hc.currBw.1]
    have haffine : c.proposed deltaUs = NadaUpdate.kept deltaUs c.xcurr c.xprev * c.currBw
        + 3 / 100 * deltaUs.toNat := by
      rw [proposed_of_gradual hgradual, hc.maxBw, NadaUpdate.kept]
      field_simp
      ring
    rw [haffine]
    rfl

end NadaController

/-- A controller with the updates of its rate, the first one first. -/
structure NadaRecord where
  controller : NadaController ℚ := {}
  updates : List NadaUpdate := []

namespace NadaRecord

open NadaController (Event)

variable (exp : ℚ → ℚ)

def step (s : NadaRecord) : Event → Option NadaRecord
  | .processFeedback nowUs sequence rxTimestampUs =>
    (s.controller.processFeedback exp nowUs sequence rxTimestampUs).map fun (ok, c) =>
      { controller := c
        updates :=
          if ok ∧ s.controller.due nowUs then
            s.updates ++ [c.update (nowUs - s.controller.lastTimeCalcUs)]
          else s.updates }
  | e => (s.controller.step exp e).map fun controller => { s with controller }

variable {exp}

/-- Gradual updates are an interval apart. -/
def Spaced : NadaUpdate → Prop
  | .rampUp .. => True
  | .gradual deltaUs .. => nadaDeltaUs ≤ deltaUs

/-- The record tells the rate. -/
structure Kept (r₀ : ℚ) (s : NadaRecord) : Prop where
  bounded : s.controller.Bounded
  rate : s.controller.currBw = s.updates.foldl NadaUpdate.apply r₀
  spaced : ∀ u ∈ s.updates, Spaced u

theorem Kept.feedback (hexp : ∀ x, 0 ≤ exp x) {r₀ : ℚ} {s s' : NadaRecord} (hs : s.Kept r₀)
    {nowUs rxTimestampUs : UInt64} {sequence : UInt16}
    (h : s.step exp (.processFeedback nowUs sequence rxTimestampUs) = some s') : s'.Kept r₀ := by
  obtain ⟨⟨ok, c⟩, hfeedback, rfl⟩ := Option.map_eq_some_iff.mp h
  have hbounded := NadaController.processFeedback_bounded hexp hs.bounded hfeedback
  rcases NadaController.processFeedback_cases hfeedback with
    ⟨rfl, hdue, base, d, hd, rfl⟩ | ⟨hnot, base, _, _, rfl⟩
  · have hd' : d.Bounded :=
      NadaController.updateMetrics_bounded hexp (hs.bounded.withBase base) hd
    have hcurr : d.currBw = s.controller.currBw := (NadaController.updateMetrics_eq hd).1.currBw
    set deltaUs := nowUs - s.controller.lastTimeCalcUs with hdelta
    have hupdate : NadaController.update deltaUs
        { d.updateBw ℚ deltaUs with lastTimeCalcUs := nowUs } = d.update deltaUs := by
      rw [NadaController.updateBw_eq]
      rfl
    have hrate : (d.updateBw ℚ deltaUs).currBw =
        (s.updates ++ [d.update deltaUs]).foldl NadaUpdate.apply r₀ := by
      rw [NadaController.updateBw_currBw hd', hcurr, hs.rate, List.foldl_concat]
    refine ⟨hbounded, ?_, fun u hu => ?_⟩
    · simp only [hdue, and_self, if_true, hupdate]
      exact hrate
    · simp only [hdue, and_self, if_true, hupdate] at hu
      rcases List.mem_append.mp hu with hold | hnew
      · exact hs.spaced u hold
      · rw [List.mem_singleton.mp hnew, NadaController.update]
        rw [NadaController.due, decide_eq_true_eq] at hdue
        split
        · trivial
        · exact hdue.2
  · have hskip : ¬ (ok = true ∧ s.controller.due nowUs = true) := by
      rintro ⟨hok, hdue⟩
      rcases hnot with h | h
      · rw [hok] at h
        cases h
      · rw [hdue] at h
        cases h
    simp only [if_neg hskip]
    exact { hs with bounded := hbounded }

theorem Kept.step (hexp : ∀ x, 0 ≤ exp x) {r₀ : ℚ} {s s' : NadaRecord} (hs : s.Kept r₀) {e : Event}
    (he : e ≠ .reset) (h : s.step exp e = some s') : s'.Kept r₀ := by
  cases e with
  | processFeedback nowUs sequence rxTimestampUs => exact hs.feedback hexp h
  | processSendPacket txTimestampUs sequence size =>
      obtain ⟨c, hc, rfl⟩ := Option.map_eq_some_iff.mp h
      obtain ⟨p, -, rfl⟩ := Option.map_eq_some_iff.mp hc
      exact { hs with bounded := hs.bounded.withBase _ }
  | prunTransitHistory tarSeq =>
      obtain ⟨c, hc, rfl⟩ := Option.map_eq_some_iff.mp h
      obtain ⟨base, -, rfl⟩ := Option.map_eq_some_iff.mp hc
      exact { hs with bounded := hs.bounded.withBase _ }
  | updateLossRate lossQ8 =>
      cases h
      exact { hs with bounded := hs.bounded.withBase _ }
  | reset => exact absurd rfl he

theorem kept_of_run (hexp : ∀ x, 0 ≤ exp x) {es : List Event} (hes : ∀ e ∈ es, e ≠ .reset)
    {c : NadaController ℚ} (hc : c.Bounded) {s : NadaRecord}
    (hrun : Run.exec (step exp) { controller := c } es = some s) : s.Kept c.currBw :=
  Run.exec_invariant_mem (fun _ _ e he hs hstep => hs.step hexp (hes e he) hstep)
    ⟨hc, rfl, fun _ hu => absurd hu List.not_mem_nil⟩ hrun

theorem abs_foldl_apply_sub_le (us : List NadaUpdate) (r r' : ℚ) :
    |us.foldl NadaUpdate.apply r - us.foldl NadaUpdate.apply r'| ≤
      (us.map NadaUpdate.factor).prod * |r - r'| :=
  Contraction.abs_foldl_sub_foldl_le (fun u _ => u.factor_nonneg)
    (fun u _ => u.abs_apply_sub_apply_le) r r'

/-- Two flows whose updates read the same measurements, as at a shared bottleneck, come together:
their rates differ in the end by the product of the factors of the updates. -/
theorem flows_meet (hexp : ∀ x, 0 ≤ exp x) {es es' : List Event} (hes : ∀ e ∈ es, e ≠ .reset)
    (hes' : ∀ e ∈ es', e ≠ .reset) {c c' : NadaController ℚ} (hc : c.Bounded) (hc' : c'.Bounded)
    {s s' : NadaRecord} (hrun : Run.exec (step exp) { controller := c } es = some s)
    (hrun' : Run.exec (step exp) { controller := c' } es' = some s')
    (hsame : s.updates = s'.updates) :
    |s.controller.currBw - s'.controller.currBw| ≤
      (s.updates.map NadaUpdate.factor).prod * |c.currBw - c'.currBw| := by
  rw [(kept_of_run hexp hes hc hrun).rate, (kept_of_run hexp hes' hc' hrun').rate, ← hsame]
  exact abs_foldl_apply_sub_le s.updates _ _

/-- A flow with 20 ms of queueing delay, and an update of its rate behind it. -/
def queueing (currBw : ℚ) : NadaController ℚ where
  base :=
    { firstSend := false
      lastSequence := 7
      baseDelayUs := 20000
      packetHistory :=
        [{ sequence := 7, txTimestampUs := 1000, size := 100, owdUs := 40000, rttUs := 40000 }]
      recvHistory :=
        [{ sequence := 7, txTimestampUs := 1000, size := 100, owdUs := 40000, rttUs := 40000 }]
      pktSizeSum := 100
      lastRecvSequence := 7
      ilState := { intervals := [1], expectedSeq := 8 } }
  lastTimeCalcUs := 41000
  lastTimeCalcValid := true
  currBw
  qdelayUs := 20000
  rttUs := 40000
  xcurr := 20
  xprev := 20

theorem queueing_bounded {currBw : ℚ} (h : 150000 ≤ currBw ∧ currBw ≤ 1500000) :
    (queueing currBw).Bounded := by
  constructor <;> norm_num [queueing, h]

/-- One more packet with the same delay. -/
def onePacket : List Event := [.processSendPacket 121000 8 100, .processFeedback 181000 8 161000]

theorem onePacket_updates {currBw : ℚ} (hcurr : currBw = 300000 ∨ currBw = 900000) :
    ∃ s, Run.exec (step NadaController.taylor) { controller := queueing currBw } onePacket =
        some s ∧ s.updates = [.gradual 140000 20 20] := by
  have h : (Run.exec (step NadaController.taylor) { controller := queueing currBw } onePacket).map
      NadaRecord.updates = some [.gradual 140000 20 20] := by
    rcases hcurr with rfl | rfl <;> decide +kernel
  exact Option.map_eq_some_iff.mp h

theorem flows_meet_onePacket : ∃ s s' : NadaRecord,
    Run.exec (step NadaController.taylor) { controller := queueing 300000 } onePacket = some s ∧
      Run.exec (step NadaController.taylor) { controller := queueing 900000 } onePacket = some s' ∧
      |s.controller.currBw - s'.controller.currBw| ≤
        (s.updates.map NadaUpdate.factor).prod * |300000 - 900000| := by
  obtain ⟨s, hs, hupdates⟩ := onePacket_updates (.inl rfl)
  obtain ⟨s', hs', hupdates'⟩ := onePacket_updates (.inr rfl)
  exact ⟨s, s', hs, hs', flows_meet NadaController.taylor_nonneg (by simp [onePacket])
    (by simp [onePacket]) (queueing_bounded (by norm_num)) (queueing_bounded (by norm_num)) hs hs'
    (hupdates.trans hupdates'.symm)⟩

end NadaRecord

end Zhuge
