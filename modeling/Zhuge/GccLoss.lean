-- SUMMARY: When a loss report restrains the GCC sender: when the delay-based control happens to.
import Zhuge.Lib.Run
import Zhuge.GccRates

/-!
# Reported loss

The report goes to a field of the base class that no rate control reads, and the loss-based
control waits for a packet report that nothing records. So the rate after a report is what
the delay-based control makes of it.
-/

namespace Zhuge.GccController

variable {F D : Type} [Floating F] [Floating D] [Widening F D] (m : Libm F D)

/-! ## The invariant along runs -/

omit [Widening F D] in
theorem fresh_invariant (lastFractionLoss : UInt8) (lastRtcEventLogMs : Int64) :
    ({ lastFractionLoss, lastRtcEventLogMs } : GccController F D).view.Invariant where
  minBitrateConfigured := rfl
  maxBitrateConfigured := rfl
  lastPacketReportMs := rfl
  timeLastDecreaseMs := rfl
  lastRoundTripTimeMs := rfl
  bounded := show minConfiguredBitrateBps.toNat
    = GccController.bounded minConfiguredBitrateBps.toNat by decide
  started := .inr ⟨rfl, rfl, rfl, show (-1 : Int64) < 0 by decide⟩

variable {m}

theorem control_invariant {f : Feedback} {c : GccController F D} (h : c.view.Measured) :
    (c.control m f).view.Invariant := by
  by_cases hdue : c.updateEstimateDue f
  · obtain ⟨bitrate, time, hview, hbitrate⟩ := control_view_of_due m h.toDormant h.ready hdue
    rw [hview]
    refine { h with bounded := ?_, started := .inl rfl }
    change bitrate.toNat = GccController.bounded bitrate.toNat
    rw [hbitrate]
    simp only [GccController.bounded]
    omega
  · rw [control_view_of_not_due m h.toDormant h.bounded hdue]
    have hupdated : ¬ c.lastUpdateMs = -1 := fun hnever =>
      hdue (by rw [updateEstimateDue, if_pos (.inl hnever)])
    exact { h with started := .inl (h.due.resolve_right hupdated) }

/-- The rate after a feedback, when it returns. -/
theorem processFeedback_rate {f : Feedback} {ok : Bool} {c d : GccController F D}
    (hinv : c.view.Invariant) (h : c.processFeedback m f = some (ok, d)) :
    d.view.Invariant ∧ ∃ e, c.receive f = some (ok, e) ∧
      ((ok = false ∧ d.currentBitrateBps = c.currentBitrateBps) ∨
       (ok = true ∧ e.lastTimeCalcValid = false ∧ d.currentBitrateBps.toNat = 500000) ∨
       (ok = true ∧ e.lastTimeCalcValid = true ∧ ∃ g, e.estimate f = some g ∧
          g.view.Measured ∧ g.currentBitrateBps = c.currentBitrateBps ∧ d = g.control m f)) := by
  obtain ⟨⟨ok', e⟩, hreceive, h⟩ := Option.bind_eq_some_iff.mp h
  have hview := receive_view hreceive
  have hinv' : e.view.Invariant := by rwa [hview]
  have hrate : e.currentBitrateBps = c.currentBitrateBps :=
    congrArg View.currentBitrateBps hview
  cases ok' with
  | false =>
      cases h
      exact ⟨hinv', d, hreceive, .inl ⟨rfl, hrate⟩⟩
  | true =>
      cases hvalid : e.lastTimeCalcValid with
      | false =>
          simp only [hvalid, not_true_eq_false, Bool.false_eq_true, not_false_eq_true, if_false,
            if_true] at h
          cases h
          obtain ⟨hset, hleast⟩ := setInitialBitrates_invariant f hinv'
          exact ⟨hset, e, hreceive, .inr (.inl ⟨rfl, hvalid, hleast⟩)⟩
      | true =>
          simp only [hvalid, not_true_eq_false, if_false] at h
          obtain ⟨g, hestimate, hcontrol⟩ := Option.map_eq_some_iff.mp h
          cases hcontrol
          have hmeasured := measured_of_estimate hinv' hestimate
          obtain ⟨numOfDeltas, hypothesis, hsame, -⟩ := estimate_view hestimate
          have hsame' : g.currentBitrateBps = e.currentBitrateBps :=
            congrArg View.currentBitrateBps hsame
          exact ⟨control_invariant hmeasured, e, hreceive, .inr (.inr ⟨rfl, hvalid, g, hestimate,
            hmeasured, hsame'.trans hrate, rfl⟩)⟩

/-- What a call other than a feedback does. -/
theorem call_view_of_not_feedback {c d : GccController F D} {call : Call}
    (hcall : ∀ f, call ≠ .processFeedback f) (h : c.call m call = some d) : d.view = c.view := by
  cases call with
  | processSendPacket txTimestampUs sequence size =>
      obtain ⟨_, -, heq⟩ := Option.map_eq_some_iff.mp h
      cases heq
      rfl
  | prunTransitHistory tarSeq =>
      obtain ⟨_, -, heq⟩ := Option.map_eq_some_iff.mp h
      cases heq
      rfl
  | processFeedback f => exact absurd rfl (hcall f)

theorem call_processFeedback {c d : GccController F D} {f : Feedback}
    (h : c.call m (.processFeedback f) = some d) :
    ∃ ok, c.processFeedback m f = some (ok, d) := by
  obtain ⟨⟨ok, d'⟩, hpf, heq⟩ := Option.map_eq_some_iff.mp h
  cases heq
  exact ⟨ok, hpf⟩

theorem call_invariant {c d : GccController F D} {call : Call} (hinv : c.view.Invariant)
    (h : c.call m call = some d) : d.view.Invariant := by
  by_cases hcall : ∃ f, call = .processFeedback f
  · obtain ⟨f, rfl⟩ := hcall
    obtain ⟨ok, hpf⟩ := call_processFeedback h
    exact (processFeedback_rate hinv hpf).1
  · rw [call_view_of_not_feedback (fun f hf => hcall ⟨f, hf⟩) h]
    exact hinv

theorem step_invariant {c d : GccController F D} {e : Event} (hinv : c.view.Invariant)
    (h : c.step m e = some d) : d.view.Invariant := by
  cases e with
  | call call => exact call_invariant hinv h
  | updateLossRate lossQ8 =>
      cases h
      exact hinv
  | reset =>
      cases h
      exact { hinv with }

theorem reachable_invariant {lastFractionLoss : UInt8} {lastRtcEventLogMs : Int64}
    {es : List Event} {c : GccController F D}
    (h : Run.exec (step m) { lastFractionLoss, lastRtcEventLogMs } es = some c) :
    c.view.Invariant :=
  Run.exec_invariant (fun _ _ _ => step_invariant) (fresh_invariant ..) h

/-! ## What a loss report should do -/

variable (m)

/-- Is it late enough for another decrease because of a loss? -/
def decreaseDue (f : Feedback) (c : GccController F D) : Prop :=
  300 + c.lastRoundTripTimeMs ≤ f.nowMs.toInt64 - c.timeLastDecreaseMs

instance (f : Feedback) (c : GccController F D) : Decidable (c.decreaseDue f) :=
  inferInstanceAs (Decidable (_ ≤ _))

/-- The first feedback that is late enough for a decrease meets `P`. -/
def FirstDue (P : GccController F D → Feedback → Prop) (c : GccController F D) :
    List Call → Prop
  | [] => True
  | call :: calls =>
    let later := ∀ d, c.call m call = some d → FirstDue P d calls
    match call with
    | .processFeedback f => if c.decreaseDue f then P c f else later
    | _ => later

/-- The most that a loss of `lossQ8` leaves of the rate. -/
def reducedByLoss (lossQ8 : UInt8) (c : GccController F D) : Nat :=
  max c.minBitrateConfigured.toNat (c.currentBitrateBps.toNat * (512 - lossQ8.toNat) / 512)

/-- The calls after a report of `lossQ8` never raise the rate, and lower it once it is time. -/
structure Restrained (lossQ8 : UInt8) (c : GccController F D) (calls : List Call) : Prop where
  never_raised : Run.Always (call m) (fun d => d.getSendBps ≤ c.getSendBps) c calls
  lowered : FirstDue m (fun d f => ∃ ok d', d.processFeedback m f = some (ok, d') ∧
    d'.getSendBps.toNat ≤ d.reducedByLoss lossQ8) c calls

/-! ## What the delay-based control does -/

/-- The feedback reaches the rate control as `g`. -/
def Measures (f : Feedback) (c g : GccController F D) : Prop :=
  ∃ e, c.receive f = some (true, e) ∧ e.lastTimeCalcValid = true ∧ e.estimate f = some g

/-- The rate that an update asks for, below the largest rate. -/
def capped (f : Feedback) (g : GccController F D) : Nat :=
  min (g.proposal m f.nowMs.toInt64) 100000000

/-- No increase of the delay-based control leads above `bitrate`. -/
def IncreaseWithin (bitrate : UInt32) (c : GccController F D) : Call → Prop
  | .processFeedback f => ∀ g, c.Measures f g → g.updateEstimateDue f →
      (g.changeState f.nowMs.toInt64).rateControlState = .increase → g.capped m f ≤ bitrate.toNat
  | _ => True

/-- The feedback returns, and it sets the first rate, or leaves a rate that is low already,
or comes with an update of the delay-based control that asks for a rate as low. -/
def LowersByDelay (lossQ8 : UInt8) (c : GccController F D) (f : Feedback) : Prop :=
  ∃ ok e, c.receive f = some (ok, e) ∧
    ((ok = false ∧ c.currentBitrateBps.toNat ≤ c.reducedByLoss lossQ8) ∨
     (ok = true ∧ e.lastTimeCalcValid = false) ∨
     (ok = true ∧ e.lastTimeCalcValid = true ∧ ∃ g, e.estimate f = some g ∧
        if g.updateEstimateDue f then g.capped m f ≤ c.reducedByLoss lossQ8
        else c.currentBitrateBps.toNat ≤ c.reducedByLoss lossQ8))

/-- The delay-based control alone does what the report asks for. -/
structure DelayRestrained (lossQ8 : UInt8) (c : GccController F D) (calls : List Call) :
    Prop where
  increases : Run.Each (call m) (IncreaseWithin m c.currentBitrateBps) c calls
  lowered : FirstDue m (LowersByDelay m lossQ8) c calls

variable {m}

/-- Only an increase asks for more than the current rate. -/
theorem targetBitrate_le {nowMs : Int64} {c : GccController F D}
    (h : (c.changeState nowMs).rateControlState ≠ .increase) :
    c.targetBitrate m nowMs ≤ c.currentBitrateBps := by
  have hrate : (c.changeState nowMs).currentBitrateBps = c.currentBitrateBps :=
    congrArg View.currentBitrateBps (changeState_view nowMs c)
  rw [targetBitrate, proposeBitrate, ← hrate]
  cases hstate : (c.changeState nowMs).rateControlState with
  | hold => exact UInt32.le_refl _
  | increase => exact absurd hstate h
  | decrease =>
      simp only [decreaseBitrate, reducedBitrate]
      split_ifs with habove
      · rw [UInt32.le_iff_toNat_le, UInt32.toNat_min]
        exact min_le_right _ _
      · exact UInt32.not_lt.mp habove

theorem control_rate {f : Feedback} {g : GccController F D} (h : g.view.Measured) :
    (g.control m f).currentBitrateBps.toNat
      = if g.updateEstimateDue f then max 500000 (g.capped m f)
        else g.currentBitrateBps.toNat := by
  by_cases hdue : g.updateEstimateDue f
  · obtain ⟨bitrate, time, hview, hbitrate⟩ := control_view_of_due m h.toDormant h.ready hdue
    have hrate : (g.control m f).currentBitrateBps = bitrate :=
      congrArg View.currentBitrateBps hview
    rw [hrate, hbitrate, if_pos hdue, capped, GccController.bounded, min_comm]
  · have hrate : (g.control m f).currentBitrateBps = g.currentBitrateBps :=
      congrArg View.currentBitrateBps (control_view_of_not_due m h.toDormant h.bounded hdue)
    rw [hrate, if_neg hdue]

omit [Widening F D] in
theorem least_le {c : GccController F D} (h : c.view.Invariant) :
    500000 ≤ c.currentBitrateBps.toNat := by
  have hbounded : c.currentBitrateBps.toNat = GccController.bounded c.currentBitrateBps.toNat :=
    h.bounded
  rw [hbounded, GccController.bounded]
  exact le_max_left _ _

/-! ## The two clauses -/

/-- A feedback keeps the rate below a bound if and only if no increase leads above it. -/
theorem call_rate_le_iff {bitrate : UInt32} {c d : GccController F D} {call : Call}
    (hinv : c.view.Invariant) (hle : c.currentBitrateBps ≤ bitrate)
    (h : c.call m call = some d) :
    d.currentBitrateBps ≤ bitrate ↔ IncreaseWithin m bitrate c call := by
  by_cases hcall : ∃ f, call = .processFeedback f
  · obtain ⟨f, rfl⟩ := hcall
    obtain ⟨ok, hpf⟩ := call_processFeedback h
    have hleast := least_le hinv
    rw [UInt32.le_iff_toNat_le] at hle ⊢
    obtain ⟨-, e, hreceive, hrate⟩ := processFeedback_rate hinv hpf
    constructor
    · rintro hbound g ⟨e', hreceive', hvalid, hestimate⟩ hdue -
      cases hreceive.symm.trans hreceive'
      obtain ⟨hok, -⟩ | ⟨-, hinvalid, -⟩ | ⟨-, -, g', hestimate', hmeasured, -, rfl⟩ := hrate
      · cases hok
      · cases hvalid.symm.trans hinvalid
      · cases hestimate.symm.trans hestimate'
        rw [control_rate hmeasured, if_pos hdue] at hbound
        exact (le_max_right _ _).trans hbound
    · intro hwithin
      obtain ⟨-, hkept⟩ | ⟨-, -, hfirst⟩ |
        ⟨rfl, hvalid, g, hestimate, hmeasured, hsame, rfl⟩ := hrate
      · rwa [hkept]
      · rw [hfirst]
        exact hleast.trans hle
      · rw [control_rate hmeasured]
        split_ifs with hdue
        · apply max_le (hleast.trans hle)
          by_cases hincrease : (g.changeState f.nowMs.toInt64).rateControlState = .increase
          · exact hwithin g ⟨e, hreceive, hvalid, hestimate⟩ hdue hincrease
          · have htarget := targetBitrate_le (m := m) hincrease
            rw [UInt32.le_iff_toNat_le, hsame] at htarget
            exact ((min_le_left _ _).trans ((min_le_left _ _).trans htarget)).trans hle
        · rwa [hsame]
  · have hsame := congrArg View.currentBitrateBps
      (call_view_of_not_feedback (fun f hf => hcall ⟨f, hf⟩) h)
    have hrate : d.currentBitrateBps = c.currentBitrateBps := hsame
    rw [hrate]
    refine ⟨fun _ => ?_, fun _ => hle⟩
    cases call with
    | processFeedback f => exact absurd ⟨f, rfl⟩ hcall
    | processSendPacket => trivial
    | prunTransitHistory => trivial

theorem processFeedback_isSome_iff {f : Feedback} {c : GccController F D} :
    (∃ ok d, c.processFeedback m f = some (ok, d)) ↔ ∃ ok e, c.receive f = some (ok, e) ∧
      (ok = true → e.lastTimeCalcValid = true → ∃ g, e.estimate f = some g) := by
  simp only [processFeedback]
  cases hreceive : c.receive f with
  | none => simp
  | some p =>
      obtain ⟨ok, e⟩ := p
      cases ok <;> cases hvalid : e.lastTimeCalcValid <;>
        simp [hvalid, Option.map_eq_some_iff]

/-- A feedback lowers the rate as a loss should if and only if the delay-based control does. -/
theorem lowered_iff {lossQ8 : UInt8} {f : Feedback} {c : GccController F D}
    (hinv : c.view.Invariant) :
    (∃ ok d, c.processFeedback m f = some (ok, d) ∧ d.getSendBps.toNat ≤ c.reducedByLoss lossQ8)
      ↔ c.LowersByDelay m lossQ8 f := by
  have hmin : c.minBitrateConfigured.toNat = 500000 :=
    congrArg UInt32.toNat hinv.minBitrateConfigured
  have hleast : 500000 ≤ c.reducedByLoss lossQ8 := by
    rw [reducedByLoss, hmin]
    exact le_max_left _ _
  constructor
  · rintro ⟨ok, d, hpf, hlow⟩
    obtain ⟨-, e, hreceive, hrate⟩ := processFeedback_rate hinv hpf
    refine ⟨ok, e, hreceive, ?_⟩
    obtain ⟨hok, hkept⟩ | ⟨hok, hinvalid, -⟩ |
      ⟨hok, hvalid, g, hestimate, hmeasured, hsame, rfl⟩ := hrate
    · exact .inl ⟨hok, by rwa [← hkept]⟩
    · exact .inr (.inl ⟨hok, hinvalid⟩)
    · refine .inr (.inr ⟨hok, hvalid, g, hestimate, ?_⟩)
      rw [getSendBps, control_rate hmeasured] at hlow
      split_ifs at hlow ⊢
      · exact (le_max_right _ _).trans hlow
      · rwa [← hsame]
  · rintro ⟨ok, e, hreceive, hlow⟩
    obtain ⟨ok', d, hpf⟩ := processFeedback_isSome_iff (m := m).mpr ⟨ok, e, hreceive,
      fun hok hvalid => by
        obtain ⟨hok', -⟩ | ⟨-, hinvalid⟩ | ⟨-, -, g, hestimate, -⟩ := hlow
        · cases hok.symm.trans hok'
        · cases hvalid.symm.trans hinvalid
        · exact ⟨g, hestimate⟩⟩
    refine ⟨ok', d, hpf, ?_⟩
    obtain ⟨-, e', hreceive', hrate⟩ := processFeedback_rate hinv hpf
    cases hreceive.symm.trans hreceive'
    obtain ⟨hok, hkept⟩ | ⟨hok, hinvalid, hfirst⟩ |
      ⟨hok, hvalid, g, hestimate, hmeasured, hsame, rfl⟩ := hrate
    · obtain ⟨-, hlow⟩ | ⟨hok', -⟩ | ⟨hok', -⟩ := hlow
      · rwa [getSendBps, hkept]
      · cases hok.symm.trans hok'
      · cases hok.symm.trans hok'
    · rw [getSendBps, hfirst]
      exact hleast
    · obtain ⟨hok', -⟩ | ⟨-, hinvalid⟩ | ⟨-, -, g', hestimate', hlow⟩ := hlow
      · cases hok.symm.trans hok'
      · cases hvalid.symm.trans hinvalid
      · cases hestimate.symm.trans hestimate'
        rw [getSendBps, control_rate hmeasured]
        split_ifs at hlow ⊢
        · exact max_le hleast hlow
        · rwa [hsame]

theorem FirstDue.mono {P Q : GccController F D → Feedback → Prop}
    (hPQ : ∀ c f, c.view.Invariant → P c f → Q c f) {c : GccController F D} {calls : List Call}
    (hinv : c.view.Invariant) (h : FirstDue m P c calls) : FirstDue m Q c calls := by
  induction calls generalizing c with
  | nil => trivial
  | cons call calls ih =>
      have hlater (hP : ∀ d, c.call m call = some d → FirstDue m P d calls) (d)
          (hd : c.call m call = some d) : FirstDue m Q d calls :=
        ih (call_invariant hinv hd) (hP d hd)
      cases call with
      | processFeedback f =>
          simp only [FirstDue] at h ⊢
          split_ifs at h ⊢
          · exact hPQ c f hinv h
          · exact hlater h
      | processSendPacket => exact hlater h
      | prunTransitHistory => exact hlater h

theorem call_returns {bitrate : UInt32} {c : GccController F D} {call : Call}
    (h : ¬ IncreaseWithin m bitrate c call) : ∃ d, c.call m call = some d := by
  cases call with
  | processSendPacket => exact absurd trivial h
  | prunTransitHistory => exact absurd trivial h
  | processFeedback f =>
      simp only [IncreaseWithin, not_forall] at h
      obtain ⟨g, ⟨e, hreceive, -, hestimate⟩, -⟩ := h
      obtain ⟨ok, d, hpf⟩ := processFeedback_isSome_iff (m := m).mpr
        ⟨true, e, hreceive, fun _ _ => ⟨g, hestimate⟩⟩
      exact ⟨d, by rw [call, hpf, Option.map_some]⟩

/-- A packet of 60000 bytes, one every 300 ms. -/
def sendPeriodic (sequence : UInt16) : Call :=
  .processSendPacket (300000 * sequence.toUInt64) sequence 60000

/-- The feedback for it at `nowMs`, with the time the packet took but for 10 ms. -/
def feedbackPeriodic (nowMs : UInt64) (sequence : UInt16) : Call :=
  .processFeedback {
    nowUs := 1000 * nowMs
    sequence
    rxTimestampUs := 300000 * sequence.toUInt64 + 10000
    interArrival := 300000
    interDeparture := 300000
    arrivalTime := (300000 * sequence.toUInt64 + 10000).toInt64
    nowMs
    rttUs := 0 }

/-- Five packets, their feedbacks, and a packet more. -/
def periodic : List Event :=
  [.call (sendPeriodic 0), .call (sendPeriodic 1), .call (sendPeriodic 2),
    .call (sendPeriodic 3), .call (sendPeriodic 4), .call (feedbackPeriodic 1300 0),
    .call (feedbackPeriodic 1300 1), .call (feedbackPeriodic 1300 2),
    .call (feedbackPeriodic 1300 3), .call (feedbackPeriodic 1300 4), .call (sendPeriodic 5)]

/-- A controller whose uninitialised fields are zero. -/
def zeroed : GccController Float32 Float :=
  { lastFractionLoss := 0, lastRtcEventLogMs := 0 }

end Zhuge.GccController
