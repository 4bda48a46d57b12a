-- SUMMARY: When the velocity of Copa stays a power of two and the product for the step fits its types.
import Zhuge.Lib.Run
import Zhuge.TcpCopa

/-!
# Velocity and product

The velocity doubles once per window for as long as the direction holds, in 64 bits
and without a bound. The packets and the segment size are multiplied in 32 bits
before the velocity widens the product.
-/

namespace Zhuge

namespace TcpCopa

variable {F : Type} {flt : RttFilter F} {now : Time} {tcb tcb' : TcpSocketState} {rs : RateSample}
  {s s' t : TcpCopa F}

/-! ## What is to hold, and when it does -/

/-- The velocity is a power of two. -/
def PowerOfTwo (s : TcpCopa F) : Prop := ∃ k : ℕ, s.velocityState.velocity.toNat = 2 ^ k

/-- Packets times segment size squared, as a number. -/
def bytesSquared (tcb : TcpSocketState) (s : TcpCopa F) : ℕ :=
  (s.ackedPackets tcb.segmentSize).toNat * tcb.segmentSize.toNat * tcb.segmentSize.toNat

/-- Where a call computes the step, the velocity is a power of two and the product is exact. -/
def ProductExact (flt : RttFilter F) (s : TcpCopa F) (c : Call) : Prop :=
  ∀ increaseCwnd t, s.measure flt c.now c.tcb c.rs = .updates increaseCwnd t →
    t.PowerOfTwo ∧
      (stepProduct (t.ackedPackets c.tcb.segmentSize) c.tcb.segmentSize
          t.velocityState.velocity).toNat =
        t.bytesSquared c.tcb * t.velocityState.velocity.toNat

/-- Whether `CheckAndUpdateDirection` doubles the velocity: the window is full, and the direction
has been the same for more than three round trips. -/
def Doubles (eventTime srtt : Time) (cwndBytes ackedBytes : UInt32) (s : TcpCopa F) : Prop :=
  let v := s.velocityState
  v.lastCwndRecordTime ≠ 0 ∧ s.totalAckedBytes + ackedBytes ≥ cwndBytes ∧
    newDirection cwndBytes v = v.direction ∧ eventTime - v.timeSinceDirection > 3 * srtt

/-- The condition on a call that computes the step: a velocity of 2⁶³ is not doubled, and the two
products fit their types. -/
def ProductFits (flt : RttFilter F) (s : TcpCopa F) (c : Call) : Prop :=
  ∀ increaseCwnd t, s.measure flt c.now c.tcb c.rs = .updates increaseCwnd t →
    (¬ (increaseCwnd = true ∧ s.isSlowStart = true) →
      s.Doubles c.now c.tcb.lastRtt c.tcb.cWnd (s.reportAckedBytes + c.rs.ackedSacked) →
      s.velocityState.velocity.toNat ≠ 2 ^ 63) ∧
    t.bytesSquared c.tcb < 2 ^ 32 ∧
    t.bytesSquared c.tcb * t.velocityState.velocity.toNat < 2 ^ 64

/-! ## The velocity of a call -/

/-- What sampling and reporting leave alone, besides the bytes that a sample adds. -/
def motion (s : TcpCopa F) : VelocityState × UInt32 × UInt32 × Bool :=
  (s.velocityState, s.totalAckedBytes, s.reportAckedBytes, s.isSlowStart)

theorem motion_sample (flt : RttFilter F) (now : Time) (tcb : TcpSocketState) (rs : RateSample)
    (s : TcpCopa F) :
    (s.sample flt now tcb rs).motion =
      (s.velocityState, s.totalAckedBytes, s.reportAckedBytes + rs.ackedSacked,
        s.isSlowStart) := by
  simp only [sample, newRttSample, clearOldHist, motion]
  split_ifs <;> rfl

theorem motion_updateLossRate (now rttMin : Time) (s : TcpCopa F) :
    (s.updateLossRate now rttMin).motion = s.motion := by
  unfold updateLossRate
  split_ifs <;> rfl

theorem motion_updateMode (srtt rttMin : Time) (s : TcpCopa F) :
    (s.updateMode srtt rttMin).motion = s.motion := by
  unfold updateMode
  split_ifs <;> rfl

theorem motion_updateDelta (lost : UInt32) (s : TcpCopa F) :
    (s.updateDelta lost).motion = s.motion := by
  simp only [updateDelta, capDelta]
  split_ifs <;> rfl

theorem motion_reportMeasurement (now srtt rttMin : Time) (acked lost : UInt32) (s : TcpCopa F) :
    (s.reportMeasurement now srtt rttMin acked lost).motion = s.motion := by
  rw [reportMeasurement, motion_updateDelta, motion_updateMode, motion_updateLossRate]
  rfl

/-- A call that returns early has only sampled. -/
theorem velocityState_of_returns (h : s.measure flt now tcb rs = .returns t) :
    t.velocityState = s.velocityState := by
  have hsample := congrArg Prod.fst (motion_sample flt now tcb rs s)
  simp only [measure] at h
  split_ifs at h
  · cases h
    exact hsample
  · split at h <;> cases h
  · cases h
    exact hsample

/-- A call that gets to the step has sampled and reported, and then brought the direction up to
date unless it increases the window in slow start. -/
theorem measure_eq_updates {increaseCwnd : Bool}
    (h : s.measure flt now tcb rs = .updates increaseCwnd t) :
    ∃ u : TcpCopa F, u.motion =
        (s.velocityState, s.totalAckedBytes, s.reportAckedBytes + rs.ackedSacked,
          s.isSlowStart) ∧
      if increaseCwnd = true ∧ s.isSlowStart = true then t = u
      else u.checkAndUpdateDirection now tcb.lastRtt tcb.cWnd
        (s.reportAckedBytes + rs.ackedSacked) = some t := by
  have hsample := motion_sample flt now tcb rs s
  have hmotion := motion_reportMeasurement now tcb.lastRtt
    (flt.getBest (s.sample flt now tcb rs).minRttFilter)
    (s.sample flt now tcb rs).reportAckedBytes (s.sample flt now tcb rs).reportLostBytes
    (s.sample flt now tcb rs)
  rw [hsample] at hmotion
  refine ⟨_, hmotion, ?_⟩
  simp only [motion, Prod.mk.injEq] at hmotion
  obtain ⟨-, -, hacked, hslow⟩ := hmotion
  simp only [measure] at h
  split_ifs at h with hdue hzero hbelow hmss hgrow
  · cases h
    rw [if_pos ⟨hgrow.1, hslow ▸ hgrow.2⟩]
  · split at h
    · cases h
    · rename_i u hcheck
      cases h
      rw [if_neg (fun hboth => hgrow ⟨hboth.1, hslow ▸ hboth.2⟩), ← hacked]
      exact hcheck

/-- `CheckAndUpdateDirection` doubles the velocity, or else keeps it or starts again at one. -/
theorem checkAndUpdateDirection_velocity {eventTime srtt : Time} {cwndBytes ackedBytes : UInt32}
    (h : s.checkAndUpdateDirection eventTime srtt cwndBytes ackedBytes = some t) :
    (s.Doubles eventTime srtt cwndBytes ackedBytes ∧
        t.velocityState.velocity = 2 * s.velocityState.velocity) ∨
      ¬ s.Doubles eventTime srtt cwndBytes ackedBytes ∧
        (t.velocityState.velocity = s.velocityState.velocity ∨
          t.velocityState.velocity = 1) := by
  simp only [checkAndUpdateDirection] at h
  split_ifs at h with hfirst hearly hfull
  · cases h
    exact .inr ⟨fun hdoubles => hdoubles.1 hfirst, .inl rfl⟩
  · cases h
    simp only [follow]
    split_ifs with hsame hother
    · exact .inl ⟨⟨hfirst, hfull, hsame⟩, rfl⟩
    · exact .inr ⟨fun hdoubles => hsame hdoubles.2.2, .inr rfl⟩
    · exact .inr ⟨fun hdoubles => hsame hdoubles.2.2, .inl rfl⟩
  · cases h
    exact .inr ⟨fun hdoubles => hfull hdoubles.2.1, .inl rfl⟩

/-- The velocity with which a call computes the step. -/
theorem velocity_of_updates {increaseCwnd : Bool}
    (h : s.measure flt now tcb rs = .updates increaseCwnd t) :
    (¬ (increaseCwnd = true ∧ s.isSlowStart = true) ∧
        s.Doubles now tcb.lastRtt tcb.cWnd (s.reportAckedBytes + rs.ackedSacked) ∧
        t.velocityState.velocity = 2 * s.velocityState.velocity) ∨
      ¬ (¬ (increaseCwnd = true ∧ s.isSlowStart = true) ∧
          s.Doubles now tcb.lastRtt tcb.cWnd (s.reportAckedBytes + rs.ackedSacked)) ∧
        (t.velocityState.velocity = s.velocityState.velocity ∨
          t.velocityState.velocity = 1) := by
  obtain ⟨u, hmotion, hdirection⟩ := measure_eq_updates h
  simp only [motion, Prod.mk.injEq] at hmotion
  obtain ⟨hvelocity, htotal, -, -⟩ := hmotion
  split_ifs at hdirection with hgrow
  · exact .inr ⟨fun hboth => hboth.1 hgrow, .inl (by rw [hdirection, hvelocity])⟩
  · have hcheck := checkAndUpdateDirection_velocity hdirection
    simp only [Doubles, hvelocity, htotal] at hcheck
    obtain ⟨hdoubles, htwice⟩ | ⟨hnot, hkept⟩ := hcheck
    · exact .inl ⟨hgrow, hdoubles, htwice⟩
    · exact .inr ⟨fun hboth => hnot hboth.2, hkept⟩

/-- Turning round keeps the velocity or starts again at one. -/
theorem velocity_turn (now : Time) (direction : Direction) (cwndBytes : UInt32)
    (v : VelocityState) :
    (turn now direction cwndBytes v).velocity = v.velocity ∨
      (turn now direction cwndBytes v).velocity = 1 := by
  unfold turn changeDirection
  split_ifs
  · exact .inl rfl
  · exact .inr rfl
  · exact .inl rfl

theorem velocity_updateWindow {increaseCwnd : Bool}
    (h : s.updateWindow flt now tcb increaseCwnd = some (tcb', s')) :
    s'.velocityState.velocity = s.velocityState.velocity ∨ s'.velocityState.velocity = 1 := by
  obtain ⟨change, cWnd, u, -, hmove, -, rfl⟩ := updateWindow_eq_some h
  change u.velocityState.velocity = _ ∨ u.velocityState.velocity = 1
  obtain ⟨-, -, hkept | hturned⟩ | ⟨-, hturned, -⟩ := moveWindow_cases hmove
  · rw [hkept]
    exact .inl rfl
  · rw [hturned]
    exact velocity_turn _ _ _ _
  · rw [hturned]
    exact velocity_turn _ _ _ _

/-- A call ends with the velocity it started with, with the one it computed the step with, or
with one. -/
theorem velocity_step {c : Call} (h : step flt s c = some s') :
    s'.velocityState.velocity = s.velocityState.velocity ∨
      (∃ increaseCwnd t, s.measure flt c.now c.tcb c.rs = .updates increaseCwnd t ∧
        s'.velocityState.velocity = t.velocityState.velocity) ∨
      s'.velocityState.velocity = 1 := by
  obtain ⟨⟨tcb', u⟩, hcall, rfl⟩ := Option.map_eq_some_iff.mp h
  obtain ⟨-, hreturns⟩ | ⟨increaseCwnd, t, hmeasure, hupdate⟩ := congControl_cases hcall
  · exact .inl (congrArg VelocityState.velocity (velocityState_of_returns hreturns))
  · obtain hsame | hone := velocity_updateWindow hupdate
    · exact .inr (.inl ⟨increaseCwnd, t, hmeasure, hsame⟩)
    · exact .inr (.inr hone)

/-! ## Powers of two -/

theorem PowerOfTwo.pos (h : s.PowerOfTwo) : 0 < s.velocityState.velocity.toNat := by
  obtain ⟨k, hk⟩ := h
  rw [hk]
  exact Nat.two_pow_pos k

theorem exponent_lt_of_velocity {velocity : UInt64} {k : ℕ} (h : velocity.toNat = 2 ^ k) :
    k < 64 := by
  have hlt := velocity.toNat_lt
  rw [h] at hlt
  exact (Nat.pow_lt_pow_iff_right Nat.one_lt_two).mp hlt

/-- Doubling a power of two gives one unless it is 2⁶³. -/
theorem exists_two_mul_eq_iff {velocity : UInt64} (h : ∃ k : ℕ, velocity.toNat = 2 ^ k) :
    (∃ k : ℕ, (2 * velocity).toNat = 2 ^ k) ↔ velocity.toNat ≠ 2 ^ 63 := by
  obtain ⟨k, hk⟩ := h
  have hk64 := exponent_lt_of_velocity hk
  have htwice : (2 * velocity).toNat = 2 ^ (k + 1) % 2 ^ 64 := by
    rw [UInt64.toNat_mul, hk, Nat.pow_succ, Nat.mul_comm]
    rfl
  rw [htwice, hk]
  rcases Nat.lt_or_ge k 63 with hlt | hge
  · have hsmall : 2 ^ (k + 1) < 2 ^ 64 := Nat.pow_lt_pow_right Nat.one_lt_two (by omega)
    refine iff_of_true ⟨k + 1, Nat.mod_eq_of_lt hsmall⟩ ?_
    exact (Nat.pow_lt_pow_right Nat.one_lt_two hlt).ne
  · obtain rfl : k = 63 := by omega
    refine iff_of_false ?_ (not_not.mpr rfl)
    rintro ⟨j, hj⟩
    exact absurd hj.symm (Nat.two_pow_pos j).ne'

/-- A product that is reduced to 32 bits, multiplied in 64 bits, is exact exactly if neither of
the two products overflows. -/
theorem stepProduct_exact_iff {packets mss : UInt32} {velocity : UInt64}
    (hpos : 0 < velocity.toNat) :
    (stepProduct packets mss velocity).toNat =
        packets.toNat * mss.toNat * mss.toNat * velocity.toNat ↔
      packets.toNat * mss.toNat * mss.toNat < 2 ^ 32 ∧
        packets.toNat * mss.toNat * mss.toNat * velocity.toNat < 2 ^ 64 := by
  have hbytes : (packets * mss * mss).toNat =
      packets.toNat * mss.toNat * mss.toNat % 2 ^ 32 := by
    rw [UInt32.toNat_mul, UInt32.toNat_mul, Nat.mod_mul_mod]
  rw [stepProduct, UInt64.toNat_mul, UInt32.toNat_toUInt64, hbytes]
  generalize packets.toNat * mss.toNat * mss.toNat = bytes
  constructor
  · intro hexact
    have hfit : bytes < 2 ^ 32 := by
      by_contra hover
      have hreduced : bytes % 2 ^ 32 < bytes :=
        (Nat.mod_lt _ (Nat.two_pow_pos 32)).trans_le (not_lt.mp hover)
      have hless := (Nat.mod_le (bytes % 2 ^ 32 * velocity.toNat) (2 ^ 64)).trans_lt
        (Nat.mul_lt_mul_of_pos_right hreduced hpos)
      exact hless.ne hexact
    rw [Nat.mod_eq_of_lt hfit] at hexact
    exact ⟨hfit, hexact ▸ Nat.mod_lt _ (Nat.two_pow_pos 64)⟩
  · rintro ⟨hbytes, hproduct⟩
    rw [Nat.mod_eq_of_lt hbytes, Nat.mod_eq_of_lt hproduct]

/-! ## Runs -/

/-- A call is exact exactly if its products fit. -/
theorem productExact_iff (hs : s.PowerOfTwo) (c : Call) :
    ProductExact flt s c ↔ ProductFits flt s c := by
  apply forall₃_congr
  intro increaseCwnd t hmeasure
  have hproduct : 0 < t.velocityState.velocity.toNat →
      ((stepProduct (t.ackedPackets c.tcb.segmentSize) c.tcb.segmentSize
          t.velocityState.velocity).toNat =
        t.bytesSquared c.tcb * t.velocityState.velocity.toNat ↔
      t.bytesSquared c.tcb < 2 ^ 32 ∧
        t.bytesSquared c.tcb * t.velocityState.velocity.toNat < 2 ^ 64) :=
    stepProduct_exact_iff
  obtain ⟨hgrow, hdoubles, htwice⟩ | ⟨hnot, hkept⟩ := velocity_of_updates hmeasure
  · have hpower : t.PowerOfTwo ↔ s.velocityState.velocity.toNat ≠ 2 ^ 63 := by
      rw [PowerOfTwo, htwice]
      exact exists_two_mul_eq_iff hs
    constructor
    · rintro ⟨ht, hexact⟩
      exact ⟨fun _ _ => hpower.mp ht, (hproduct ht.pos).mp hexact⟩
    · rintro ⟨hbelow, hfits⟩
      have ht := hpower.mpr (hbelow hgrow hdoubles)
      exact ⟨ht, (hproduct ht.pos).mpr hfits⟩
  · have hpower : t.PowerOfTwo := by
      obtain hsame | hone := hkept
      · rwa [PowerOfTwo, hsame]
      · exact ⟨0, by rw [hone]; rfl⟩
    constructor
    · rintro ⟨-, hexact⟩
      exact ⟨fun hgrow hdoubles => absurd ⟨hgrow, hdoubles⟩ hnot,
        (hproduct hpower.pos).mp hexact⟩
    · rintro ⟨-, hfits⟩
      exact ⟨hpower, (hproduct hpower.pos).mpr hfits⟩

theorem PowerOfTwo.step (hs : s.PowerOfTwo) {c : Call} (hfits : ProductFits flt s c)
    (h : step flt s c = some s') : s'.PowerOfTwo := by
  obtain hsame | ⟨increaseCwnd, t, hmeasure, hsame⟩ | hone := velocity_step h
  · rwa [PowerOfTwo, hsame]
  · rw [PowerOfTwo, hsame]
    exact ((productExact_iff hs c).mpr hfits increaseCwnd t hmeasure).1
  · exact ⟨0, by rw [hone]; rfl⟩

/-- Over any calls, the velocity is a power of two in every state and every product for a step is
exact if and only if every call that computes a step doubles no velocity of 2⁶³ and has packets
times segment size squared below 2³², and with the velocity below 2⁶⁴. -/
theorem productExact_iff_productFits (flt : RttFilter F) (c : Config F) (calls : List Call) :
    Run.Each (TcpCopa.step flt) (ProductExact flt) (init c) calls ∧
        Run.Always (TcpCopa.step flt) PowerOfTwo (init c) calls ↔
      Run.Each (TcpCopa.step flt) (ProductFits flt) (init c) calls :=
  Run.each_and_always_iff (fun _ _ _ hs hfits hstep => hs.step hfits hstep)
    (fun _ call hs => productExact_iff hs call) ⟨0, rfl⟩ calls

/-- With 1500-byte segments, 1910 packets in one report are too many for the first two products. -/
theorem not_productExact_manyPackets :
    ¬ (Run.Each (TcpCopa.step .least) (ProductExact .least) (init .byDefault)
        [.ofRtt 10000 100 1500 3000000 2865000] ∧
      Run.Always (TcpCopa.step .least) PowerOfTwo (init .byDefault)
        [.ofRtt 10000 100 1500 3000000 2865000]) := by
  rintro ⟨h, -⟩
  let c : Call := .ofRtt 10000 100 1500 3000000 2865000
  have hwraps : (match (init .byDefault).measure .least c.now c.tcb c.rs with
      | .updates _ t => decide ((stepProduct (t.ackedPackets c.tcb.segmentSize) c.tcb.segmentSize
          t.velocityState.velocity).toNat ≠ t.bytesSquared c.tcb * t.velocityState.velocity.toNat)
      | _ => false) = true := by decide +kernel
  split at hwraps
  · rename_i increaseCwnd t hmeasure
    exact of_decide_eq_true hwraps (h.1 increaseCwnd t hmeasure).2
  · cases hwraps

end TcpCopa

end Zhuge
