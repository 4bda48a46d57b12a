-- SUMMARY: When a reversal of Copa moves the window by the step for velocity one.
import Zhuge.CopaVelocity

/-!
# Reversals

A sudden change of direction resets the velocity to one, so that a velocity meant for
the opposite direction is not applied. The step is computed before the reset, with the
velocity that is reset; it is the step for velocity one only where the velocity makes
no difference to it.
-/

namespace Zhuge

namespace TcpCopa

variable {F : Type} {flt : RttFilter F} {now : Time} {tcb tcb' : TcpSocketState} {rs : RateSample}
  {s s' t : TcpCopa F}

/-- The direction in which the window is moved. -/
def directionOf (increaseCwnd : Bool) : Direction := if increaseCwnd then .up else .down

/-- The step for velocity one. -/
def stepAtOne (tcb : TcpSocketState) (s : TcpCopa F) : ℕ :=
  min tcb.cWnd.toNat ⌊(s.stepQuotient tcb 1).val⌋₊

/-- Outside of slow start, a window that is moved against the direction is moved by the step for
velocity one. -/
def ReversesAtOne (flt : RttFilter F) (s : TcpCopa F) (c : Call) : Prop :=
  ∀ increaseCwnd t, s.measure flt c.now c.tcb c.rs = .updates increaseCwnd t →
    t.isSlowStart = false → directionOf increaseCwnd ≠ t.velocityState.direction →
    t.updateWindow flt c.now c.tcb increaseCwnd ≠ none →
      ∀ change ∈ t.change c.tcb, change.toNat = t.stepAtOne c.tcb

/-- The velocity makes no difference to the step: it is one, or the quotient is below one with it
and without it, or at least the window. -/
def VelocityNeutral (tcb : TcpSocketState) (s : TcpCopa F) : Prop :=
  s.velocityState.velocity = 1 ∨
    (s.stepQuotient tcb s.velocityState.velocity).val < 1 ∧ (s.stepQuotient tcb 1).val < 1 ∨
    (tcb.cWnd.toNat : ℚ) ≤ (s.stepQuotient tcb s.velocityState.velocity).val ∧
      (tcb.cWnd.toNat : ℚ) ≤ (s.stepQuotient tcb 1).val

/-- The condition on such a call. -/
def ReversesNeutrally (flt : RttFilter F) (s : TcpCopa F) (c : Call) : Prop :=
  ∀ increaseCwnd t, s.measure flt c.now c.tcb c.rs = .updates increaseCwnd t →
    t.isSlowStart = false → directionOf increaseCwnd ≠ t.velocityState.direction →
    t.updateWindow flt c.now c.tcb increaseCwnd ≠ none → t.VelocityNeutral c.tcb

/-! ## Velocities that come from doubling -/

/-- One doubled some number of times in 64 bits. -/
def Doubled (velocity : UInt64) : Prop := velocity = 0 ∨ ∃ k : ℕ, velocity.toNat = 2 ^ k

theorem Doubled.one : Doubled 1 := .inr ⟨0, rfl⟩

theorem Doubled.two_mul {velocity : UInt64} (h : Doubled velocity) : Doubled (2 * velocity) := by
  obtain rfl | hpower := h
  · exact .inl rfl
  · by_cases htop : velocity.toNat = 2 ^ 63
    · left
      apply UInt64.toNat.inj
      rw [UInt64.toNat_mul, htop]
      rfl
    · exact .inr ((exists_two_mul_eq_iff hpower).mpr htop)

theorem Doubled.of_updates (h : Doubled s.velocityState.velocity) {increaseCwnd : Bool}
    (hmeasure : s.measure flt now tcb rs = .updates increaseCwnd t) :
    Doubled t.velocityState.velocity := by
  obtain ⟨-, -, htwice⟩ | ⟨-, hsame | hone⟩ := velocity_of_updates hmeasure
  · rw [htwice]
    exact h.two_mul
  · rwa [hsame]
  · rw [hone]
    exact .one

theorem Doubled.step (h : Doubled s.velocityState.velocity) {c : Call}
    (hstep : step flt s c = some s') : Doubled s'.velocityState.velocity := by
  obtain hsame | ⟨increaseCwnd, t, hmeasure, hsame⟩ | hone := velocity_step hstep
  · rwa [hsame]
  · rw [hsame]
    exact h.of_updates hmeasure
  · rw [hone]
    exact .one

theorem toNat_stepProduct_one (packets mss : UInt32) :
    (stepProduct packets mss 1).toNat = (packets * mss * mss).toNat := by
  simp [stepProduct]

/-- With such a velocity other than one, the product is zero or at least twice that for one. -/
theorem stepProduct_cases (packets mss : UInt32) {velocity : UInt64} (h : Doubled velocity) :
    velocity = 1 ∨ (stepProduct packets mss velocity).toNat = 0 ∨
      2 * (stepProduct packets mss 1).toNat ≤ (stepProduct packets mss velocity).toNat := by
  have hbytes := (packets * mss * mss).toNat_lt
  rw [toNat_stepProduct_one, stepProduct, UInt64.toNat_mul, UInt32.toNat_toUInt64]
  generalize (packets * mss * mss).toNat = bytes at hbytes
  obtain rfl | ⟨k, hk⟩ := h
  · exact .inr (.inl (by simp))
  · have hk64 := exponent_lt_of_velocity hk
    rw [hk]
    rcases Nat.eq_zero_or_pos k with rfl | hpos
    · exact .inl (UInt64.toNat.inj hk)
    · right
      rcases Nat.lt_or_ge (bytes * 2 ^ k) (2 ^ 64) with hfit | hover
      · right
        rw [Nat.mod_eq_of_lt hfit, Nat.mul_comm]
        exact Nat.mul_le_mul_left _ (Nat.le_self_pow hpos.ne' 2)
      · -- a product that wraps is a multiple of the velocity, which is then above 2³²
        have hbig : 2 ^ 33 ≤ 2 ^ k := by
          apply Nat.pow_le_pow_right Nat.two_pos
          by_contra hsmall
          have hle : 2 ^ k ≤ 2 ^ 32 := Nat.pow_le_pow_right Nat.two_pos (by omega)
          have hless := Nat.mul_lt_mul_of_lt_of_le hbytes hle (Nat.two_pow_pos 32)
          omega
        have hdvd : 2 ^ k ∣ bytes * 2 ^ k % 2 ^ 64 :=
          (Nat.dvd_mod_iff (Nat.pow_dvd_pow 2 hk64.le)).mpr (Nat.dvd_mul_left _ _)
        rcases Nat.eq_zero_or_pos (bytes * 2 ^ k % 2 ^ 64) with hzero | hproduct
        · exact .inl hzero
        · right
          have hle := Nat.le_of_dvd hproduct hdvd
          omega

/-! ## The quotients -/

/-- Twice the dividend gives at least twice a quotient of at least one. -/
theorem two_mul_quotient_le {dividend more : ℕ} {divisor : Binary64} (hsmall : dividend < 2 ^ 32)
    (hmore : 2 * dividend ≤ more) (hone : 1 ≤ (Binary64.div (.ofNat dividend) divisor).val) :
    2 * (Binary64.div (.ofNat dividend) divisor).val ≤
      (Binary64.div (.ofNat more) divisor).val := by
  have hexact : (Binary64.ofNat dividend).val = dividend := Binary64.ofNat_val (by omega)
  have htwice : (2 * dividend : ℚ) ≤ (Binary64.ofNat more).val := by
    have hdouble : (Binary64.ofNat (2 * dividend)).val = (2 * dividend : ℕ) :=
      Binary64.ofNat_val (by omega)
    push_cast at hdouble
    rw [← hdouble]
    exact Binary64.round_mono_of_nonneg (Nat.cast_nonneg _) (by exact_mod_cast hmore)
  rw [Binary64.div_val, hexact] at hone ⊢
  have hhalf := Binary64.half_lt_of_one_le_round hone
  have hdivisor : 0 < divisor.val := by
    by_contra hneg
    have hquot : (dividend : ℚ) / divisor.val ≤ 0 :=
      div_nonpos_of_nonneg_of_nonpos (Nat.cast_nonneg _) (not_lt.mp hneg)
    linarith
  have hnormal : (2 : ℚ) ^ (-1022 : ℤ) ≤ dividend / divisor.val := by
    calc (2 : ℚ) ^ (-1022 : ℤ)
        ≤ 2 ^ (-1 : ℤ) := zpow_le_zpow_right₀ one_le_two (by norm_num)
      _ = 1 / 2 := by norm_num
      _ ≤ dividend / divisor.val := hhalf.le
  rw [← Binary64.round_two_mul hnormal, Binary64.div_val]
  apply Binary64.round_mono_of_nonneg
  · positivity
  · rw [← mul_div_assoc]
    exact div_le_div_of_nonneg_right htwice hdivisor.le

/-- So is the quotient: zero, or at least twice that for one where this is at least one. -/
theorem stepQuotient_cases (h : Doubled s.velocityState.velocity) :
    s.velocityState.velocity = 1 ∨
      (s.stepQuotient tcb s.velocityState.velocity).val = 0 ∨
      (1 ≤ (s.stepQuotient tcb 1).val →
        2 * (s.stepQuotient tcb 1).val ≤ (s.stepQuotient tcb s.velocityState.velocity).val) := by
  obtain hone | hzero | hle :=
    stepProduct_cases (s.ackedPackets tcb.segmentSize) tcb.segmentSize h
  · exact .inl hone
  · right; left
    simp only [stepQuotient, hzero, Binary64.div_ofNat_zero]
    exact Binary64.ofNat_val (Nat.zero_le _)
  · right; right
    exact two_mul_quotient_le (toNat_stepProduct_one _ _ ▸ UInt32.toNat_lt _) hle

/-- The floors that bound the step agree exactly if both are zero or both reach the window. -/
theorem min_floor_eq_iff {window : ℕ} (hwindow : 0 < window) {q one : ℚ}
    (h : q = 0 ∨ (1 ≤ one → 2 * one ≤ q)) :
    min window ⌊q⌋₊ = min window ⌊one⌋₊ ↔
      q < 1 ∧ one < 1 ∨ (window : ℚ) ≤ q ∧ (window : ℚ) ≤ one := by
  have hcast : (1 : ℚ) ≤ window := by exact_mod_cast hwindow
  rcases lt_or_ge one 1 with hlt | hge
  · have hfloor : ⌊one⌋₊ = 0 := Nat.floor_eq_zero.mpr hlt
    rw [hfloor, Nat.min_zero]
    constructor
    · intro hzero
      exact .inl ⟨Nat.floor_eq_zero.mp (by omega), hlt⟩
    · rintro (⟨hq, -⟩ | ⟨-, hone⟩)
      · rw [Nat.floor_eq_zero.mpr hq, Nat.min_zero]
      · linarith
  · have hpos : 1 ≤ ⌊one⌋₊ := Nat.one_le_floor_iff one |>.mpr hge
    obtain rfl | htwice := h
    · refine iff_of_false ?_ ?_
      · rw [Nat.floor_zero]
        omega
      · rintro (⟨-, hone⟩ | ⟨hq, -⟩) <;> linarith
    · have hle := htwice hge
      have hdouble : 2 * ⌊one⌋₊ ≤ ⌊q⌋₊ := by
        apply Nat.le_floor
        push_cast
        linarith [Nat.floor_le (zero_le_one.trans hge)]
      constructor
      · intro heq
        have hreach : window ≤ ⌊one⌋₊ := by omega
        have hone := (Nat.le_floor_iff (zero_le_one.trans hge)).mp hreach
        exact .inr ⟨by linarith, hone⟩
      · rintro (⟨-, hone⟩ | ⟨-, hone⟩)
        · linarith
        · have hreach := Nat.le_floor hone
          omega

/-- The step is the floor of the quotient, at most the window. -/
theorem toNat_change {change : UInt32} (h : s.change tcb = some change) :
    change.toNat = min tcb.cWnd.toNat ⌊(s.stepQuotient tcb s.velocityState.velocity).val⌋₊ := by
  unfold TcpCopa.change toUInt32? at h
  split_ifs at h with hzero hrange
  · cases h
    have hfloor : ⌊(s.stepQuotient tcb s.velocityState.velocity).val⌋₊ < 2 ^ 32 := by
      rw [Nat.floor_lt' (by norm_num)]
      exact_mod_cast hrange.2
    rw [UInt32.toNat_min, UInt32.toNat_ofNat', Nat.mod_eq_of_lt hfloor, min_comm]
  · cases h

/-- A step is computed for a window that is not empty. -/
theorem cWnd_pos {change : UInt32} (h : s.change tcb = some change) : 0 < tcb.cWnd.toNat := by
  by_contra hempty
  have hzero : (Binary64.mul s.deltaParam (.ofNat tcb.cWnd.toNat)).val = 0 := by
    rw [Nat.eq_zero_of_not_pos hempty, Binary64.mul_val, Binary64.ofNat_val (Nat.zero_le _)]
    simp
  rw [TcpCopa.change, if_pos hzero] at h
  cases h

theorem change_eq_stepAtOne_iff (hv : Doubled s.velocityState.velocity) {change : UInt32}
    (h : s.change tcb = some change) :
    change.toNat = s.stepAtOne tcb ↔ s.VelocityNeutral tcb := by
  rw [toNat_change h, stepAtOne, VelocityNeutral]
  by_cases hone : s.velocityState.velocity = 1
  · rw [hone]
    exact iff_of_true rfl (.inl rfl)
  · rw [min_floor_eq_iff (cWnd_pos h) ((stepQuotient_cases hv).resolve_left hone),
      or_iff_right hone]

/-! ## Runs -/

/-- A call reverses with the step for velocity one exactly if it meets the condition. -/
theorem reversesAtOne_iff (hv : Doubled s.velocityState.velocity) (c : Call) :
    ReversesAtOne flt s c ↔ ReversesNeutrally flt s c := by
  apply forall₃_congr
  intro increaseCwnd t hmeasure
  apply forall₃_congr
  intro _ _ hupdate
  have ht := hv.of_updates hmeasure
  obtain ⟨⟨tcb', s'⟩, hresult⟩ := Option.ne_none_iff_exists'.mp hupdate
  obtain ⟨change, cWnd, u, hchange, -, -, -⟩ := updateWindow_eq_some hresult
  simp only [hchange, Option.mem_some_iff, forall_eq']
  exact change_eq_stepAtOne_iff ht hchange

/-- Over any calls, every move against the direction outside of slow start is by the step for
velocity one if and only if the velocity makes no difference to any of them. -/
theorem reversesAtOne_iff_reversesNeutrally (flt : RttFilter F) (c : Config F)
    (calls : List Call) :
    Run.Each (TcpCopa.step flt) (ReversesAtOne flt) (init c) calls ↔
      Run.Each (TcpCopa.step flt) (ReversesNeutrally flt) (init c) calls :=
  Run.each_iff (I := fun s => Doubled s.velocityState.velocity)
    (fun _ _ _ hs hstep => hs.step hstep) (fun _ call hs => reversesAtOne_iff hs call) .one calls

/-- The queue empties after the velocity has reached two on the way down: the window of 4000 bytes
grows by 1000 instead of 500. -/
theorem not_reversesAtOne_queueEmpties :
    ¬ Run.Each (TcpCopa.step .least) (ReversesAtOne .least) (init .byDefault)
      [.ofRtt 10000 100 1000 20000 20000, .ofRtt 10300 300 1000 20000 20000,
        .ofRtt 10600 300 1000 10000 10000, .ofRtt 11600 300 1000 8000 10000,
        .ofRtt 11800 100 1000 4000 1000] := by
  intro h
  let c : Call := .ofRtt 11800 100 1000 4000 1000
  have hrun : ((Run.exec (TcpCopa.step .least) (init .byDefault)
      [.ofRtt 10000 100 1000 20000 20000, .ofRtt 10300 300 1000 20000 20000,
        .ofRtt 10600 300 1000 10000 10000, .ofRtt 11600 300 1000 8000 10000]).elim false fun s =>
      match s.measure .least c.now c.tcb c.rs with
      | .updates increaseCwnd t =>
        decide (t.isSlowStart = false ∧ directionOf increaseCwnd ≠ t.velocityState.direction ∧
          (t.updateWindow .least c.now c.tcb increaseCwnd).isSome ∧
          t.change c.tcb = some 1000 ∧ t.stepAtOne c.tcb = 500)
      | _ => false) = true := by decide +kernel
  cases hexec : Run.exec (TcpCopa.step .least) (init .byDefault)
      [.ofRtt 10000 100 1000 20000 20000, .ofRtt 10300 300 1000 20000 20000,
        .ofRtt 10600 300 1000 10000 10000, .ofRtt 11600 300 1000 8000 10000] with
  | none => simp [hexec] at hrun
  | some s =>
      rw [hexec, Option.elim_some] at hrun
      split at hrun
      · rename_i increaseCwnd t hmeasure
        obtain ⟨hslow, hagainst, hupdate, hchange, hone⟩ := of_decide_eq_true hrun
        have hlast : Run.Each (TcpCopa.step .least) (ReversesAtOne .least) s [c] :=
          Run.Each.of_append_right h hexec
        have hstep := hlast.1 increaseCwnd t hmeasure hslow hagainst
          (Option.isSome_iff_ne_none.mp hupdate) 1000 hchange
        rw [hone] at hstep
        exact absurd hstep (by decide)
      · cases hrun

end TcpCopa

end Zhuge
