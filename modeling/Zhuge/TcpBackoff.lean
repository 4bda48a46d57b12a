-- SUMMARY: How the rate over TCP moves: down by a quarter at every update that finds pending bytes, and up by three eighths at most at any other.
import Zhuge.EncoderLoop
import Zhuge.TcpRate

/-!
# The moves of the rate over TCP

The arithmetic is that of doubles, but the bounds are exact: three quarters, seven eighths and
eleven eighths of a 32-bit number are doubles, and rounding is monotone.
-/

namespace Zhuge

namespace TcpRateSender

variable {s : TcpRateSender}

/-! ## One update -/

theorem bitrate_val (s : TcpRateSender) :
    (Binary64.ofNat s.bitrate.toNat).val = s.bitrate.toNat :=
  Binary64.ofNat_val (s.bitrate.toNat_lt.le.trans (by norm_num))

/-- Eighths of a 32-bit number are doubles. -/
theorem round_eighths {k : ℤ} {n : ℕ} (hk : |k| ≤ 2 ^ 20) (hn : n ≤ 2 ^ 32) :
    Binary64.round (k / 8 * n) = k / 8 * n := by
  have hsmall : |k * n| ≤ 2 ^ 53 := by
    rw [abs_mul, Nat.abs_cast]
    calc |k| * (n : ℤ) ≤ 2 ^ 20 * 2 ^ 32 := by
          apply mul_le_mul hk (by exact_mod_cast hn) (by positivity) (by positivity)
      _ ≤ 2 ^ 53 := by norm_num
  have hround := Binary64.round_mul_zpow (n := k * n) (e := -3) (by norm_num) hsmall
  have heq : ((k * n : ℤ) : ℚ) * 2 ^ (-3 : ℤ) = k / 8 * n := by
    push_cast
    norm_num
    ring
  rwa [heq] at hround

/-- Rounding keeps a bound that is a number of eighths. -/
theorem round_le_eighths {k : ℤ} {n : ℕ} {x : ℚ} (hk : |k| ≤ 2 ^ 20) (hn : n ≤ 2 ^ 32)
    (h : x ≤ k / 8 * n) : Binary64.round x ≤ k / 8 * n :=
  (Binary64.round_mono h).trans_eq (round_eighths hk hn)

theorem eighths_le_round {k : ℤ} {n : ℕ} {x : ℚ} (hk : |k| ≤ 2 ^ 20) (hn : n ≤ 2 ^ 32)
    (h : k / 8 * n ≤ x) : k / 8 * n ≤ Binary64.round x :=
  (round_eighths hk hn).symm.trans_le (Binary64.round_mono h)

/-- The same for bounds that are numbers of eighths of one. -/
theorem round_mem_eighths {k l : ℤ} {x : ℚ} (hk : |k| ≤ 2 ^ 20) (hl : |l| ≤ 2 ^ 20)
    (hlow : (k / 8 : ℚ) ≤ x) (hhigh : x ≤ l / 8) :
    (k / 8 : ℚ) ≤ Binary64.round x ∧ Binary64.round x ≤ l / 8 := by
  have h₁ := eighths_le_round (n := 1) hk (by norm_num) (by simpa using hlow)
  have h₂ := round_le_eighths (n := 1) hl (by norm_num) (by simpa using hhigh)
  simpa using And.intro h₁ h₂

theorem toNat_ofInt_truncate {x : Binary64} (h₀ : 0 ≤ x.val) (h : x.val < 2 ^ 32) :
    (UInt32.ofInt (truncate x)).toNat = ⌊x.val⌋₊ := by
  rw [truncate, if_pos h₀, ← Int.natCast_floor_eq_floor h₀, UInt32.ofInt, UInt32.toNat_ofNat']
  have hlt : ⌊x.val⌋₊ < 2 ^ 32 := (Nat.floor_lt h₀).mpr (by exact_mod_cast h)
  omega

/-- Three quarters of the smaller of the rate and a share of the sending rate. -/
theorem toNat_target_le {share : Binary64} (hshare : 0 ≤ share.val) (sendingBps b : UInt32) :
    (UInt32.ofInt (truncate ((Binary64.ofRat (3 / 4)).mul
      (if (share.mul (.ofNat sendingBps.toNat)).val < (Binary64.ofNat b.toNat).val then
        share.mul (.ofNat sendingBps.toNat) else .ofNat b.toNat)))).toNat ≤ 3 * b.toNat / 4 := by
  generalize hy : (if (share.mul (.ofNat sendingBps.toNat)).val < (Binary64.ofNat b.toNat).val then
    share.mul (.ofNat sendingBps.toNat) else .ofNat b.toNat) = y
  have hb : (Binary64.ofNat b.toNat).val = b.toNat :=
    Binary64.ofNat_val (b.toNat_lt.le.trans (by norm_num))
  have hyb : y.val ≤ b.toNat := by
    rw [← hy, ← hb]
    split
    case isTrue hlt => exact hlt.le
    case isFalse => exact le_rfl
  have hy₀ : 0 ≤ y.val := by
    rw [← hy]
    split
    · exact Binary64.round_nonneg (mul_nonneg hshare (Binary64.ofNat_nonneg _))
    · exact Binary64.ofNat_nonneg _
  have hquarters : Binary64.round (3 / 4) = 3 / 4 := by
    have h := round_eighths (k := 6) (n := 1) (by norm_num) (by norm_num)
    norm_num at h
    exact h
  have hmul : ((Binary64.ofRat (3 / 4)).mul y).val = Binary64.round (3 / 4 * y.val) := by
    rw [Binary64.mul_val, Binary64.ofRat_val, hquarters]
  have hle : ((Binary64.ofRat (3 / 4)).mul y).val ≤ 3 / 4 * b.toNat := by
    have h := round_le_eighths (k := 6) (n := b.toNat) (x := 3 / 4 * y.val) (by norm_num)
      b.toNat_lt.le (by push_cast; linarith)
    rw [hmul]
    exact h.trans_eq (by push_cast; ring)
  have h₀ : 0 ≤ ((Binary64.ofRat (3 / 4)).mul y).val := by
    rw [hmul]
    exact Binary64.round_nonneg (mul_nonneg (by norm_num) hy₀)
  have hlt : (b.toNat : ℚ) < 2 ^ 32 := by exact_mod_cast b.toNat_lt
  rw [toNat_ofInt_truncate h₀ (by linarith), Nat.le_div_iff_mul_le (by norm_num)]
  have hfloor := Nat.floor_le h₀
  have hnat : (⌊((Binary64.ofRat (3 / 4)).mul y).val⌋₊ * 4 : ℚ) ≤ 3 * b.toNat := by linarith
  exact_mod_cast hnat

/-- With bytes pending the rate falls by a quarter at least. -/
theorem adaptBitrate_le_of_pending {curPendingBuf : UInt32} (hpending : 0 < curPendingBuf)
    (totalSendBytes lastSendingRateBps : UInt32) :
    (s.adaptBitrate curPendingBuf totalSendBytes lastSendingRateBps).toNat
      ≤ 3 * s.bitrate.toNat / 4 := by
  have hfloor : 0 ≤ (Binary64.ofRat (1 / 10)).val := Binary64.round_nonneg (by norm_num)
  simp only [adaptBitrate, gt_iff_lt, if_pos hpending]
  apply toNat_target_le
  split
  · exact hfloor
  · split
    case isTrue hlt => exact hfloor.trans hlt.le
    case isFalse => exact hfloor

/-- With nothing pending it moves by an eighth down or three eighths up at most. -/
theorem adaptBitrate_bounds_of_idle (hduty : s.dutyState.count true ≤ s.kTxRateUpdateWindowMs.toNat)
    (totalSendBytes lastSendingRateBps : UInt32) (hbound : s.bitrate.toNat ≤ 2 ^ 31) :
    7 * s.bitrate.toNat / 8 ≤ (s.adaptBitrate 0 totalSendBytes lastSendingRateBps).toNat ∧
      (s.adaptBitrate 0 totalSendBytes lastSendingRateBps).toNat ≤ 11 * s.bitrate.toNat / 8 := by
  simp only [adaptBitrate, gt_iff_lt, if_neg (show ¬ (0 : UInt32) < 0 by decide)]
  have hb := s.bitrate_val
  have hquarters : (Binary64.ofRat (3 / 4)).val = 3 / 4 := by
    have h := round_eighths (k := 6) (n := 1) (by norm_num) (by norm_num)
    norm_num at h
    exact h
  have hhalf : (Binary64.ofRat (1 / 2)).val = 1 / 2 := by
    have h := round_eighths (k := 4) (n := 1) (by norm_num) (by norm_num)
    norm_num at h
    exact h
  obtain ⟨hduty₀, hduty₁⟩ := Binary64.div_ofNat_mem_unit hduty
  generalize (Binary64.ofNat (s.dutyState.count true)).div
    (.ofNat s.kTxRateUpdateWindowMs.toNat) = duty at hduty₀ hduty₁ ⊢
  -- the excess of the duty ratio, half of it, and that share of the rate
  obtain ⟨hexcess, hexcess'⟩ : -6 / 8 ≤ (duty.sub (.ofRat (3 / 4))).val ∧
      (duty.sub (.ofRat (3 / 4))).val ≤ 2 / 8 :=
    round_mem_eighths (k := -6) (l := 2) (by norm_num) (by norm_num)
      (by rw [hquarters]; push_cast; linarith) (by rw [hquarters]; push_cast; linarith)
  generalize duty.sub (.ofRat (3 / 4)) = excess at hexcess hexcess' ⊢
  obtain ⟨hdamped, hdamped'⟩ : -3 / 8 ≤ ((Binary64.ofRat (1 / 2)).mul excess).val ∧
      ((Binary64.ofRat (1 / 2)).mul excess).val ≤ 1 / 8 :=
    round_mem_eighths (k := -3) (l := 1) (by norm_num) (by norm_num)
      (by rw [hhalf]; push_cast; linarith) (by rw [hhalf]; push_cast; linarith)
  generalize (Binary64.ofRat (1 / 2)).mul excess = damped at hdamped hdamped' ⊢
  have hn : s.bitrate.toNat ≤ 2 ^ 32 := s.bitrate.toNat_lt.le
  generalize Binary64.ofNat s.bitrate.toNat = rate at hb ⊢
  generalize s.bitrate.toNat = n at hb hn hbound ⊢
  have hn₀ : (0 : ℚ) ≤ n := Nat.cast_nonneg n
  have hchange : -3 / 8 * n ≤ (damped.mul rate).val := by
    have h := mul_le_mul_of_nonneg_right hdamped hn₀
    exact eighths_le_round (k := -3) (by norm_num) hn (by rw [hb]; push_cast; linarith)
  have hchange' : (damped.mul rate).val ≤ 1 / 8 * n := by
    have h := mul_le_mul_of_nonneg_right hdamped' hn₀
    exact round_le_eighths (k := 1) (by norm_num) hn (by rw [hb]; push_cast; linarith)
  generalize damped.mul rate = change at hchange hchange' ⊢
  have hlow : 7 / 8 * n ≤ (rate.sub change).val :=
    eighths_le_round (k := 7) (by norm_num) hn (by rw [hb]; push_cast; linarith)
  have hhigh : (rate.sub change).val ≤ 11 / 8 * n :=
    round_le_eighths (k := 11) (by norm_num) hn (by rw [hb]; push_cast; linarith)
  have h₀ : 0 ≤ (rate.sub change).val := le_trans (by positivity) hlow
  have hlt : (n : ℚ) ≤ 2 ^ 31 := by exact_mod_cast hbound
  rw [toNat_ofInt_truncate h₀ (by linarith)]
  constructor
  · apply Nat.le_floor
    have hdiv : ((7 * n / 8 : ℕ) : ℚ) ≤ ((7 * n : ℕ) : ℚ) / 8 := Nat.cast_div_le
    push_cast at hdiv ⊢
    linarith
  · rw [Nat.le_div_iff_mul_le (by norm_num)]
    have hfloor := Nat.floor_le h₀
    have hnat : (⌊(rate.sub change).val⌋₊ * 8 : ℚ) ≤ 11 * n := by linarith
    exact_mod_cast hnat

/-- The rate is within the bounds of the encoder, and each millisecond of a window has its duty. -/
structure Bounded (s : TcpRateSender) : Prop where
  min_eq : s.kMinEncodeBps = Zhuge.kMinEncodeBps
  max_eq : s.kMaxEncodeBps = Zhuge.kMaxEncodeBps
  atLeast : 100000 ≤ s.bitrate.toNat
  atMost : s.bitrate.toNat ≤ 100000000
  first : s.firstUpdate = true → s.bitrate.toNat = 100000
  duty : s.dutyState.length = s.kTxRateUpdateWindowMs.toNat

/-- How an update moves the rate, with bytes pending or without. -/
structure Moved (s s' : TcpRateSender) (curPendingBuf : UInt32) : Prop where
  up : s'.bitrate.toNat ≤ 11 * s.bitrate.toNat / 8
  down : 0 < curPendingBuf → s'.bitrate.toNat ≤ max 100000 (3 * s.bitrate.toNat / 4)
  kept : curPendingBuf = 0 → 7 * s.bitrate.toNat / 8 ≤ s'.bitrate.toNat

theorem Bounded.updateSendingRate (h : s.Bounded) (now : Time)
    (sentsize txbufferavailble : UInt32) :
    (s.updateSendingRate now sentsize txbufferavailble).Bounded ∧
      Moved s (s.updateSendingRate now sentsize txbufferavailble)
        (s.curPendingBuf sentsize txbufferavailble) := by
  have hmin : s.kMinEncodeBps.toNat = 100000 := congrArg UInt32.toNat h.min_eq
  have hmax : s.kMaxEncodeBps.toNat = 100000000 := congrArg UInt32.toNat h.max_eq
  have hlow := h.atLeast
  have hhigh := h.atMost
  cases hfirst : s.firstUpdate with
  | true =>
      have hkept := h.first hfirst
      have hbitrate :
          (s.updateSendingRate now sentsize txbufferavailble).bitrate.toNat = 100000 := by
        simp only [TcpRateSender.updateSendingRate, hfirst, if_true, hmin]
      refine ⟨⟨h.min_eq, h.max_eq, ?_, ?_, fun _ => hbitrate, h.duty⟩, ⟨?_, ?_, ?_⟩⟩ <;> omega
  | false =>
      generalize hpending : s.curPendingBuf sentsize txbufferavailble = cur
      obtain ⟨total, sending, hbitrate⟩ : ∃ total sending,
          (s.updateSendingRate now sentsize txbufferavailble).bitrate.toNat =
            max (min (s.adaptBitrate cur total sending).toNat 100000000) 100000 := by
        refine ⟨s.totalSendBytes now.getMilliSeconds cur,
          s.lastSendingRateBps now.getMilliSeconds cur, ?_⟩
        simp only [TcpRateSender.updateSendingRate, hfirst, Bool.false_eq_true, if_false,
          UInt32.toNat_max, UInt32.toNat_min, hmin, hmax, hpending]
      have hidle := s.adaptBitrate_bounds_of_idle (h.duty ▸ List.count_le_length) total sending
        (hhigh.trans (by norm_num))
      have hdown := fun hpos : 0 < cur => s.adaptBitrate_le_of_pending hpos total sending
      have hcases : cur = 0 ∨ 0 < cur := by
        rw [UInt32.lt_iff_toNat_lt, ← UInt32.toNat_inj, UInt32.toNat_zero]
        omega
      refine ⟨⟨h.min_eq, h.max_eq, ?_, ?_, fun hnew => (by cases hnew), h.duty⟩, ⟨?_, ?_, ?_⟩⟩
      · omega
      · omega
      · rcases hcases with rfl | hpos
        · omega
        · have := hdown hpos
          omega
      · intro hpos
        have := hdown hpos
        omega
      · rintro rfl
        omega

end TcpRateSender

namespace TcpRateRun

/-! ## Runs -/

/-- The updates in a run. -/
def updates (events : List Event) : ℕ :=
  events.countP fun
    | .updateSendingRate _ => true
    | _ => false

/-- What an update finds pending. -/
def pendingBuf (s : TcpRateRun) : UInt32 :=
  s.sender.curPendingBuf s.buffer.sentSize (s.buffer.txAvailable s.sender.txBufSize)

/-- Every update finds bytes pending. -/
def Pends (s : TcpRateRun) : Event → Prop
  | .updateSendingRate _ => 0 < s.pendingBuf
  | _ => True

/-- No update finds bytes pending. -/
def Idles (s : TcpRateRun) : Event → Prop
  | .updateSendingRate _ => s.pendingBuf = 0
  | _ => True

variable {s s' : TcpRateRun}

theorem bounded_start (txBufSize : UInt32) (now : Time) :
    (start 40 txBufSize Zhuge.kMinEncodeBps Zhuge.kMaxEncodeBps now).sender.Bounded where
  min_eq := rfl
  max_eq := rfl
  atLeast := le_rfl
  atMost := show 100000 ≤ 100000000 by decide
  first := fun _ => rfl
  duty := List.length_replicate

/-- An update moves the rate, and nothing else does. -/
theorem bounded_step (h : s.sender.Bounded) {e : Event} (hstep : s.step e = some s') :
    s'.sender.Bounded ∧
      ((∃ now, e = .updateSendingRate now) ∧ s.sender.Moved s'.sender s.pendingBuf ∨
        updates [e] = 0 ∧ s'.sender.bitrate = s.sender.bitrate) := by
  cases e with
  | updateSendingRate now =>
      cases hstep
      obtain ⟨hbounded, hmoved⟩ := h.updateSendingRate now s.buffer.sentSize
        (s.buffer.txAvailable s.sender.txBufSize)
      exact ⟨hbounded, Or.inl ⟨⟨now, rfl⟩, hmoved⟩⟩
  | updateDutyRatio now =>
      cases hstep
      exact ⟨{ h with duty := (List.length_set ..).trans h.duty }, Or.inr ⟨rfl, rfl⟩⟩
  | write now bytes =>
      cases hstep
      exact ⟨{ h with }, Or.inr ⟨rfl, rfl⟩⟩
  | transmit bytes =>
      cases hstep
      exact ⟨h, Or.inr ⟨rfl, rfl⟩⟩
  | acknowledge bytes =>
      cases hstep
      exact ⟨h, Or.inr ⟨rfl, rfl⟩⟩

theorem updates_update (now : Time) (events : List Event) :
    updates (.updateSendingRate now :: events) = updates events + 1 :=
  List.countP_cons_of_pos rfl

theorem updates_other {e : Event} (h : updates [e] = 0) (events : List Event) :
    updates (e :: events) = updates events := by
  rw [updates, List.countP_singleton] at h
  rw [updates, List.countP_cons, h, add_zero]
  rfl

/-- How a run moves the rate, with so many updates in it. The integers lose seven at most. -/
structure Steers (s t : TcpRateRun) (events : List Event) : Prop where
  up : t.sender.bitrate.toNat * 8 ^ updates events ≤ 11 ^ updates events * s.sender.bitrate.toNat
  down : Run.Each step Pends s events → t.sender.bitrate.toNat ≤ 100000 ∨
    t.sender.bitrate.toNat * 4 ^ updates events ≤ 3 ^ updates events * s.sender.bitrate.toNat
  kept : Run.Each step Idles s events → 7 ^ updates events * (s.sender.bitrate.toNat + 7) ≤
    (t.sender.bitrate.toNat + 7) * 8 ^ updates events

/-- One update in front of a run. -/
theorem Steers.update {now : Time} {events : List Event} {t : TcpRateRun}
    (hmoved : s.sender.Moved t.sender s.pendingBuf)
    (hstep : s.step (.updateSendingRate now) = some t)
    (h : Steers t s' events) : Steers s s' (.updateSendingRate now :: events) := by
  have hup := hmoved.up
  refine ⟨?_, fun hpends => ?_, fun hidles => ?_⟩ <;> rw [updates_update]
  · calc s'.sender.bitrate.toNat * 8 ^ (updates events + 1)
        = s'.sender.bitrate.toNat * 8 ^ updates events * 8 := by ring
      _ ≤ 11 ^ updates events * t.sender.bitrate.toNat * 8 := Nat.mul_le_mul_right 8 h.up
      _ = 11 ^ updates events * (t.sender.bitrate.toNat * 8) := by ring
      _ ≤ 11 ^ updates events * (11 * s.sender.bitrate.toNat) :=
        Nat.mul_le_mul_left _ (by omega)
      _ = _ := by ring
  · obtain ⟨hpending, hrest⟩ := hpends
    rcases h.down (hrest t hstep) with hlow | hdown
    · exact Or.inl hlow
    rcases le_max_iff.mp (hmoved.down hpending) with hlow | hquarter
    · refine Or.inl (Nat.le_of_mul_le_mul_right ?_ (Nat.pow_pos (n := updates events) four_pos))
      calc s'.sender.bitrate.toNat * 4 ^ updates events
          ≤ 3 ^ updates events * t.sender.bitrate.toNat := hdown
        _ ≤ 4 ^ updates events * 100000 :=
          Nat.mul_le_mul (Nat.pow_le_pow_left (by decide) _) hlow
        _ = 100000 * 4 ^ updates events := Nat.mul_comm _ _
    · refine Or.inr ?_
      calc s'.sender.bitrate.toNat * 4 ^ (updates events + 1)
          = s'.sender.bitrate.toNat * 4 ^ updates events * 4 := by ring
        _ ≤ 3 ^ updates events * t.sender.bitrate.toNat * 4 := Nat.mul_le_mul_right 4 hdown
        _ = 3 ^ updates events * (t.sender.bitrate.toNat * 4) := by ring
        _ ≤ 3 ^ updates events * (3 * s.sender.bitrate.toNat) := Nat.mul_le_mul_left _ (by omega)
        _ = _ := by ring
  · obtain ⟨hidle, hrest⟩ := hidles
    have hkept := hmoved.kept hidle
    calc 7 ^ (updates events + 1) * (s.sender.bitrate.toNat + 7)
        = 7 ^ updates events * (7 * (s.sender.bitrate.toNat + 7)) := by ring
      _ ≤ 7 ^ updates events * (8 * (t.sender.bitrate.toNat + 7)) :=
        Nat.mul_le_mul_left _ (by omega)
      _ = 7 ^ updates events * (t.sender.bitrate.toNat + 7) * 8 := by ring
      _ ≤ (s'.sender.bitrate.toNat + 7) * 8 ^ updates events * 8 :=
        Nat.mul_le_mul_right 8 (h.kept (hrest t hstep))
      _ = _ := by ring

/-- Another event in front of a run. -/
theorem Steers.other {e : Event} {events : List Event} {t : TcpRateRun} (he : updates [e] = 0)
    (hrate : t.sender.bitrate = s.sender.bitrate) (hstep : s.step e = some t)
    (h : Steers t s' events) : Steers s s' (e :: events) := by
  constructor
  · rw [updates_other he, ← hrate]
    exact h.up
  · rw [updates_other he, ← hrate]
    exact fun hpends => h.down (hpends.2 t hstep)
  · rw [updates_other he, ← hrate]
    exact fun hidles => h.kept (hidles.2 t hstep)

theorem steers_of_exec {events : List Event} (h : s.sender.Bounded)
    (hrun : Run.exec step s events = some s') : s'.sender.Bounded ∧ Steers s s' events := by
  induction events generalizing s with
  | nil =>
      cases hrun
      exact ⟨h, ⟨by simp [updates], fun _ => Or.inr (by simp [updates]), fun _ => by
        simp [updates]⟩⟩
  | cons e events ih =>
      obtain ⟨t, hstep, hrest⟩ := Run.exec_cons_eq_some.mp hrun
      obtain ⟨ht, hmove⟩ := bounded_step h hstep
      obtain ⟨hbounded, hsteers⟩ := ih ht hrest
      rcases hmove with ⟨⟨now, rfl⟩, hmoved⟩ | ⟨hother, hrate⟩
      · exact ⟨hbounded, hsteers.update hmoved hstep⟩
      · exact ⟨hbounded, hsteers.other hother hrate hstep⟩

/-- Between any two states of a run: a rate within the bounds rises by three eighths an update at
most, falls by a quarter at each update while bytes are pending, until it is at the lower
bound, and by an eighth at most at each while none are. -/
theorem rate_steers (txBufSize : UInt32) (now : Time) {earlier events : List Event}
    {s t : TcpRateRun}
    (hs : Run.exec step (start 40 txBufSize Zhuge.kMinEncodeBps Zhuge.kMaxEncodeBps now) earlier
      = some s) (ht : Run.exec step s events = some t) :
    (100000 ≤ t.sender.bitrate.toNat ∧ t.sender.bitrate.toNat ≤ 100000000) ∧ Steers s t events := by
  obtain ⟨hbounded, -⟩ := steers_of_exec (bounded_start txBufSize now) hs
  obtain ⟨hbounded', hsteers⟩ := steers_of_exec hbounded ht
  exact ⟨⟨hbounded'.atLeast, hbounded'.atMost⟩, hsteers⟩

/-- Nothing is pending at the first two updates, and a write at the third. -/
def riseAndFall : List Event × List Event :=
  ([.updateSendingRate (.milliSeconds 40)],
    [.updateSendingRate (.milliSeconds 80), .write (.milliSeconds 100) 1000,
      .updateSendingRate (.milliSeconds 120)])

theorem rate_steers_riseAndFall : ∃ s t,
    Run.exec step (start 40 131072 Zhuge.kMinEncodeBps Zhuge.kMaxEncodeBps 0) riseAndFall.1
      = some s ∧ Run.exec step s riseAndFall.2 = some t ∧
    (100000 ≤ t.sender.bitrate.toNat ∧ t.sender.bitrate.toNat ≤ 100000000) ∧
      Steers s t riseAndFall.2 := by
  obtain ⟨s, hs, t, ht⟩ : ∃ s,
      Run.exec step (start 40 131072 Zhuge.kMinEncodeBps Zhuge.kMaxEncodeBps 0) riseAndFall.1
        = some s ∧ ∃ t, Run.exec step s riseAndFall.2 = some t := ⟨_, rfl, _, rfl⟩
  exact ⟨s, t, hs, ht, rate_steers 131072 0 hs ht⟩

end TcpRateRun

end Zhuge
