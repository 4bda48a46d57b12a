-- SUMMARY: The encoder, steered by the sender's rate timer: its frames take up the rate that is asked, and no more.
import Mathlib.Tactic.Linarith
import Zhuge.FrameGroups
import Zhuge.Lib.Run

/-!
# The encoder loop

Every 40 ms the sender hands a rate to the game server, which bounds it and sets the encoder. The
encoder makes a frame per interval. Both run as events of the simulator.
-/

namespace Zhuge

/-! ## The encoder -/

/-- `DumbVideoEncoder`. -/
structure VideoEncoder where
  fps : UInt8
  bitrate : UInt32

def kMinEncodeBps : UInt32 := 100000

def kMaxEncodeBps : UInt32 := 100000000

/-- The rate as `UpdateBitrate` bounds it. -/
def encodeRate (encodeRateBps : UInt32) : UInt32 :=
  min (max encodeRateBps kMinEncodeBps) kMaxEncodeBps

namespace VideoEncoder

/-- `SetBitrate`, as `UpdateBitrate` calls it. -/
def updateBitrate (encodeRateBps : UInt32) (e : VideoEncoder) : VideoEncoder :=
  { e with bitrate := encodeRate encodeRateBps >>> 10 }

/-- `frame_size`. `none`: it divides by zero. -/
def frameSize (e : VideoEncoder) : Option UInt32 :=
  if e.fps = 0 then none else some (e.bitrate * 1000 / 8 / e.fps.toUInt32)

/-- The time between two frames, in microseconds. -/
def intervalUs (e : VideoEncoder) : ℕ := 1000000 / e.fps.toNat

end VideoEncoder

/-! ## The loop -/

/-- An event of the simulator: when it runs, and how many were scheduled before it. -/
structure SimEvent where
  time : Time
  uid : ℕ

/-- The simulator runs the earlier event, and of two at one time that which was scheduled first. -/
def SimEvent.Before (e f : SimEvent) : Prop := e.time < f.time ∨ e.time = f.time ∧ e.uid < f.uid

instance (e f : SimEvent) : Decidable (e.Before f) := inferInstanceAs (Decidable (_ ∨ _))

/-- A frame that the encoder made. -/
structure EncodedFrame where
  time : Time
  /-- The rate that was asked last, within the bounds. -/
  rate : UInt32
  size : UInt32

structure EncoderLoop where
  encoder : VideoEncoder
  encodeEvent : SimEvent
  /-- The event of `m_cc_timer`. -/
  rateEvent : SimEvent
  scheduled : ℕ
  /-- The rate that was asked last, within the bounds; `none` before the first one. -/
  asked : Option UInt32
  frames : List EncodedFrame

namespace EncoderLoop

inductive Event where
  | encodeFrame (now : Time)
  | updateBitrate (now : Time) (sendingRateBps : UInt32)

/-- `Setup` and `StartApplication`. `none`: it divides by zero. -/
def start (interval : UInt16) (now : Time) : Option EncoderLoop :=
  if interval = 0 then none
  else some {
    encoder := ⟨(1000 / interval).toUInt8, 0⟩
    rateEvent := ⟨now + .milliSeconds 40, 0⟩
    encodeEvent := ⟨now, 1⟩
    scheduled := 2
    asked := none
    frames := [] }

/-- `EncodeFrame`, for a frame of the size. `SendFrame` does nothing if that is zero. -/
def encodeFrame (size : UInt32) (s : EncoderLoop) : EncoderLoop :=
  { s with
    frames :=
      if size = 0 then s.frames
      else s.frames ++ [⟨s.encodeEvent.time, s.asked.getD 0, size⟩]
    encodeEvent := ⟨s.encodeEvent.time + .microSeconds s.encoder.intervalUs, s.scheduled⟩
    scheduled := s.scheduled + 1 }

/-- `PacketSender::UpdateBitrate`, when `UpdateSendingRate` has set the rate. -/
def updateBitrate (sendingRateBps : UInt32) (s : EncoderLoop) : EncoderLoop :=
  { s with
    encoder := s.encoder.updateBitrate sendingRateBps
    asked := some (encodeRate sendingRateBps)
    rateEvent := ⟨s.rateEvent.time + .milliSeconds 40, s.scheduled⟩
    scheduled := s.scheduled + 1 }

/-- One step. `none`: the simulator does not run this event next, or it divides by zero. -/
def step (s : EncoderLoop) : Event → Option EncoderLoop
  | .encodeFrame now =>
    if s.encodeEvent.Before s.rateEvent ∧ now = s.encodeEvent.time then
      s.encoder.frameSize.map s.encodeFrame
    else none
  | .updateBitrate now sendingRateBps =>
    if ¬ s.encodeEvent.Before s.rateEvent ∧ now = s.rateEvent.time then
      some (s.updateBitrate sendingRateBps)
    else none

end EncoderLoop

/-! ## One frame -/

theorem encodeRate_bounds (rate : UInt32) :
    100000 ≤ (encodeRate rate).toNat ∧ (encodeRate rate).toNat ≤ 100000000 := by
  have hmin : (100000 : UInt32).toNat = 100000 := rfl
  have hmax : (100000000 : UInt32).toNat = 100000000 := rfl
  unfold encodeRate kMinEncodeBps kMaxEncodeBps
  rw [UInt32.toNat_min, UInt32.toNat_max, hmin, hmax]
  omega

/-- The integer divisions take `94 %` of the rate at worst, and never more than all of it. -/
structure Takes (size rate intervalUs : ℕ) : Prop where
  most : 94 * (rate * intervalUs) ≤ 100 * (8000000 * size)
  atMost : 8000000 * size ≤ rate * intervalUs

theorem takes_of_frameSize {fps rate : ℕ} (hfps : 0 < fps) (hfps' : fps ≤ 250)
    (hrate : 100000 ≤ rate) : Takes (rate / 1024 * 1000 / 8 / fps) rate (1000000 / fps) := by
  generalize hsize : rate / 1024 * 1000 / 8 / fps = size
  generalize hinterval : 1000000 / fps = interval
  have hbytes : rate / 1024 * 1000 / 8 = rate / 1024 * 125 := by omega
  have hlow : size * fps ≤ rate / 1024 * 125 := by
    rw [← hsize, hbytes]
    exact Nat.div_mul_le_self _ _
  have hhigh : rate / 1024 * 125 < size * fps + fps := by
    rw [← hsize, hbytes, ← Nat.succ_mul]
    exact (Nat.div_lt_iff_lt_mul hfps).mp (Nat.lt_succ_self _)
  have hperiod : interval * fps ≤ 1000000 := hinterval ▸ Nat.div_mul_le_self _ _
  have hperiod' : 1000000 < interval * fps + fps := by
    rw [← hinterval, ← Nat.succ_mul]
    exact (Nat.div_lt_iff_lt_mul hfps).mp (Nat.lt_succ_self _)
  constructor
  · have h₁ : 94 * rate ≤ 800 * (size * fps) := by omega
    have h₂ := Nat.mul_le_mul h₁ hperiod
    have h₃ : fps * (94 * (rate * interval)) ≤ fps * (100 * (8000000 * size)) := by linarith
    exact Nat.le_of_mul_le_mul_left h₃ hfps
  · have h₁ : 8 * 1000000 * (size * fps) ≤ rate * (1000000 - 250) := by omega
    have h₂ : rate * (1000000 - 250) ≤ rate * (interval * fps) :=
      Nat.mul_le_mul_left rate (by omega)
    have h₃ : fps * (8000000 * size) ≤ fps * (rate * interval) := by linarith
    exact Nat.le_of_mul_le_mul_left h₃ hfps

/-- A frame made at `fps` frames a second for a rate within the bounds. -/
structure EncodedFrame.Follows (fps : ℕ) (f : EncodedFrame) : Prop where
  fits : 0 < f.size.toNat ∧ f.size.toNat ≤ 12207000
  takes : Takes f.size.toNat f.rate.toNat (1000000 / fps)

/-! ## Runs -/

namespace EncoderLoop

theorem frames_start {interval : UInt16} {now : Time} {s : EncoderLoop}
    (h : start interval now = some s) : s.frames = [] := by
  unfold start at h
  split at h <;> cases h
  rfl

theorem step_encodeFrame {s s' : EncoderLoop} {now : Time}
    (h : s.step (.encodeFrame now) = some s') :
    ∃ size, s.encoder.frameSize = some size ∧ s' = s.encodeFrame size := by
  obtain ⟨-, hsome⟩ := Option.ite_none_right_eq_some.mp h
  obtain ⟨size, hsize, heq⟩ := Option.map_eq_some_iff.mp hsome
  exact ⟨size, hsize, heq.symm⟩

/-- Below 4 ms the frames of a second do not fit 8 bits. -/
theorem fps_le {interval : UInt16} (h : interval ≠ 0) :
    (1000 / interval : UInt16).toUInt8.toNat ≤ 250 := by
  have hpos : 0 < interval.toNat := by
    by_contra hzero
    exact h (UInt16.toNat_inj.mp (by simpa using hzero))
  rw [UInt16.toNat_toUInt8, UInt16.toNat_div]
  change 1000 / interval.toNat % 256 ≤ 250
  generalize interval.toNat = n at hpos ⊢
  rcases Nat.lt_or_ge n 4 with hlt | hge
  · interval_cases n <;> decide
  · have hdiv : 1000 / n ≤ 1000 / 4 := Nat.div_le_div_left hge (by decide)
    exact (Nat.mod_le _ _).trans hdiv

/-- The bitrate of the encoder is that of the rate asked last. -/
structure Tuned (s : EncoderLoop) : Prop where
  fps : s.encoder.fps.toNat ≤ 250
  untuned : s.asked = none → s.encoder.bitrate = 0 ∧ s.frames = []
  tuned : ∀ rate ∈ s.asked, s.encoder.bitrate = rate >>> 10 ∧
    100000 ≤ rate.toNat ∧ rate.toNat ≤ 100000000
  follows : ∀ f ∈ s.frames, f.Follows s.encoder.fps.toNat
  paced : s.frames.IsChain fun f g => g.time = f.time + .microSeconds s.encoder.intervalUs
  next : ∀ f ∈ s.frames.getLast?,
    s.encodeEvent.time = f.time + .microSeconds s.encoder.intervalUs

namespace Tuned

variable {s s' : EncoderLoop}

theorem start {interval : UInt16} {now : Time} (h : start interval now = some s) : s.Tuned := by
  unfold EncoderLoop.start at h
  split at h
  · cases h
  case isFalse hpos =>
    cases h
    exact ⟨fps_le hpos, fun _ => ⟨rfl, rfl⟩, fun _ h => (Option.not_mem_none _ h).elim,
      List.forall_mem_nil _, List.isChain_nil, fun _ h => (Option.not_mem_none _ h).elim⟩

/-- The size of a frame, before the first rate and after it. -/
theorem frameSize (h : s.Tuned) {size : UInt32} (hsize : s.encoder.frameSize = some size) :
    (s.asked = none ∧ size = 0) ∨
      ∃ rate ∈ s.asked,
        EncodedFrame.Follows s.encoder.fps.toNat ⟨s.encodeEvent.time, rate, size⟩ := by
  unfold VideoEncoder.frameSize at hsize
  split at hsize
  · cases hsize
  case isFalse hfps =>
    have hpos : 0 < s.encoder.fps.toNat := by
      by_contra hzero
      exact hfps (UInt8.toNat_inj.mp (by simpa using hzero))
    cases hsize
    cases hasked : s.asked with
    | none =>
        rw [(h.untuned hasked).1]
        exact Or.inl ⟨rfl, by simp⟩
    | some rate =>
        obtain ⟨hbitrate, hlow, hhigh⟩ := h.tuned rate hasked
        refine Or.inr ⟨rate, rfl, ?_⟩
        have hsize : (s.encoder.bitrate * 1000 / 8 / s.encoder.fps.toUInt32).toNat =
            rate.toNat / 1024 * 1000 / 8 / s.encoder.fps.toNat := by
          have hkbps : (rate >>> 10).toNat = rate.toNat / 1024 := by
            rw [UInt32.toNat_shiftRight, Nat.shiftRight_eq_div_pow]
            rfl
          rw [hbitrate, UInt32.toNat_div, UInt32.toNat_div, UInt32.toNat_mul, hkbps,
            UInt8.toNat_toUInt32]
          change rate.toNat / 1024 * 1000 % 2 ^ 32 / 8 / _ = _
          rw [Nat.mod_eq_of_lt (by omega)]
        have htakes := takes_of_frameSize hpos h.fps hlow
        refine ⟨?_, hsize ▸ htakes⟩
        rw [hsize]
        constructor
        · have := h.fps
          exact Nat.div_pos (by omega) hpos
        · exact (Nat.div_le_self _ _).trans (by omega)

theorem encodeFrame (h : s.Tuned) {size : UInt32} (hsize : s.encoder.frameSize = some size) :
    (s.encodeFrame size).Tuned := by
  rcases h.frameSize hsize with ⟨hasked, rfl⟩ | ⟨rate, hasked, hfollows⟩
  · obtain ⟨hbitrate, hframes⟩ := h.untuned hasked
    have heq : (s.encodeFrame 0).frames = [] := hframes
    exact ⟨h.fps, fun _ => ⟨hbitrate, heq⟩, h.tuned, heq ▸ List.forall_mem_nil _,
      heq ▸ List.isChain_nil, heq ▸ fun _ h => (Option.not_mem_none _ h).elim⟩
  · have hne : size ≠ 0 := by
      rintro rfl
      exact Nat.lt_irrefl 0 hfollows.fits.1
    have hasked' : s.asked = some rate := hasked
    have heq : (s.encodeFrame size).frames = s.frames ++ [⟨s.encodeEvent.time, rate, size⟩] := by
      simp [EncoderLoop.encodeFrame, hne, hasked']
    refine ⟨h.fps, fun hnone => ?_, h.tuned, ?_, ?_, ?_⟩
    · cases hasked'.symm.trans hnone
    · rw [heq]
      exact List.forall_mem_append.mpr ⟨h.follows, List.forall_mem_singleton.mpr hfollows⟩
    · rw [heq]
      refine List.isChain_append.mpr ⟨h.paced, List.isChain_singleton _, fun f hf g hg => ?_⟩
      cases hg
      exact h.next f hf
    · rw [heq, List.getLast?_concat]
      rintro f ⟨⟩
      rfl

theorem updateBitrate (h : s.Tuned) (sendingRateBps : UInt32) :
    (s.updateBitrate sendingRateBps).Tuned := by
  refine ⟨h.fps, fun hnone => (by cases hnone), ?_, h.follows, h.paced, h.next⟩
  rintro rate ⟨⟩
  exact ⟨rfl, encodeRate_bounds sendingRateBps⟩

theorem step (h : s.Tuned) {e : Event} (hstep : s.step e = some s') : s'.Tuned := by
  cases e with
  | encodeFrame now =>
      obtain ⟨size, hsize, rfl⟩ := step_encodeFrame hstep
      exact h.encodeFrame hsize
  | updateBitrate now sendingRateBps =>
      obtain ⟨-, hsome⟩ := Option.ite_none_right_eq_some.mp hstep
      cases hsome
      exact h.updateBitrate sendingRateBps

end Tuned

/-- The bits of frames in a row, in terms of the rates that were asked. -/
theorem takes_of_window {fps : ℕ} {window : List EncodedFrame}
    (h : ∀ f ∈ window, f.Follows fps) :
    Takes (window.map (·.size.toNat)).sum (window.map (·.rate.toNat)).sum (1000000 / fps) := by
  induction window with
  | nil => exact ⟨by simp, by simp⟩
  | cons f window ih =>
      obtain ⟨hf, hrest⟩ := List.forall_mem_cons.mp h
      obtain ⟨hmost, hatMost⟩ := hf.takes
      obtain ⟨ihMost, ihAtMost⟩ := ih hrest
      simp only [List.map_cons, List.sum_cons]
      exact ⟨by linarith, by linarith⟩

/-- The frames come at a fixed pace, fit into the packets that a frame can have, and any number
of them in a row takes up what was asked. -/
structure FollowsRate (s : EncoderLoop) : Prop where
  paced : s.frames.IsChain fun f g => g.time = f.time + .microSeconds s.encoder.intervalUs
  fits : ∀ f ∈ s.frames, 0 < f.size.toNat ∧ f.size.toNat ≤ 12207000
  takes : ∀ window, window <:+: s.frames → Takes (window.map (·.size.toNat)).sum
    (window.map (·.rate.toNat)).sum s.encoder.intervalUs

/-- Whatever rates are asked. -/
theorem followsRate {interval : UInt16} {now : Time} {first s : EncoderLoop} {events : List Event}
    (hstart : start interval now = some first) (hrun : Run.exec step first events = some s) :
    s.FollowsRate := by
  have h : s.Tuned :=
    Run.exec_invariant (fun _ _ _ ht hstep => ht.step hstep) (Tuned.start hstart) hrun
  exact ⟨h.paced, fun f hf => (h.follows f hf).fits, fun window hwindow =>
    takes_of_window fun f hf => h.follows f (hwindow.subset hf)⟩

/-- At a frame every 16 ms, three frames, the last one after a rise of the rate. -/
def risingEvents : List Event :=
  [.encodeFrame 0, .encodeFrame (.microSeconds 16129), .encodeFrame (.microSeconds 32258),
    .updateBitrate (.milliSeconds 40) 1000000, .encodeFrame (.microSeconds 48387),
    .encodeFrame (.microSeconds 64516), .updateBitrate (.milliSeconds 80) 5000000,
    .encodeFrame (.microSeconds 80645)]

theorem followsRate_rising : ∃ first s, start 16 0 = some first ∧
    Run.exec step first risingEvents = some s ∧
    s.frames.map (·.size) = [1967, 1967, 9842] ∧ s.FollowsRate := by
  obtain ⟨first, hstart, s, hrun, hsizes⟩ : ∃ first, start 16 0 = some first ∧ ∃ s,
      Run.exec step first risingEvents = some s ∧ s.frames.map (·.size) = [1967, 1967, 9842] := by
    decide +kernel
  exact ⟨first, s, hstart, hrun, hsizes, followsRate hstart hrun⟩

end EncoderLoop

end Zhuge
