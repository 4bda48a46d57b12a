-- SUMMARY: When Copa keeps its window at four segments at least.
import Zhuge.Lib.Run
import Zhuge.TcpCopa

/-!
# The minimum window

A decrease stops at the minimum, and the increases only add to the window. On
leaving slow start the window is halved after the decrease has been stopped, so a
window of less than eight segments falls below the minimum.
-/

namespace Zhuge

namespace TcpCopa

variable {F : Type} {flt : RttFilter F} {now : Time} {tcb tcb' : TcpSocketState} {rs : RateSample}
  {s s' : TcpCopa F}

/-- The minimum window of the socket. -/
def minWindow (tcb : TcpSocketState) : ℕ := kMinCwndSegment.toNat * tcb.segmentSize.toNat

/-- A call that starts with the minimum window ends with it. -/
def KeepsMinimum (flt : RttFilter F) (s : TcpCopa F) (c : Call) : Prop :=
  minWindow c.tcb ≤ c.tcb.cWnd.toNat →
    ∀ tcb' s', s.congControl flt c.now c.tcb c.rs = some (tcb', s') →
      minWindow c.tcb ≤ tcb'.cWnd.toNat

/-- The condition on a call: if the window is to be lowered in slow start, it is at least twice the
minimum. -/
def HalvesAboveTwice (flt : RttFilter F) (s : TcpCopa F) (c : Call) : Prop :=
  minWindow c.tcb ≤ c.tcb.cWnd.toNat →
    ∀ t, s.measure flt c.now c.tcb c.rs = .updates false t → t.isSlowStart = true →
      t.change c.tcb ≠ none → 2 * minWindow c.tcb ≤ c.tcb.cWnd.toNat

/-! ## The branches of the update -/

/-- The minimum that the code computes, where the window is no smaller. -/
theorem toNat_kMinCwndSegment_mul (hmin : minWindow tcb ≤ tcb.cWnd.toNat) :
    (kMinCwndSegment * tcb.segmentSize).toNat = minWindow tcb := by
  rw [UInt32.toNat_mul, Nat.mod_eq_of_lt]
  · rfl
  · exact hmin.trans_lt tcb.cWnd.toNat_lt

/-- Outside of the exit from slow start the minimum holds, and there it holds exactly from twice
the minimum on. -/
theorem minWindow_le_moveWindow_iff (hmin : minWindow tcb ≤ tcb.cWnd.toNat)
    {increaseCwnd : Bool} {change cWnd : UInt32}
    (h : s.moveWindow now tcb increaseCwnd change = some (cWnd, s')) :
    minWindow tcb ≤ cWnd.toNat ↔
      (increaseCwnd = false → s.isSlowStart = true → 2 * minWindow tcb ≤ tcb.cWnd.toNat) := by
  obtain ⟨rfl, hgrows, -⟩ | ⟨rfl, -, rfl⟩ := moveWindow_cases h
  · exact iff_of_true (hmin.trans hgrows) fun hfalse => nomatch hfalse
  · have hlowered : minWindow tcb ≤
        (max (tcb.cWnd - change) (kMinCwndSegment * tcb.segmentSize)).toNat := by
      rw [UInt32.toNat_max, toNat_kMinCwndSegment_mul hmin]
      exact le_max_right _ _
    dsimp only
    split_ifs with hslow
    · -- halved after the floor
      have hhalf : (tcb.cWnd >>> 1).toNat = tcb.cWnd.toNat / 2 := by
        rw [UInt32.toNat_shiftRight, Nat.shiftRight_eq_div_pow]
        rfl
      rw [UInt32.toNat_min, le_min_iff, and_iff_left hlowered, hhalf,
        Nat.le_div_iff_mul_le Nat.two_pos, Nat.mul_comm]
      exact ⟨fun htwice _ _ => htwice, fun htwice => htwice rfl hslow⟩
    · exact iff_of_true hlowered fun _ hset => absurd hset hslow

/-- The update is always possible when the window is lowered. -/
theorem moveWindow_false_isSome (now : Time) (tcb : TcpSocketState) (change : UInt32)
    (s : TcpCopa F) : ∃ cWnd t, s.moveWindow now tcb false change = some (cWnd, t) :=
  ⟨_, _, rfl⟩

/-- A call keeps the minimum exactly if it meets the condition. -/
theorem keepsMinimum_iff (flt : RttFilter F) (s : TcpCopa F) (c : Call) :
    KeepsMinimum flt s c ↔ HalvesAboveTwice flt s c := by
  apply forall_congr'
  intro hmin
  constructor
  · intro hkeeps t hmeasure hslow hchange
    obtain ⟨change, hchange⟩ := Option.ne_none_iff_exists'.mp hchange
    obtain ⟨cWnd, u, hmove⟩ := moveWindow_false_isSome c.now c.tcb change t
    have hcall : s.congControl flt c.now c.tcb c.rs = some (u.finish flt c.now c.tcb cWnd) := by
      rw [congControl_of_updates hmeasure, updateWindow, hchange, Option.bind_some, hmove]
      rfl
    exact (minWindow_le_moveWindow_iff hmin hmove).mp (hkeeps _ _ hcall) rfl hslow
  · intro htwice tcb' s' hcall
    obtain ⟨rfl, -⟩ | ⟨increaseCwnd, t, hmeasure, hupdate⟩ := congControl_cases hcall
    · exact hmin
    · obtain ⟨change, cWnd, u, hchange, hmove, rfl, -⟩ := updateWindow_eq_some hupdate
      apply (minWindow_le_moveWindow_iff hmin hmove).mpr
      rintro rfl hslow
      exact htwice t hmeasure hslow (by simp [hchange])

/-- Over any calls, every call that starts with the minimum window ends with it if and only if no
call lowers a window of less than twice the minimum in slow start. -/
theorem keepsMinimum_iff_halvesAboveTwice (flt : RttFilter F) (c : Config F) (calls : List Call) :
    Run.Each (step flt) (KeepsMinimum flt) (init c) calls ↔
      Run.Each (step flt) (HalvesAboveTwice flt) (init c) calls :=
  Run.each_iff (I := fun _ => True) (fun _ _ _ _ _ => trivial)
    (fun s call _ => keepsMinimum_iff flt s call) trivial calls

/-- The round trip grows from 100 to 300 ms at a window of four segments, and two are left. -/
theorem not_keepsMinimum_leavingSlowStart :
    ¬ Run.Each (step .least) (KeepsMinimum .least) (init .byDefault)
      [.ofRtt 10000 100 1000 4000 1000, .ofRtt 10300 300 1000 4000 1000] := by
  intro h
  have hrun : ((step .least (init .byDefault) (.ofRtt 10000 100 1000 4000 1000)).bind fun s =>
      (s.congControl .least (Call.ofRtt 10300 300 1000 4000 1000).now
        (Call.ofRtt 10300 300 1000 4000 1000).tcb
        (Call.ofRtt 10300 300 1000 4000 1000).rs).map (·.1.cWnd)) = some 2000 := by
    decide +kernel
  obtain ⟨s, hs, hwindow⟩ := Option.bind_eq_some_iff.mp hrun
  obtain ⟨⟨tcb', s'⟩, hcall, hcwnd⟩ := Option.map_eq_some_iff.mp hwindow
  have hkeeps := (h.2 s hs).1 (by decide) tcb' s' hcall
  rw [show tcb'.cWnd = 2000 from hcwnd] at hkeeps
  exact absurd hkeeps (by decide)

end TcpCopa

end Zhuge
