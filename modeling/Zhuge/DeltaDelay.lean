-- SUMMARY: The delta-delay history: recent delay increases to sample from, and recent decreases kept as tokens.
import Zhuge.Lib.Binary64
import Zhuge.Time

/-!
# Delta delays

`DeltaDelay` keeps the changes of the estimated downlink delay. An increase is
kept to be sampled for an acknowledgement; a decrease is kept as a token, which
pays for a sampled increase. Entries age out of the first three queues into
`lastwndPkt`, whose size is only compared with theirs.

The product of a `double` and a `Time` belongs to the simulator and is a
parameter here; all the code relies on is that a fraction of a delay is between
zero and the delay.
-/

namespace Zhuge

/-- A deque of time-stamped values, its front first. -/
abbrev TimedQueue := List (Time × Time)

structure DeltaDelay where
  historyDeltas : TimedQueue
  historyTokens : TimedQueue
  lastwndPkt : TimedQueue
  popTokens : TimedQueue

namespace DeltaDelay

/-- The constructor: all histories start empty. -/
def init : DeltaDelay := ⟨[], [], [], []⟩

/-- `m_historyLen`. -/
def historyLen : Time := Time.milliSeconds 40

/-- The cap on a stored delta and on a stored token. -/
def maxDelta : Time := Time.milliSeconds 10

/-! ## Ageing -/

def olderThan (len now : Time) (entry : Time × Time) : Bool := now - entry.1 > len

def clearAgedDeltas (now : Time) (s : DeltaDelay) : DeltaDelay :=
  { s with
    lastwndPkt := s.lastwndPkt ++ s.historyDeltas.takeWhile (olderThan historyLen now)
    historyDeltas := s.historyDeltas.dropWhile (olderThan historyLen now) }

def clearAgedTokens (now : Time) (s : DeltaDelay) : DeltaDelay :=
  { s with
    lastwndPkt := s.lastwndPkt ++ s.historyTokens.takeWhile (olderThan historyLen now)
    historyTokens := s.historyTokens.dropWhile (olderThan historyLen now) }

def clearAgedPopTokens (now : Time) (s : DeltaDelay) : DeltaDelay :=
  { s with
    lastwndPkt := s.lastwndPkt ++ s.popTokens.takeWhile (olderThan historyLen now)
    popTokens := s.popTokens.dropWhile (olderThan historyLen now) }

def clearAgedLastwndPkt (now : Time) (s : DeltaDelay) : DeltaDelay :=
  { s with lastwndPkt := s.lastwndPkt.dropWhile (olderThan (2 * historyLen) now) }

/-- The four calls that open both `AddDeltaDelay` and `SampleDeltaDelay`. -/
def clearAged (now : Time) (s : DeltaDelay) : DeltaDelay :=
  clearAgedLastwndPkt now (clearAgedPopTokens now (clearAgedTokens now (clearAgedDeltas now s)))

/-! ## Adding and sampling -/

def addDeltaDelay (now deltaDelay : Time) (s : DeltaDelay) : DeltaDelay :=
  let s := clearAged now s
  if deltaDelay > Time.microSeconds (-1) then
    { s with historyDeltas := s.historyDeltas ++ [(now, min maxDelta deltaDelay)] }
  else
    { s with historyTokens := s.historyTokens ++ [(now, min maxDelta (-1 * deltaDelay))] }

/-- What the token loop leaves: the delay still owed, the tokens moved to
`m_PopTokens`, and the tokens that remain. -/
structure TokenSettlement where
  resDeltaDelay : Time
  popped : TimedQueue
  remaining : TimedQueue

/-- The token loop: tokens smaller than the delay are used up from the front, and
the first one that is not pays the rest. -/
def takeTokens (resDeltaDelay : Time) : TimedQueue → TokenSettlement
  | [] => ⟨resDeltaDelay, [], []⟩
  | (added, taketoken) :: tokens =>
    if taketoken < resDeltaDelay then
      let rest := takeTokens (resDeltaDelay - taketoken) tokens
      { rest with popped := (added, taketoken) :: rest.popped }
    else
      ⟨0, [], (added, taketoken - resDeltaDelay) :: tokens⟩

/-- The scaling step: with more packets in the window before than in this one, the
delay is scaled by their ratio, computed in `double`. -/
def scaleDelay (mulTime : Binary64 → Time → Time) (s : DeltaDelay) (resDeltaDelay : Time) : Time :=
  let inWindow := s.popTokens.length + s.historyTokens.length + s.historyDeltas.length
  if s.lastwndPkt.length > inWindow then
    mulTime (.div (.ofNat inWindow) (.ofNat s.lastwndPkt.length)) resDeltaDelay
  else resDeltaDelay

/-- `SampleDeltaDelay`. `pick` is what the random source draws, read modulo the size of the
history. `none`: the closing assertion fails. -/
def sampleDeltaDelay (mulTime : Binary64 → Time → Time) (now : Time) (pick : ℕ)
    (minDeltaDelay : Time) (s : DeltaDelay) : Option (Time × DeltaDelay) :=
  let s := clearAged now s
  match s.historyDeltas[pick % s.historyDeltas.length]? with
  | none => some (minDeltaDelay, s)  -- the history is empty
  | some (_, sampledDeltaDelay) =>
    let resDeltaDelay :=
      if sampledDeltaDelay < minDeltaDelay then minDeltaDelay else sampledDeltaDelay
    let settled := takeTokens resDeltaDelay s.historyTokens
    let s := { s with
      historyTokens := settled.remaining
      popTokens := s.popTokens ++ settled.popped }
    let resDeltaDelay := scaleDelay mulTime s settled.resDeltaDelay
    if resDeltaDelay ≤ maxDelta then some (resDeltaDelay, s) else none

/-! ## The invariant of the queues -/

/-- Every delta in store can be sampled as it is, and no token is a debt. -/
structure Inv (s : DeltaDelay) : Prop where
  deltas : ∀ e ∈ s.historyDeltas, 0 ≤ e.2 ∧ e.2 ≤ maxDelta
  tokens : ∀ e ∈ s.historyTokens, 0 ≤ e.2

theorem Inv.init : Inv init := ⟨by simp [DeltaDelay.init], by simp [DeltaDelay.init]⟩

theorem Inv.clearAged {s : DeltaDelay} (h : Inv s) (now : Time) : Inv (clearAged now s) where
  deltas e he := h.deltas e ((List.dropWhile_sublist _).subset he)
  tokens e he := h.tokens e ((List.dropWhile_sublist _).subset he)

theorem Inv.addDeltaDelay {s : DeltaDelay} (h : Inv s) (now : Time) (ms : Int) :
    Inv (addDeltaDelay now (Time.milliSeconds ms) s) := by
  have haged := h.clearAged now
  unfold DeltaDelay.addDeltaDelay
  dsimp only
  split
  case isTrue hpos =>
    -- a whole number of milliseconds above -1 us is not negative
    have hms : 0 ≤ Time.milliSeconds ms := by
      simp only [Time.milliSeconds, Time.microSeconds] at hpos ⊢; lia
    refine ⟨fun e he => ?_, haged.tokens⟩
    rcases List.mem_append.mp he with he | he
    · exact haged.deltas e he
    · rw [List.mem_singleton.mp he]
      exact ⟨le_min (by decide) hms, min_le_left _ _⟩
  case isFalse hneg =>
    have hms : 0 ≤ -1 * Time.milliSeconds ms := by
      simp only [Time.milliSeconds, Time.microSeconds] at hneg ⊢; lia
    refine ⟨haged.deltas, fun e he => ?_⟩
    rcases List.mem_append.mp he with he | he
    · exact haged.tokens e he
    · rw [List.mem_singleton.mp he]
      exact le_min (by decide) hms

/-! ## What sampling returns -/

/-- The token loop never raises the delay, never drives it below zero, and never
leaves a negative token behind. -/
theorem takeTokens_spec {res : Time} {tokens : TimedQueue} (hres : 0 ≤ res)
    (htokens : ∀ e ∈ tokens, 0 ≤ e.2) :
    0 ≤ (takeTokens res tokens).resDeltaDelay ∧ (takeTokens res tokens).resDeltaDelay ≤ res ∧
      ∀ e ∈ (takeTokens res tokens).remaining, 0 ≤ e.2 := by
  induction tokens generalizing res with
  | nil => simp [takeTokens, hres]
  | cons token tokens ih =>
      obtain ⟨added, taketoken⟩ := token
      have htoken : 0 ≤ taketoken := htokens _ List.mem_cons_self
      have hrest : ∀ e ∈ tokens, 0 ≤ e.2 := fun e he => htokens e (List.mem_cons_of_mem _ he)
      unfold takeTokens
      split
      case isTrue hlt =>
        have hleft : 0 ≤ res - taketoken := by lia
        obtain ⟨hnonneg, hle, hremaining⟩ := ih hleft hrest
        exact ⟨hnonneg, by dsimp only; lia, hremaining⟩
      case isFalse hge =>
        refine ⟨le_rfl, hres, fun e he => ?_⟩
        rcases List.mem_cons.mp he with rfl | he
        · dsimp only; lia
        · exact hrest e he

/-- What the code relies on of the product of a `double` and a `Time`. -/
def FractionOfTime (mulTime : Binary64 → Time → Time) : Prop :=
  ∀ (d : Binary64) (t : Time), 0 ≤ d.val → d.val ≤ 1 → 0 ≤ t → 0 ≤ mulTime d t ∧ mulTime d t ≤ t

/-- Rounding the exact product down is such a product. -/
def floorMul (d : Binary64) (t : Time) : Time := ⌊d.val * t⌋

theorem FractionOfTime.floorMul : FractionOfTime floorMul := by
  intro d t hd₀ hd₁ ht
  have ht' : (0 : ℚ) ≤ t := by exact_mod_cast ht
  refine ⟨Int.floor_nonneg.mpr (mul_nonneg hd₀ ht'), ?_⟩
  have hle : d.val * t ≤ t := mul_le_of_le_one_left ht' hd₁
  exact_mod_cast (Int.floor_le _).trans hle

theorem scaleDelay_spec {mulTime : Binary64 → Time → Time} (hmul : FractionOfTime mulTime)
    (s : DeltaDelay) {res : Time} (hres : 0 ≤ res) :
    0 ≤ scaleDelay mulTime s res ∧ scaleDelay mulTime s res ≤ res := by
  unfold scaleDelay
  dsimp only
  split
  case isTrue hgt =>
    obtain ⟨hd₀, hd₁⟩ := Binary64.div_ofNat_mem_unit hgt.le
    exact hmul _ _ hd₀ hd₁ hres
  case isFalse => exact ⟨hres, le_rfl⟩

/-- With a lower bound that is not positive, sampling returns. The result is that
bound, or a delay between zero and the cap; the queues keep their invariant. -/
theorem sampleDeltaDelay_spec {mulTime : Binary64 → Time → Time} (hmul : FractionOfTime mulTime)
    {s : DeltaDelay} (h : Inv s) (now : Time) (pick : ℕ) {minDeltaDelay : Time}
    (hmin : minDeltaDelay ≤ 0) :
    ∃ res s', sampleDeltaDelay mulTime now pick minDeltaDelay s = some (res, s') ∧ Inv s' ∧
      (res = minDeltaDelay ∨ 0 ≤ res ∧ res ≤ maxDelta) := by
  have haged := h.clearAged now
  unfold sampleDeltaDelay
  dsimp only
  split
  case h_1 => exact ⟨_, _, rfl, haged, .inl rfl⟩
  case h_2 added sampled hget =>
    obtain ⟨hsampled, hcap⟩ := haged.deltas _ (List.mem_of_getElem? hget)
    dsimp only at hsampled hcap
    rw [if_neg (by lia : ¬ sampled < minDeltaDelay)]
    obtain ⟨hsettled, hle, htokens⟩ := takeTokens_spec hsampled haged.tokens
    set settled := takeTokens sampled (DeltaDelay.clearAged now s).historyTokens
    set s' : DeltaDelay := { DeltaDelay.clearAged now s with
      historyTokens := settled.remaining
      popTokens := (DeltaDelay.clearAged now s).popTokens ++ settled.popped }
    obtain ⟨hscaled, hscaledLe⟩ := scaleDelay_spec hmul s' hsettled
    have hassert : scaleDelay mulTime s' settled.resDeltaDelay ≤ maxDelta :=
      hscaledLe.trans (hle.trans hcap)
    rw [if_pos hassert]
    exact ⟨_, s', rfl, ⟨haged.deltas, htokens⟩, .inr ⟨hscaled, hassert⟩⟩

end DeltaDelay

end Zhuge
