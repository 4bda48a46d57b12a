-- SUMMARY: The sender of ABC: the marks it puts on packets and answers, and how its window follows the marks that come back.
import Zhuge.AbcMarking
import Zhuge.Lib.Reflection

/-!
# The sender of ABC

A socket remembers the mark of the packet it received last. The receiver puts it on its answers;
the sender moves its window by one segment for every answer, up for `ECN_ECT1` and down for
`ECN_ECT0`.
-/

namespace Zhuge

def EcnType.toWord : EcnType → UInt8
  | .notEct => 0
  | .ect1 => 1
  | .ect0 => 2
  | .ce => 3

/-- `Ipv4Header::GetEcn`, on the type-of-service byte. -/
def EcnType.ofTos (tos : UInt8) : EcnType :=
  if tos &&& 3 = 0 then .notEct
  else if tos &&& 3 = 1 then .ect1
  else if tos &&& 3 = 2 then .ect0
  else .ce

/-- `TcpSocketState::EcnMode_t`. -/
inductive EcnMode where
  | classicEcn
  | dctcpEcn
  | abcEcn
deriving Repr, DecidableEq

/-! ## Marks on packets -/

/-- What `AddSocketTags` reads. `ecnDisabled` says that `m_ecnState` is `ECN_DISABLED`. -/
structure EcnSocket where
  ecnMode : EcnMode
  ecnDisabled : Bool
  ecnValue : EcnType := .notEct
  ectCodePoint : EcnType
  ipTos : UInt8
deriving Repr, DecidableEq

namespace EcnSocket

def markEcnCodePoint (tos : UInt8) (codePoint : EcnType) : UInt8 :=
  tos &&& 0xfc ||| codePoint.toWord

def checkNoEcn (tos : UInt8) : Bool := tos &&& 3 = 0

/-- The first branch of `AddSocketTags`. -/
def addAbcTag (s : EcnSocket) : List UInt8 × EcnSocket :=
  if s.ecnMode = .abcEcn then
    ([markEcnCodePoint s.ipTos .ect1], { s with ectCodePoint := .ect1 })
  else ([], s)

/-- The branches after it. -/
def addEcnTag (size : UInt32) (s : EcnSocket) : List UInt8 × EcnSocket :=
  if s.ecnValue = .ect0 ∨ s.ecnValue = .ect1 then
    if s.ecnMode ≠ .abcEcn then
      ([markEcnCodePoint s.ipTos s.ecnValue], { s with ectCodePoint := s.ecnValue })
    else ([], s)
  else if s.ipTos ≠ 0 then
    if ¬ s.ecnDisabled ∧ ¬ checkNoEcn s.ipTos then
      ([markEcnCodePoint s.ipTos s.ectCodePoint], s)
    else ([s.ipTos], s)
  else if (¬ s.ecnDisabled ∧ 0 < size) ∨ s.ecnMode = .dctcpEcn then
    ([markEcnCodePoint s.ipTos s.ectCodePoint], s)
  else ([], s)

/-- The type-of-service tags that `AddSocketTags` puts on a packet. -/
def addSocketTags (size : UInt32) (s : EcnSocket) : List UInt8 × EcnSocket :=
  let (first, s) := s.addAbcTag
  let (second, s) := s.addEcnTag size
  (first ++ second, s)

/-- The mark of a packet as it leaves the socket. `none`: a packet cannot have two tags of a
type. -/
def markOf (tags : List UInt8) : Option EcnType :=
  match tags with
  | [] => some .notEct
  | [tos] => some (.ofTos tos)
  | _ => none

end EcnSocket

/-! ## The window -/

namespace TcpAbc

def kMinCwndSegment : UInt32 := 4

/-- What `CongControl` reads and writes of the state of the socket. -/
structure Sender extends EcnSocket where
  cWnd : UInt32
  segmentSize : UInt32
  lastRtt : Time
  pacingRateBps : UInt64
deriving DecidableEq

/-- `Init`. -/
def init (s : Sender) : Sender :=
  { s with ecnMode := .abcEcn, ectCodePoint := .ect1 }

/-- The step for `ECN_ECT1`. `none`: a division by zero. -/
def accelerate (s : Sender) : Option Sender :=
  if s.cWnd = 0 then none
  else some { s with cWnd := s.cWnd + (s.segmentSize + s.segmentSize / s.cWnd) }

/-- The step for `ECN_ECT0`. -/
def brake (s : Sender) : Sender :=
  { s with
    cWnd :=
      if s.cWnd > (kMinCwndSegment + 1) * s.segmentSize then
        s.cWnd - (s.segmentSize + s.segmentSize / s.cWnd)
      else kMinCwndSegment * s.segmentSize }

/-- The pacing rate. The division by the round-trip time, in milliseconds, comes before the test
for a time of zero. -/
def pace (s : Sender) : Option Sender :=
  let rttMs := Time.getMilliSeconds s.lastRtt
  if rttMs = 0 then none
  else
    let bps := ((2 * (s.cWnd * 8)).toNat : Int).tdiv rttMs * 1000
    some { s with pacingRateBps := .ofInt (if s.lastRtt = 0 then 1000000 else bps) }

/-- `CongControl`. -/
def congControl (s : Sender) : Option Sender := do
  let s ← if s.ecnValue = .ect1 then accelerate s else some s
  pace (if s.ecnValue = .ect0 then brake s else s)

/-- `GetSsThresh`. -/
def getSsThresh (s : Sender) : UInt32 := s.cWnd

/-- An answer arrives. -/
def receive (mark : EcnType) (rtt : Time) (s : Sender) : Option Sender :=
  congControl { s with ecnValue := mark, lastRtt := rtt }

/-- By how much a mark moves the window. -/
def moveOf (segmentSize : UInt32) : EcnType → ℤ
  | .ect1 => segmentSize.toNat
  | .ect0 => -segmentSize.toNat
  | _ => 0

/-- The floor of four segments is on the window, and the numbers of `CongControl` fit. -/
structure Sized (s : Sender) : Prop where
  segment_pos : 0 < s.segmentSize.toNat
  segment_lt : 5 * s.segmentSize.toNat < 2 ^ 32
  floor_le : 4 * s.segmentSize.toNat ≤ s.cWnd.toNat

namespace Sized

variable {s : Sender}

/-- A window of more than one segment moves by whole segments. -/
theorem segment_div (h : Sized s) : s.segmentSize / s.cWnd = 0 := by
  obtain ⟨hpos, -, hfloor⟩ := h
  rw [← UInt32.toNat_inj, UInt32.toNat_div]
  exact Nat.div_eq_of_lt (by omega)

theorem accelerate (h : Sized s) (hfits : s.cWnd.toNat + s.segmentSize.toNat < 2 ^ 32) :
    ∃ s', TcpAbc.accelerate s = some s' ∧ s'.cWnd.toNat = s.cWnd.toNat + s.segmentSize.toNat ∧
      s' = { s with cWnd := s'.cWnd } := by
  have hne : s.cWnd ≠ 0 := by
    intro hzero
    have := h.floor_le
    have := h.segment_pos
    rw [hzero, UInt32.toNat_zero] at *
    omega
  refine ⟨_, if_neg hne, ?_, rfl⟩
  rw [h.segment_div, UInt32.add_zero, UInt32.toNat_add, Nat.mod_eq_of_lt hfits]

theorem brake (h : Sized s) : (TcpAbc.brake s).cWnd.toNat =
    max (s.cWnd.toNat - s.segmentSize.toNat) (4 * s.segmentSize.toNat) := by
  obtain ⟨hpos, hlt, hfloor⟩ := h
  have hfour : (kMinCwndSegment * s.segmentSize).toNat = 4 * s.segmentSize.toNat := by
    have hkMin : kMinCwndSegment.toNat = 4 := rfl
    rw [UInt32.toNat_mul, hkMin]
    exact Nat.mod_eq_of_lt (by omega)
  have hfive : ((kMinCwndSegment + 1) * s.segmentSize).toNat = 5 * s.segmentSize.toNat := by
    have hkMin : (kMinCwndSegment + 1).toNat = 5 := rfl
    rw [UInt32.toNat_mul, hkMin]
    exact Nat.mod_eq_of_lt (by omega)
  simp only [TcpAbc.brake, gt_iff_lt, UInt32.lt_iff_toNat_lt, hfive,
    segment_div ⟨hpos, hlt, hfloor⟩, UInt32.add_zero]
  split_ifs with habove
  · rw [UInt32.toNat_sub_of_le _ _ (by rw [UInt32.le_iff_toNat_le]; omega)]
    omega
  · rw [hfour]
    omega

end Sized

theorem pace_of_rtt {s : Sender} (h : Time.getMilliSeconds s.lastRtt ≠ 0) :
    ∃ pacingRateBps, pace s = some { s with pacingRateBps } := ⟨_, if_neg h⟩

/-- An answer with a mark of the access point moves the window by one segment, and no further
down than the floor. -/
theorem Sized.receive {s : Sender} (h : Sized s) {mark : EcnType} {rtt : Time}
    (hmark : mark = .ect1 ∨ mark = .ect0)
    (hfits : mark = .ect1 → s.cWnd.toNat + s.segmentSize.toNat < 2 ^ 32)
    (hrtt : Time.getMilliSeconds rtt ≠ 0) :
    ∃ s', TcpAbc.receive mark rtt s = some s' ∧ Sized s' ∧ s'.segmentSize = s.segmentSize ∧
      s'.toEcnSocket = { s.toEcnSocket with ecnValue := mark } ∧
      (s'.cWnd.toNat : ℤ) = Reflection.move (4 * s.segmentSize.toNat : ℤ) s.cWnd.toNat
        (moveOf s.segmentSize mark) := by
  obtain ⟨hpos, hlt, hfloor⟩ := h
  have hnext : Sized { s with ecnValue := mark, lastRtt := rtt } := ⟨hpos, hlt, hfloor⟩
  rcases hmark with rfl | rfl
  · obtain ⟨t, ht, hwnd, hframe⟩ := hnext.accelerate (hfits rfl)
    obtain ⟨bps, hpace⟩ := pace_of_rtt (s := t) (by rw [hframe]; exact hrtt)
    have hrun : TcpAbc.receive .ect1 rtt s = pace t := by
      simp only [TcpAbc.receive, congControl, if_pos, ht, Option.bind_eq_bind, Option.bind_some]
      rw [if_neg]
      rw [hframe]
      change ¬ EcnType.ect1 = EcnType.ect0
      decide
    rw [hrun, hpace]
    refine ⟨_, rfl, ⟨?_, ?_, ?_⟩, ?_, ?_, ?_⟩
    · rw [hframe]; exact hpos
    · rw [hframe]; exact hlt
    · rw [hframe]
      change 4 * s.segmentSize.toNat ≤ t.cWnd.toNat
      rw [hwnd]
      exact hfloor.trans (Nat.le_add_right _ _)
    · rw [hframe]
    · rw [hframe]
    · change (t.cWnd.toNat : ℤ) = max (s.cWnd.toNat + s.segmentSize.toNat : ℤ) _
      rw [hwnd, Nat.cast_add, max_eq_left (by omega)]
  · have hbrake := hnext.brake
    have hrun : TcpAbc.receive .ect0 rtt s =
        pace (TcpAbc.brake { s with ecnValue := .ect0, lastRtt := rtt }) := rfl
    obtain ⟨bps, hpace⟩ :=
      pace_of_rtt (s := TcpAbc.brake { s with ecnValue := .ect0, lastRtt := rtt }) hrtt
    rw [hrun, hpace]
    refine ⟨_, rfl, ⟨hpos, hlt, ?_⟩, rfl, rfl, ?_⟩
    · rw [hbrake]
      exact le_max_right _ _
    · rw [hbrake]
      change ((max (s.cWnd.toNat - s.segmentSize.toNat) (4 * s.segmentSize.toNat) : ℕ) : ℤ) =
        max (s.cWnd.toNat + -s.segmentSize.toNat : ℤ) (4 * s.segmentSize.toNat)
      omega

/-- Without a whole millisecond of round-trip time the program divides by zero. -/
theorem receive_eq_none {s : Sender} {mark : EcnType} {rtt : Time}
    (hrtt : Time.getMilliSeconds rtt = 0) : TcpAbc.receive mark rtt s = none := by
  have hpace : ∀ t : Sender, t.lastRtt = rtt → pace t = none := by
    intro t ht
    rw [pace, ht, hrtt]
    rfl
  cases mark with
  | ect1 =>
      simp only [TcpAbc.receive, congControl, accelerate, if_true]
      split_ifs with hzero
      · rfl
      · exact hpace _ rfl
  | notEct => exact hpace _ rfl
  | ect0 => exact hpace _ rfl
  | ce => exact hpace _ rfl

end TcpAbc

end Zhuge
