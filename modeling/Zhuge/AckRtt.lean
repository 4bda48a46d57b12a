-- SUMMARY: The round-trip times in the sender's statistics are those of acknowledged packets.
import Zhuge.GoodputWindow
import Zhuge.RttStatistics

/-!
# Round-trip times from acknowledgements

An acknowledgement names the packet that caused it by its global id, of which there are 65536,
and the sender looks the id up in its history of the last 10000 packets. The ids are compared
as plain numbers to tell acknowledgements that come late, so the first one after the ids have
wrapped is taken for a late one.
-/

namespace Zhuge

open SentPacket (InTime)

/-- The sending queue with what acknowledgements do to the statistics. The last four fields say
which acknowledgements there were, for comparison. -/
structure AckedQueue (P : Type) where
  log : SendLog P
  lastAckedGlobalId : UInt16 := 0
  netStat : RttStat
  /-- Which of the packets sent was the last one acknowledged. -/
  lastAcked : ℕ := 0
  /-- The acknowledgements of packets in the history. -/
  found : ℕ := 0
  rtts : List Time := []
  inOrder : Bool := true

namespace AckedQueue

variable {P : Type}

/-- The history is that of a sender that has just started. -/
def start (sendTimeLimit defaultRtt : Time) (bw loss delay : ℚ) : AckedQueue P where
  log := { queue := { sendTimeLimit } }
  netStat := .setNetworkStatistics defaultRtt bw loss delay

inductive Event (P : Type)
  | send (e : SendLog.Event P)
  /-- The acknowledgement of packet `n` of those sent. -/
  | ack (now : Time) (n : ℕ)

/-- `OnSocketRecv_sender` for an acknowledgement, as far as it is about the round-trip time. -/
def onAck (sqrt : ℚ → ℚ) (now : Time) (pktId : UInt16) (s : AckedQueue P) : AckedQueue P :=
  match s.log.queue.pktsHistory.lookup pktId with
  | none => s
  | some currentPkt => { s with
      netStat :=
        if s.lastAckedGlobalId ≤ pktId then s.netStat.updateRtt sqrt (now - currentPkt.pktSendTime)
        else s.netStat
      lastAckedGlobalId := pktId }

/-- What there is to observe, by the numbers of the packets. -/
def observe (now : Time) (n : ℕ) (s : AckedQueue P) : AckedQueue P :=
  match s.log.sends[n]? with
  | none => s
  | some p =>
    if n + SendQueue.sendWndSize < s.log.sends.length then s
    else { s with
      lastAcked := n
      found := s.found + 1
      rtts := if s.lastAcked % 65536 ≤ n % 65536 then s.rtts ++ [now - p.time] else s.rtts
      inOrder := s.inOrder && s.lastAcked ≤ n }

def step (sqrt : ℚ → ℚ) (s : AckedQueue P) : Event P → Option (AckedQueue P)
  | .send e => (s.log.step e).map fun log => { s with log }
  | .ack now n => some ((s.onAck sqrt now (.ofNat n)).observe now n)

/-- Packets are sent in time, and acknowledged before 65536 others have followed them. -/
def Admissible (s : AckedQueue P) : Event P → Prop
  | .send e => s.log.Admissible e
  | .ack _ n => n < s.log.sends.length ∧ s.log.sends.length ≤ n + 65536

instance (s : AckedQueue P) : (e : Event P) → Decidable (Admissible s e)
  | .send e => inferInstanceAs (Decidable (s.log.Admissible e))
  | .ack .. => inferInstanceAs (Decidable (_ ∧ _))

/-! ## The history by packet numbers -/

/-- An id stands for the last packet that has it. -/
theorem lookup_ofNat {sends : List SentPacket} {queue : SendQueue P} (h : queue.Kept sends) {n : ℕ}
    {p : SentPacket} (hn : sends[n]? = some p) (hrecent : sends.length ≤ n + 65536) :
    queue.pktsHistory.lookup (.ofNat n) =
      if n + SendQueue.sendWndSize < sends.length then none else some p.info := by
  obtain ⟨hlt, -⟩ := List.getElem?_eq_some_iff.mp hn
  have hwnd : queue.sendWnd =
      ((List.range sends.length).drop (sends.length - 10000)).map UInt16.ofNat := by
    rw [h.windows.sendWnd, SendQueue.ids, List.map_drop]
    rfl
  split
  case isTrue hold =>
    change n + 10000 < sends.length at hold
    -- no packet of the window is a whole circle away from the old one
    by_contra hsome
    have hmem := (h.windows.history _).mp (Option.isSome_iff_ne_none.mpr hsome)
    rw [hwnd] at hmem
    obtain ⟨m, hm, hid⟩ := List.mem_map.mp hmem
    rw [List.range_eq_range', List.drop_range', List.mem_range'_1] at hm
    have hmod := UInt16.toNat_inj.mpr hid
    rw [UInt16.toNat_ofNat', UInt16.toNat_ofNat'] at hmod
    omega
  case isFalse hnew =>
    change ¬ n + 10000 < sends.length at hnew
    have hentry := congrArg (·[n - (sends.length - 10000)]?) h.infos
    have hindex : sends.length - 10000 + (n - (sends.length - 10000)) = n := by omega
    simp only [hwnd, List.getElem?_map, List.getElem?_drop, SendQueue.sendWndSize, hindex, hn,
      List.getElem?_range hlt, Option.map_some, Option.some.injEq] at hentry
    exact hentry

/-! ## Runs -/

/-- What the statistics say, with what the next acknowledgement needs. -/
structure Measures (defaultRtt : Time) (s : AckedQueue P) : Prop where
  kept : s.log.queue.Kept s.log.sends
  lastAcked : s.lastAckedGlobalId = .ofNat s.lastAcked
  summarizes : RttStat.Summarizes defaultRtt s.rtts s.netStat
  /-- In the order of sending, an acknowledgement is only passed over when the ids have wrapped. -/
  passedOver : s.inOrder → s.found ≤ s.rtts.length + s.lastAcked / 65536

namespace Measures

variable {defaultRtt : Time} {s s' : AckedQueue P}

theorem start (sendTimeLimit defaultRtt : Time) (bw loss delay : ℚ) :
    Measures defaultRtt (start (P := P) sendTimeLimit defaultRtt bw loss delay) where
  kept := .new sendTimeLimit
  lastAcked := rfl
  summarizes := RttStat.summarizes_setNetworkStatistics defaultRtt bw loss delay
  passedOver _ := Nat.zero_le _

theorem send (h : s.Measures defaultRtt) {e : SendLog.Event P} (he : s.log.Admissible e)
    {log : SendLog P} (hstep : s.log.step e = some log) :
    Measures defaultRtt { s with log } := by
  refine ⟨?_, h.lastAcked, h.summarizes, h.passedOver⟩
  cases e with
  | queue e =>
      obtain ⟨queue, hqueue, rfl⟩ := Option.map_eq_some_iff.mp hstep
      exact h.kept.step he hqueue
  | controller e =>
      obtain ⟨controller, -, rfl⟩ := Option.map_eq_some_iff.mp hstep
      exact h.kept.of_same ⟨rfl, rfl, rfl, rfl, rfl, rfl⟩

theorem ack (h : s.Measures defaultRtt) (sqrt : ℚ → ℚ) (now : Time) {n : ℕ}
    (hn : n < s.log.sends.length) (hrecent : s.log.sends.length ≤ n + 65536) :
    Measures defaultRtt ((s.onAck sqrt now (.ofNat n)).observe now n) := by
  have hsent : s.log.sends[n]? = some s.log.sends[n] := List.getElem?_eq_getElem hn
  have hlookup := lookup_ofNat h.kept hsent hrecent
  by_cases hold : n + SendQueue.sendWndSize < s.log.sends.length
  · rw [if_pos hold] at hlookup
    have hsame : (s.onAck sqrt now (.ofNat n)).observe now n = s := by
      simp only [onAck, hlookup, observe, hsent, if_pos hold]
    rw [hsame]
    exact h
  · rw [if_neg hold] at hlookup
    have horder : s.lastAckedGlobalId ≤ .ofNat n ↔ s.lastAcked % 65536 ≤ n % 65536 := by
      rw [h.lastAcked, UInt16.le_iff_toNat_le, UInt16.toNat_ofNat', UInt16.toNat_ofNat']
    simp only [onAck, hlookup, observe, hsent, if_neg hold, horder]
    have hpassed := h.passedOver
    split
    case isTrue hcounted =>
      refine ⟨h.kept, rfl, h.summarizes.updateRtt sqrt _, fun hinOrder => ?_⟩
      rw [Bool.and_eq_true, decide_eq_true_eq] at hinOrder
      have hlast := hpassed hinOrder.1
      have hlap := Nat.div_le_div_right (c := 65536) hinOrder.2
      rw [List.length_append, List.length_singleton]
      change s.found + 1 ≤ _ + n / 65536
      omega
    case isFalse hlate =>
      refine ⟨h.kept, rfl, h.summarizes, fun hinOrder => ?_⟩
      rw [Bool.and_eq_true, decide_eq_true_eq] at hinOrder
      have hlast := hpassed hinOrder.1
      change s.found + 1 ≤ s.rtts.length + n / 65536
      omega

end Measures

end AckedQueue

end Zhuge
