-- SUMMARY: When the receive rate is that of its window: exactly if the packet subtracted for the window's edge has the size of the packet at the edge.
import Mathlib.Algebra.Order.Field.Rat
import Mathlib.Tactic.Linarith
import Mathlib.Tactic.Ring
import Zhuge.RecordedFeedback

/-!
# The receive rate

`getCurrentRecvRate` scans `m_recvHistory` from the back until it meets a record received at
least a second before the last one. The sizes it has added up by then include that of this
record. What it subtracts is the size of the record before.
-/

namespace Zhuge

/-- When the packet was received. -/
def PacketRecord.rxUs (r : PacketRecord) : UInt64 := r.txTimestampUs + r.owdUs

namespace SenderBasedController

/-- The bytes of the records, as the loop adds them up. -/
def pktcnt (rs : List PacketRecord) : UInt32 := (rs.map (·.size)).sum

/-- The history covers some time, by the first tests of `getCurrentRecvRate`. -/
def SpansTime (front back : PacketRecord) : Prop :=
  lessThan front.rxUs (back.rxUs + 1) ∧ back.rxUs - front.rxUs ≠ 0

instance (front back : PacketRecord) : Decidable (SpansTime front back) :=
  inferInstanceAs (Decidable (_ ∧ _))

/-- The history ends with `w` and `after`, where `w` is the newest record received at least a
second before `back`. -/
structure WindowAt (back w : PacketRecord) (after : List PacketRecord) : Prop where
  old : w.rxUs.toNat + 1000000 ≤ back.rxUs.toNat
  recent : ∀ r ∈ after, back.rxUs.toNat < r.rxUs.toNat + 1000000

instance (back w : PacketRecord) (after : List PacketRecord) : Decidable (WindowAt back w after) :=
  decidable_of_iff (w.rxUs.toNat + 1000000 ≤ back.rxUs.toNat ∧
      ∀ r ∈ after, back.rxUs.toNat < r.rxUs.toNat + 1000000)
    ⟨fun h => ⟨h.1, h.2⟩, fun h => ⟨h.old, h.recent⟩⟩

/-! ## The loop -/

/-- One round of the loop, at a record received not after the last one. -/
theorem recvWindow_round {history : List PacketRecord} {lastRxUs curr : UInt64} {i : ℕ}
    {r : PacketRecord} {cnt : UInt32} (hcurr : lastRxUs.toNat < curr.toNat + 1000000)
    (hle : curr ≤ lastRxUs) (hr : history[i]? = some r) (hrle : r.rxUs ≤ lastRxUs) :
    recvWindow history lastRxUs i curr cnt =
      if i = 0 then some none
      else recvWindow history lastRxUs (i - 1) r.rxUs (cnt + r.size) := by
  have hin : lastRxUs - curr < 1000000 := by
    rw [UInt64.lt_iff_toNat_lt, UInt64.toNat_sub_of_le _ _ hle]
    have hmil : (1000000 : UInt64).toNat = 1000000 := rfl
    omega
  have hmin : min (r.txTimestampUs + r.owdUs) lastRxUs = r.rxUs := if_pos hrle
  rw [recvWindow, if_pos hin, hr]
  simp only [hmin]
  cases i with
  | zero => rfl
  | succ i => rfl

/-- The loop ends behind a record that is old enough. -/
theorem recvWindow_stop {history : List PacketRecord} {lastRxUs curr : UInt64} {i : ℕ}
    {cnt : UInt32} (hcurr : curr.toNat + 1000000 ≤ lastRxUs.toNat) :
    recvWindow history lastRxUs i curr cnt = some (some (i, curr, cnt)) := by
  have hle : curr ≤ lastRxUs := UInt64.le_iff_toNat_le.mpr (by omega)
  have hout : ¬ lastRxUs - curr < 1000000 := by
    rw [UInt64.lt_iff_toNat_lt, UInt64.toNat_sub_of_le _ _ hle]
    have hmil : (1000000 : UInt64).toNat = 1000000 := rfl
    omega
  rw [recvWindow, if_neg hout]

/-- The loop over the records behind `w`, and over `w`. -/
theorem recvWindow_found {older after newer : List PacketRecord} {back p w : PacketRecord}
    {curr : UInt64} {cnt : UInt32} (hwindow : WindowAt back w after)
    (hcurr : back.rxUs.toNat < curr.toNat + 1000000) (hle : curr ≤ back.rxUs)
    (hlast : ∀ r ∈ after, r.rxUs ≤ back.rxUs) :
    recvWindow (older ++ p :: w :: after ++ newer) back.rxUs (older.length + 1 + after.length)
        curr cnt
      = some (some (older.length, w.rxUs, cnt + pktcnt after + w.size)) := by
  induction after using List.reverseRecOn generalizing newer curr cnt with
  -- only `w` is left to count, and the record before it stops the loop
  | nil =>
      have hold := hwindow.old
      have hget : (older ++ p :: [w] ++ newer)[older.length + 1]? = some w := by simp
      have hwle : w.rxUs ≤ back.rxUs := UInt64.le_iff_toNat_le.mpr (by omega)
      rw [List.length_nil, add_zero, recvWindow_round hcurr hle hget hwle,
        if_neg (Nat.succ_ne_zero _), recvWindow_stop hold]
      simp [pktcnt]
  -- the scan is from the back: the round for `r` leaves the loop over the records before it
  | append_singleton after r ih =>
      have hrecent : ∀ s ∈ after, back.rxUs.toNat < s.rxUs.toNat + 1000000 := fun s hs =>
        hwindow.recent s (List.mem_append_left _ hs)
      have hr := hwindow.recent r (by simp)
      have hget : (older ++ p :: w :: (after ++ [r]) ++ newer)[older.length + 1
          + (after ++ [r]).length]? = some r := by
        rw [List.append_assoc, List.getElem?_append_right (by omega)]
        have hindex : older.length + 1 + (after ++ [r]).length - older.length
            = after.length + 2 := by
          rw [List.length_append, List.length_singleton]
          omega
        rw [hindex]
        simp
      have hsum : cnt + r.size + pktcnt after + w.size
          = cnt + pktcnt (after ++ [r]) + w.size := by
        simp only [pktcnt, List.map_append, List.map_cons, List.map_nil, List.sum_append,
          List.sum_cons, List.sum_nil, UInt32.add_zero]
        rw [UInt32.add_assoc cnt, UInt32.add_comm r.size]
      have hne : older.length + 1 + (after ++ [r]).length ≠ 0 := by omega
      have hnext : older.length + 1 + (after ++ [r]).length - 1
          = older.length + 1 + after.length := by
        rw [List.length_append, List.length_singleton]
        omega
      have hshift : older ++ p :: w :: (after ++ [r]) ++ newer
          = older ++ p :: w :: after ++ r :: newer := by simp
      rw [recvWindow_round hcurr hle hget (hlast r (by simp)), if_neg hne, hnext, hshift,
        ih ⟨hwindow.old, hrecent⟩ hr (hlast r (by simp))
          fun s hs => hlast s (List.mem_append_left _ hs), hsum]

/-- The loop over records that are all too recent. -/
theorem recvWindow_notFound {after newer : List PacketRecord} {back front : PacketRecord}
    {curr : UInt64} {cnt : UInt32}
    (hrecent : ∀ r ∈ after, back.rxUs.toNat < r.rxUs.toNat + 1000000)
    (hcurr : back.rxUs.toNat < curr.toNat + 1000000) (hle : curr ≤ back.rxUs)
    (hlast : ∀ r ∈ front :: after, r.rxUs ≤ back.rxUs) :
    recvWindow (front :: after ++ newer) back.rxUs after.length curr cnt = some none := by
  induction after using List.reverseRecOn generalizing newer curr cnt with
  -- the first record is reached, where the loop ends without a window
  | nil =>
      have hget : (front :: [] ++ newer)[([] : List PacketRecord).length]? = some front := rfl
      rw [recvWindow_round hcurr hle hget (hlast front List.mem_cons_self)]
      rfl
  | append_singleton after r ih =>
      have hget : (front :: (after ++ [r]) ++ newer)[(after ++ [r]).length]? = some r := by
        simp
      have hr : r.rxUs ≤ back.rxUs := hlast r (by simp)
      have hshift : front :: (after ++ [r]) ++ newer = front :: after ++ r :: newer := by simp
      rw [recvWindow_round hcurr hle hget hr, hshift]
      rw [List.length_append, List.length_singleton, if_neg (Nat.succ_ne_zero _),
        Nat.add_sub_cancel]
      exact ih (fun s hs => hrecent s (List.mem_append_left _ hs)) (hrecent r (by simp)) hr
        fun s hs => hlast s (by simp at hs ⊢; tauto)

/-- Either all records but the first are too recent, or there is a window. -/
theorem recent_or_window (back front : PacketRecord) (rest : List PacketRecord) :
    (∀ r ∈ rest, back.rxUs.toNat < r.rxUs.toNat + 1000000) ∨
      ∃ older p w after, front :: rest = older ++ p :: w :: after ∧ WindowAt back w after := by
  induction rest using List.reverseRecOn with
  | nil => exact .inl nofun
  | append_singleton rest r ih =>
      by_cases hr : back.rxUs.toNat < r.rxUs.toNat + 1000000
      · -- `r` is recent, so the window, if any, is the one of the records before it
        rcases ih with hrecent | ⟨older, p, w, after, hsplit, hwindow⟩
        · left
          intro s hs
          rcases List.mem_append.mp hs with hs | hs
          · exact hrecent s hs
          · rwa [List.mem_singleton.mp hs]
        · right
          refine ⟨older, p, w, after ++ [r], ?_, hwindow.old, ?_⟩
          · rw [← List.cons_append, hsplit]
            simp
          · intro s hs
            rcases List.mem_append.mp hs with hs | hs
            · exact hwindow.recent s hs
            · rwa [List.mem_singleton.mp hs]
      · -- `r` is too old: the window is empty behind it, and starts at `r`
        right
        have hne : front :: rest ≠ [] := List.cons_ne_nil _ _
        refine ⟨(front :: rest).dropLast, (front :: rest).getLast hne, r, [], ?_,
          not_lt.mp hr, nofun⟩
        rw [← List.cons_append]
        conv_lhs => rw [← List.dropLast_append_getLast hne]
        simp

/-- There is one window at most. -/
theorem WindowAt.unique {back w w' : PacketRecord} {older older' after after' : List PacketRecord}
    (h : WindowAt back w after) (h' : WindowAt back w' after')
    (heq : older ++ w :: after = older' ++ w' :: after') : w = w' ∧ after = after' := by
  induction older generalizing older' with
  | nil =>
      cases older' with
      | nil => exact List.cons.inj heq
      | cons x older' =>
          have hmem : w' ∈ after := (List.cons.inj heq).2 ▸ by simp
          exact absurd (h.recent w' hmem) (not_lt.mpr h'.old)
  | cons x older ih =>
      cases older' with
      | nil =>
          have hmem : w ∈ after' := (List.cons.inj heq).2 ▸ by simp
          exact absurd (h'.recent w hmem) (not_lt.mpr h.old)
      | cons y older' => exact ih (List.cons.inj heq).2

/-! ## The rate -/

/-- What the call counts for the packets behind `w`: it takes off the size of the record `p`
before `w`, if that is less than the sum. -/
def countedBytes (p w : PacketRecord) (after : List PacketRecord) : UInt32 :=
  if p.size < pktcnt after + w.size then pktcnt after + w.size - p.size
  else pktcnt after + w.size

/-- The sizes at the edge cancel out in 32-bit arithmetic, and the bits behind it fit. -/
def EdgeFits (p w : PacketRecord) (after : List PacketRecord) : Prop :=
  recordedBytes after < 2 ^ 29 ∧
    if p.size < pktcnt after + w.size then 8 * w.size = 8 * p.size else 8 * w.size = 0

instance (p w : PacketRecord) (after : List PacketRecord) : Decidable (EdgeFits p w after) :=
  inferInstanceAs (Decidable (_ ∧ _))

theorem toNat_mul_eight (a : UInt32) : (8 * a).toNat = 8 * a.toNat % 2 ^ 32 := by
  rw [UInt32.toNat_mul]
  rfl

theorem countedBytes_iff (p w : PacketRecord) (after : List PacketRecord) :
    (countedBytes p w after * 8).toNat = 8 * recordedBytes after ↔ EdgeFits p w after := by
  have hsum : (pktcnt after).toNat = recordedBytes after % 2 ^ 32 := toNat_sum_size after
  have hw := w.size.toNat_lt
  have hp := p.size.toNat_lt
  rw [UInt32.mul_comm, toNat_mul_eight, countedBytes, EdgeFits]
  split
  case isTrue =>
    rw [← UInt32.toNat_inj, toNat_mul_eight, toNat_mul_eight, UInt32.toNat_sub,
      UInt32.toNat_add, hsum]
    omega
  case isFalse =>
    rw [← UInt32.toNat_inj, toNat_mul_eight, UInt32.toNat_add, hsum, UInt32.toNat_zero]
    omega

theorem recvRate_of_window {c : SenderBasedController} {front back p w : PacketRecord}
    {older after : List PacketRecord} (hfront : c.packetHistory.head? = some front)
    (hback : c.packetHistory.getLast? = some back) (hspans : SpansTime front back)
    (hsplit : c.recvHistory = older ++ p :: w :: after) (hwindow : WindowAt back w after)
    (hlast : ∀ r ∈ after, r.rxUs ≤ back.rxUs) :
    recvWindow c.recvHistory back.rxUs (c.recvHistory.length - 1) back.rxUs 0
        = some (some (older.length, w.rxUs, 0 + pktcnt after + w.size)) ∧
      c.recvRate = if c.pktSizeSum < front.size then none
        else some (some (countedBytes p w after * 8, back.rxUs - w.rxUs), older.length + 1) := by
  have hindex : c.recvHistory.length - 1 = older.length + 1 + after.length := by
    rw [hsplit, List.length_append, List.length_cons, List.length_cons]
    omega
  have hscan : recvWindow c.recvHistory back.rxUs (c.recvHistory.length - 1) back.rxUs 0
      = some (some (older.length, w.rxUs, 0 + pktcnt after + w.size)) := by
    have hfound : recvWindow (older ++ p :: w :: after ++ []) back.rxUs
        (older.length + 1 + after.length) back.rxUs 0 = _ :=
      recvWindow_found hwindow (Nat.lt_add_of_pos_right (by norm_num)) (UInt64.le_refl _) hlast
    rw [hindex, hsplit]
    rwa [List.append_nil] at hfound
  refine ⟨hscan, ?_⟩
  have hempty : c.recvHistory.isEmpty = false := by rw [hsplit]; simp
  have hget : c.recvHistory[older.length]? = some p := by rw [hsplit]; simp
  have htests : ¬ (¬ lessThan front.rxUs (back.rxUs + 1) ∨ back.rxUs - front.rxUs = 0) := by
    rw [not_or, not_not]
    exact hspans
  simp only [PacketRecord.rxUs] at htests hscan ⊢
  simp only [recvRate, hfront, hback]
  rw [if_neg htests, hempty, if_neg Bool.false_ne_true, hscan]
  simp only [Option.bind_some, hget, UInt32.zero_add, countedBytes]

theorem recvRate_of_recent {c : SenderBasedController} {front back r : PacketRecord}
    {rest : List PacketRecord} (hfront : c.packetHistory.head? = some front)
    (hback : c.packetHistory.getLast? = some back) (hspans : SpansTime front back)
    (hrecv : c.recvHistory = r :: rest)
    (hrecent : ∀ s ∈ rest, back.rxUs.toNat < s.rxUs.toNat + 1000000)
    (hlast : ∀ s ∈ r :: rest, s.rxUs ≤ back.rxUs) :
    recvWindow c.recvHistory back.rxUs (c.recvHistory.length - 1) back.rxUs 0 = some none ∧
      c.recvRate = some (none, 0) := by
  have hscan : recvWindow c.recvHistory back.rxUs (c.recvHistory.length - 1) back.rxUs 0
      = some none := by
    have hnot : recvWindow (r :: rest ++ []) back.rxUs rest.length back.rxUs 0 = some none :=
      recvWindow_notFound hrecent (Nat.lt_add_of_pos_right (by norm_num)) (UInt64.le_refl _) hlast
    rw [hrecv, List.length_cons, Nat.add_sub_cancel]
    rwa [List.append_nil] at hnot
  refine ⟨hscan, ?_⟩
  have hempty : c.recvHistory.isEmpty = false := by rw [hrecv]; rfl
  have htests : ¬ (¬ lessThan front.rxUs (back.rxUs + 1) ∨ back.rxUs - front.rxUs = 0) := by
    rw [not_or, not_not]
    exact hspans
  simp only [PacketRecord.rxUs] at htests hscan
  simp only [recvRate, hfront, hback]
  rw [if_neg htests, hempty, if_neg Bool.false_ne_true, hscan]
  rfl

/-- Without a history, or with one that spans no time, there is no rate. -/
theorem recvRate_of_not_spansTime {c : SenderBasedController}
    (h : ∀ front ∈ c.packetHistory.head?, ∀ back ∈ c.packetHistory.getLast?,
      ¬ SpansTime front back) : c.recvRate = some (none, 0) := by
  simp only [recvRate]
  split
  next front back hfront hback =>
    have htests : ¬ lessThan front.rxUs (back.rxUs + 1) ∨ back.rxUs - front.rxUs = 0 := by
      have hnot := h front hfront back hback
      rw [SpansTime, not_and_or, not_not] at hnot
      exact hnot
    exact if_pos htests
  next => rfl

/-! ## The last record -/

/-- The two histories end with the same record, as long as there is one to report on. -/
def SameLast (c : SenderBasedController) : Prop :=
  ∀ r ∈ c.recvHistory.getLast?, c.packetHistory.getLast? = some r

theorem SameLast.step {c c' : SenderBasedController} (h : c.SameLast) {e : Event}
    (hstep : c.step e = some c') : c'.SameLast := by
  cases e with
  | call q =>
      obtain ⟨⟨answer, d⟩, hcall, rfl⟩ := Option.map_eq_some_iff.mp hstep
      cases q with
      | processSendPacket txTimestampUs sequence size =>
          obtain ⟨⟨ok, e⟩, hsend, heq⟩ := Option.map_eq_some_iff.mp hcall
          cases heq
          simp only [processSendPacket] at hsend
          split at hsend
          · cases hsend
            exact h
          · obtain ⟨history, -, heq⟩ := Option.map_eq_some_iff.mp hsend
            cases heq
            exact h
      | processFeedback nowUs sequence rxTimestampUs =>
          obtain ⟨⟨ok, e⟩, hfeedback, heq⟩ := Option.map_eq_some_iff.mp hcall
          cases heq
          -- either nothing is recorded, or both histories get the same record
          obtain ⟨-, hignored | ⟨packet, -, hrecorded⟩⟩ := processFeedback_cases hfeedback
          · intro r (hr : r ∈ e.recvHistory.getLast?)
            rw [hignored.recvHistory] at hr
            exact (congrArg List.getLast? hignored.packetHistory).trans (h r hr)
          · intro r (hr : r ∈ e.recvHistory.getLast?)
            rw [hrecorded.recvHistory, List.getLast?_concat] at hr
            exact hrecorded.packetHistory.trans hr
      | getPacketTxTimestamp sequence => cases hcall; exact h
      | getPacketSize sequence => cases hcall; exact h
      | getCurrentQdelay => cases hcall; exact h
      | getPktLossInfo =>
          obtain ⟨info, -, heq⟩ := Option.map_eq_some_iff.mp hcall
          cases heq
          exact h
      | getCurrentRecvRate =>
          obtain ⟨⟨rate, e⟩, hrate, heq⟩ := Option.map_eq_some_iff.mp hcall
          obtain ⟨⟨rate', popped⟩, -, heq'⟩ := Option.map_eq_some_iff.mp hrate
          cases heq
          cases heq'
          -- the call drops records from the front only
          intro r hr
          exact h r (mem_getLast?_of_suffix (List.drop_suffix _ _) hr)
  | updateLossRate lossQ8 => cases hstep; exact h
  | prunTransitHistory tarSeq =>
      simp only [SenderBasedController.step, prunTransitHistory] at hstep
      split at hstep <;> cases hstep
      exact h
  | setHistoryLength lenUs => cases hstep; exact h
  | reset =>
      cases hstep
      exact fun r hr => by cases hr

theorem sameLast_of_exec {es : List Event} {c : SenderBasedController}
    (hrun : Run.exec step {} es = some c) : c.SameLast :=
  Run.exec_invariant (P := SameLast) (fun _ _ _ h hstep => h.step hstep)
    (fun r hr => by cases hr) hrun

/-! ## When the rate is right -/

/-- What the call is for. -/
structure MeasuresWindow (c : SenderBasedController) : Prop where
  /-- Every `at()` is in range. -/
  inRange : ∀ front ∈ c.packetHistory.head?, ∀ back ∈ c.packetHistory.getLast?,
    SpansTime front back → c.recvHistory ≠ [] ∧
      ∃ out, recvWindow c.recvHistory back.rxUs (c.recvHistory.length - 1) back.rxUs 0 = some out ∧
        ∀ e ∈ out, e.1 < c.recvHistory.length
  /-- The rate, in bits per second, is that of the records behind the newest one received at
  least a second before the last, and only records before that one leave. -/
  rate : ∀ bits us c', c.getCurrentRecvRate = some (some (bits, us), c') →
    ∃ older w after, c.recvHistory = older ++ w :: after ∧ ∃ back ∈ c.recvHistory.getLast?,
      WindowAt back w after ∧
        (bits.toNat * 1000000 / us.toNat : ℚ)
          = 8 * 10 ^ 6 * recordedBytes after / (back.rxUs.toNat - w.rxUs.toNat) ∧
        c'.recvHistory = w :: after
  unchanged : ∀ c', c.getCurrentRecvRate = some (none, c') → c'.recvHistory = c.recvHistory

/-- If the call gets to the scan, then there is a record to start at, and if it gets to a rate,
then the sizes at the edge of the window agree. -/
def EdgesAgree (c : SenderBasedController) : Prop :=
  ∀ front ∈ c.packetHistory.head?, ∀ back ∈ c.packetHistory.getLast?, SpansTime front back →
    c.recvHistory ≠ [] ∧ (front.size ≤ c.pktSizeSum → ∀ older p w after,
      c.recvHistory = older ++ p :: w :: after → WindowAt back w after → EdgeFits p w after)

theorem toNat_rxUs_sub {back w : PacketRecord} {after : List PacketRecord}
    (h : WindowAt back w after) :
    ((back.rxUs - w.rxUs).toNat : ℚ) = back.rxUs.toNat - w.rxUs.toNat ∧
      ((back.rxUs - w.rxUs).toNat : ℚ) ≠ 0 := by
  have hold := h.old
  have hle : w.rxUs ≤ back.rxUs := UInt64.le_iff_toNat_le.mpr (by omega)
  rw [UInt64.toNat_sub_of_le _ _ hle]
  refine ⟨Nat.cast_sub (by omega), Nat.cast_ne_zero.mpr (by omega)⟩

/-- The rate is right if the bits are counted right. -/
theorem rate_eq_iff {back w : PacketRecord} {after : List PacketRecord} {bits : UInt32}
    (h : WindowAt back w after) :
    (bits.toNat * 1000000 / (back.rxUs - w.rxUs).toNat : ℚ)
        = 8 * 10 ^ 6 * recordedBytes after / (back.rxUs.toNat - w.rxUs.toNat) ↔
      bits.toNat = 8 * recordedBytes after := by
  obtain ⟨hsub, hne⟩ := toNat_rxUs_sub h
  rw [← hsub, div_left_inj' hne]
  constructor
  · intro heq
    have hcast : (bits.toNat : ℚ) = (8 * recordedBytes after : ℕ) := by
      push_cast
      linarith
    exact_mod_cast hcast
  · intro heq
    rw [heq]
    push_cast
    ring

/-- The last record, and that none was received after it. -/
theorem SameLast.getLast?_recvHistory {c : SenderBasedController} (h : c.SameLast)
    (hmono : c.recvHistory.Pairwise fun r s => r.rxUs ≤ s.rxUs) (hne : c.recvHistory ≠ [])
    {back : PacketRecord} (hback : c.packetHistory.getLast? = some back) :
    c.recvHistory.getLast? = some back ∧ ∀ r ∈ c.recvHistory, r.rxUs ≤ back.rxUs := by
  obtain ⟨init, last, hsplit⟩ : ∃ init last, c.recvHistory = init ++ [last] :=
    ⟨_, _, (List.dropLast_append_getLast hne).symm⟩
  have hlast : c.recvHistory.getLast? = some last := by rw [hsplit, List.getLast?_concat]
  have heq : last = back := Option.some.inj ((h last hlast).symm.trans hback)
  subst heq
  refine ⟨hlast, fun r hr => ?_⟩
  rw [hsplit] at hmono hr
  rcases List.mem_append.mp hr with hr | hr
  · exact (List.pairwise_append.mp hmono).2.2 r hr last (List.mem_singleton_self _)
  · rw [List.mem_singleton.mp hr]
    exact UInt64.le_refl _

/-- A call that gets to a rate, for a history that ends with a window. -/
theorem getCurrentRecvRate_of_window {c : SenderBasedController} {front back p w : PacketRecord}
    {older after : List PacketRecord} (hfront : c.packetHistory.head? = some front)
    (hback : c.packetHistory.getLast? = some back) (hspans : SpansTime front back)
    (hsplit : c.recvHistory = older ++ p :: w :: after) (hwindow : WindowAt back w after)
    (hlast : ∀ r ∈ c.recvHistory, r.rxUs ≤ back.rxUs) :
    c.getCurrentRecvRate = if c.pktSizeSum < front.size then none
      else some (some (countedBytes p w after * 8, back.rxUs - w.rxUs),
        { c with recvHistory := w :: after }) := by
  have hafter : ∀ r ∈ after, r.rxUs ≤ back.rxUs := fun r hr =>
    hlast r (hsplit ▸ List.mem_append_right _ (by simp [hr]))
  have hdrop : c.recvHistory.drop (older.length + 1) = w :: after := by
    rw [hsplit, ← List.drop_drop, List.drop_left]
    rfl
  rw [getCurrentRecvRate, (recvRate_of_window hfront hback hspans hsplit hwindow hafter).2]
  split
  · rfl
  · simp only [Option.map_some, hdrop]

/-- Where there are records to scan, either nothing is reported, because there is nothing to
measure or no window, or there is a window. -/
theorem EdgesAgree.noRate_or_window {c : SenderBasedController} (h : c.EdgesAgree)
    (hsame : c.SameLast) (hmono : c.recvHistory.Pairwise fun r s => r.rxUs ≤ s.rxUs) :
    (c.recvRate = some (none, 0) ∧ ∀ front ∈ c.packetHistory.head?,
      ∀ back ∈ c.packetHistory.getLast?, SpansTime front back → c.recvHistory ≠ [] ∧
        recvWindow c.recvHistory back.rxUs (c.recvHistory.length - 1) back.rxUs 0 = some none) ∨
    ∃ front back, c.packetHistory.head? = some front ∧ c.packetHistory.getLast? = some back ∧
      SpansTime front back ∧ ∃ older p w after, c.recvHistory = older ++ p :: w :: after ∧
        WindowAt back w after := by
  by_cases hspans : ∃ front ∈ c.packetHistory.head?, ∃ back ∈ c.packetHistory.getLast?,
      SpansTime front back
  · obtain ⟨front, hfront, back, hback, hspans⟩ := hspans
    have hne := (h front hfront back hback hspans).1
    obtain ⟨-, hle⟩ := hsame.getLast?_recvHistory hmono hne hback
    obtain ⟨r, rest, hrecv⟩ := List.exists_cons_of_ne_nil hne
    rcases recent_or_window back r rest with hrecent | ⟨older, p, w, after, hsplit, hwindow⟩
    · obtain ⟨hscan, hrate⟩ := recvRate_of_recent hfront hback hspans hrecv hrecent (hrecv ▸ hle)
      refine .inl ⟨hrate, fun front' _ back' hback' _ => ⟨hne, ?_⟩⟩
      cases Option.mem_unique hback hback'
      exact hscan
    · exact .inr ⟨front, back, hfront, hback, hspans, older, p, w, after,
        hrecv.trans hsplit, hwindow⟩
  · push Not at hspans
    exact .inl ⟨recvRate_of_not_spansTime hspans, fun front hfront back hback hyes =>
      absurd hyes (hspans front hfront back hback)⟩

/-- A call that reports nothing leaves everything as it is. -/
theorem measuresWindow_of_noRate {c : SenderBasedController} (hrate : c.recvRate = some (none, 0))
    (hscan : ∀ front ∈ c.packetHistory.head?, ∀ back ∈ c.packetHistory.getLast?,
      SpansTime front back → c.recvHistory ≠ [] ∧
        recvWindow c.recvHistory back.rxUs (c.recvHistory.length - 1) back.rxUs 0 = some none) :
    c.MeasuresWindow := by
  have hcall : c.getCurrentRecvRate = some (none, c) := by
    rw [getCurrentRecvRate, hrate]
    rfl
  refine ⟨fun front hfront back hback hspans => ?_, fun bits us c' hreturns => ?_,
    fun c' hreturns => ?_⟩
  · obtain ⟨hne, hnone⟩ := hscan front hfront back hback hspans
    exact ⟨hne, none, hnone, nofun⟩
  · cases hcall.symm.trans hreturns
  · cases hcall.symm.trans hreturns
    rfl

/-- A call that finds a window measures it if the sizes at its edge agree. -/
theorem EdgesAgree.measuresWindow {c : SenderBasedController} (h : c.EdgesAgree)
    (hsame : c.SameLast) (hmono : c.recvHistory.Pairwise fun r s => r.rxUs ≤ s.rxUs)
    {front back : PacketRecord} (hfront : c.packetHistory.head? = some front)
    (hback : c.packetHistory.getLast? = some back) (hspans : SpansTime front back)
    {older after : List PacketRecord} {p w : PacketRecord}
    (hsplit : c.recvHistory = older ++ p :: w :: after) (hwindow : WindowAt back w after) :
    c.MeasuresWindow := by
  obtain ⟨hne, hedge⟩ := h front hfront back hback hspans
  obtain ⟨hlast, hle⟩ := hsame.getLast?_recvHistory hmono hne hback
  have hcall := getCurrentRecvRate_of_window hfront hback hspans hsplit hwindow hle
  refine ⟨fun front' _ back' hback' _ => ⟨hne, ?_⟩, fun bits us c' hreturns => ?_,
    fun c' hreturns => ?_⟩
  · cases Option.mem_unique hback hback'
    have hafter : ∀ r ∈ after, r.rxUs ≤ back.rxUs := fun r hr =>
      hle r (hsplit ▸ List.mem_append_right _ (by simp [hr]))
    refine ⟨_, (recvRate_of_window hfront hback hspans hsplit hwindow hafter).1, ?_⟩
    intro e he
    cases Option.mem_some_iff.mp he
    rw [hsplit, List.length_append, List.length_cons]
    exact Nat.lt_add_of_pos_right (Nat.succ_pos _)
  · rw [hreturns] at hcall
    split at hcall
    case isTrue => cases hcall
    case isFalse hsum =>
      cases hcall
      refine ⟨older ++ [p], w, after, by rw [hsplit]; simp, back, hlast, hwindow, ?_, rfl⟩
      have hfits := hedge (UInt32.not_lt.mp hsum) older p w after hsplit hwindow
      exact (rate_eq_iff hwindow).mpr ((countedBytes_iff p w after).mpr hfits)
  · rw [hreturns] at hcall
    split at hcall <;> cases hcall

/-- In every reachable state with receive times in order, `getCurrentRecvRate` measures its
window if and only if the sizes at the edge of the window agree, and there are records to scan. -/
theorem measuresWindow_iff_edgesAgree {es : List Event} {c : SenderBasedController}
    (hrun : Run.exec step {} es = some c)
    (hmono : c.recvHistory.Pairwise fun r s => r.rxUs ≤ s.rxUs) :
    c.MeasuresWindow ↔ c.EdgesAgree := by
  have hsame := sameLast_of_exec hrun
  constructor
  · intro h front hfront back hback hspans
    have hne := (h.inRange front hfront back hback hspans).1
    obtain ⟨hlast, hle⟩ := hsame.getLast?_recvHistory hmono hne hback
    refine ⟨hne, fun hsum older p w after hsplit hwindow => ?_⟩
    have hcall := getCurrentRecvRate_of_window hfront hback hspans hsplit hwindow hle
    rw [if_neg (UInt32.not_lt.mpr hsum)] at hcall
    obtain ⟨older', w', after', hsplit', back', hback', hwindow', hrate, -⟩ := h.rate _ _ _ hcall
    -- there is only one window, so the rate is about this one
    cases hlast.symm.trans hback'
    have hboth : (older ++ [p]) ++ w :: after = older' ++ w' :: after' := by
      rw [List.append_assoc]
      exact hsplit.symm.trans hsplit'
    obtain ⟨rfl, rfl⟩ := hwindow.unique hwindow' hboth
    exact (countedBytes_iff p w after).mp ((rate_eq_iff hwindow).mp hrate)
  · intro h
    rcases h.noRate_or_window hsame hmono with ⟨hrate, hscan⟩ |
      ⟨front, back, hfront, hback, hspans, older, p, w, after, hsplit, hwindow⟩
    · exact measuresWindow_of_noRate hrate hscan
    · exact h.measuresWindow hsame hmono hfront hback hspans hsplit hwindow

/-- A packet every 400 ms, of these sizes, each reported before the next one. -/
def reports (sizes : List UInt32) : List Event :=
  sizes.zipIdx.flatMap fun (size, i) =>
    let txTimestampUs : UInt64 := 400000 * .ofNat i
    [.call (.processSendPacket txTimestampUs (.ofNat (i + 1)) size),
      .call (.processFeedback (txTimestampUs + 200000) (.ofNat (i + 1)) (txTimestampUs + 100000))]

/-- Five packets of one size. -/
theorem measuresWindow_iff_edgesAgree_fivePackets : ∃ c,
    Run.exec step {} (reports [1200, 1200, 1200, 1200, 1200]) = some c ∧
      c.recvRate = some (some (28800, 1200000), 1) ∧ (c.MeasuresWindow ↔ c.EdgesAgree) := by
  obtain ⟨c, hrun, hrate, hmono⟩ : ∃ c,
      Run.exec step {} (reports [1200, 1200, 1200, 1200, 1200]) = some c ∧
        c.recvRate = some (some (28800, 1200000), 1) ∧
        c.recvHistory.Pairwise fun r s => r.rxUs ≤ s.rxUs := by decide +kernel
  exact ⟨c, hrun, hrate, measuresWindow_iff_edgesAgree hrun hmono⟩

/-- The packet before the window is smaller than the one at its edge: 36800 bits are reported for
three packets of 9600. -/
theorem recvRate_counts_edge : ∃ c,
    Run.exec step {} (reports [200, 1200, 1200, 1200, 1200]) = some c ∧
      (c.recvHistory.Pairwise fun r s => r.rxUs ≤ s.rxUs) ∧ ¬ c.MeasuresWindow := by
  obtain ⟨c, hrun, hmono, w, -, hsplit, back, hback, hwindow, hbytes, hus, hcall⟩ : ∃ c,
      Run.exec step {} (reports [200, 1200, 1200, 1200, 1200]) = some c ∧
        (c.recvHistory.Pairwise fun r s => r.rxUs ≤ s.rxUs) ∧
        ∃ w ∈ c.recvHistory[1]?, c.recvHistory = c.recvHistory.take 1 ++ w :: c.recvHistory.drop 2 ∧
          ∃ back ∈ c.recvHistory.getLast?, WindowAt back w (c.recvHistory.drop 2) ∧
            recordedBytes (c.recvHistory.drop 2) = 3600 ∧ back.rxUs - w.rxUs = 1200000 ∧
            c.getCurrentRecvRate = some (some (36800, 1200000),
              { c with recvHistory := c.recvHistory.drop 1 }) := by decide +kernel
  refine ⟨c, hrun, hmono, fun h => ?_⟩
  rw [← hus] at hcall
  obtain ⟨older', w', after', hsplit', back', hback', hwindow', hrate, -⟩ := h.rate _ _ _ hcall
  cases Option.mem_unique hback hback'
  obtain ⟨rfl, rfl⟩ := hwindow.unique hwindow' (hsplit.symm.trans hsplit')
  have hbits := (rate_eq_iff hwindow).mp hrate
  rw [hbytes] at hbits
  exact absurd hbits (by decide)

end SenderBasedController

end Zhuge
