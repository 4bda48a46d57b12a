-- SUMMARY: The representation invariant of a controller, restored by every call.
import Mathlib.Data.List.TakeWhile
import Zhuge.SenderBasedController

/-!
# The invariant of a controller

The packets in transit are the last ones sent, in order. The acknowledged ones were sent
before them, and what an acknowledged packet may skip is bounded by the gap in time that
the history tolerates.
-/

namespace Zhuge.SenderBasedController

/-! ## Comparing times that lie in order -/

theorem lessThan_backward_iff {a b : UInt64} (h : a ≤ b) :
    lessThan b a ↔ 2 ^ 63 < b.toNat - a.toNat := by
  rw [UInt64.le_iff_toNat_le] at h
  have ha := a.toNat_lt
  have hb := b.toNat_lt
  rw [lessThan_iff_time, UInt64.toNat_sub]
  omega

theorem lessThan_add_iff {a b k : UInt64} (h : a ≤ b) (hk : k.toNat < 2 ^ 63) :
    lessThan (a + k) b ↔
      k.toNat < b.toNat - a.toNat ∧ b.toNat - a.toNat < k.toNat + 2 ^ 63 := by
  rw [UInt64.le_iff_toNat_le] at h
  have ha := a.toNat_lt
  have hb := b.toNat_lt
  rw [lessThan_iff_time, UInt64.toNat_sub, UInt64.toNat_add]
  omega

theorem lessThan_add_backward_iff {a b k : UInt64} (h : a ≤ b) (hk : k.toNat < 2 ^ 63) :
    lessThan b (a + k) ↔
      b.toNat - a.toNat < k.toNat ∨ k.toNat + 2 ^ 63 < b.toNat - a.toNat := by
  rw [UInt64.le_iff_toNat_le] at h
  have ha := a.toNat_lt
  have hb := b.toNat_lt
  rw [lessThan_iff_time, UInt64.toNat_sub, UInt64.toNat_add]
  omega

/-! ## Packets with consecutive sequences -/

/-- The packet `s` was sent right after `r`. -/
def Follows (r s : PacketRecord) : Prop := s.sequence = r.sequence + 1

/-- A packet of a consecutive list lies as far ahead of the first as its index. -/
theorem exists_sequence_eq {r s : PacketRecord} {rest : List PacketRecord}
    (hchain : (r :: rest).IsChain Follows) (hmem : s ∈ r :: rest) :
    ∃ i ≤ rest.length, s.sequence = r.sequence + .ofNat i := by
  induction rest generalizing r with
  | nil =>
      rw [List.mem_singleton.mp hmem]
      exact ⟨0, le_rfl, by simp⟩
  | cons t rest ih =>
      rw [List.isChain_cons_cons] at hchain
      rcases List.mem_cons.mp hmem with rfl | hmem
      · exact ⟨0, Nat.zero_le _, by simp⟩
      · obtain ⟨i, hi, heq⟩ := ih hchain.2 hmem
        refine ⟨i + 1, by simpa using hi, ?_⟩
        rw [heq, hchain.1, UInt16.ofNat_add, UInt16.add_assoc, UInt16.add_comm 1]
        rfl

/-- The last packet of a consecutive list lies ahead of the first by all the others. -/
theorem getLast_sequence_eq {r : PacketRecord} {rest : List PacketRecord}
    (hchain : (r :: rest).IsChain Follows) :
    ((r :: rest).getLast (List.cons_ne_nil _ _)).sequence = r.sequence + .ofNat rest.length := by
  induction rest generalizing r with
  | nil => simp
  | cons t rest ih =>
      rw [List.isChain_cons_cons] at hchain
      rw [List.getLast_cons (List.cons_ne_nil _ _), ih hchain.2, hchain.1, List.length_cons,
        UInt16.ofNat_add, UInt16.add_assoc, UInt16.add_comm 1]
      rfl

/-- Packets that follow `l` without a gap come after it on the circle, as long as there are
fewer than half a circle of them. -/
theorem lessThan_of_consecutive {l r s : PacketRecord} {rest : List PacketRecord}
    (hnext : Follows l r) (hchain : (r :: rest).IsChain Follows)
    (hlength : (r :: rest).length < 32768) (hmem : s ∈ r :: rest) :
    lessThan l.sequence s.sequence := by
  obtain ⟨i, hi, heq⟩ := exists_sequence_eq hchain hmem
  have hgap : (s.sequence - l.sequence).toNat = i + 1 := by
    have hsub : s.sequence - l.sequence = .ofNat (i + 1) := by
      rw [heq, hnext, UInt16.ofNat_add]
      grind
    rw [hsub, UInt16.toNat_ofNat']
    exact Nat.mod_eq_of_lt (by simp at hlength; omega)
  rw [lessThan_iff_sequence, hgap]
  simp at hlength
  omega

/-! ## The invariant -/

/-- The sequence of the packet that has been in transit for the longest, or of the next one
to be sent. -/
def nextToAck (c : SenderBasedController) : UInt16 :=
  match c.inTransitPackets with
  | [] => c.lastSequence + 1
  | r :: _ => r.sequence

/-- What the fields of a controller say about each other. -/
structure Representation (c : SenderBasedController) : Prop where
  transit_chain : c.inTransitPackets.IsChain Follows
  transit_last : ∀ r ∈ c.inTransitPackets.getLast?, r.sequence = c.lastSequence
  history_sequences :
    c.packetHistory.IsChain fun r s => lessThan r.sequence s.sequence
  history_times :
    c.packetHistory.Pairwise fun r s => r.txTimestampUs ≤ s.txTimestampUs
  sizes : c.pktSizeSum.toNat = (c.packetHistory.map fun r => r.size.toNat).sum
  baseDelay : ∀ r ∈ c.packetHistory, c.baseDelayUs ≤ r.owdUs

/-- The representation, with what the next call needs to restore it. -/
structure Invariant (c : SenderBasedController) : Prop extends Representation c where
  transit_length : c.inTransitPackets.length < 32768
  transit_fresh : ∀ r ∈ c.inTransitPackets, r.owdUs = 0 ∧ r.rttUs = 0
  times : (c.packetHistory ++ c.inTransitPackets).Pairwise fun r s =>
    r.txTimestampUs ≤ s.txTimestampUs
  /-- The packet sent last is still on record. -/
  newest : ∀ r ∈ c.packetHistory ++ c.inTransitPackets,
    ∃ n ∈ c.packetTransitHistory.getLast?, r.txTimestampUs ≤ n.txTimestampUs
  firstSend : c.firstSend → c.inTransitPackets = [] ∧ c.packetHistory = []
  expected : ∀ l ∈ c.packetHistory.getLast?, c.ilState.expectedSeq = l.sequence + 1
  intervals : c.ilState.intervals ≠ []
  historyLength : c.historyLengthUs = defaultHistoryLengthUs
  window : ∀ r ∈ c.packetHistory, ∀ l ∈ c.packetHistory.getLast?,
    l.txTimestampUs.toNat < r.txTimestampUs.toNat + 500000
  /-- Nothing sent since the last acknowledged packet was evicted before enough time has
  passed. -/
  next : ∀ l ∈ c.packetHistory.getLast?, ∀ n ∈ c.packetTransitHistory.getLast?,
    n.txTimestampUs.toNat ≤ l.txTimestampUs.toNat + 5000000 → c.nextToAck = l.sequence + 1
  /-- A packet that would extend the history comes after it. -/
  reach : ∀ l ∈ c.packetHistory.getLast?, ∀ r ∈ c.inTransitPackets,
    r.txTimestampUs.toNat ≤ l.txTimestampUs.toNat + 500000 → lessThan l.sequence r.sequence

/-- What is in transit right after `l` comes after it on the circle. -/
theorem lessThan_of_nextToAck {c : SenderBasedController} {l r : PacketRecord}
    (hnext : c.nextToAck = l.sequence + 1) (hchain : c.inTransitPackets.IsChain Follows)
    (hlength : c.inTransitPackets.length < 32768) (hmem : r ∈ c.inTransitPackets) :
    lessThan l.sequence r.sequence := by
  unfold nextToAck at hnext
  split at hnext
  · next hempty =>
      rw [hempty] at hmem
      cases hmem
  · next first rest hcons =>
      rw [hcons] at hchain hlength hmem
      exact lessThan_of_consecutive hnext hchain hlength hmem

theorem invariant_new : Invariant {} where
  transit_chain := .nil
  transit_last := by simp
  history_sequences := .nil
  history_times := .nil
  sizes := rfl
  baseDelay := by simp
  transit_length := by decide
  transit_fresh := by simp
  times := .nil
  newest := by simp
  firstSend := by simp
  expected := by simp
  intervals := by simp
  historyLength := rfl
  window := by simp
  next := by simp
  reach := by simp

/-! ## Sending -/

theorem mem_getLast?_of_suffix {α : Type} {xs ys : List α} {a : α} (h : ys <:+ xs)
    (ha : a ∈ ys.getLast?) : a ∈ xs.getLast? := by
  obtain ⟨zs, rfl⟩ := h
  rw [Option.mem_def] at ha
  simp [List.getLast?_append, ha]

theorem evictOld_suffix (tx : UInt64) (rs : List PacketRecord) : evictOld tx rs <:+ rs :=
  List.dropWhile_suffix _

/-- The packet that is being sent is not evicted. -/
theorem evictOld_append (tx : UInt64) (sequence : UInt16) (size : UInt32)
    (rs : List PacketRecord) :
    evictOld tx (rs ++ [sentRecord tx sequence size])
      = evictOld tx rs ++ [sentRecord tx sequence size] := by
  have hkeep : ¬ lessThan (tx + 10 * maxInterPacketTimeUs) tx := by
    rw [lessThan_add_iff (UInt64.le_refl _) (by decide)]
    omega
  simp only [evictOld, List.dropWhile_append, List.dropWhile_cons, List.dropWhile_nil]
  split
  · next hempty => simp [sentRecord, hkeep, List.isEmpty_iff.mp hempty]
  · rfl

/-- Nothing is evicted within ten times the maximal gap. -/
theorem evictOld_eq_self {tx : UInt64} {rs : List PacketRecord}
    (h : ∀ r ∈ rs, r.txTimestampUs ≤ tx ∧ tx.toNat ≤ r.txTimestampUs.toNat + 5000000) :
    evictOld tx rs = rs := by
  cases rs with
  | nil => rfl
  | cons r rs =>
      obtain ⟨hle, hnear⟩ := h r List.mem_cons_self
      have hkeep : ¬ lessThan (r.txTimestampUs + 10 * maxInterPacketTimeUs) tx := by
        rw [lessThan_add_iff hle (by decide)]
        have : (10 * maxInterPacketTimeUs).toNat = 5000000 := by decide
        omega
      simp [evictOld, hkeep]

/-- The controller after a packet that it accepted. -/
def afterSend (tx : UInt64) (sequence : UInt16) (size : UInt32) (c : SenderBasedController) :
    SenderBasedController :=
  { c with
    firstSend := false
    lastSequence := sequence
    inTransitPackets := evictOld tx c.inTransitPackets ++ [sentRecord tx sequence size]
    packetTransitHistory := c.packetTransitHistory ++ [sentRecord tx sequence size] }

/-- A packet with the expected sequence is accepted when no record has that sequence. -/
theorem processSendPacket_eq {tx : UInt64} {sequence : UInt16} {size : UInt32}
    {c : SenderBasedController} (hnext : sequence = c.nextSequence sequence)
    (hfree : ∀ r ∈ c.packetTransitHistory, r.sequence ≠ sequence) :
    c.processSendPacket tx sequence size = some (true, c.afterSend tx sequence size) := by
  have hrecord : recordSent (sentRecord tx sequence size) c.packetTransitHistory
      = some (c.packetTransitHistory ++ [sentRecord tx sequence size]) := by
    rw [recordSent, if_neg]
    rintro ⟨r, hmem, heq⟩
    exact hfree r hmem heq
  simp only [processSendPacket, ← hnext, ne_eq, not_true_eq_false, if_false, hrecord,
    evictOld_append, Option.map_some, afterSend]

/-- As long as the packet is sent soon enough after the last acknowledged one, nothing is
evicted and the packets in transit still start right after that one. -/
theorem nextToAck_afterSend {tx : UInt64} {sequence : UInt16} (size : UInt32)
    {c : SenderBasedController} (h : c.Invariant) (hnext : sequence = c.nextSequence sequence)
    (htx : ∀ n ∈ c.packetTransitHistory.getLast?, n.txTimestampUs ≤ tx)
    {l : PacketRecord} (hl : l ∈ c.packetHistory.getLast?)
    (hnear : tx.toNat ≤ l.txTimestampUs.toNat + 5000000) :
    (c.afterSend tx sequence size).nextToAck = l.sequence + 1 := by
  obtain ⟨n, hn, hln⟩ := h.newest l (List.mem_append_left _ (List.mem_of_getLast? hl))
  have hntx := UInt64.le_iff_toNat_le.mp (htx n hn)
  have hnext' := h.next l hl n hn (by omega)
  have hkept : evictOld tx c.inTransitPackets = c.inTransitPackets := by
    refine evictOld_eq_self fun r hr => ⟨?_, ?_⟩
    · obtain ⟨m, hm, hrm⟩ := h.newest r (List.mem_append_right _ hr)
      exact UInt64.le_trans hrm (htx m hm)
    · have hlr := (List.pairwise_append.mp h.times).2.2 l (List.mem_of_getLast? hl) r hr
      rw [UInt64.le_iff_toNat_le] at hlr
      omega
  rw [← hnext', nextToAck, nextToAck, afterSend, hkept]
  cases htransit : c.inTransitPackets with
  | cons r rest => rfl
  | nil =>
      have hnot : ¬ c.firstSend := by
        intro hfirst
        rw [(h.firstSend hfirst).2] at hl
        cases hl
      simpa [nextSequence, hnot, sentRecord] using hnext

theorem transit_chain_afterSend (tx : UInt64) {sequence : UInt16} (size : UInt32)
    {c : SenderBasedController} (h : c.Invariant) (hnext : sequence = c.nextSequence sequence) :
    (c.afterSend tx sequence size).inTransitPackets.IsChain Follows := by
  have hsuffix := evictOld_suffix tx c.inTransitPackets
  apply (h.transit_chain.suffix hsuffix).append (.singleton _)
  intro r hr s hs
  cases Option.mem_some_iff.mp hs
  have hr' := mem_getLast?_of_suffix hsuffix hr
  have hnot : ¬ c.firstSend := by
    intro hfirst
    rw [(h.firstSend hfirst).1] at hr'
    cases hr'
  rw [Follows, h.transit_last r hr']
  simpa [nextSequence, hnot, sentRecord] using hnext

theorem invariant_afterSend {tx : UInt64} {sequence : UInt16} {size : UInt32}
    {c : SenderBasedController} (h : c.Invariant) (hnext : sequence = c.nextSequence sequence)
    (htx : ∀ n ∈ c.packetTransitHistory.getLast?, n.txTimestampUs ≤ tx)
    (hlength : (c.afterSend tx sequence size).inTransitPackets.length < 32768) :
    (c.afterSend tx sequence size).Invariant := by
  have hsuffix := evictOld_suffix tx c.inTransitPackets
  have hsent : ∀ r ∈ c.packetHistory ++ c.inTransitPackets, r.txTimestampUs ≤ tx := by
    intro r hmem
    obtain ⟨n, hn, hle⟩ := h.newest r hmem
    exact UInt64.le_trans hle (htx n hn)
  have hsub : (c.packetHistory ++ evictOld tx c.inTransitPackets).Sublist
      (c.packetHistory ++ c.inTransitPackets) :=
    (List.Sublist.refl _).append hsuffix.sublist
  have hchain := transit_chain_afterSend tx size h hnext
  have hlast : (c.afterSend tx sequence size).packetTransitHistory.getLast?
      = some (sentRecord tx sequence size) := List.getLast?_concat
  constructor
  case toRepresentation =>
    exact
      { transit_chain := hchain
        transit_last := by simp [afterSend, sentRecord]
        history_sequences := h.history_sequences
        history_times := h.history_times
        sizes := h.sizes
        baseDelay := h.baseDelay }
  case transit_length => exact hlength
  case transit_fresh =>
    intro r hr
    rcases List.mem_append.mp hr with hr | hr
    · exact h.transit_fresh r (hsuffix.subset hr)
    · rw [List.mem_singleton.mp hr]
      exact ⟨rfl, rfl⟩
  case times =>
    simp only [afterSend, ← List.append_assoc]
    refine List.pairwise_append.mpr ⟨h.times.sublist hsub, List.pairwise_singleton _ _, ?_⟩
    intro r hr s hs
    rw [List.mem_singleton.mp hs]
    exact hsent r (hsub.subset hr)
  case newest =>
    intro r hr
    rw [hlast]
    refine ⟨_, rfl, ?_⟩
    simp only [afterSend, ← List.append_assoc] at hr
    rcases List.mem_append.mp hr with hr | hr
    · exact hsent r (hsub.subset hr)
    · rw [List.mem_singleton.mp hr]
      exact UInt64.le_refl _
  case firstSend => exact fun hfirst => absurd hfirst (by simp [afterSend])
  case expected => exact h.expected
  case intervals => exact h.intervals
  case historyLength => exact h.historyLength
  case window => exact h.window
  case next =>
    intro l hl n hn hnear
    rw [hlast, Option.mem_some_iff] at hn
    subst hn
    exact nextToAck_afterSend size h hnext htx hl hnear
  case reach =>
    intro l hl r hr hnear
    rcases List.mem_append.mp hr with hr' | hr'
    · exact h.reach l hl r (hsuffix.subset hr') hnear
    · rw [List.mem_singleton.mp hr'] at hnear
      have hack := nextToAck_afterSend size h hnext htx hl (by
        change tx.toNat ≤ _ at hnear
        omega)
      exact lessThan_of_nextToAck hack hchain hlength hr

/-! ## Feedback -/

/-- The bytes a history stands for. -/
def recordedBytes (rs : List PacketRecord) : Nat := (rs.map fun r => r.size.toNat).sum

/-- From the packets before `last`, none of them too old for the comparison, the loop drops
those that are too old for the history. -/
theorem collectGarbage_eq {last : PacketRecord} {rs : List PacketRecord} {pktSizeSum : UInt32}
    (hsorted : rs.Pairwise fun r s => r.txTimestampUs ≤ s.txTimestampUs)
    (htimes : ∀ r ∈ rs, r.txTimestampUs ≤ last.txTimestampUs ∧
      last.txTimestampUs.toNat < r.txTimestampUs.toNat + 1000000)
    (hsum : pktSizeSum.toNat = recordedBytes (rs ++ [last])) :
    ∃ kept sum', collectGarbage defaultHistoryLengthUs last.txTimestampUs (rs ++ [last])
        pktSizeSum = some (kept ++ [last], sum') ∧
      kept <:+ rs ∧
      (∀ r ∈ kept, last.txTimestampUs.toNat < r.txTimestampUs.toNat + 500000) ∧
      sum'.toNat = recordedBytes (kept ++ [last]) := by
  have hlength : defaultHistoryLengthUs.toNat = 500000 := by decide
  induction rs generalizing pktSizeSum with
  | nil =>
      have hback : ¬ lessThan last.txTimestampUs last.txTimestampUs := by
        rw [lessThan_backward_iff (UInt64.le_refl _)]
        omega
      have hnear : lessThan last.txTimestampUs (last.txTimestampUs + defaultHistoryLengthUs) := by
        rw [lessThan_add_backward_iff (UInt64.le_refl _) (by decide), hlength]
        omega
      exact ⟨[], pktSizeSum, by simp [collectGarbage, hback, hnear], List.suffix_refl _,
        by simp, hsum⟩
  | cons r rs ih =>
      obtain ⟨hle, hnear⟩ := htimes r List.mem_cons_self
      obtain ⟨hfirst, hrest⟩ := List.pairwise_cons.mp hsorted
      have hback : ¬ lessThan last.txTimestampUs r.txTimestampUs := by
        rw [lessThan_backward_iff hle]
        omega
      simp only [List.cons_append, collectGarbage, if_neg hback]
      by_cases hkeep : last.txTimestampUs.toNat < r.txTimestampUs.toNat + 500000
      · have hless : lessThan last.txTimestampUs (r.txTimestampUs + defaultHistoryLengthUs) := by
          rw [lessThan_add_backward_iff hle (by decide), hlength]
          omega
        refine ⟨r :: rs, pktSizeSum, by rw [if_pos hless]; rfl, List.suffix_refl _, ?_, hsum⟩
        intro s hs
        rcases List.mem_cons.mp hs with rfl | hs
        · exact hkeep
        · have hrs := UInt64.le_iff_toNat_le.mp (hfirst s hs)
          omega
      · have hless : ¬ lessThan last.txTimestampUs
            (r.txTimestampUs + defaultHistoryLengthUs) := by
          rw [lessThan_add_backward_iff hle (by decide), hlength]
          omega
        have hbytes : pktSizeSum.toNat = r.size.toNat + recordedBytes (rs ++ [last]) := hsum
        have henough : r.size ≤ pktSizeSum := by
          rw [UInt32.le_iff_toNat_le]
          omega
        have hless' : (pktSizeSum - r.size).toNat = recordedBytes (rs ++ [last]) := by
          rw [UInt32.toNat_sub_of_le _ _ henough]
          omega
        obtain ⟨kept, sum', hcollect, hkept, hin, hsum'⟩ :=
          ih hrest (fun s hs => htimes s (List.mem_cons_of_mem _ hs)) hless'
        refine ⟨kept, sum', ?_, hkept.trans (List.suffix_cons _ _), hin, hsum'⟩
        rw [if_neg hless, if_neg (UInt32.not_lt.mpr henough)]
        exact hcollect

/-- The packet is the expected one or comes after it. -/
theorem updateIntervals_eq {sequence : UInt16} {il : InterLossState} (hne : il.intervals ≠ [])
    (hseq : sequence = il.expectedSeq ∨ lessThan il.expectedSeq sequence) :
    ∃ il', updateIntervals sequence il = some il' ∧ il'.expectedSeq = sequence + 1 ∧
      il'.intervals ≠ [] := by
  unfold updateIntervals
  by_cases heq : sequence = il.expectedSeq
  · rw [if_pos heq]
    cases hintervals : il.intervals with
    | nil => exact absurd hintervals hne
    | cons i rest => exact ⟨_, rfl, by rw [heq], List.cons_ne_nil _ _⟩
  · rw [if_neg heq, if_pos (hseq.resolve_left heq)]
    refine ⟨_, rfl, rfl, ?_⟩
    change (if 9 < (1 :: il.intervals).length then _ else _) ≠ []
    split
    · next hlong =>
        intro hnil
        have hlength := congrArg List.length hnil
        simp only [List.length_dropLast, List.length_nil] at hlength
        omega
    · exact List.cons_ne_nil _ _

/-- What comes after `l` is its successor or comes after that. -/
theorem eq_or_lessThan_succ {a b : UInt16} (h : lessThan a b) :
    b = a + 1 ∨ lessThan (a + 1) b := by
  rw [lessThan_iff_sequence] at h ⊢
  by_cases heq : b = a + 1
  · exact .inl heq
  · have hgap : (b - a).toNat ≠ 1 := by
      intro hone
      have hsub : b - a = 1 := UInt16.toNat_inj.mp hone
      exact heq (by rw [← hsub, UInt16.add_comm, UInt16.sub_add_cancel])
    have hsub : b - (a + 1) = b - a - 1 := by grind
    have hle : (1 : UInt16) ≤ b - a := UInt16.le_iff_toNat_le.mpr h.1
    rw [hsub, UInt16.toNat_sub_of_le _ _ hle]
    have hval : (1 : UInt16).toNat = 1 := rfl
    omega

/-- The intervals between losses are updated for any packet that comes after the history. -/
theorem updateInterLossData_eq {packet : PacketRecord} {c : SenderBasedController}
    (hintervals : c.ilState.intervals ≠ [])
    (hexpected : ∀ l ∈ c.packetHistory.getLast?, c.ilState.expectedSeq = l.sequence + 1)
    (hreach : ∀ l ∈ c.packetHistory.getLast?, lessThan l.sequence packet.sequence) :
    ∃ il : InterLossState, c.updateInterLossData packet = some { c with ilState := il } ∧
      il.expectedSeq = packet.sequence + 1 ∧ il.intervals ≠ [] := by
  unfold updateInterLossData
  cases hhistory : c.packetHistory.getLast? with
  | none =>
      have hempty : c.packetHistory.isEmpty := by
        rw [List.getLast?_eq_none_iff.mp hhistory]
        rfl
      have hfresh : packet.sequence = ({ expectedSeq := packet.sequence } :
          InterLossState).expectedSeq := rfl
      obtain ⟨il, hil, hrest⟩ := updateIntervals_eq (List.cons_ne_nil _ _) (.inl hfresh)
      exact ⟨il, by simp only [if_pos hempty, hil, Option.map_some], hrest⟩
  | some l =>
      have hne : ¬ c.packetHistory.isEmpty := by
        intro hempty
        rw [List.isEmpty_iff.mp hempty] at hhistory
        cases hhistory
      have hseq : packet.sequence = c.ilState.expectedSeq ∨
          lessThan c.ilState.expectedSeq packet.sequence := by
        rw [hexpected l hhistory]
        exact eq_or_lessThan_succ (hreach l hhistory)
      obtain ⟨il, hil, hrest⟩ := updateIntervals_eq hintervals hseq
      exact ⟨il, by simp only [if_neg hne, hil, Option.map_some], hrest⟩

section Acknowledge

variable {c : SenderBasedController} {packet : PacketRecord} {rest : List PacketRecord}

/-- The packets behind the acknowledged one are next in line. -/
theorem nextToAck_rest (h : c.Invariant) (hsuffix : packet :: rest <:+ c.inTransitPackets)
    {d : SenderBasedController} (htransit : d.inTransitPackets = rest)
    (hlast : d.lastSequence = c.lastSequence) : d.nextToAck = packet.sequence + 1 := by
  have hchain := h.transit_chain.suffix hsuffix
  unfold nextToAck
  rw [htransit]
  cases rest with
  | nil =>
      have hmem : packet ∈ c.inTransitPackets.getLast? := mem_getLast?_of_suffix hsuffix rfl
      simp only [hlast, h.transit_last packet hmem]
  | cons r rest => exact (List.isChain_cons_cons.mp hchain).1

theorem transit_last_rest (h : c.Invariant) (hsuffix : packet :: rest <:+ c.inTransitPackets) :
    ∀ r ∈ rest.getLast?, r.sequence = c.lastSequence := fun r hr =>
  h.transit_last r (mem_getLast?_of_suffix ((List.suffix_cons _ _).trans hsuffix) hr)

theorem length_rest (h : c.Invariant) (hsuffix : packet :: rest <:+ c.inTransitPackets) :
    rest.length < 32768 :=
  lt_of_le_of_lt ((List.suffix_cons _ _).trans hsuffix).length_le h.transit_length

theorem le_of_mem_rest (h : c.Invariant) (hsuffix : packet :: rest <:+ c.inTransitPackets)
    {r : PacketRecord} (hr : r ∈ rest) : packet.txTimestampUs ≤ r.txTimestampUs :=
  (List.pairwise_cons.mp ((List.pairwise_append.mp h.times).2.1.sublist hsuffix.sublist)).1 r hr

/-- A packet that was sent too long after the history to be compared with it leaves the
history as it is. -/
theorem invariant_skipped (h : c.Invariant) (hsuffix : packet :: rest <:+ c.inTransitPackets)
    {lost : UInt32} {counter : Int}
    (hfar : ∀ l ∈ c.packetHistory.getLast?,
      l.txTimestampUs.toNat + 5000000 < packet.txTimestampUs.toNat) :
    Invariant { c with
      lost := lost, lossCounter := counter, inTransitPackets := rest } := by
  have hrest := (List.suffix_cons packet rest).trans hsuffix
  have hlastRest := transit_last_rest h hsuffix
  have hsub : (c.packetHistory ++ rest).Sublist (c.packetHistory ++ c.inTransitPackets) :=
    (List.Sublist.refl _).append hrest.sublist
  constructor
  case toRepresentation =>
    exact
      { transit_chain := h.transit_chain.suffix hrest
        transit_last := hlastRest
        history_sequences := h.history_sequences
        history_times := h.history_times
        sizes := h.sizes
        baseDelay := h.baseDelay }
  case transit_length => exact length_rest h hsuffix
  case transit_fresh => exact fun r hr => h.transit_fresh r (hrest.subset hr)
  case times => exact h.times.sublist hsub
  case newest => exact fun r hr => h.newest r (hsub.subset hr)
  case firstSend =>
    intro hfirst
    obtain ⟨hempty, hhistory⟩ := h.firstSend hfirst
    exact ⟨List.suffix_nil.mp (hempty ▸ hrest), hhistory⟩
  case expected => exact h.expected
  case intervals => exact h.intervals
  case historyLength => exact h.historyLength
  case window => exact h.window
  case next =>
    intro l hl n hn hnear
    have hpacket := h.newest packet
      (List.mem_append_right _ (hsuffix.subset List.mem_cons_self))
    obtain ⟨m, hm, hle⟩ := hpacket
    cases Option.mem_unique hm hn
    have hfar' := hfar l hl
    rw [UInt64.le_iff_toNat_le] at hle
    change n.txTimestampUs.toNat ≤ l.txTimestampUs.toNat + 5000000 at hnear
    omega
  case reach => exact fun l hl r hr => h.reach l hl r (hrest.subset hr)

/-- The acknowledged packet joins what is kept of the history. -/
theorem invariant_joined (h : c.Invariant) (hsuffix : packet :: rest <:+ c.inTransitPackets)
    {lost : UInt32} {counter : Int} {recvHistory kept : List PacketRecord}
    {joined : PacketRecord} {pktSizeSum : UInt32} {baseDelayUs : UInt64} {il : InterLossState}
    (hsequence : joined.sequence = packet.sequence)
    (htime : joined.txTimestampUs = packet.txTimestampUs)
    (hkept : kept <:+ c.packetHistory)
    (hreach : ∀ l ∈ kept.getLast?, lessThan l.sequence packet.sequence)
    (hwindow : ∀ r ∈ kept, packet.txTimestampUs.toNat < r.txTimestampUs.toNat + 500000)
    (hbytes : pktSizeSum.toNat = recordedBytes (kept ++ [joined]))
    (hbase : ∀ r ∈ kept, baseDelayUs ≤ r.owdUs) (hbase' : baseDelayUs ≤ joined.owdUs)
    (hexpected : il.expectedSeq = packet.sequence + 1) (hintervals : il.intervals ≠ []) :
    Invariant { c with
      lost := lost, lossCounter := counter, inTransitPackets := rest
      baseDelayUs := baseDelayUs, ilState := il, lastRecvSequence := joined.sequence
      packetHistory := kept ++ [joined], recvHistory := recvHistory
      pktSizeSum := pktSizeSum } := by
  have hrest := (List.suffix_cons packet rest).trans hsuffix
  have hlastRest := transit_last_rest h hsuffix
  have hmem : packet ∈ c.inTransitPackets := hsuffix.subset List.mem_cons_self
  have hbefore : ∀ r ∈ kept, r.txTimestampUs ≤ packet.txTimestampUs := fun r hr =>
    (List.pairwise_append.mp h.times).2.2 r (hkept.subset hr) packet hmem
  have hhistory : (kept ++ [joined]).Pairwise fun r s => r.txTimestampUs ≤ s.txTimestampUs := by
    refine List.pairwise_append.mpr
      ⟨h.history_times.sublist hkept.sublist, List.pairwise_singleton _ _, ?_⟩
    intro r hr s hs
    rw [List.mem_singleton.mp hs, htime]
    exact hbefore r hr
  have hlast : (kept ++ [joined]).getLast? = some joined := List.getLast?_concat
  have hnext := nextToAck_rest h hsuffix
    (d := { c with
      lost := lost, lossCounter := counter, inTransitPackets := rest
      baseDelayUs := baseDelayUs, ilState := il, lastRecvSequence := joined.sequence
      packetHistory := kept ++ [joined], recvHistory := recvHistory
      pktSizeSum := pktSizeSum }) rfl rfl
  constructor
  case toRepresentation =>
    exact
      { transit_chain := h.transit_chain.suffix hrest
        transit_last := hlastRest
        history_sequences := by
          apply (h.history_sequences.suffix hkept).append (.singleton _)
          intro l hl s hs
          cases Option.mem_some_iff.mp hs
          rw [hsequence]
          exact hreach l hl
        history_times := hhistory
        sizes := hbytes
        baseDelay := by
          intro r hr
          rcases List.mem_append.mp hr with hr | hr
          · exact hbase r hr
          · rw [List.mem_singleton.mp hr]
            exact hbase' }
  case transit_length => exact length_rest h hsuffix
  case transit_fresh => exact fun r hr => h.transit_fresh r (hrest.subset hr)
  case times =>
    refine List.pairwise_append.mpr ⟨hhistory, ?_, ?_⟩
    · exact (List.pairwise_append.mp h.times).2.1.sublist hrest.sublist
    · intro r hr s hs
      rcases List.mem_append.mp hr with hr | hr
      · exact (List.pairwise_append.mp h.times).2.2 r (hkept.subset hr) s (hrest.subset hs)
      · rw [List.mem_singleton.mp hr, htime]
        exact le_of_mem_rest h hsuffix hs
  case newest =>
    intro r hr
    rcases List.mem_append.mp hr with hr | hr
    · rcases List.mem_append.mp hr with hr | hr
      · exact h.newest r (List.mem_append_left _ (hkept.subset hr))
      · rw [List.mem_singleton.mp hr, htime]
        exact h.newest packet (List.mem_append_right _ hmem)
    · exact h.newest r (List.mem_append_right _ (hrest.subset hr))
  case firstSend =>
    intro hfirst
    rw [(h.firstSend hfirst).1] at hmem
    cases hmem
  case expected =>
    intro l hl
    rw [hlast, Option.mem_some_iff] at hl
    rw [← hl, hsequence]
    exact hexpected
  case intervals => exact hintervals
  case historyLength => exact h.historyLength
  case window =>
    intro r hr l hl
    rw [hlast, Option.mem_some_iff] at hl
    rw [← hl, htime]
    rcases List.mem_append.mp hr with hr | hr
    · exact hwindow r hr
    · rw [List.mem_singleton.mp hr, htime]
      omega
  case next =>
    intro l hl n hn hnear
    rw [hlast, Option.mem_some_iff] at hl
    rw [← hl, hsequence]
    exact hnext
  case reach =>
    intro l hl r hr hnear
    rw [hlast, Option.mem_some_iff] at hl
    exact lessThan_of_nextToAck (by rw [hnext, ← hl, hsequence])
      (h.transit_chain.suffix hrest) (length_rest h hsuffix) hr

theorem recordedBytes_append (rs ss : List PacketRecord) :
    recordedBytes (rs ++ ss) = recordedBytes rs + recordedBytes ss := by
  simp [recordedBytes]

theorem recordedBytes_le_of_suffix {rs ss : List PacketRecord} (h : rs <:+ ss) :
    recordedBytes rs ≤ recordedBytes ss := by
  obtain ⟨ts, rfl⟩ := h
  rw [recordedBytes_append]
  exact Nat.le_add_left _ _

/-- What `recordReceived` does once the loop over the history has returned. -/
theorem recordReceived_eq {nowUs : UInt64} {c : SenderBasedController}
    {packet joined : PacketRecord} {packetHistory : List PacketRecord} {pktSizeSum : UInt32}
    (hjoined : joined = { packet with size := c.intvlPseudoSize nowUs packet.sequence })
    (hcollect : collectGarbage c.historyLengthUs packet.txTimestampUs
      (c.packetHistory ++ [joined]) (c.pktSizeSum + joined.size)
        = some (packetHistory, pktSizeSum)) :
    c.recordReceived nowUs packet = some { c with
      lastRecvSequence := joined.sequence
      packetHistory := packetHistory
      recvHistory := c.recvHistory ++ [joined]
      pktSizeSum := pktSizeSum } := by
  subst hjoined
  simp only [recordReceived, hcollect, Option.map_some]

/-- The base delay stays at most every one-way delay of the history and of the new packet. -/
theorem measureDelay_baseDelay {c : SenderBasedController} {packet : PacketRecord}
    {nowUs rxTimestampUs : UInt64} (hbase : ∀ r ∈ c.packetHistory, c.baseDelayUs ≤ r.owdUs)
    (hdelay : c.packetHistory ≠ [] →
      (lessThan (rxTimestampUs - packet.txTimestampUs) c.baseDelayUs ↔
        rxTimestampUs - packet.txTimestampUs < c.baseDelayUs)) :
    (∀ r ∈ c.packetHistory,
        (c.measureDelay nowUs rxTimestampUs packet).2.baseDelayUs ≤ r.owdUs) ∧
      (c.measureDelay nowUs rxTimestampUs packet).2.baseDelayUs
        ≤ rxTimestampUs - packet.txTimestampUs := by
  simp only [measureDelay, List.isEmpty_iff]
  by_cases hempty : c.packetHistory = []
  · rw [if_pos (.inl hempty), hempty]
    exact ⟨by simp, UInt64.le_refl _⟩
  · simp only [hempty, false_or, hdelay hempty]
    split
    · next hlt =>
        exact ⟨fun r hr => UInt64.le_trans (UInt64.le_of_lt hlt) (hbase r hr), UInt64.le_refl _⟩
    · next hge => exact ⟨hbase, UInt64.not_lt.mp hge⟩

/-- If the packet joins the history, its one-way delay is less than half the 64-bit range away
from the base delay, so that the circle orders them like numbers. -/
def DelayInOrder (rxTimestampUs : UInt64) (packet : PacketRecord) (c : SenderBasedController) :
    Prop :=
  ∀ l ∈ c.packetHistory.getLast?,
    packet.txTimestampUs.toNat ≤ l.txTimestampUs.toNat + 500000 →
      (lessThan (rxTimestampUs - packet.txTimestampUs) c.baseDelayUs ↔
        rxTimestampUs - packet.txTimestampUs < c.baseDelayUs)

instance (rxTimestampUs : UInt64) (packet : PacketRecord) (c : SenderBasedController) :
    Decidable (c.DelayInOrder rxTimestampUs packet) :=
  inferInstanceAs (Decidable (∀ l ∈ _, _ → _))

/-- The controller once the packet has left `m_inTransitPackets` and the history is checked. -/
def midway (rest history : List PacketRecord) (pktSizeSum lost : UInt32) (counter : Int)
    (c : SenderBasedController) : SenderBasedController :=
  { c with
    lost := lost, lossCounter := counter, inTransitPackets := rest
    packetHistory := history, pktSizeSum := pktSizeSum }

/-- The part of `acknowledge` behind its checks, for what `clearObsolete` has left of the
history. -/
theorem invariant_recorded (h : c.Invariant) (hsuffix : packet :: rest <:+ c.inTransitPackets)
    (lost : UInt32) (counter : Int) {history : List PacketRecord} {pktSizeSum : UInt32}
    (nowUs : UInt64) {rxTimestampUs : UInt64} (hhistory : history <:+ c.packetHistory)
    (hsum : pktSizeSum.toNat = recordedBytes history)
    (hnear : ∀ l ∈ history.getLast?,
      packet.txTimestampUs.toNat ≤ l.txTimestampUs.toNat + 500000)
    (hdelay : c.DelayInOrder rxTimestampUs packet)
    (hbytes : recordedBytes c.packetHistory + (c.intvlPseudoSize nowUs packet.sequence).toNat
      < 2 ^ 32) {measured : PacketRecord} {d : SenderBasedController}
    (hmeasured : measureDelay nowUs rxTimestampUs packet
      (c.midway rest history pktSizeSum lost counter) = (measured, d)) :
    ∃ c', (d.updateInterLossData measured).bind (recordReceived nowUs measured) = some c' ∧
      c'.Invariant := by
  have hmem : packet ∈ c.inTransitPackets := hsuffix.subset List.mem_cons_self
  have hlast : ∀ l ∈ history.getLast?, l ∈ c.packetHistory.getLast? :=
    fun l hl => mem_getLast?_of_suffix hhistory hl
  have hbefore : ∀ r ∈ history, r.txTimestampUs ≤ packet.txTimestampUs := fun r hr =>
    (List.pairwise_append.mp h.times).2.2 r (hhistory.subset hr) packet hmem
  have hreach : ∀ l ∈ history.getLast?, lessThan l.sequence packet.sequence :=
    fun l hl => h.reach l (hlast l hl) packet hmem (hnear l hl)
  have hdelays : ∀ r ∈ history, c.baseDelayUs ≤ r.owdUs :=
    fun r hr => h.baseDelay r (hhistory.subset hr)
  obtain ⟨hbase, hbase'⟩ := measureDelay_baseDelay
    (c := c.midway rest history pktSizeSum lost counter) hdelays (fun hne => by
      have hl := List.getLast?_eq_some_getLast hne
      exact hdelay _ (hlast _ hl) (hnear _ hl))
  rw [hmeasured] at hbase hbase'
  -- what the delay of the packet changes is the base delay
  obtain ⟨base, hd⟩ : ∃ base, d = { c.midway rest history pktSizeSum lost counter with
      baseDelayUs := base } := ⟨_, (congrArg Prod.snd hmeasured).symm⟩
  have hpacket : measured = { packet with
      owdUs := rxTimestampUs - packet.txTimestampUs
      rttUs := nowUs - packet.txTimestampUs } := (congrArg Prod.fst hmeasured).symm
  have hloss : ∃ il : InterLossState,
      d.updateInterLossData measured = some { d with ilState := il } ∧
      il.expectedSeq = measured.sequence + 1 ∧ il.intervals ≠ [] := by
    apply updateInterLossData_eq
    · rw [hd]
      exact h.intervals
    · rw [hd]
      exact fun l hl => h.expected l (hlast l hl)
    · rw [hd, hpacket]
      exact hreach
  obtain ⟨il, hil, hexpected, hintervals⟩ := hloss
  rw [hil, Option.bind_some]
  -- the packet goes in with the bytes it stands for
  obtain ⟨joined, hjoined⟩ : ∃ joined : PacketRecord, joined =
      { measured with size := intvlPseudoSize nowUs measured.sequence { d with ilState := il } } :=
    ⟨_, rfl⟩
  have hsize : joined.size = c.intvlPseudoSize nowUs packet.sequence := by
    rw [hjoined, hd, hpacket]
    rfl
  have hsequence : joined.sequence = packet.sequence := by rw [hjoined, hpacket]
  have htime : joined.txTimestampUs = packet.txTimestampUs := by rw [hjoined, hpacket]
  have howd : joined.owdUs = rxTimestampUs - packet.txTimestampUs := by rw [hjoined, hpacket]
  have hsum' : (pktSizeSum + joined.size).toNat = recordedBytes (history ++ [joined]) := by
    have hle := recordedBytes_le_of_suffix hhistory
    have hone : recordedBytes [joined] = joined.size.toNat := by simp [recordedBytes]
    rw [UInt32.toNat_add, hsum, recordedBytes_append, hone, hsize]
    exact Nat.mod_eq_of_lt (by omega)
  have htimes : ∀ r ∈ history, r.txTimestampUs ≤ joined.txTimestampUs ∧
      joined.txTimestampUs.toNat < r.txTimestampUs.toNat + 1000000 := by
    intro r hr
    rw [htime]
    refine ⟨hbefore r hr, ?_⟩
    obtain ⟨l, hl⟩ : ∃ l, l ∈ history.getLast? :=
      ⟨_, List.getLast?_eq_some_getLast (List.ne_nil_of_mem hr)⟩
    have hnear' := hnear l hl
    have hwindow := h.window r (hhistory.subset hr) l (hlast l hl)
    omega
  obtain ⟨kept, sum', hcollect, hkept, hin, hbytes'⟩ :=
    collectGarbage_eq (h.history_times.sublist hhistory.sublist) htimes hsum'
  have hrecord : recordReceived nowUs measured { d with ilState := il } = some { d with
      ilState := il
      lastRecvSequence := joined.sequence
      packetHistory := kept ++ [joined]
      recvHistory := d.recvHistory ++ [joined]
      pktSizeSum := sum' } := by
    apply recordReceived_eq hjoined
    rw [← h.historyLength] at hcollect
    rw [hd, hpacket]
    rw [htime] at hcollect
    exact hcollect
  refine ⟨_, hrecord, ?_⟩
  subst hd
  rw [hpacket] at hexpected
  have hkeptLast : ∀ l ∈ kept.getLast?, lessThan l.sequence packet.sequence :=
    fun l hl => hreach l (mem_getLast?_of_suffix hkept hl)
  rw [htime] at hin
  exact invariant_joined h hsuffix hsequence htime (hkept.trans hhistory) hkeptLast hin hbytes'
    (fun r hr => hbase r (hkept.subset hr)) (by rw [howd]; exact hbase') hexpected hintervals

/-- Every way through `acknowledge` returns and restores the invariant. -/
theorem invariant_acknowledge (h : c.Invariant)
    (hsuffix : packet :: rest <:+ c.inTransitPackets) (lost : UInt32) (counter : Int)
    {nowUs rxTimestampUs : UInt64}
    (hdelay : c.DelayInOrder rxTimestampUs packet)
    (hbytes : recordedBytes c.packetHistory + (c.intvlPseudoSize nowUs packet.sequence).toNat
      < 2 ^ 32) :
    ∃ ok c', acknowledge nowUs rxTimestampUs packet
        (c.midway rest c.packetHistory c.pktSizeSum lost counter) = some (ok, c') ∧
      c'.Invariant := by
  have hmem : packet ∈ c.inTransitPackets := hsuffix.subset List.mem_cons_self
  obtain ⟨howd, hrtt⟩ := h.transit_fresh packet hmem
  -- behind the checks, with the history that they leave
  have hrecorded (history : List PacketRecord) (pktSizeSum : UInt32)
      (hhistory : history <:+ c.packetHistory) (hsum : pktSizeSum.toNat = recordedBytes history)
      (hnear : ∀ l ∈ history.getLast?,
        packet.txTimestampUs.toNat ≤ l.txTimestampUs.toNat + 500000)
      (hclear : (c.midway rest c.packetHistory c.pktSizeSum lost counter).clearObsolete packet
        = some (c.midway rest history pktSizeSum lost counter)) :
      ∃ ok c', acknowledge nowUs rxTimestampUs packet
        (c.midway rest c.packetHistory c.pktSizeSum lost counter) = some (ok, c') ∧
      c'.Invariant := by
    obtain ⟨c', hc', hinv⟩ := invariant_recorded h hsuffix lost counter nowUs hhistory hsum
      hnear hdelay hbytes rfl
    refine ⟨true, c', ?_, hinv⟩
    simp only [acknowledge, hclear, howd, hrtt, ne_eq, not_true_eq_false, or_self, if_false]
    exact congrArg (Option.map (true, ·)) hc'
  cases hlast : c.packetHistory.getLast? with
  | none =>
      apply hrecorded _ _ (List.suffix_refl _) h.sizes (by simp [hlast])
      simp only [clearObsolete, midway, hlast]
  | some l =>
      have hle : l.txTimestampUs ≤ packet.txTimestampUs :=
        (List.pairwise_append.mp h.times).2.2 l (List.mem_of_getLast? hlast) packet hmem
      have hgap : maxInterPacketTimeUs.toNat = 500000 := by decide
      by_cases hback : lessThan packet.txTimestampUs l.txTimestampUs
      · have hclear : (c.midway rest c.packetHistory c.pktSizeSum lost counter).clearObsolete
            packet = none := by
          simp only [clearObsolete, midway, hlast, if_pos hback]
        refine ⟨false, c.midway rest c.packetHistory c.pktSizeSum lost counter, ?_, ?_⟩
        · simp only [acknowledge, hclear]
        · apply invariant_skipped h hsuffix
          intro l' hl'
          rw [hlast, Option.mem_some_iff] at hl'
          rw [lessThan_backward_iff hle] at hback
          rw [← hl']
          omega
      · by_cases hold : lessThan (l.txTimestampUs + maxInterPacketTimeUs) packet.txTimestampUs
        · apply hrecorded [] 0 List.nil_suffix rfl (by simp)
          simp only [clearObsolete, midway, hlast, if_neg hback, if_pos hold]
        · refine hrecorded _ _ (List.suffix_refl _) h.sizes ?_ ?_
          · intro l' hl'
            rw [hlast, Option.mem_some_iff] at hl'
            rw [lessThan_backward_iff hle] at hback
            rw [lessThan_add_iff hle (by decide), hgap] at hold
            rw [← hl']
            omega
          · simp only [clearObsolete, midway, hlast, if_neg hback, if_neg hold]

end Acknowledge

/-- The loss counters are no part of the invariant. -/
theorem invariant_counters {c : SenderBasedController} (h : c.Invariant) (lost : UInt32)
    (counter : Int) : Invariant { c with lost := lost, lossCounter := counter } :=
  { h with }

theorem not_lessThan_self (a : UInt16) : ¬ lessThan a a := by
  simp [lessThan_iff_sequence]

theorem lessThan_asymm {a b : UInt16} (h : lessThan a b) : ¬ lessThan b a :=
  fun h' => absurd (UInt16.lt_trans h h') (UInt16.lt_irrefl _)

/-- Only packets before the sequence are stale: if the first packet that is left comes after
it, then none was. -/
theorem stale_eq_nil {sequence : UInt16} {stale rest : List PacketRecord}
    {packet : PacketRecord} (hchain : (stale ++ packet :: rest).IsChain Follows)
    (hstale : ∀ r ∈ stale, lessThan r.sequence sequence)
    (hafter : lessThan sequence packet.sequence) : stale = [] := by
  by_contra hne
  obtain ⟨front, s, rfl⟩ := (List.eq_nil_or_concat' stale).resolve_left hne
  have hnext : packet.sequence = s.sequence + 1 := by
    rw [List.append_assoc] at hchain
    exact (List.isChain_cons_cons.mp hchain.right_of_append).1
  rcases eq_or_lessThan_succ (hstale s (by simp)) with heq | hless
  · rw [heq, hnext] at hafter
    exact not_lessThan_self _ hafter
  · rw [← hnext] at hless
    exact lessThan_asymm hless hafter

/-- Half a circle is the only way for two sequences to be neither equal nor ordered. -/
theorem toNat_sub_of_unordered {a b : UInt16} (hne : a ≠ b) (hab : ¬ lessThan a b)
    (hba : ¬ lessThan b a) : (b - a).toNat = 32768 := by
  have hne' : a.toNat ≠ b.toNat := fun heq => hne (UInt16.toNat_inj.mp heq)
  rw [lessThan_iff_sequence] at hab hba
  have ha := a.toNat_lt
  have hb := b.toNat_lt
  rw [UInt16.toNat_sub] at hab hba ⊢
  omega

/-- Feedback for one of the last packets sent returns and restores the invariant. -/
theorem invariant_feedback {nowUs rxTimestampUs : UInt64} {sequence : UInt16}
    {c : SenderBasedController} (h : c.Invariant)
    (hrecent : (c.lastSequence - sequence).toNat < 32767)
    (hdelay : ∀ r ∈ c.inTransitPackets, r.sequence = sequence → c.DelayInOrder rxTimestampUs r)
    (hbytes : recordedBytes c.packetHistory + (c.intvlPseudoSize nowUs sequence).toNat
      < 2 ^ 32) :
    ∃ ok c', c.processFeedback nowUs sequence rxTimestampUs = some (ok, c') ∧ c'.Invariant := by
  simp only [processFeedback]
  by_cases hfuture : lessThan c.lastSequence sequence
  · exact ⟨false, c, by rw [if_pos hfuture], h⟩
  rw [if_neg hfuture]
  cases hnewest : c.inTransitPackets.getLast? with
  | none => exact ⟨true, c, rfl, h⟩
  | some newest =>
      have hlast : newest.sequence = c.lastSequence := h.transit_last newest hnewest
      simp only [hlast, ne_eq, not_true_eq_false, if_false]
      obtain ⟨packet, rest, hdrop⟩ : ∃ packet rest,
          (c.dropStale sequence).inTransitPackets = packet :: rest := by
        apply List.exists_cons_of_ne_nil
        intro hnil
        have hall := List.dropWhile_eq_nil_iff.mp hnil newest (List.mem_of_getLast? hnewest)
        rw [hlast] at hall
        exact hfuture (of_decide_eq_true hall)
      have hsuffix : packet :: rest <:+ c.inTransitPackets :=
        hdrop ▸ List.dropWhile_suffix _
      have hsplit : (c.inTransitPackets.takeWhile fun r => lessThan r.sequence sequence)
          ++ packet :: rest = c.inTransitPackets := by
        rw [← hdrop]
        exact List.takeWhile_append_dropWhile
      have hfirst : ¬ lessThan packet.sequence sequence := by
        have hne : (c.dropStale sequence).inTransitPackets ≠ [] := by
          rw [hdrop]
          exact List.cons_ne_nil _ _
        have hhead : (c.dropStale sequence).inTransitPackets.head hne = packet := by
          simp only [hdrop, List.head_cons]
        have hnot := List.head_dropWhile_not _ hne
        rw [← hhead]
        exact of_decide_eq_false hnot
      have hstale : ∀ r ∈ c.inTransitPackets.takeWhile fun r => lessThan r.sequence sequence,
          lessThan r.sequence sequence := by
        intro r hr
        have hr' := List.mem_takeWhile_imp hr
        exact of_decide_eq_true hr'
      simp only [hdrop]
      by_cases hafter : lessThan sequence packet.sequence
      · rw [if_pos hafter]
        have hnone := stale_eq_nil (hsplit ▸ h.transit_chain) hstale hafter
        have hsame : (c.dropStale sequence).inTransitPackets = c.inTransitPackets := by
          rw [hdrop, ← hsplit, hnone, List.nil_append]
        have heq : c.dropStale sequence = { c with
            lost := (c.dropStale sequence).lost
            lossCounter := (c.dropStale sequence).lossCounter } := by
          rw [← hsame]
          rfl
        refine ⟨true, c.dropStale sequence, rfl, ?_⟩
        rw [heq]
        exact invariant_counters h _ _
      rw [if_neg hafter]
      have heq : sequence = packet.sequence := by
        by_contra hne
        have hhalf := toNat_sub_of_unordered hne hafter hfirst
        have hchain := h.transit_chain.suffix hsuffix
        have hback : c.lastSequence = packet.sequence + .ofNat rest.length := by
          rw [← getLast_sequence_eq hchain, ← hlast]
          have hmem : (packet :: rest).getLast (List.cons_ne_nil _ _) ∈
              c.inTransitPackets.getLast? :=
            mem_getLast?_of_suffix hsuffix (List.getLast?_eq_some_getLast _)
          cases Option.mem_unique hmem hnewest
          rfl
        have hlength := length_rest h hsuffix
        rw [hback, UInt16.toNat_sub, UInt16.toNat_add, UInt16.toNat_ofNat'] at hrecent
        rw [UInt16.toNat_sub] at hhalf
        have hs := sequence.toNat_lt
        have hp := packet.sequence.toNat_lt
        omega
      rw [if_neg (not_not.mpr heq)]
      have hmem : packet ∈ c.inTransitPackets := hsuffix.subset List.mem_cons_self
      exact invariant_acknowledge h hsuffix _ _ (hdelay packet hmem heq.symm) (heq ▸ hbytes)

/-! ## Loss information -/

/-- How many sequences a history covers, gaps included. -/
def historySpan : List PacketRecord → Nat
  | [] => 0
  | [_] => 1
  | r :: s :: rest => (s.sequence - r.sequence).toNat + historySpan (s :: rest)

theorem length_le_historySpan {rs : List PacketRecord}
    (h : rs.IsChain fun r s => lessThan r.sequence s.sequence) : rs.length ≤ historySpan rs := by
  induction rs with
  | nil => exact Nat.zero_le _
  | cons r rest ih =>
      cases rest with
      | nil => exact le_rfl
      | cons s rest =>
          obtain ⟨hfirst, hrest⟩ := List.isChain_cons_cons.mp h
          have hpos := (lessThan_iff_sequence.mp hfirst).1
          have hlength := ih hrest
          simp only [List.length_cons, historySpan] at hlength ⊢
          omega

/-- The first and the last sequence tell the span up to a full circle. -/
theorem seqSpan_eq {r : PacketRecord} {rest : List PacketRecord} :
    1 + ((r :: rest).getLast (List.cons_ne_nil _ _)).sequence - r.sequence
      = UInt16.ofNat (historySpan (r :: rest)) := by
  induction rest generalizing r with
  | nil =>
      simp only [List.getLast_singleton, historySpan]
      grind
  | cons s rest ih =>
      rw [List.getLast_cons (List.cons_ne_nil _ _), historySpan, UInt16.ofNat_add, ← ih,
        UInt16.ofNat_toNat]
      grind

/-- The assertion holds as long as the history covers less than a full circle. -/
theorem getPktLossInfo_isSome {c : SenderBasedController}
    (hchain : c.packetHistory.IsChain fun r s => lessThan r.sequence s.sequence)
    (hspan : historySpan c.packetHistory < 65536) : ∃ info, c.getPktLossInfo = some info := by
  have hlength := length_le_historySpan hchain
  unfold getPktLossInfo
  split
  · exact ⟨_, rfl⟩
  · next hlong =>
    cases hhistory : c.packetHistory with
    | nil => exact absurd (hhistory ▸ Nat.zero_lt_one) hlong
    | cons r rest =>
        rw [hhistory] at hlength hspan
        have hback := List.getLast?_eq_some_getLast (List.cons_ne_nil r rest)
        have htoNat : (UInt16.ofNat (historySpan (r :: rest))).toNat
            = historySpan (r :: rest) := by
          rw [UInt16.toNat_ofNat']
          exact Nat.mod_eq_of_lt hspan
        simp only [List.head?_cons, hback, seqSpan_eq, htoNat]
        rw [if_neg (Nat.not_lt.mpr hlength)]
        exact ⟨_, rfl⟩

/-! ## Pruning -/

/-- The packet sent last survives the pruning, which is all the invariant knows of the
transit history. -/
theorem invariant_prune {tarSeq : UInt32} {c : SenderBasedController} (h : c.Invariant)
    (hleft : ∃ r ∈ c.packetTransitHistory, tarSeq ≤ r.sequence.toUInt32) :
    ∃ c', c.prunTransitHistory tarSeq = some c' ∧ c'.Invariant := by
  obtain ⟨r, hmem, hle⟩ := hleft
  unfold prunTransitHistory
  cases hdrop : c.packetTransitHistory.dropWhile fun r => r.sequence.toUInt32 < tarSeq with
  | nil =>
      have hlt := of_decide_eq_true (List.dropWhile_eq_nil_iff.mp hdrop r hmem)
      exact absurd hlt (UInt32.not_lt.mpr hle)
  | cons s rest =>
      have hsuffix : s :: rest <:+ c.packetTransitHistory := hdrop ▸ List.dropWhile_suffix _
      refine ⟨_, rfl, { h with newest := ?_, next := ?_ }⟩
      · intro r hr
        obtain ⟨n, hn, hle⟩ := h.newest r hr
        have hlast := List.getLast?_eq_some_getLast (List.cons_ne_nil s rest)
        cases Option.mem_unique (mem_getLast?_of_suffix hsuffix hlast) hn
        exact ⟨_, hlast, hle⟩
      · exact fun l hl n hn hnear => h.next l hl n (mem_getLast?_of_suffix hsuffix hn) hnear

end Zhuge.SenderBasedController
