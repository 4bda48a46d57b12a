-- SUMMARY: The sizes stored with recorded feedback share out the bytes sent, as long as no number wraps between two recorded packets.
import Zhuge.RecordedFeedback
import Zhuge.TransitHistory

/-!
# Attributed sizes

Feedback comes for some packets only. The record of one of them is to stand for all packets
sent since the one recorded before it, and so its size is the sum of theirs, as far as they
were sent within a second. The sum is taken over the transit history, by a comparison of plain
numbers.
-/

namespace Zhuge

open SenderBasedController

/-- A controller with what was sent and what was recorded. -/
structure Attribution where
  controller : SenderBasedController := {}
  /-- Every packet sent, in order. -/
  sent : List PacketRecord := []
  /-- How many packets were sent up to the one recorded last. -/
  attributed : ℕ := 0
  /-- The sizes of the records, in order. -/
  stored : List UInt32 := []
  /-- For each record, the bytes it stands for. -/
  due : List ℕ := []

namespace Attribution

/-- How many packets were sent up to the last one with this sequence. -/
def upTo (sequence : UInt16) (s : Attribution) : ℕ :=
  s.sent.length - (s.controller.lastSequence - sequence).toNat

/-- The packets sent after the one recorded last, up to this one. -/
def between (sequence : UInt16) (s : Attribution) : List PacketRecord :=
  (s.sent.take (s.upTo sequence)).drop s.attributed

/-- Sent less than a second ago. -/
def fresh (nowUs : UInt64) (r : PacketRecord) : Bool := nowUs - r.txTimestampUs < 1000000

/-- The bytes that a record made now stands for. -/
def bytesDue (nowUs : UInt64) (sequence : UInt16) (s : Attribution) : ℕ :=
  recordedBytes ((s.between sequence).filter (fresh nowUs))

/-- One call. What it appends to `m_recvHistory` is recorded. -/
def step (s : Attribution) (e : Event) : Option Attribution :=
  (s.controller.step e).map fun controller =>
    match e with
    | .call (.processSendPacket txTimestampUs sequence size) =>
      { s with controller, sent := s.sent ++ [sentRecord txTimestampUs sequence size] }
    | .call (.processFeedback nowUs sequence _) =>
      match controller.recvHistory.drop s.controller.recvHistory.length with
      | [] => { s with controller }
      | record :: _ =>
        { s with
          controller
          attributed := s.upTo sequence
          stored := s.stored ++ [record.size]
          due := s.due ++ [s.bytesDue nowUs sequence] }
    | _ => { s with controller }

/-- How the controller is used: sequences are consecutive, and pruning leaves the packets that
are not yet attributed. -/
def Admissible (s : Attribution) : Event → Prop
  | .call (.processSendPacket _ sequence _) => sequence = s.controller.nextSequence sequence
  | .prunTransitHistory tarSeq =>
    ∀ controller ∈ s.controller.prunTransitHistory tarSeq,
      s.sent.drop s.attributed <:+ controller.packetTransitHistory
  | .reset => False
  | _ => True

/-- A packet that is recorded has a greater number than the one recorded before it, or stands
for no bytes. The packets up to the first one that is recorded are numbered from 1 or more, and
no number wraps up to the packet sent last. The bytes fit 32 bits. -/
def InNumbers (s : Attribution) : Event → Prop
  | .call (.processFeedback nowUs sequence _) =>
    s.controller.Joins sequence →
      s.bytesDue nowUs sequence < 2 ^ 32 ∧
        if s.attributed = 0 then
          ∀ first ∈ s.sent.head?, 0 < first.sequence ∧ first.sequence ≤ sequence ∧
            sequence ≤ s.controller.lastSequence
        else s.controller.lastRecvSequence < sequence ∨ s.bytesDue nowUs sequence = 0
  | _ => True

/-- Every record has the bytes it stands for, and together they are no more than were sent. -/
def SharesOut (s : Attribution) : Prop :=
  s.stored.map UInt32.toNat = s.due ∧
    (s.stored.map UInt32.toNat).sum ≤ recordedBytes (s.sent.take s.attributed)

instance (s : Attribution) : (e : Event) → Decidable (s.Admissible e)
  | .call (.processSendPacket ..) => inferInstanceAs (Decidable (_ = _))
  | .prunTransitHistory _ => inferInstanceAs (Decidable (∀ _ ∈ _, _ <:+ _))
  | .reset => .isFalse id
  | .call (.processFeedback ..) => .isTrue trivial
  | .call (.getPacketTxTimestamp _) => .isTrue trivial
  | .call (.getPacketSize _) => .isTrue trivial
  | .call .getCurrentQdelay => .isTrue trivial
  | .call .getPktLossInfo => .isTrue trivial
  | .call .getCurrentRecvRate => .isTrue trivial
  | .updateLossRate _ => .isTrue trivial
  | .setHistoryLength _ => .isTrue trivial

instance (s : Attribution) : (e : Event) → Decidable (s.InNumbers e)
  | .call (.processFeedback ..) => inferInstanceAs (Decidable (_ → _ ∧ ite _ (∀ _ ∈ _, _) _))
  | .call (.processSendPacket ..) => .isTrue trivial
  | .call (.getPacketTxTimestamp _) => .isTrue trivial
  | .call (.getPacketSize _) => .isTrue trivial
  | .call .getCurrentQdelay => .isTrue trivial
  | .call .getPktLossInfo => .isTrue trivial
  | .call .getCurrentRecvRate => .isTrue trivial
  | .updateLossRate _ => .isTrue trivial
  | .prunTransitHistory _ => .isTrue trivial
  | .setHistoryLength _ => .isTrue trivial
  | .reset => .isTrue trivial

instance : DecidablePred SharesOut := fun _ => inferInstanceAs (Decidable (_ ∧ _))

/-! ## Numbers on the circle -/

/-- No two records have one sequence. -/
def Distinct (rs : List PacketRecord) : Prop := rs.Pairwise fun r s => r.sequence ≠ s.sequence

theorem Distinct.length_le {rs : List PacketRecord} (h : Distinct rs) : rs.length ≤ 65536 := by
  have hnodup : (rs.map (·.sequence.toNat)).Nodup := by
    rw [List.Nodup, List.pairwise_map]
    exact h.imp fun hne heq => hne (UInt16.toNat_inj.mp heq)
  have hsub : (rs.map (·.sequence.toNat)) ⊆ List.range 65536 := by
    intro n hn
    obtain ⟨r, -, rfl⟩ := List.mem_map.mp hn
    exact List.mem_range.mpr r.sequence.toNat_lt
  have hle := (hnodup.subperm hsub).length_le
  rwa [List.length_map, List.length_range] at hle

theorem getElem_sequence {l : PacketRecord} {rs : List PacketRecord}
    (hchain : (l :: rs).IsChain Follows) {i : ℕ} (hi : i < rs.length) :
    rs[i].sequence = l.sequence + .ofNat (i + 1) := by
  induction rs generalizing l i with
  | nil => cases hi
  | cons r rs ih =>
      rw [List.isChain_cons_cons] at hchain
      cases i with
      | zero => exact hchain.1
      | succ i =>
          have hrest := ih hchain.2 (Nat.lt_of_succ_lt_succ hi)
          rw [List.getElem_cons_succ, hrest, hchain.1, UInt16.ofNat_add (i + 1) 1,
            UInt16.add_assoc, UInt16.add_comm 1]
          rfl

/-- Consecutive packets behind `l` up to one with a greater number take just the numbers in
between. -/
theorem numbers_behind {l r : PacketRecord} {rs : List PacketRecord}
    (hchain : (l :: (rs ++ [r])).IsChain Follows) (hlength : rs.length < 65536)
    (hlt : l.sequence < r.sequence) :
    (∀ s ∈ rs ++ [r], l.sequence < s.sequence ∧ s.sequence ≤ r.sequence) ∧
      ∀ n, l.sequence < n → n ≤ r.sequence → ∃ s ∈ rs ++ [r], s.sequence = n := by
  have hend : r.sequence = l.sequence + .ofNat (rs.length + 1) := by
    have hget := getElem_sequence hchain (i := rs.length) (by simp)
    rwa [List.getElem_concat_length rfl] at hget
  simp only [UInt16.lt_iff_toNat_lt, UInt16.le_iff_toNat_le] at hlt ⊢
  have hl := l.sequence.toNat_lt
  have hend' : r.sequence.toNat = l.sequence.toNat + (rs.length + 1) := by
    rw [hend, UInt16.toNat_add, UInt16.toNat_ofNat'] at hlt ⊢
    omega
  have hr := r.sequence.toNat_lt
  -- none of the numbers wraps, because that of `r` is greater than that of `l`
  have hnumber : ∀ i (hi : i < (rs ++ [r]).length),
      (rs ++ [r])[i].sequence.toNat = l.sequence.toNat + (i + 1) := by
    intro i hi
    rw [getElem_sequence hchain hi, UInt16.toNat_add, UInt16.toNat_ofNat']
    rw [List.length_append, List.length_singleton] at hi
    omega
  constructor
  · intro s hs
    obtain ⟨i, hi, rfl⟩ := List.getElem_of_mem hs
    rw [hnumber i hi]
    rw [List.length_append, List.length_singleton] at hi
    omega
  · intro n hln hnr
    have hi : n.toNat - l.sequence.toNat - 1 < (rs ++ [r]).length := by
      rw [List.length_append, List.length_singleton]
      omega
    refine ⟨_, List.getElem_mem hi, UInt16.toNat_inj.mp ?_⟩
    rw [hnumber _ hi]
    omega

/-! ## The size of a record -/

/-- The numbers that the sum takes are those of `interval`. -/
theorem toNat_intvlPseudoSize {c : SenderBasedController} (nowUs : UInt64) {sequence : UInt16}
    {kept interval newer : List PacketRecord}
    (hhistory : c.packetTransitHistory = kept ++ interval ++ newer)
    (hin : ∀ s ∈ interval, c.lastRecvSequence < s.sequence ∧ s.sequence ≤ sequence)
    (hout : ∀ s ∈ kept ++ newer, ¬ (c.lastRecvSequence < s.sequence ∧ s.sequence ≤ sequence)) :
    (c.intvlPseudoSize nowUs sequence).toNat
      = recordedBytes (interval.filter (fresh nowUs)) % 2 ^ 32 := by
  have hnone : ∀ rs : List PacketRecord, (∀ s ∈ rs, s ∈ kept ++ newer) →
      rs.filter (fun r => c.lastRecvSequence < r.sequence ∧ r.sequence ≤ sequence ∧
        nowUs - r.txTimestampUs < 1000000) = [] := by
    intro rs hrs
    apply List.filter_eq_nil_iff.mpr
    intro s hs hyes
    have hyes' := of_decide_eq_true hyes
    exact hout s (hrs s hs) ⟨hyes'.1, hyes'.2.1⟩
  have hall : interval.filter (fun r => c.lastRecvSequence < r.sequence ∧ r.sequence ≤ sequence ∧
      nowUs - r.txTimestampUs < 1000000) = interval.filter (fresh nowUs) := by
    apply List.filter_congr
    intro s hs
    simp [fresh, hin s hs]
  rw [intvlPseudoSize, hhistory, List.filter_append, List.filter_append, hall,
    hnone kept fun s hs => List.mem_append_left _ hs,
    hnone newer fun s hs => List.mem_append_right _ hs, List.nil_append, List.append_nil,
    toNat_sum_size]

/-- Behind the packet recorded last, when the numbers do not wrap. -/
theorem size_behind {c : SenderBasedController} (nowUs : UInt64) {l r : PacketRecord}
    {kept skipped newer : List PacketRecord}
    (hhistory : c.packetTransitHistory = kept ++ (skipped ++ [r]) ++ newer)
    (hdistinct : Distinct c.packetTransitHistory)
    (hchain : (l :: (skipped ++ [r])).IsChain Follows)
    (hlast : c.lastRecvSequence = l.sequence) (hlt : l.sequence < r.sequence) :
    (c.intvlPseudoSize nowUs r.sequence).toNat
      = recordedBytes ((skipped ++ [r]).filter (fresh nowUs)) % 2 ^ 32 := by
  rw [hhistory] at hdistinct
  have hlength : skipped.length < 65536 := by
    have hle := hdistinct.length_le
    simp only [List.length_append, List.length_singleton] at hle
    omega
  obtain ⟨hbetween, hall⟩ := numbers_behind hchain hlength hlt
  apply toNat_intvlPseudoSize nowUs hhistory (hlast ▸ hbetween)
  intro s hs hnumber
  -- the number of `s` belongs to one of the packets in between
  rw [hlast] at hnumber
  obtain ⟨t, ht, heq⟩ := hall s.sequence hnumber.1 hnumber.2
  obtain ⟨holder, -, hnewer⟩ := List.pairwise_append.mp hdistinct
  rcases List.mem_append.mp hs with hs | hs
  · exact (List.pairwise_append.mp holder).2.2 s hs t ht heq.symm
  · exact hnewer t (List.mem_append_right _ ht) s hs heq

/-- Before any packet was recorded, when no number wraps. -/
theorem size_first {c : SenderBasedController} (nowUs : UInt64) {first r : PacketRecord}
    {skipped newer : List PacketRecord}
    (hhistory : c.packetTransitHistory = skipped ++ [r] ++ newer)
    (hdistinct : Distinct c.packetTransitHistory)
    (hchain : c.packetTransitHistory.IsChain Follows)
    (hhead : (skipped ++ [r]).head? = some first)
    (hlast : c.lastRecvSequence = 0) (hpos : 0 < first.sequence)
    (hle : first.sequence ≤ r.sequence)
    (hnewest : ∀ newest ∈ newer.getLast?, r.sequence ≤ newest.sequence) :
    (c.intvlPseudoSize nowUs r.sequence).toNat
      = recordedBytes ((skipped ++ [r]).filter (fresh nowUs)) % 2 ^ 32 := by
  have hlengths := (hhistory ▸ hdistinct).length_le
  simp only [List.length_append, List.length_singleton] at hlengths
  rw [hhistory] at hchain hdistinct
  have hhistory' : c.packetTransitHistory = [] ++ (skipped ++ [r]) ++ newer := hhistory
  refine toNat_intvlPseudoSize nowUs hhistory' (hlast ▸ fun s hs => ?_)
    (hlast ▸ fun s hs hnumber => ?_)
  · -- the packets up to `r`: they follow the first, whose number is positive
    cases skipped with
    | nil =>
        obtain rfl := List.mem_singleton.mp hs
        cases hhead
        exact ⟨hpos, UInt16.le_refl _⟩
    | cons f skipped =>
        cases hhead
        have hfirst : (first :: (skipped ++ [r])).IsChain Follows := hchain.left_of_append
        have hne : first.sequence ≠ r.sequence :=
          List.rel_of_pairwise_cons (List.pairwise_append.mp hdistinct).1 (by simp)
        have hlt : first.sequence < r.sequence := UInt16.lt_of_le_of_ne hle hne
        rcases List.mem_cons.mp hs with rfl | hs
        · exact ⟨hpos, hle⟩
        · obtain ⟨hlow, hhigh⟩ :=
            (numbers_behind hfirst (by rw [List.length_cons] at hlengths; omega) hlt).1 s hs
          exact ⟨UInt16.lt_trans hpos hlow, hhigh⟩
  · -- the packets behind `r`: their numbers are between that of `r` and the newest
    rw [List.nil_append] at hs
    obtain ⟨init, newest, rfl⟩ : ∃ init newest, newer = init ++ [newest] :=
      ⟨_, _, (List.dropLast_append_getLast (List.ne_nil_of_mem hs)).symm⟩
    have hbehind : (r :: (init ++ [newest])).IsChain Follows := by
      rw [List.append_assoc, List.singleton_append] at hchain
      exact hchain.right_of_append
    have hne : r.sequence ≠ newest.sequence :=
      (List.pairwise_append.mp hdistinct).2.2 r (by simp) newest (by simp)
    have hlt : r.sequence < newest.sequence :=
      UInt16.lt_of_le_of_ne (hnewest newest List.getLast?_concat) hne
    rw [List.length_append, List.length_singleton] at hlengths
    have hlow := ((numbers_behind hbehind (by omega) hlt).1 s hs).1
    exact absurd hnumber.2 (UInt16.not_le.mpr hlow)

/-- No number is greater than the last recorded one and at most this one. -/
theorem intvlPseudoSize_of_le {c : SenderBasedController} (nowUs : UInt64) {sequence : UInt16}
    (h : ¬ c.lastRecvSequence < sequence) : c.intvlPseudoSize nowUs sequence = 0 := by
  rw [intvlPseudoSize, List.filter_eq_nil_iff.mpr, List.map_nil, List.sum_nil]
  intro r _ hyes
  have hyes' := of_decide_eq_true hyes
  exact h (UInt16.lt_of_lt_of_le hyes'.1 hyes'.2.1)

/-! ## The invariant -/

/-- The packets sent, those up to the last recorded one first. -/
structure Inv (done rest : List PacketRecord) (s : Attribution) : Prop where
  sent : s.sent = done ++ rest
  attributed : s.attributed = done.length
  history : ∃ kept, kept <:+ done ∧ s.controller.packetTransitHistory = kept ++ rest
  distinct : Distinct s.controller.packetTransitHistory
  chain : s.sent.IsChain Follows
  newest : ∀ r ∈ s.sent.getLast?, r.sequence = s.controller.lastSequence
  firstSend : s.controller.firstSend → s.sent = []
  transit : s.controller.inTransitPackets <:+ rest
  recorded : (done = [] ∧ s.controller.lastRecvSequence = 0) ∨
    ∃ init l, done = init ++ [l] ∧ s.controller.lastRecvSequence = l.sequence
  stored : s.stored.map UInt32.toNat = s.due
  bytes : (s.stored.map UInt32.toNat).sum ≤ recordedBytes done

namespace Inv

variable {done rest : List PacketRecord} {s : Attribution}

theorem new : Inv [] [] {} where
  sent := rfl
  attributed := rfl
  history := ⟨[], List.suffix_refl _, rfl⟩
  distinct := .nil
  chain := .nil
  newest := by simp
  firstSend := fun _ => rfl
  transit := List.suffix_refl _
  recorded := .inl ⟨rfl, rfl⟩
  stored := rfl
  bytes := le_rfl

theorem sharesOut (h : Inv done rest s) : s.SharesOut := by
  refine ⟨h.stored, ?_⟩
  rw [h.sent, h.attributed, List.take_left]
  exact h.bytes

/-- A call that touches neither the packets sent nor the histories. -/
theorem of_same (h : Inv done rest s) {c : SenderBasedController}
    (hsends : SameSends s.controller c)
    (htransit : c.inTransitPackets <:+ s.controller.inTransitPackets)
    (hlast : c.lastRecvSequence = s.controller.lastRecvSequence) :
    Inv done rest { s with controller := c } :=
  { h with
    history := by
      obtain ⟨kept, hkept, heq⟩ := h.history
      exact ⟨kept, hkept, hsends.transitHistory.trans heq⟩
    distinct := by
      rw [hsends.transitHistory]
      exact h.distinct
    newest := by
      rw [hsends.lastSequence]
      exact h.newest
    firstSend := by
      rw [hsends.firstSend]
      exact h.firstSend
    transit := htransit.trans h.transit
    recorded := by
      rw [hlast]
      exact h.recorded }

theorem send (h : Inv done rest s) {txTimestampUs : UInt64} {sequence : UInt16} {size : UInt32}
    (hnext : sequence = s.controller.nextSequence sequence)
    (hfree : ∀ r ∈ s.controller.packetTransitHistory, r.sequence ≠ sequence) :
    Inv done (rest ++ [sentRecord txTimestampUs sequence size])
      { s with
        controller := s.controller.afterSend txTimestampUs sequence size
        sent := s.sent ++ [sentRecord txTimestampUs sequence size] } :=
  { h with
    sent := by rw [h.sent, List.append_assoc]
    history := by
      obtain ⟨kept, hkept, heq⟩ := h.history
      refine ⟨kept, hkept, ?_⟩
      rw [afterSend, heq, List.append_assoc]
    distinct := by
      refine List.pairwise_append.mpr ⟨h.distinct, List.pairwise_singleton _ _, ?_⟩
      intro r hr t ht
      rw [List.mem_singleton.mp ht]
      exact hfree r hr
    chain := by
      apply h.chain.append (.singleton _)
      intro r hr t ht
      cases Option.mem_some_iff.mp ht
      -- something was sent already, so the check compares with the number of the last packet
      have hnot : ¬ s.controller.firstSend := fun hfirst => by
        rw [h.firstSend hfirst] at hr
        cases hr
      rw [Follows, h.newest r hr]
      simpa [nextSequence, hnot, sentRecord] using hnext
    newest := by simp [afterSend, sentRecord]
    firstSend := fun hfirst => by cases hfirst
    transit := by
      obtain ⟨older, holder⟩ := (evictOld_suffix txTimestampUs _).trans h.transit
      refine ⟨older, ?_⟩
      rw [afterSend, ← holder, List.append_assoc] }

theorem prune (h : Inv done rest s) {tarSeq : UInt32} {c : SenderBasedController}
    (hprune : s.controller.prunTransitHistory tarSeq = some c)
    (hleft : s.sent.drop s.attributed <:+ c.packetTransitHistory) :
    Inv done rest { s with controller := c } := by
  rw [h.sent, h.attributed, List.drop_left] at hleft
  obtain ⟨kept, hkept, heq⟩ := h.history
  simp only [prunTransitHistory] at hprune
  split at hprune
  case h_1 => cases hprune
  case h_2 r records hdrop =>
    cases hprune
    have hsuffix : r :: records <:+ s.controller.packetTransitHistory :=
      hdrop ▸ List.dropWhile_suffix _
    obtain ⟨kept', hkept'⟩ := hleft
    -- what is left starts within `kept`, because the records in transit must stay
    have hkept'' : kept' <:+ kept := by
      obtain ⟨gone, hgone⟩ := hsuffix
      have hcancel : gone ++ kept' ++ rest = kept ++ rest := by
        rw [List.append_assoc, hkept', ← heq]
        exact hgone
      exact ⟨gone, List.append_cancel_right hcancel⟩
    exact { h with
      history := ⟨kept', hkept''.trans hkept, hkept'.symm⟩
      distinct := h.distinct.sublist hsuffix.sublist }

/-- A packet in transit is counted by its sequence, from the packet sent last. -/
theorem between_eq (h : Inv done rest s) {skipped newer : List PacketRecord} {packet : PacketRecord}
    (hrest : rest = skipped ++ packet :: newer) :
    s.upTo packet.sequence = (done ++ (skipped ++ [packet])).length ∧
      s.between packet.sequence = skipped ++ [packet] := by
  have hsent : s.sent = done ++ (skipped ++ [packet]) ++ newer := by
    rw [h.sent, hrest]
    simp
  have hlength : newer.length < 65536 := by
    obtain ⟨kept, -, heq⟩ := h.history
    have hle := (heq ▸ h.distinct).length_le
    rw [hrest] at hle
    simp only [List.length_append, List.length_cons] at hle
    omega
  have hbehind : (packet :: newer).IsChain Follows := by
    have hchain := h.chain
    rw [hsent, ← List.append_assoc, List.append_assoc, List.singleton_append] at hchain
    exact hchain.right_of_append
  have hnewest : s.controller.lastSequence = packet.sequence + .ofNat newer.length := by
    rw [← getLast_sequence_eq hbehind]
    refine (h.newest _ ?_).symm
    rw [hsent, ← List.append_assoc, List.append_assoc, List.singleton_append,
      List.getLast?_append, List.getLast?_eq_some_getLast (List.cons_ne_nil _ _)]
    rfl
  -- the distance in sequence numbers is the number of packets sent since, below a circle
  have hgap : (s.controller.lastSequence - packet.sequence).toNat = newer.length := by
    rw [hnewest, UInt16.add_comm, UInt16.add_sub_cancel, UInt16.toNat_ofNat']
    omega
  have hupTo : s.upTo packet.sequence = (done ++ (skipped ++ [packet])).length := by
    rw [upTo, hgap, hsent, List.length_append, Nat.add_sub_cancel]
  refine ⟨hupTo, ?_⟩
  rw [between, hupTo, hsent, List.take_left, h.attributed, List.drop_left]

/-- The size that a recorded packet gets, as long as the numbers allow it. -/
theorem toNat_size (h : Inv done rest s) (nowUs : UInt64) {skipped newer : List PacketRecord}
    {packet : PacketRecord} (hrest : rest = skipped ++ packet :: newer)
    (hfits : s.bytesDue nowUs packet.sequence < 2 ^ 32)
    (hnumbers : if s.attributed = 0 then
        ∀ first ∈ s.sent.head?, 0 < first.sequence ∧ first.sequence ≤ packet.sequence ∧
          packet.sequence ≤ s.controller.lastSequence
      else s.controller.lastRecvSequence < packet.sequence ∨
        s.bytesDue nowUs packet.sequence = 0) :
    (s.controller.intvlPseudoSize nowUs packet.sequence).toNat
      = s.bytesDue nowUs packet.sequence := by
  have hdue : s.bytesDue nowUs packet.sequence
      = recordedBytes ((skipped ++ [packet]).filter (fresh nowUs)) := by
    rw [bytesDue, (h.between_eq hrest).2]
  obtain ⟨kept, hkept, heq⟩ := h.history
  have hhistory : s.controller.packetTransitHistory = kept ++ (skipped ++ [packet]) ++ newer := by
    rw [heq, hrest]
    simp
  rw [hdue] at hfits hnumbers ⊢
  have hchain := h.chain
  rcases h.recorded with ⟨rfl, hlast⟩ | ⟨init, l, rfl, hlast⟩
  · -- nothing was recorded yet, so the interval starts with the first packet of all
    obtain rfl := List.suffix_nil.mp hkept
    have hzero : s.attributed = 0 := h.attributed
    have hsent : s.sent = s.controller.packetTransitHistory := by rw [heq, h.sent]
    obtain ⟨first, hfirst⟩ : ∃ first, (skipped ++ [packet]).head? = some first :=
      Option.isSome_iff_exists.mp (by simp)
    have hhead : s.sent.head? = some first := by
      rw [hsent, hhistory, List.nil_append, List.head?_append, hfirst]
      rfl
    rw [if_pos hzero] at hnumbers
    obtain ⟨hpos, hle, hnewest⟩ := hnumbers first hhead
    rw [size_first nowUs hhistory h.distinct (hsent ▸ hchain) hfirst hlast hpos hle fun r hr => ?_]
    · exact Nat.mod_eq_of_lt hfits
    · rw [h.newest r ?_]
      · exact hnewest
      · rw [hsent, hhistory, List.nil_append, List.getLast?_append, Option.mem_def.mp hr]
        rfl
  · -- the interval starts behind `l`, the packet recorded last
    have hpos : s.attributed ≠ 0 := by
      rw [h.attributed, List.length_append, List.length_singleton]
      exact Nat.succ_ne_zero _
    rw [if_neg hpos, hlast] at hnumbers
    by_cases hlt : l.sequence < packet.sequence
    · have hbehind : (l :: (skipped ++ [packet])).IsChain Follows := by
        rw [h.sent, hrest, List.append_assoc, List.singleton_append] at hchain
        have hrecent := hchain.right_of_append
        rw [List.append_cons, ← List.cons_append] at hrecent
        exact hrecent.left_of_append
      rw [size_behind nowUs hhistory h.distinct hbehind hlast hlt]
      exact Nat.mod_eq_of_lt hfits
    · -- a wrap in between: the code finds nothing, which is right only if nothing is due
      rw [hnumbers.resolve_left hlt, intvlPseudoSize_of_le nowUs (hlast ▸ hlt)]
      rfl

theorem recordedBytes_filter_le (p : PacketRecord → Bool) (rs : List PacketRecord) :
    recordedBytes (rs.filter p) ≤ recordedBytes rs :=
  List.Sublist.sum_le_sum (List.filter_sublist.map _) fun _ _ => Nat.zero_le _

theorem feedback (h : Inv done rest s) {nowUs rxTimestampUs : UInt64} {sequence : UInt16}
    {c : SenderBasedController} {ok : Bool}
    (hfeedback : s.controller.processFeedback nowUs sequence rxTimestampUs = some (ok, c))
    (hnumbers : s.InNumbers (.call (.processFeedback nowUs sequence rxTimestampUs))) :
    ∃ done' rest' s', s.step (.call (.processFeedback nowUs sequence rxTimestampUs)) = some s' ∧
      Inv done' rest' s' := by
  have hstep : s.controller.step (.call (.processFeedback nowUs sequence rxTimestampUs))
      = some c := by
    simp only [SenderBasedController.step, call, hfeedback, Option.map_some, Prod.map, id]
  obtain ⟨hsends, hignored | ⟨packet, rfl, hrecorded⟩⟩ := processFeedback_cases hfeedback
  · -- the report is ignored, and no packet changes sides
    refine ⟨done, rest, { s with controller := c }, ?_,
      h.of_same hsends hignored.inTransit hignored.lastRecvSequence⟩
    have hnothing : c.recvHistory.drop s.controller.recvHistory.length = [] := by
      rw [hignored.recvHistory, List.drop_length]
    simp only [step, hstep, Option.map_some, hnothing]
  · -- the packet and those skipped before it move from `rest` to `done`
    obtain ⟨skipped, hskipped⟩ := hrecorded.inTransit.trans h.transit
    have hrest : rest = skipped ++ packet :: c.inTransitPackets := hskipped.symm
    have hone : c.recvHistory.drop s.controller.recvHistory.length
        = [s.controller.joined nowUs rxTimestampUs packet] := by
      rw [hrecorded.recvHistory, List.drop_left]
    obtain ⟨hfits, hrange⟩ := hnumbers hrecorded.joins
    have hsize := h.toNat_size nowUs hrest hfits hrange
    obtain ⟨hupTo, hbetween⟩ := h.between_eq hrest
    refine ⟨done ++ (skipped ++ [packet]), c.inTransitPackets,
      { s with
        controller := c
        attributed := s.upTo packet.sequence
        stored := s.stored ++ [(s.controller.joined nowUs rxTimestampUs packet).size]
        due := s.due ++ [s.bytesDue nowUs packet.sequence] }, ?_, ?_⟩
    · simp only [step, hstep, Option.map_some, hone]
    obtain ⟨kept, hkept, heq⟩ := h.history
    have hdue : s.bytesDue nowUs packet.sequence ≤ recordedBytes (skipped ++ [packet]) := by
      rw [bytesDue, hbetween]
      exact recordedBytes_filter_le _ _
    refine {
      sent := ?_
      attributed := hupTo
      history := ?_
      distinct := ?_
      chain := h.chain
      newest := ?_
      firstSend := ?_
      transit := List.suffix_refl _
      recorded := .inr ⟨done ++ skipped, packet, by rw [List.append_assoc],
        hrecorded.lastRecvSequence⟩
      stored := ?_
      bytes := ?_ }
    · rw [h.sent, hrest]
      simp
    · refine ⟨kept ++ (skipped ++ [packet]), ?_, ?_⟩
      · obtain ⟨gone, rfl⟩ := hkept
        exact ⟨gone, by rw [List.append_assoc]⟩
      · rw [hsends.transitHistory, heq, hrest]
        simp
    · rw [hsends.transitHistory]
      exact h.distinct
    · rw [hsends.lastSequence]
      exact h.newest
    · rw [hsends.firstSend]
      exact h.firstSend
    · rw [List.map_append, h.stored, List.map_singleton]
      exact congrArg (fun n => s.due ++ [n]) hsize
    · rw [List.map_append, List.sum_append, List.map_singleton, List.sum_singleton,
        recordedBytes_append]
      exact Nat.add_le_add h.bytes (hsize.le.trans hdue)

/-- One call that meets the condition. -/
theorem step (h : Inv done rest s) {e : Event} (hadm : s.Admissible e) (hnumbers : s.InNumbers e)
    {s' : Attribution} (hstep : s.step e = some s') : ∃ done' rest', Inv done' rest' s' := by
  obtain ⟨c, hc, rfl⟩ := Option.map_eq_some_iff.mp hstep
  cases e with
  | call q =>
      cases q with
      | processSendPacket txTimestampUs sequence size =>
          obtain ⟨hfree, rfl⟩ := (step_send_eq_some hadm).mp hc
          exact ⟨_, _, h.send hadm hfree⟩
      | processFeedback nowUs sequence rxTimestampUs =>
          obtain ⟨⟨answer, d⟩, hcall, rfl⟩ := Option.map_eq_some_iff.mp hc
          obtain ⟨⟨ok, e⟩, hfeedback, heq⟩ := Option.map_eq_some_iff.mp hcall
          cases heq
          obtain ⟨done', rest', t, ht, hinv⟩ := h.feedback hfeedback hnumbers
          cases hstep.symm.trans ht
          exact ⟨done', rest', hinv⟩
      | getPacketTxTimestamp sequence => cases hc; exact ⟨done, rest, h⟩
      | getPacketSize sequence => cases hc; exact ⟨done, rest, h⟩
      | getCurrentQdelay => cases hc; exact ⟨done, rest, h⟩
      | getPktLossInfo =>
          obtain ⟨⟨answer, d⟩, hcall, rfl⟩ := Option.map_eq_some_iff.mp hc
          obtain ⟨info, -, heq⟩ := Option.map_eq_some_iff.mp hcall
          cases heq
          exact ⟨done, rest, h⟩
      | getCurrentRecvRate =>
          obtain ⟨⟨answer, d⟩, hcall, rfl⟩ := Option.map_eq_some_iff.mp hc
          obtain ⟨⟨rate, e⟩, hrate, heq⟩ := Option.map_eq_some_iff.mp hcall
          obtain ⟨⟨rate', popped⟩, -, heq'⟩ := Option.map_eq_some_iff.mp hrate
          cases heq
          cases heq'
          exact ⟨done, rest, h.of_same ⟨rfl, rfl, rfl⟩ (List.suffix_refl _) rfl⟩
  | updateLossRate lossQ8 =>
      cases hc
      exact ⟨done, rest, h.of_same ⟨rfl, rfl, rfl⟩ (List.suffix_refl _) rfl⟩
  | prunTransitHistory tarSeq => exact ⟨done, rest, h.prune hc (hadm c hc)⟩
  | setHistoryLength lenUs =>
      cases hc
      exact ⟨done, rest, h.of_same ⟨rfl, rfl, rfl⟩ (List.suffix_refl _) rfl⟩
  | reset => exact hadm.elim

end Inv

/-- In every run in which the packets recorded meet the condition, each of them is recorded with
the bytes sent since the one before it, and so no bytes are recorded twice. -/
theorem sharesOut_of_inNumbers {es : List Event} (hadm : Run.Each step Admissible {} es)
    (hnumbers : Run.Each step InNumbers {} es) : Run.Always step SharesOut {} es := by
  have hinv : Run.Always step (fun s => ∃ done rest, Inv done rest s) {} es := by
    refine (hadm.and hnumbers).always (fun s e s' hs he hstep => ?_) ⟨[], [], .new⟩
    obtain ⟨done, rest, h⟩ := hs
    exact h.step he.1 he.2 hstep
  exact hinv.mono fun s ⟨_, _, h⟩ => h.sharesOut

/-- Three packets, of which the first and the last are reported. -/
theorem sharesOut_of_inNumbers_threePackets :
    Run.Always step SharesOut {} [.call (.processSendPacket 1000 7 1200),
      .call (.processFeedback 9000 7 8000), .call (.processSendPacket 10000 8 1300),
      .call (.processSendPacket 11000 9 1400), .call (.processFeedback 19000 9 18000)] :=
  sharesOut_of_inNumbers (by decide +kernel) (by decide +kernel)

/-- Packet 0 follows packet 65535. No bytes are stored for it. -/
theorem wrapped_packet_not_attributed : ∃ s,
    Run.exec step {} [.call (.processSendPacket 1000 65535 1200),
      .call (.processFeedback 9000 65535 8000), .call (.processSendPacket 10000 0 1300),
      .call (.processFeedback 19000 0 18000)] = some s ∧
    Run.Each step Admissible {} [.call (.processSendPacket 1000 65535 1200),
      .call (.processFeedback 9000 65535 8000), .call (.processSendPacket 10000 0 1300),
      .call (.processFeedback 19000 0 18000)] ∧
    s.stored = [1200, 0] ∧ s.due = [1200, 1300] ∧ ¬ s.SharesOut := by
  decide +kernel

end Attribution

end Zhuge
