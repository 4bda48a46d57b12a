-- SUMMARY: Rejected packets are counted, and the transit history is pruned by plain numbers.
import Zhuge.ControllerInvariant

/-!
# The transit history

A sender numbers its packets consecutively. The controller counts along, rejected packets
included, and keeps a record of every accepted packet until it is pruned.
-/

namespace Zhuge.SenderBasedController

/-- A sender that goes on counting from `first`. -/
def sends (first : UInt16) : List (UInt64 × UInt32) → List Event
  | [] => []
  | (txTimestampUs, size) :: packets =>
    .call (.processSendPacket txTimestampUs first size) :: sends (first + 1) packets

theorem add_one_ne (a : UInt16) : a + 1 ≠ a := by
  intro h
  have hone : a + 1 - a = 0 := by rw [h, UInt16.sub_self]
  rw [UInt16.add_comm, UInt16.add_sub_cancel] at hone
  exact absurd hone (by decide)

/-! ## Rejected packets -/

/-- What a packet leaves behind that is answered with `false`. -/
def afterReject (c : SenderBasedController) : SenderBasedController :=
  { c with lastSequence := c.lastSequence + 1 }

theorem processSendPacket_eq_false {txTimestampUs : UInt64} {sequence : UInt16} {size : UInt32}
    {c c' : SenderBasedController} :
    c.processSendPacket txTimestampUs sequence size = some (false, c') ↔
      c.firstSend = false ∧ sequence ≠ c.lastSequence + 1 ∧ c' = c.afterReject := by
  cases hfirst : c.firstSend with
  | true => simp [processSendPacket, nextSequence, hfirst]
  | false =>
      simp only [processSendPacket, nextSequence, hfirst, Bool.false_eq_true, if_false, true_and]
      split
      case isTrue hne =>
        simp only [Option.some.injEq, Prod.mk.injEq, true_and, hne, ne_eq, not_false_eq_true,
          afterReject]
        rw [eq_comm, ← hfirst]
      case isFalse heq => simp [heq]

/-- A sender that is one behind the controller stays one behind, and no packet is recorded. -/
theorem exec_sends_behind {c : SenderBasedController} (hfirst : c.firstSend = false)
    (packets : List (UInt64 × UInt32)) :
    Run.exec step c (sends c.lastSequence packets)
      = some { c with lastSequence := c.lastSequence + .ofNat packets.length } := by
  induction packets generalizing c with
  | nil => simp [sends]
  | cons packet packets ih =>
      have hreject : c.processSendPacket packet.1 c.lastSequence packet.2
          = some (false, c.afterReject) :=
        processSendPacket_eq_false.mpr ⟨hfirst, (add_one_ne _).symm, rfl⟩
      have hstep : step c (.call (.processSendPacket packet.1 c.lastSequence packet.2))
          = some c.afterReject := by
        simp only [step, call, hreject, Option.map_some, Prod.map, id]
      have hrest := ih (c := c.afterReject) hfirst
      rw [sends, Run.exec, hstep, Option.bind_some]
      apply hrest.trans
      simp only [afterReject, List.length_cons, UInt16.ofNat_add, UInt16.add_assoc,
        UInt16.add_comm 1]
      rfl

/-- A rejected packet changes the state, whatever the state is. A sender that then goes on
counting from its last accepted packet has every packet rejected, and if there are packets in
transit, the assertion fails at the next feedback. -/
theorem reject_changes_state {txTimestampUs : UInt64} {sequence : UInt16} {size : UInt32}
    {c c' : SenderBasedController}
    (hreject : c.processSendPacket txTimestampUs sequence size = some (false, c')) :
    c' ≠ c ∧
      (∀ packets, Run.exec step c' (sends (c.lastSequence + 1) packets)
        = some { c' with lastSequence := c'.lastSequence + .ofNat packets.length }) ∧
      ∀ newest ∈ c.inTransitPackets.getLast?, newest.sequence = c.lastSequence →
        ∀ nowUs feedback rxTimestampUs, ¬ lessThan c'.lastSequence feedback →
          c'.processFeedback nowUs feedback rxTimestampUs = none := by
  obtain ⟨hfirst, -, rfl⟩ := processSendPacket_eq_false.mp hreject
  refine ⟨fun heq => ?_, fun packets => ?_, ?_⟩
  · exact add_one_ne c.lastSequence (congrArg lastSequence heq)
  · exact exec_sends_behind (c := c.afterReject) hfirst packets
  · intro newest hnewest hlast nowUs feedback rxTimestampUs hpast
    have hnewest' : c.afterReject.inTransitPackets.getLast? = some newest := hnewest
    have hne : newest.sequence ≠ c.afterReject.lastSequence := by
      rw [hlast]
      exact (add_one_ne _).symm
    rw [processFeedback, if_neg hpast]
    simp only [hnewest']
    exact if_pos hne

/-- The second packet of a sender comes with a wrong sequence. -/
theorem reject_changes_state_secondPacket :
    let c := afterSend 1000 5 1200 {}
    c.afterReject ≠ c ∧
      (∀ packets, Run.exec step c.afterReject (sends (c.lastSequence + 1) packets)
        = some { c.afterReject with
            lastSequence := c.afterReject.lastSequence + .ofNat packets.length }) ∧
      ∀ newest ∈ c.inTransitPackets.getLast?, newest.sequence = c.lastSequence →
        ∀ nowUs feedback rxTimestampUs, ¬ lessThan c.afterReject.lastSequence feedback →
          c.afterReject.processFeedback nowUs feedback rxTimestampUs = none :=
  have hreject : (afterSend 1000 5 1200 {}).processSendPacket 2000 9 1200
      = some (false, (afterSend 1000 5 1200 {}).afterReject) := rfl
  reject_changes_state hreject

/-- Packet 5 is accepted, packet 9 is rejected, and so is packet 6, which is next. The feedback
about packet 5 then fails. -/
theorem rejected_send_breaks_controller :
    Run.exec step {} [.call (.processSendPacket 1000 5 1200)] = some (afterSend 1000 5 1200 {}) ∧
      (afterSend 1000 5 1200 {}).processSendPacket 2000 9 1200
        = some (false, (afterSend 1000 5 1200 {}).afterReject) ∧
      (afterSend 1000 5 1200 {}).afterReject ≠ afterSend 1000 5 1200 {} ∧
      ((afterSend 1000 5 1200 {}).afterReject.processSendPacket 3000 6 1200).map Prod.fst
        = some false ∧
      (afterSend 1000 5 1200 {}).afterReject.processFeedback 4000 5 3500 = none := by
  decide

/-! ## Accepted packets -/

/-- A packet with the expected sequence is accepted, unless an old record has its sequence. -/
theorem step_send_eq_some {txTimestampUs : UInt64} {sequence : UInt16} {size : UInt32}
    {c c' : SenderBasedController} (hnext : sequence = c.nextSequence sequence) :
    step c (.call (.processSendPacket txTimestampUs sequence size)) = some c' ↔
      (∀ r ∈ c.packetTransitHistory, r.sequence ≠ sequence) ∧
        c' = c.afterSend txTimestampUs sequence size := by
  by_cases hfree : ∀ r ∈ c.packetTransitHistory, r.sequence ≠ sequence
  · simp only [step, call, processSendPacket_eq hnext hfree, Option.map_some, Prod.map, id,
      Option.some.injEq, and_iff_right hfree]
    exact eq_comm
  · have hused : ∃ r ∈ c.packetTransitHistory, r.sequence = sequence := by
      simpa using hfree
    have hnone : c.processSendPacket txTimestampUs sequence size = none := by
      simp only [processSendPacket, ← hnext, ne_eq, not_true_eq_false, if_false, recordSent,
        sentRecord, if_pos hused, Option.map_none]
    simp only [step, call, hnone, Option.map_none, hfree, false_and]
    exact iff_of_false (Option.some_ne_none c').symm id

/-- A run of consecutive packets leaves a record of each of them, in order. -/
theorem transitHistory_sends {first : UInt16} {packets : List (UInt64 × UInt32)}
    {c c' : SenderBasedController} (hchain : c.packetTransitHistory.IsChain Follows)
    (hlast : ∀ r ∈ c.packetTransitHistory.getLast?, first = r.sequence + 1)
    (hnext : first = c.nextSequence first)
    (hrun : Run.exec step c (sends first packets) = some c') :
    c'.packetTransitHistory.IsChain Follows ∧
      c'.packetTransitHistory.length = c.packetTransitHistory.length + packets.length := by
  induction packets generalizing first c with
  | nil =>
      cases hrun
      exact ⟨hchain, rfl⟩
  | cons packet packets ih =>
      obtain ⟨d, hstep, hrest⟩ := Run.exec_cons_eq_some.mp hrun
      obtain ⟨-, rfl⟩ := (step_send_eq_some hnext).mp hstep
      have hchain' : (c.afterSend packet.1 first packet.2).packetTransitHistory.IsChain
          Follows := by
        apply hchain.append (.singleton _)
        intro r hr s hs
        cases Option.mem_some_iff.mp hs
        exact hlast r hr
      obtain ⟨hchain'', hlength⟩ := ih hchain' (by simp [afterSend, sentRecord])
        (by simp [afterSend, nextSequence]) hrest
      refine ⟨hchain'', hlength.trans ?_⟩
      simp only [afterSend, List.length_append, List.length_cons, List.length_nil]
      omega

/-! ## Pruning -/

/-- Among consecutive records, fewer than half a circle of them, the ones before `target` have
lesser numbers as long as the first one does. -/
theorem toNat_lt_of_mem_older {older newer : List PacketRecord} {front target : PacketRecord}
    (hchain : (front :: older ++ target :: newer).IsChain Follows)
    (hlength : (front :: older).length < 65536) (hle : front.sequence ≤ target.sequence)
    {r : PacketRecord} (hr : r ∈ front :: older) : r.sequence < target.sequence := by
  have hpre : (front :: older).IsChain Follows := hchain.left_of_append
  have htarget : (front :: (older ++ [target])).IsChain Follows := by
    rw [List.append_cons, List.cons_append] at hchain
    exact hchain.left_of_append
  have hlast := getLast_sequence_eq htarget
  simp only [List.length_append, List.length_cons, List.length_nil, zero_add] at hlast hlength
  rw [List.getLast_cons (by simp), List.getLast_concat] at hlast
  obtain ⟨i, hi, heq⟩ := exists_sequence_eq hpre hr
  -- no number in between wraps, because that of the target does not
  rw [UInt16.lt_iff_toNat_lt, heq, hlast]
  rw [UInt16.le_iff_toNat_le, hlast] at hle
  rw [UInt16.toNat_add, UInt16.toNat_ofNat'] at hle ⊢
  rw [UInt16.toNat_add, UInt16.toNat_ofNat']
  have hfront := front.sequence.toNat_lt
  omega

theorem toUInt32_lt_iff {a b : UInt16} : a.toUInt32 < b.toUInt32 ↔ a < b := by
  simp only [UInt32.lt_iff_toNat_lt, UInt16.lt_iff_toNat_lt, UInt16.toNat_toUInt32]

/-- Pruning up to a record: it never runs out of records, and stops at this one if and only if
all before it have lesser numbers. -/
theorem prunTransitHistory_eq_iff {c : SenderBasedController} {older newer : List PacketRecord}
    {target : PacketRecord} (hsplit : c.packetTransitHistory = older ++ target :: newer) :
    (∃ c', c.prunTransitHistory target.sequence.toUInt32 = some c') ∧
      (c.prunTransitHistory target.sequence.toUInt32
          = some { c with packetTransitHistory := target :: newer } ↔
        ∀ r ∈ older, r.sequence < target.sequence) := by
  have htarget : decide (target.sequence.toUInt32 < target.sequence.toUInt32) = false :=
    decide_eq_false (UInt32.lt_irrefl _)
  simp only [prunTransitHistory, hsplit]
  constructor
  · -- the target itself is not less than its number, so the loop stops there at the latest
    cases hdrop : (older ++ target :: newer).dropWhile fun r =>
        r.sequence.toUInt32 < target.sequence.toUInt32 with
    | cons r rest => exact ⟨_, rfl⟩
    | nil =>
        have hlt := List.dropWhile_eq_nil_iff.mp hdrop target (by simp)
        exact absurd (of_decide_eq_true hlt) (UInt32.lt_irrefl _)
  · constructor
    · intro h r hr
      by_contra hge
      -- the first record that is not less stops the loop before the target
      have hsuffix : target :: newer <:+ (older ++ target :: newer) := List.suffix_append _ _
      have hlength : ((older ++ target :: newer).dropWhile fun r =>
          r.sequence.toUInt32 < target.sequence.toUInt32) = target :: newer := by
        split at h
        · cases h
        · next s rest hdrop =>
            rw [hdrop]
            exact congrArg packetTransitHistory (Option.some.inj h)
      have hall := List.takeWhile_append_dropWhile (p := fun r : PacketRecord =>
        r.sequence.toUInt32 < target.sequence.toUInt32) (l := older ++ target :: newer)
      rw [hlength] at hall
      have htaken := List.append_cancel_right hall
      rw [← htaken] at hr
      have hlt := List.mem_takeWhile_imp hr
      exact hge (toUInt32_lt_iff.mp (of_decide_eq_true hlt))
    · intro hless
      rw [List.dropWhile_append_of_pos fun r hr =>
        decide_eq_true (toUInt32_lt_iff.mpr (hless r hr)), List.dropWhile_cons_of_neg (by simp)]

/-- Pruning a history of consecutive packets up to one of them removes the packets before it,
and no other, if and only if the numbers do not wrap between the front and that packet. The
loop stops in any case. -/
theorem prune_removes_older_iff {first : UInt16} {packets : List (UInt64 × UInt32)}
    {c : SenderBasedController} (hlength : packets.length < 32768)
    (hrun : Run.exec step {} (sends first packets) = some c) {older newer : List PacketRecord}
    {target : PacketRecord} (hsplit : c.packetTransitHistory = older ++ target :: newer) :
    (∃ c', c.prunTransitHistory target.sequence.toUInt32 = some c') ∧
      (c.prunTransitHistory target.sequence.toUInt32
          = some { c with packetTransitHistory := target :: newer } ↔
        ∀ front ∈ c.packetTransitHistory.head?, front.sequence ≤ target.sequence) := by
  obtain ⟨hreturns, hiff⟩ := prunTransitHistory_eq_iff hsplit
  obtain ⟨hchain, hcount⟩ := transitHistory_sends (c := {}) .nil nofun rfl hrun
  refine ⟨hreturns, hiff.trans ?_⟩
  rw [hsplit] at hchain hcount ⊢
  cases older with
  | nil => simp
  | cons front older =>
      simp only [List.cons_append, List.head?_cons, Option.mem_some_iff, forall_eq']
      constructor
      · exact fun hless => UInt16.le_of_lt (hless front List.mem_cons_self)
      · intro hle r hr
        have hshort : (front :: older).length < 65536 := by
          rw [List.length_append] at hcount
          simp only [List.length_nil, zero_add] at hcount
          omega
        exact toNat_lt_of_mem_older hchain hshort hle hr

/-- Packets 65534 and 65535, pruned up to the second. -/
theorem prune_removes_older_iff_twoPackets :
    (∃ c', (afterSend 20 65535 1200 (afterSend 10 65534 1200 {})).prunTransitHistory 65535
        = some c') ∧
      ((afterSend 20 65535 1200 (afterSend 10 65534 1200 {})).prunTransitHistory 65535
          = some { afterSend 20 65535 1200 (afterSend 10 65534 1200 {}) with
              packetTransitHistory := [sentRecord 20 65535 1200] } ↔
        ∀ front ∈ (afterSend 20 65535 1200
          (afterSend 10 65534 1200 {})).packetTransitHistory.head?,
          front.sequence ≤ (sentRecord 20 65535 1200).sequence) :=
  have hrun : Run.exec step {} (sends 65534 [(10, 1200), (20, 1200)])
      = some (afterSend 20 65535 1200 (afterSend 10 65534 1200 {})) := by decide
  have hsplit : (afterSend 20 65535 1200 (afterSend 10 65534 1200 {})).packetTransitHistory
      = [sentRecord 10 65534 1200] ++ sentRecord 20 65535 1200 :: [] := rfl
  prune_removes_older_iff (by decide) hrun hsplit

/-- Packets 65535 and 0: pruning up to the second removes nothing. -/
theorem prune_keeps_older :
    Run.exec step {} (sends 65535 [(10, 1200), (20, 1200)])
        = some (afterSend 20 0 1200 (afterSend 10 65535 1200 {})) ∧
      (afterSend 20 0 1200 (afterSend 10 65535 1200 {})).packetTransitHistory
        = [sentRecord 10 65535 1200, sentRecord 20 0 1200] ∧
      (afterSend 20 0 1200 (afterSend 10 65535 1200 {})).prunTransitHistory 0
        = some (afterSend 20 0 1200 (afterSend 10 65535 1200 {})) := by
  decide

end Zhuge.SenderBasedController
