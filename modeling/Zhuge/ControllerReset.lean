-- SUMMARY: When `reset` makes a controller as good as new.
import Zhuge.Lib.Answers
import Zhuge.SenderBasedController

/-!
# Resetting a controller

`reset` is documented to bring back the state of a fresh controller, and keeps six fields.
The loss counters answer no call. The transit history does, and it tells whether the other
two were ever written.
-/

namespace Zhuge.SenderBasedController

/-! ## The loss counters answer no call -/

section Counters

variable (lost : UInt32) (fraction : UInt8) (counter : Int)

def setCounters (c : SenderBasedController) : SenderBasedController :=
  { c with lost := lost, lastFractionLoss := fraction, lossCounter := counter }

theorem clearObsolete_setCounters (packet : PacketRecord) (c : SenderBasedController) :
    (c.setCounters lost fraction counter).clearObsolete packet
      = (c.clearObsolete packet).map (setCounters lost fraction counter) := by
  simp only [clearObsolete, setCounters]
  split
  · rfl
  · split_ifs <;> rfl

theorem measureDelay_setCounters (nowUs rxTimestampUs : UInt64) (packet : PacketRecord)
    (c : SenderBasedController) :
    (c.setCounters lost fraction counter).measureDelay nowUs rxTimestampUs packet
      = (c.measureDelay nowUs rxTimestampUs packet).map id
          (setCounters lost fraction counter) := rfl

theorem updateInterLossData_setCounters (packet : PacketRecord) (c : SenderBasedController) :
    (c.setCounters lost fraction counter).updateInterLossData packet
      = (c.updateInterLossData packet).map (setCounters lost fraction counter) := by
  simp only [updateInterLossData, Option.map_map]
  rfl

theorem recordReceived_setCounters (nowUs : UInt64) (packet : PacketRecord)
    (c : SenderBasedController) :
    (c.setCounters lost fraction counter).recordReceived nowUs packet
      = (c.recordReceived nowUs packet).map (setCounters lost fraction counter) := by
  simp only [recordReceived, Option.map_map]
  rfl

theorem acknowledge_setCounters (nowUs rxTimestampUs : UInt64) (packet : PacketRecord)
    (c : SenderBasedController) :
    (c.setCounters lost fraction counter).acknowledge nowUs rxTimestampUs packet
      = (c.acknowledge nowUs rxTimestampUs packet).map
          (Prod.map id (setCounters lost fraction counter)) := by
  simp only [acknowledge, clearObsolete_setCounters]
  cases c.clearObsolete packet with
  | none => rfl
  | some c =>
      simp only [Option.map_some, measureDelay_setCounters]
      split_ifs
      · rfl
      · obtain ⟨packet, c⟩ := c.measureDelay nowUs rxTimestampUs packet
        simp only [Prod.map_apply, updateInterLossData_setCounters, id_eq]
        cases c.updateInterLossData packet with
        | none => rfl
        | some c =>
            simp only [Option.map_some, Option.bind_some, recordReceived_setCounters,
              Option.map_map]
            rfl

end Counters

/-- The controller without its loss counters. -/
def withoutCounters : SenderBasedController → SenderBasedController := setCounters 0 0 0

@[simp] theorem withoutCounters_setCounters (lost : UInt32) (fraction : UInt8) (counter : Int)
    (c : SenderBasedController) :
    (c.setCounters lost fraction counter).withoutCounters = c.withoutCounters := rfl

/-- Two controllers that differ in their loss counters only. -/
theorem withoutCounters_eq_iff {c d : SenderBasedController} :
    c.withoutCounters = d.withoutCounters ↔
      ∃ lost fraction counter, d = c.setCounters lost fraction counter := by
  constructor
  · intro h
    refine ⟨d.lost, d.lastFractionLoss, d.lossCounter, ?_⟩
    cases c; cases d
    simp only [withoutCounters, setCounters, SenderBasedController.mk.injEq] at h
    simp [setCounters, h]
  · rintro ⟨lost, fraction, counter, rfl⟩
    rfl

/-- Feedback overwrites the counters from the number of stale packets, and reads them
nowhere. -/
theorem processFeedback_setCounters (nowUs : UInt64) (sequence : UInt16)
    (rxTimestampUs : UInt64) (lost : UInt32) (fraction : UInt8) (counter : Int)
    (c : SenderBasedController) :
    ((c.setCounters lost fraction counter).processFeedback nowUs sequence rxTimestampUs).map
        (Prod.map id withoutCounters)
      = (c.processFeedback nowUs sequence rxTimestampUs).map (Prod.map id withoutCounters) := by
  have hstale : ∃ lost' fraction' counter',
      (c.setCounters lost fraction counter).dropStale sequence
        = (c.dropStale sequence).setCounters lost' fraction' counter' :=
    ⟨_, fraction, _, rfl⟩
  obtain ⟨lost', fraction', counter', hstale⟩ := hstale
  simp only [processFeedback, hstale]
  have hlast : (c.setCounters lost fraction counter).lastSequence = c.lastSequence := rfl
  have htransit : (c.setCounters lost fraction counter).inTransitPackets
      = c.inTransitPackets := rfl
  have hrest : ((c.dropStale sequence).setCounters lost' fraction' counter').inTransitPackets
      = (c.dropStale sequence).inTransitPackets := rfl
  rw [hlast, htransit, hrest]
  split_ifs
  · rfl
  · cases c.inTransitPackets.getLast? with
    | none => rfl
    | some newest =>
        simp only
        split_ifs
        · rfl
        · cases (c.dropStale sequence).inTransitPackets with
          | nil => rfl
          | cons packet rest =>
              simp only
              split_ifs
              · rfl
              · rfl
              · have hack := acknowledge_setCounters lost' fraction' counter' nowUs
                  rxTimestampUs packet { c.dropStale sequence with inTransitPackets := rest }
                simp only [setCounters] at hack ⊢
                rw [hack, Option.map_map, Prod.map_comp_map]
                rfl

theorem processSendPacket_setCounters (txTimestampUs : UInt64) (sequence : UInt16)
    (size : UInt32) (lost : UInt32) (fraction : UInt8) (counter : Int)
    (c : SenderBasedController) :
    (c.setCounters lost fraction counter).processSendPacket txTimestampUs sequence size
      = (c.processSendPacket txTimestampUs sequence size).map
          (Prod.map id (setCounters lost fraction counter)) := by
  have hnext : (c.setCounters lost fraction counter).nextSequence sequence
      = c.nextSequence sequence := rfl
  simp only [processSendPacket, hnext]
  split_ifs
  · rfl
  · rw [Option.map_map]
    rfl

theorem getCurrentRecvRate_setCounters (lost : UInt32) (fraction : UInt8) (counter : Int)
    (c : SenderBasedController) :
    (c.setCounters lost fraction counter).getCurrentRecvRate
      = c.getCurrentRecvRate.map (Prod.map id (setCounters lost fraction counter)) := by
  simp only [getCurrentRecvRate, Option.map_map]
  rfl

/-- No answer depends on the loss counters. -/
theorem call_withoutCounters (c d : SenderBasedController) (q : Call)
    (h : c.withoutCounters = d.withoutCounters) :
    (c.call q).map (Prod.map id withoutCounters)
      = (d.call q).map (Prod.map id withoutCounters) := by
  obtain ⟨lost, fraction, counter, rfl⟩ := withoutCounters_eq_iff.mp h
  cases q with
  | processSendPacket txTimestampUs sequence size =>
      simp only [call, processSendPacket_setCounters, Option.map_map, Prod.map_comp_map]
      rfl
  | processFeedback nowUs sequence rxTimestampUs =>
      have hfb := processFeedback_setCounters nowUs sequence rxTimestampUs lost fraction
        counter c
      have hmap := congrArg (Option.map (Prod.map Answer.accepted id)) hfb
      simp only [call, Option.map_map, Prod.map_comp_map, Function.id_comp,
        Function.comp_id] at hmap ⊢
      exact hmap.symm
  | getCurrentRecvRate =>
      simp only [call, getCurrentRecvRate_setCounters, Option.map_map, Prod.map_comp_map]
      rfl
  | getPktLossInfo =>
      simp only [call, Option.map_map]
      rfl
  | _ => rfl

/-! ## Controllers that never sent -/

/-- A controller without a record of a sent packet has no other record either. -/
structure Untouched (c : SenderBasedController) : Prop where
  inTransitPackets : c.inTransitPackets = []
  packetHistory : c.packetHistory = []
  recvHistory : c.recvHistory = []
  lastRecvSequence : c.lastRecvSequence = 0

/-- The invariant of all reachable states. -/
def UntouchedUntilSent (c : SenderBasedController) : Prop :=
  c.packetTransitHistory = [] → c.Untouched

theorem processSendPacket_untouched {txTimestampUs : UInt64} {sequence : UInt16}
    {size : UInt32} {c c' : SenderBasedController} {ok : Bool} (h : c.UntouchedUntilSent)
    (hsend : c.processSendPacket txTimestampUs sequence size = some (ok, c')) :
    c'.UntouchedUntilSent := by
  intro hempty
  simp only [processSendPacket] at hsend
  split at hsend
  · cases hsend
    obtain ⟨htransit, hpacket, hrecv, hlast⟩ := h hempty
    exact ⟨htransit, hpacket, hrecv, hlast⟩
  · obtain ⟨history, hrecord, heq⟩ := Option.map_eq_some_iff.mp hsend
    cases heq
    simp only [recordSent] at hrecord
    split at hrecord
    · cases hrecord
    · cases hrecord
      exact absurd hempty (by simp)

/-- Without packets in transit feedback changes nothing. -/
theorem processFeedback_untouched {nowUs : UInt64} {sequence : UInt16}
    {rxTimestampUs : UInt64} {c : SenderBasedController} (h : c.Untouched) :
    ∃ ok, c.processFeedback nowUs sequence rxTimestampUs = some (ok, c) := by
  simp only [processFeedback, h.inTransitPackets, List.getLast?_nil]
  split_ifs
  · exact ⟨_, rfl⟩
  · exact ⟨_, rfl⟩

theorem prunTransitHistory_ne_nil {tarSeq : UInt32} {c c' : SenderBasedController}
    (h : c.prunTransitHistory tarSeq = some c') : c'.packetTransitHistory ≠ [] := by
  simp only [prunTransitHistory] at h
  split at h
  · cases h
  · cases h
    exact List.cons_ne_nil _ _

theorem call_untouched {q : Call} {a : Answer} {c c' : SenderBasedController}
    (h : c.UntouchedUntilSent) (hcall : c.call q = some (a, c')) : c'.UntouchedUntilSent := by
  cases q with
  | processSendPacket txTimestampUs sequence size =>
      obtain ⟨⟨ok, d⟩, hsend, heq⟩ := Option.map_eq_some_iff.mp hcall
      cases heq
      exact processSendPacket_untouched h hsend
  | processFeedback nowUs sequence rxTimestampUs =>
      obtain ⟨⟨ok, d⟩, hfb, heq⟩ := Option.map_eq_some_iff.mp hcall
      cases heq
      intro hempty
      have huntouched := h ((processFeedback_transitHistory hfb).symm.trans hempty)
      obtain ⟨ok', hsame⟩ : ∃ ok', c.processFeedback nowUs sequence rxTimestampUs
          = some (ok', c) := processFeedback_untouched huntouched
      cases hsame.symm.trans hfb
      exact huntouched
  | getCurrentRecvRate =>
      obtain ⟨⟨rate, d⟩, hrate, heq⟩ := Option.map_eq_some_iff.mp hcall
      cases heq
      obtain ⟨⟨rate', popped⟩, hrecv, heq'⟩ := Option.map_eq_some_iff.mp hrate
      cases heq'
      intro hempty
      have huntouched := h hempty
      exact { huntouched with recvHistory := by simp [huntouched.recvHistory] }
  | getPktLossInfo =>
      obtain ⟨info, -, heq⟩ := Option.map_eq_some_iff.mp hcall
      cases heq
      exact h
  | _ =>
      cases hcall
      exact h

theorem step_untouched (c : SenderBasedController) (e : Event) (c' : SenderBasedController)
    (h : c.UntouchedUntilSent) (hstep : c.step e = some c') : c'.UntouchedUntilSent := by
  cases e with
  | call q =>
      obtain ⟨⟨a, d⟩, hcall, heq⟩ := Option.map_eq_some_iff.mp hstep
      cases heq
      exact call_untouched h hcall
  | updateLossRate lossQ8 =>
      cases hstep
      exact fun hempty =>
        have huntouched := h hempty
        ⟨huntouched.1, huntouched.2, huntouched.3, huntouched.4⟩
  | prunTransitHistory tarSeq =>
      exact fun hempty => absurd hempty (prunTransitHistory_ne_nil hstep)
  | setHistoryLength lenUs =>
      cases hstep
      exact fun hempty =>
        have huntouched := h hempty
        ⟨huntouched.1, huntouched.2, huntouched.3, huntouched.4⟩
  | reset =>
      cases hstep
      exact fun hempty =>
        have huntouched := h hempty
        ⟨rfl, huntouched.packetHistory, rfl, huntouched.lastRecvSequence⟩

/-! ## What reset leaves behind -/

/-- As long as nothing was sent, `reset` restores everything but the loss counters. -/
theorem reset_withoutCounters {c : SenderBasedController} (h : c.Untouched)
    (hempty : c.packetTransitHistory = []) :
    c.reset.withoutCounters = withoutCounters {} := by
  simp only [reset, withoutCounters, setCounters, hempty, h.packetHistory, h.lastRecvSequence]

/-- The size of a packet that was sent before the reset is still known after it. -/
theorem reset_not_same {c : SenderBasedController} {r : PacketRecord}
    (hmem : r ∈ c.packetTransitHistory) : ¬ Answers.Same call c.reset {} := by
  intro hsame
  have hanswer := hsame.step_eq (.getPacketSize r.sequence)
  obtain ⟨found, hfound⟩ : ∃ found,
      c.packetTransitHistory.find? (·.sequence = r.sequence) = some found :=
    Option.isSome_iff_exists.mp (List.find?_isSome.mpr ⟨r, hmem, by simp⟩)
  have hsize : (c.reset.call (.getPacketSize r.sequence)).map Prod.fst
      = some (.value found.size.toUInt64) := by
    simp [call, getPacketSize, reset, hfound]
  have hnew : (call {} (.getPacketSize r.sequence)).map Prod.fst = some (.value (-1)) := rfl
  rw [hsize, hnew, Option.some_inj, Answer.value.injEq] at hanswer
  have htoNat := congrArg UInt64.toNat hanswer
  rw [UInt32.toNat_toUInt64] at htoNat
  have hlt := found.size.toNat_lt
  rw [htoNat] at hlt
  exact absurd hlt (by decide)

/-- After a reset the controller cannot be told from a new one exactly when no packet was
ever accepted for sending. -/
theorem reset_same_iff_nothingSent {es : List Event} {c : SenderBasedController}
    (hrun : Run.exec step {} es = some c) :
    Answers.Same call c.reset {} ↔ c.packetTransitHistory = [] := by
  have huntouched : c.UntouchedUntilSent :=
    Run.exec_invariant step_untouched (fun _ => ⟨rfl, rfl, rfl, rfl⟩) hrun
  constructor
  · intro hsame
    by_contra hne
    obtain ⟨r, hmem⟩ := List.exists_mem_of_ne_nil _ hne
    exact reset_not_same hmem hsame
  · intro hempty
    exact Answers.same_of_view call_withoutCounters
      (reset_withoutCounters (huntouched hempty) hempty)

/-- One packet was sent. -/
theorem reset_same_iff_nothingSent_onePacket :
    ¬ Answers.Same call (reset
      { firstSend := false
        inTransitPackets := [⟨0, 5, 1000, 0, 0⟩]
        packetTransitHistory := [⟨0, 5, 1000, 0, 0⟩] }) {} := by
  rw [reset_same_iff_nothingSent
    (by decide : Run.exec step {} [.call (.processSendPacket 5 0 1000)] = some _)]
  exact List.cons_ne_nil _ _

/-- The size of the packet is not forgotten. -/
theorem reset_keeps_packetSize :
    ¬ ∀ es c, Run.exec step {} es = some c → Answers.Same call c.reset {} := by
  intro hall
  have hsame := hall [.call (.processSendPacket 5 0 1000)] _ rfl [.getPacketSize 0]
  exact absurd hsame (by decide)

end Zhuge.SenderBasedController
