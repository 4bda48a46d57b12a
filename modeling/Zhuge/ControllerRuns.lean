-- SUMMARY: The runs of a controller in which no assertion fails, and one in which it does.
import Zhuge.ControllerInvariant

/-!
# Runs of a controller

Every call restores the invariant unless it meets one of three defects. One of them needs no
more than a packet for every sequence within the time that the history covers.
-/

namespace Zhuge.SenderBasedController

/-! ## Runs -/

/-- How the controller is used: sequences are consecutive and times do not decrease, fewer
than half a circle of packets is in transit, feedback is for one of the last packets sent and
never from before it was sent, and the recorded bytes fit 32 bits. Pruning stops at a packet
that is on record. -/
def Admissible (c : SenderBasedController) : Event → Prop
  | .call (.processSendPacket txTimestampUs sequence size) =>
    sequence = c.nextSequence sequence ∧
      (∀ n ∈ c.packetTransitHistory.getLast?, n.txTimestampUs ≤ txTimestampUs) ∧
      ∀ p ∈ c.processSendPacket txTimestampUs sequence size,
        p.2.inTransitPackets.length < 32768
  | .call (.processFeedback nowUs sequence rxTimestampUs) =>
    (c.lastSequence - sequence).toNat < 32767 ∧
      (∀ r ∈ c.inTransitPackets, r.sequence = sequence → r.txTimestampUs ≤ rxTimestampUs) ∧
      recordedBytes c.packetHistory + (c.intvlPseudoSize nowUs sequence).toNat < 2 ^ 32
  | .prunTransitHistory tarSeq =>
    ∃ r ∈ c.packetTransitHistory, tarSeq ≤ r.sequence.toUInt32
  | .call .getCurrentRecvRate => False
  | .call _ => True
  | .updateLossRate _ => True
  | .setHistoryLength _ => False
  | .reset => False

/-- What keeps a step away from the three defects: the erased record of an earlier packet with
the same sequence, delays further apart than the comparison can tell, and a history that
covers a full circle. -/
def Sound (c : SenderBasedController) : Event → Prop
  | .call (.processSendPacket _ sequence _) =>
    ∀ r ∈ c.packetTransitHistory, r.sequence ≠ sequence
  | .call (.processFeedback _ sequence rxTimestampUs) =>
    ∀ r ∈ c.inTransitPackets, r.sequence = sequence → c.DelayInOrder rxTimestampUs r
  | .call .getPktLossInfo => historySpan c.packetHistory < 65536
  | _ => True

instance (c : SenderBasedController) : (e : Event) → Decidable (Admissible c e)
  | .call (.processSendPacket ..) => inferInstanceAs (Decidable (_ ∧ _))
  | .call (.processFeedback ..) => inferInstanceAs (Decidable (_ ∧ _))
  | .prunTransitHistory _ => inferInstanceAs (Decidable (∃ r ∈ _, _))
  | .call .getCurrentRecvRate => .isFalse id
  | .call (.getPacketTxTimestamp _) => .isTrue trivial
  | .call (.getPacketSize _) => .isTrue trivial
  | .call .getCurrentQdelay => .isTrue trivial
  | .call .getPktLossInfo => .isTrue trivial
  | .updateLossRate _ => .isTrue trivial
  | .setHistoryLength _ => .isFalse id
  | .reset => .isFalse id

instance (c : SenderBasedController) : (e : Event) → Decidable (Sound c e)
  | .call (.processSendPacket ..) => inferInstanceAs (Decidable (∀ r ∈ _, _))
  | .call (.processFeedback ..) => inferInstanceAs (Decidable (∀ r ∈ _, _))
  | .call .getPktLossInfo => inferInstanceAs (Decidable (_ < _))
  | .call .getCurrentRecvRate => .isTrue trivial
  | .call (.getPacketTxTimestamp _) => .isTrue trivial
  | .call (.getPacketSize _) => .isTrue trivial
  | .call .getCurrentQdelay => .isTrue trivial
  | .prunTransitHistory _ => .isTrue trivial
  | .updateLossRate _ => .isTrue trivial
  | .setHistoryLength _ => .isTrue trivial
  | .reset => .isTrue trivial

theorem step_invariant (c : SenderBasedController) (e : Event) (h : c.Invariant)
    (he : Admissible c e ∧ Sound c e) : ∃ c', c.step e = some c' ∧ c'.Invariant := by
  obtain ⟨hadm, hsound⟩ := he
  cases e with
  | call q =>
      cases q with
      | processSendPacket tx sequence size =>
          obtain ⟨hnext, htx, hlength⟩ := hadm
          have hsend : c.processSendPacket tx sequence size
              = some (true, c.afterSend tx sequence size) := processSendPacket_eq hnext hsound
          refine ⟨c.afterSend tx sequence size, ?_, ?_⟩
          · simp only [step, call, hsend]
            rfl
          · exact invariant_afterSend h hnext htx (hlength _ hsend)
      | processFeedback nowUs sequence rxTimestampUs =>
          obtain ⟨hrecent, -, hbytes⟩ := hadm
          obtain ⟨ok, c', hfb, hinv⟩ := invariant_feedback h hrecent hsound hbytes
          refine ⟨c', ?_, hinv⟩
          simp only [step, call, hfb]
          rfl
      | getPktLossInfo =>
          obtain ⟨info, hinfo⟩ := getPktLossInfo_isSome h.history_sequences hsound
          refine ⟨c, ?_, h⟩
          simp only [step, call, hinfo]
          rfl
      | getCurrentRecvRate => exact hadm.elim
      | getPacketTxTimestamp sequence => exact ⟨c, rfl, h⟩
      | getPacketSize sequence => exact ⟨c, rfl, h⟩
      | getCurrentQdelay => exact ⟨c, rfl, h⟩
  | updateLossRate lossQ8 => exact ⟨_, rfl, { h with }⟩
  | prunTransitHistory tarSeq => exact invariant_prune h hadm
  | setHistoryLength lenUs => exact hadm.elim
  | reset => exact hadm.elim

/-- In a run whose steps stay away from the defects no assertion fails, and the representation
holds in every state. -/
theorem representation_of_sound {es : List Event} (hadm : Run.Each step Admissible {} es)
    (hsound : Run.Each step Sound {} es) :
    (∃ c, Run.exec step {} es = some c) ∧ Run.Always step Representation {} es := by
  have hboth := hadm.and hsound
  constructor
  · obtain ⟨c, hrun, -⟩ := hboth.exec step_invariant invariant_new
    exact ⟨c, hrun⟩
  · have halways : Run.Always step Invariant {} es := by
      refine hboth.always (fun c e c' h he hstep => ?_) invariant_new
      obtain ⟨d, hd, hinv⟩ := step_invariant c e h he
      cases hd.symm.trans hstep
      exact hinv
    exact halways.mono fun c h => h.toRepresentation

/-- Two packets, of which the second is acknowledged first. -/
theorem representation_of_sound_twoPackets :
    (∃ c, Run.exec step {} [.call (.processSendPacket 0 65535 1000),
        .call (.processSendPacket 5 0 1000), .call (.processFeedback 30 0 20),
        .call (.processFeedback 31 65535 21), .call .getPktLossInfo] = some c) ∧
      Run.Always step Representation {} [.call (.processSendPacket 0 65535 1000),
        .call (.processSendPacket 5 0 1000), .call (.processFeedback 30 0 20),
        .call (.processFeedback 31 65535 21), .call .getPktLossInfo] :=
  representation_of_sound (by decide) (by decide)

/-! ## A full circle of packets -/

/-- Packet `k` is sent and acknowledged at once. -/
def sendAndAck (k : Nat) : List Event :=
  [.call (.processSendPacket 0 (.ofNat k) 1000), .call (.processFeedback 0 (.ofNat k) 0)]

/-- The record of packet `k` in the history. The first one is not counted, since no sequence
is above `m_lastRecvSequence` yet. -/
def ackRecord (k : Nat) : PacketRecord :=
  { sequence := .ofNat k, txTimestampUs := 0, size := if k = 0 then 0 else 1000
    owdUs := 0, rttUs := 0 }

/-- The controller after the packets `0` to `n`. -/
def afterAcks (n : Nat) : SenderBasedController :=
  { firstSend := false
    lastSequence := .ofNat n
    packetTransitHistory := (List.range (n + 1)).map fun k => sentRecord 0 (.ofNat k) 1000
    packetHistory := (List.range (n + 1)).map ackRecord
    recvHistory := (List.range (n + 1)).map ackRecord
    pktSizeSum := .ofNat (n * 1000)
    lastRecvSequence := .ofNat n
    ilState := { intervals := [.ofNat (n + 1)], expectedSeq := .ofNat (n + 1) } }

theorem ofNat_lt_iff {j k : Nat} (hj : j < 65536) (hk : k < 65536) :
    UInt16.ofNat j < UInt16.ofNat k ↔ j < k := by
  rw [UInt16.lt_iff_toNat_lt, UInt16.toNat_ofNat', UInt16.toNat_ofNat',
    Nat.mod_eq_of_lt hj, Nat.mod_eq_of_lt hk]

theorem send_afterAcks {n : Nat} (hn : n + 1 < 65536) :
    (afterAcks n).processSendPacket 0 (.ofNat (n + 1)) 1000
      = some (true, (afterAcks n).afterSend 0 (.ofNat (n + 1)) 1000) := by
  apply processSendPacket_eq (by simp [nextSequence, afterAcks])
  intro r hmem
  obtain ⟨k, hk, rfl⟩ := List.mem_map.mp hmem
  have hlt := (ofNat_lt_iff (by simp at hk; omega) hn).mpr (List.mem_range.mp hk)
  exact UInt16.ne_of_lt hlt

/-- Records up to the last received sequence are left out. -/
theorem intvlPseudoSize_concat {c : SenderBasedController} {old : List PacketRecord}
    {r : PacketRecord} {nowUs : UInt64} {sequence : UInt16}
    (hhistory : c.packetTransitHistory = old ++ [r])
    (htime : nowUs - r.txTimestampUs < 1000000)
    (hold : ∀ s ∈ old, ¬ c.lastRecvSequence < s.sequence)
    (hlast : c.lastRecvSequence < r.sequence) (hseq : r.sequence ≤ sequence) :
    c.intvlPseudoSize nowUs sequence = r.size := by
  unfold intvlPseudoSize
  rw [hhistory, List.filter_append, List.filter_eq_nil_iff.mpr, List.nil_append,
    List.filter_singleton]
  · simp [hlast, hseq, htime]
  · intro s hs
    simp [hold s hs]

theorem intvlPseudoSize_afterSend {n : Nat} (hn : n + 1 < 65536) :
    ((afterAcks n).afterSend 0 (.ofNat (n + 1)) 1000).intvlPseudoSize 0 (.ofNat (n + 1))
      = 1000 := by
  have hhistory : ((afterAcks n).afterSend 0 (.ofNat (n + 1)) 1000).packetTransitHistory
      = (afterAcks n).packetTransitHistory ++ [sentRecord 0 (.ofNat (n + 1)) 1000] := rfl
  refine intvlPseudoSize_concat hhistory (by simp [sentRecord]) ?_ ?_ (UInt16.le_refl _)
  · intro s hs
    obtain ⟨k, hk, rfl⟩ := List.mem_map.mp hs
    have hk' := List.mem_range.mp hk
    exact mt (ofNat_lt_iff (by omega) (by omega)).mp (by omega)
  · exact (ofNat_lt_iff (by omega) hn).mpr (Nat.lt_succ_self n)

/-- With equal times nothing leaves the history. -/
theorem collectGarbage_afterAcks {n : Nat} {r : PacketRecord} {pktSizeSum : UInt32} :
    collectGarbage defaultHistoryLengthUs 0 ((List.range (n + 1)).map ackRecord ++ [r])
        pktSizeSum
      = some ((List.range (n + 1)).map ackRecord ++ [r], pktSizeSum) := by
  rw [List.range_succ_eq_map, List.map_cons, List.cons_append, collectGarbage]
  rw [if_neg (by decide), if_pos (by decide)]

/-- Feedback for the only packet in transit. -/
theorem processFeedback_single {nowUs rxTimestampUs : UInt64} {packet : PacketRecord}
    {c : SenderBasedController} (htransit : c.inTransitPackets = [packet])
    (hlast : packet.sequence = c.lastSequence) :
    c.processFeedback nowUs packet.sequence rxTimestampUs
      = acknowledge nowUs rxTimestampUs packet
          (c.midway [] c.packetHistory c.pktSizeSum 0 c.lossCounter) := by
  have hself := not_lessThan_self packet.sequence
  have hdrop : c.dropStale packet.sequence
      = { c with lost := 0, lossCounter := c.lossCounter, inTransitPackets := [packet] } := by
    simp [dropStale, htransit, hself]
  simp only [processFeedback, ← hlast, if_neg hself, htransit, List.getLast?_singleton, ne_eq,
    not_true_eq_false, if_false, hdrop]
  simp only [midway, hlast]

/-- Times and delays of zero leave the base delay at zero. -/
theorem measureDelay_zero {packet : PacketRecord} {c : SenderBasedController}
    (htx : packet.txTimestampUs = 0) (howd : packet.owdUs = 0) (hrtt : packet.rttUs = 0)
    (hbase : c.baseDelayUs = 0) : c.measureDelay 0 0 packet = (packet, c) := by
  cases packet
  cases c
  simp only at htx howd hrtt hbase
  subst htx howd hrtt hbase
  simp only [measureDelay, UInt64.sub_self, ite_self]

/-- The controller after packet `n + 1` is sent, once its record has left the packets in
transit. -/
def midAcks (n : Nat) : SenderBasedController :=
  ((afterAcks n).afterSend 0 (.ofNat (n + 1)) 1000).midway []
    (afterAcks n).packetHistory (afterAcks n).pktSizeSum 0 0

theorem midAcks_getLast? (n : Nat) :
    (midAcks n).packetHistory.getLast? = some (ackRecord n) := by
  change ((List.range (n + 1)).map ackRecord).getLast? = _
  rw [List.range_succ, List.map_append]
  exact List.getLast?_concat

theorem clearObsolete_midAcks (n : Nat) :
    (midAcks n).clearObsolete (sentRecord 0 (.ofNat (n + 1)) 1000) = some (midAcks n) := by
  have hback : ¬ lessThan (sentRecord 0 (.ofNat (n + 1)) 1000).txTimestampUs
      (ackRecord n).txTimestampUs := by
    change ¬ lessThan (0 : UInt64) 0
    decide
  have hnear : ¬ lessThan ((ackRecord n).txTimestampUs + maxInterPacketTimeUs)
      (sentRecord 0 (.ofNat (n + 1)) 1000).txTimestampUs := by
    change ¬ lessThan (0 + maxInterPacketTimeUs) 0
    decide
  simp only [clearObsolete, midAcks_getLast?, if_neg hback, if_neg hnear]

theorem updateInterLossData_midAcks (n : Nat) :
    (midAcks n).updateInterLossData (sentRecord 0 (.ofNat (n + 1)) 1000) = some { midAcks n with
      ilState := { intervals := [.ofNat (n + 2)], expectedSeq := .ofNat (n + 2) } } := by
  have hempty : ¬ (midAcks n).packetHistory.isEmpty := by
    rw [List.isEmpty_iff]
    exact List.ne_nil_of_mem (List.mem_of_getLast? (midAcks_getLast? n))
  have hil : (midAcks n).ilState
      = { intervals := [.ofNat (n + 1)], expectedSeq := .ofNat (n + 1) } := rfl
  have hsucc : UInt16.ofNat (n + 1) + 1 = .ofNat (n + 2) := (UInt16.ofNat_add ..).symm
  simp only [updateInterLossData, if_neg hempty, hil, updateIntervals, sentRecord, if_true,
    hsucc, Option.map_some]

theorem recordReceived_midAcks {n : Nat} (hn : n + 1 < 65536) :
    recordReceived 0 (sentRecord 0 (.ofNat (n + 1)) 1000) { midAcks n with
        ilState := { intervals := [.ofNat (n + 2)], expectedSeq := .ofNat (n + 2) } }
      = some (afterAcks (n + 1)) := by
  have hjoined : ackRecord (n + 1) = { sentRecord 0 (.ofNat (n + 1)) 1000 with
      size := intvlPseudoSize 0 (.ofNat (n + 1)) { midAcks n with
        ilState := { intervals := [.ofNat (n + 2)], expectedSeq := .ofNat (n + 2) } } } := by
    have hpseudo : intvlPseudoSize 0 (.ofNat (n + 1)) { midAcks n with
        ilState := { intervals := [.ofNat (n + 2)], expectedSeq := .ofNat (n + 2) } } = 1000 :=
      intvlPseudoSize_afterSend hn
    rw [hpseudo]
    rfl
  have hcollect : collectGarbage defaultHistoryLengthUs 0
      ((List.range (n + 1)).map ackRecord ++ [ackRecord (n + 1)])
        (.ofNat (n * 1000) + (ackRecord (n + 1)).size) = _ := collectGarbage_afterAcks
  refine (recordReceived_eq hjoined hcollect).trans (congrArg some ?_)
  have hsum : UInt32.ofNat (n * 1000) + (ackRecord (n + 1)).size = .ofNat ((n + 1) * 1000) := by
    rw [Nat.add_mul, UInt32.ofNat_add]
    rfl
  have hrange (f : Nat → PacketRecord) :
      (List.range (n + 1)).map f ++ [f (n + 1)] = (List.range (n + 2)).map f := by
    rw [List.range_succ (n := n + 1), List.map_append]
    rfl
  have hsent := hrange fun k => sentRecord 0 (.ofNat k) 1000
  simp only [hsum, hrange]
  simp only [afterAcks, midAcks, midway, afterSend, hsent, hrange]
  rfl

theorem feedback_afterAcks {n : Nat} (hn : n + 1 < 65536) :
    ((afterAcks n).afterSend 0 (.ofNat (n + 1)) 1000).processFeedback 0 (.ofNat (n + 1)) 0
      = some (true, afterAcks (n + 1)) := by
  have hmeasure : (midAcks n).measureDelay 0 0 (sentRecord 0 (.ofNat (n + 1)) 1000)
      = (sentRecord 0 (.ofNat (n + 1)) 1000, midAcks n) := measureDelay_zero rfl rfl rfl rfl
  have hack : (midAcks n).acknowledge 0 0 (sentRecord 0 (.ofNat (n + 1)) 1000)
      = some (true, afterAcks (n + 1)) := by
    simp only [acknowledge, clearObsolete_midAcks, hmeasure, updateInterLossData_midAcks,
      Option.bind_some, recordReceived_midAcks hn]
    rfl
  have hsingle : ((afterAcks n).afterSend 0 (.ofNat (n + 1)) 1000).processFeedback 0
      (sentRecord 0 (.ofNat (n + 1)) 1000).sequence 0 = _ := processFeedback_single rfl rfl
  exact hsingle.trans hack

theorem exec_sendAndAck {n : Nat} (hn : n + 1 < 65536) :
    Run.exec step (afterAcks n) (sendAndAck (n + 1)) = some (afterAcks (n + 1)) := by
  simp only [sendAndAck, Run.exec, step, call, send_afterAcks hn, feedback_afterAcks hn,
    Option.map_some, Option.bind_some, Prod.map_apply, id_eq]

theorem recordedBytes_ackRecord (n : Nat) :
    recordedBytes ((List.range (n + 1)).map ackRecord) = n * 1000 := by
  induction n with
  | zero => rfl
  | succ n ih =>
      rw [List.range_succ, List.map_append, recordedBytes_append, ih, Nat.add_mul]
      rfl

theorem admissible_sendAndAck {n : Nat} (hn : n + 1 < 65536) :
    Run.Each step Admissible (afterAcks n) (sendAndAck (n + 1)) := by
  refine ⟨⟨?_, ?_, ?_⟩, fun c hc => ⟨?_, fun _ _ => trivial⟩⟩
  · simp [nextSequence, afterAcks]
  · intro r hr
    obtain ⟨k, -, rfl⟩ := List.mem_map.mp (List.mem_of_getLast? hr)
    exact UInt64.le_refl _
  · intro p hp
    rw [send_afterAcks hn] at hp
    cases Option.mem_some_iff.mp hp
    exact (by decide : 1 < 32768)
  · have hsent : c = (afterAcks n).afterSend 0 (.ofNat (n + 1)) 1000 := by
      simp only [step, call, send_afterAcks hn, Option.map_some] at hc
      exact (Option.some.inj hc).symm
    have hbytes := recordedBytes_ackRecord n
    subst hsent
    refine ⟨?_, ?_, ?_⟩
    · simp [afterSend]
    · intro r hr _
      rw [List.mem_singleton.mp hr]
      exact UInt64.le_refl _
    · rw [intvlPseudoSize_afterSend hn]
      change recordedBytes ((List.range (n + 1)).map ackRecord) + 1000 < _
      omega

/-- As many packets as there are sequences, each acknowledged before the next is sent. -/
theorem run_acks {n : Nat} (hn : n < 65536) :
    Run.exec step {} ((List.range (n + 1)).flatMap sendAndAck) = some (afterAcks n) ∧
      Run.Each step Admissible {} ((List.range (n + 1)).flatMap sendAndAck) := by
  induction n with
  | zero => exact ⟨by decide, by decide⟩
  | succ n ih =>
      obtain ⟨hrun, hadm⟩ := ih (by omega)
      rw [List.range_succ, List.flatMap_append, List.flatMap_singleton]
      exact ⟨Run.exec_append_eq_some.mpr ⟨_, hrun, exec_sendAndAck hn⟩,
        hadm.append hrun (admissible_sendAndAck hn)⟩

/-- When the history covers the full circle `seqSpan` is zero. -/
theorem getPktLossInfo_afterAcks {n : Nat} (hn : n + 1 = 65536) :
    (afterAcks n).getPktLossInfo = none := by
  have hlength : ((List.range (n + 1)).map ackRecord).length = n + 1 := by simp
  have hfront : ((List.range (n + 1)).map ackRecord).head? = some (ackRecord 0) := by
    rw [List.range_succ_eq_map]
    rfl
  have hspan : (1 + (ackRecord n).sequence - (ackRecord 0).sequence).toNat = 0 := by
    change (1 + UInt16.ofNat n - UInt16.ofNat 0).toNat = 0
    have hsucc : 1 + UInt16.ofNat n = .ofNat (n + 1) := by
      rw [UInt16.ofNat_add, UInt16.add_comm]
      rfl
    rw [hsucc, hn]
    rfl
  have hback : ((List.range (n + 1)).map ackRecord).getLast? = some (ackRecord n) :=
    midAcks_getLast? n
  simp only [getPktLossInfo, afterAcks, hlength, hfront, hback, hspan]
  rw [if_neg (by simp [minPacketLoglen]), if_pos (Nat.succ_pos n)]

/-- A history of 65536 packets fails the assertion of `getPktLossInfo`. -/
theorem getPktLossInfo_full_circle :
    ¬ ∀ es : List Event, Run.Each step Admissible {} es →
      (∃ c, Run.exec step {} es = some c) ∧ Run.Always step Representation {} es := by
  intro hall
  obtain ⟨n, hn⟩ : ∃ n, n + 1 = 65536 := ⟨65535, by norm_num⟩
  obtain ⟨hrun, hadm⟩ := run_acks (n := n) (by omega)
  have hlast : Run.Each step Admissible (afterAcks n) [.call .getPktLossInfo] :=
    ⟨trivial, fun _ _ => trivial⟩
  obtain ⟨⟨c, hc⟩, -⟩ := hall _ (hadm.append hrun hlast)
  obtain ⟨d, hd, hinfo⟩ := Run.exec_append_eq_some.mp hc
  cases hrun.symm.trans hd
  simp [Run.exec, step, call, getPktLossInfo_afterAcks hn] at hinfo

end Zhuge.SenderBasedController
