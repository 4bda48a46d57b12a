-- SUMMARY: What one feedback does to the controller's histories: it is ignored, or its packet joins them.
import Zhuge.ControllerInvariant

/-!
# Recorded feedback

A feedback either leaves the histories alone, or takes its packet out of transit and appends
one record to `m_packetHistory` and to `m_recvHistory`.
-/

namespace Zhuge.SenderBasedController

/-- The record that a packet becomes. -/
def joined (nowUs rxTimestampUs : UInt64) (packet : PacketRecord) (c : SenderBasedController) :
    PacketRecord :=
  { packet with
    size := c.intvlPseudoSize nowUs packet.sequence
    owdUs := rxTimestampUs - packet.txTimestampUs
    rttUs := nowUs - packet.txTimestampUs }

/-- The packet is the first one in transit once stale ones are gone, and its send time does not
decrease. -/
def Joins (sequence : UInt16) (c : SenderBasedController) : Prop :=
  ∃ packet ∈ (c.dropStale sequence).inTransitPackets.head?,
    packet.sequence = sequence ∧ (c.clearObsolete packet).isSome

instance (sequence : UInt16) (c : SenderBasedController) : Decidable (c.Joins sequence) :=
  inferInstanceAs (Decidable (∃ packet ∈ _, _))

/-- The histories are as before. -/
structure Ignored (c c' : SenderBasedController) : Prop where
  packetHistory : c'.packetHistory = c.packetHistory
  recvHistory : c'.recvHistory = c.recvHistory
  lastRecvSequence : c'.lastRecvSequence = c.lastRecvSequence
  inTransit : c'.inTransitPackets <:+ c.inTransitPackets

/-- `packet` left the packets in transit and joined the histories. -/
structure Recorded (nowUs rxTimestampUs : UInt64) (packet : PacketRecord)
    (c c' : SenderBasedController) : Prop where
  joins : c.Joins packet.sequence
  inTransit : packet :: c'.inTransitPackets <:+ c.inTransitPackets
  packetHistory : c'.packetHistory.getLast? = some (c.joined nowUs rxTimestampUs packet)
  recvHistory : c'.recvHistory = c.recvHistory ++ [c.joined nowUs rxTimestampUs packet]
  lastRecvSequence : c'.lastRecvSequence = packet.sequence

/-- What no feedback touches. -/
structure SameSends (c c' : SenderBasedController) : Prop where
  firstSend : c'.firstSend = c.firstSend
  lastSequence : c'.lastSequence = c.lastSequence
  transitHistory : c'.packetTransitHistory = c.packetTransitHistory

/-! ## Joining the histories -/

/-- Garbage collection does not get past the record that was just appended. -/
theorem collectGarbage_getLast? {historyLengthUs lastUs : UInt64} {rs rs' : List PacketRecord}
    {pktSizeSum pktSizeSum' : UInt32}
    (h : collectGarbage historyLengthUs lastUs rs pktSizeSum = some (rs', pktSizeSum')) :
    rs'.getLast? = rs.getLast? := by
  induction rs generalizing pktSizeSum with
  | nil => cases h
  | cons r rest ih =>
      rw [collectGarbage] at h
      split_ifs at h
      · cases h
        rfl
      · rw [ih h]
        cases rest with
        | nil => cases h
        | cons s rest => rfl

/-- What `clearObsolete` keeps. -/
theorem clearObsolete_frame {packet : PacketRecord} {c c' : SenderBasedController}
    (h : c.clearObsolete packet = some c') :
    ∃ packetHistory pktSizeSum, c' = { c with packetHistory, pktSizeSum } := by
  simp only [clearObsolete] at h
  split at h
  · cases h
    exact ⟨c.packetHistory, c.pktSizeSum, rfl⟩
  · split_ifs at h <;> cases h
    · exact ⟨[], 0, rfl⟩
    · exact ⟨c.packetHistory, c.pktSizeSum, rfl⟩

/-- The check of the send time looks at nothing but the history. -/
theorem isSome_clearObsolete_congr {c d : SenderBasedController} (packet : PacketRecord)
    (h : d.packetHistory = c.packetHistory) :
    (d.clearObsolete packet).isSome = (c.clearObsolete packet).isSome := by
  simp only [clearObsolete, h]
  cases c.packetHistory.getLast? with
  | none => rfl
  | some last =>
      simp only
      split_ifs <;> rfl

/-- `acknowledge` ignores the packet, or records it. -/
theorem acknowledge_cases {nowUs rxTimestampUs : UInt64} {packet : PacketRecord}
    {c c' : SenderBasedController} {ok : Bool}
    (h : c.acknowledge nowUs rxTimestampUs packet = some (ok, c')) :
    c' = c ∨ (c.clearObsolete packet).isSome ∧ SameSends c c' ∧
      c'.inTransitPackets = c.inTransitPackets ∧
      c'.packetHistory.getLast? = some (c.joined nowUs rxTimestampUs packet) ∧
      c'.recvHistory = c.recvHistory ++ [c.joined nowUs rxTimestampUs packet] ∧
      c'.lastRecvSequence = packet.sequence := by
  simp only [acknowledge] at h
  cases hclear : c.clearObsolete packet with
  | none =>
      rw [hclear] at h
      cases h
      exact .inl rfl
  | some d =>
      obtain ⟨packetHistory, pktSizeSum, rfl⟩ := clearObsolete_frame hclear
      simp only [hclear] at h
      split at h
      · cases h
      · obtain ⟨e, hbind, heq⟩ := Option.map_eq_some_iff.mp h
        obtain ⟨f, hloss, hrecord⟩ := Option.bind_eq_some_iff.mp hbind
        obtain ⟨il, -, rfl⟩ := Option.map_eq_some_iff.mp hloss
        obtain ⟨⟨collected, sum⟩, hcollect, rfl⟩ := Option.map_eq_some_iff.mp hrecord
        cases heq
        -- garbage collection takes records from the front and leaves the one just stored
        refine .inr ⟨rfl, ⟨rfl, rfl, rfl⟩, rfl, ?_, rfl, rfl⟩
        rw [collectGarbage_getLast? hcollect, List.getLast?_append]
        rfl

/-- A feedback leaves the sends alone, and its packet is ignored or recorded. -/
theorem processFeedback_cases {nowUs rxTimestampUs : UInt64} {sequence : UInt16}
    {c c' : SenderBasedController} {ok : Bool}
    (h : c.processFeedback nowUs sequence rxTimestampUs = some (ok, c')) :
    SameSends c c' ∧ (Ignored c c' ∨
      ∃ packet, packet.sequence = sequence ∧ Recorded nowUs rxTimestampUs packet c c') := by
  have hsame : Ignored c c := ⟨rfl, rfl, rfl, List.suffix_refl _⟩
  have hdrop : (c.dropStale sequence).inTransitPackets <:+ c.inTransitPackets :=
    List.dropWhile_suffix _
  simp only [processFeedback] at h
  split at h
  case isTrue =>
    cases h
    exact ⟨⟨rfl, rfl, rfl⟩, .inl hsame⟩
  case isFalse =>
    split at h
    -- nothing was sent
    case h_1 =>
      cases h
      exact ⟨⟨rfl, rfl, rfl⟩, .inl hsame⟩
    case h_2 newest hnewest =>
      split at h
      case isTrue => cases h
      case isFalse =>
        split at h
        case h_1 => cases h
        case h_2 packet rest htransit =>
          split at h
          -- the oldest packet in transit is ahead of the reported one: only stale ones were dropped
          case isTrue =>
            cases h
            exact ⟨⟨rfl, rfl, rfl⟩, .inl ⟨rfl, rfl, rfl, hdrop⟩⟩
          case isFalse =>
            split at h
            case isTrue => cases h
            case isFalse heq =>
              have hseq : packet.sequence = sequence := (not_not.mp heq).symm
              have hsuffix : packet :: rest <:+ c.inTransitPackets := htransit ▸ hdrop
              -- the reported packet is the oldest in transit
              rcases acknowledge_cases h with rfl | ⟨hclear, hsends, hrest, hlast, hrecv, hlastRecv⟩
              · exact ⟨⟨rfl, rfl, rfl⟩, .inl ⟨rfl, rfl, rfl, (List.suffix_cons _ _).trans hsuffix⟩⟩
              · refine ⟨⟨hsends.firstSend, hsends.lastSequence, hsends.transitHistory⟩,
                  .inr ⟨packet, hseq, ?_, ?_, hlast, hrecv, hlastRecv⟩⟩
                · -- clearing looks at the histories only, which the drop of stale packets
                  -- leaves alone
                  rw [hseq]
                  let d := { c.dropStale sequence with inTransitPackets := rest }
                  have hcongr : (d.clearObsolete packet).isSome = (c.clearObsolete packet).isSome :=
                    isSome_clearObsolete_congr packet rfl
                  exact ⟨packet, by rw [htransit]; rfl, hseq, hcongr ▸ hclear⟩
                · rw [hrest]
                  exact hsuffix

/-- Sizes are added up in 32 bits. -/
theorem toNat_sum_size (rs : List PacketRecord) :
    (rs.map PacketRecord.size).sum.toNat = recordedBytes rs % 2 ^ 32 := by
  induction rs with
  | nil => rfl
  | cons r rs ih =>
      simp only [recordedBytes, List.map_cons, List.sum_cons] at ih ⊢
      rw [UInt32.toNat_add, ih]
      omega

end Zhuge.SenderBasedController
