-- SUMMARY: When the global ids that the Zhuge queue reports go forward in serial order.
import Zhuge.Lib.Serial
import Zhuge.ZhugeQueue

/-!
# The order of the reported ids

`Sendback` reports a packet whose id is newer than the last one reported. The test
takes every id that is larger as a number for newer, also one from before a wrap
that arrives late; only smaller ids are looked at across the wrap.
-/

namespace Zhuge

namespace ZhugeQueue

/-! ## The ids of the reports -/

/-- The global id that a report is about. -/
def reportId (netstate : NetStates) : UInt16 :=
  netstate.recvtimeHist.head?.elim 0 fun rt => rt.pktId.toUInt16

/-- A report goes forward from the one before: to a later id, with the distance in `loss_seq`. -/
def GoesForward (before after : NetStates) : Prop :=
  Serial.Before (reportId before).toBitVec (reportId after).toBitVec ∧
    after.lossSeq = [((reportId after - reportId before).toNat : Int)]

/-- Every report goes forward from the one before. -/
def InOrder (s : ZhugeQueue) : Prop := s.built.IsChain GoesForward

/-- The global id of a DATA packet. -/
def dataId : NetworkPacket → Option UInt16
  | .video (.data pkt) => some pkt.globalId
  | _ => none

/-- The condition on `Sendback`: once something has been reported, the DATA packet it has marked
is less than half the circle above the last id, as a number. -/
def NotBeforeWrap (s : ZhugeQueue) : Event → Prop
  | .sendback _ _ =>
    s.pendingSendbacks ≠ 0 → s.txBytesList ≠ [] → s.built ≠ [] →
      ∀ id ∈ s.sndbackPkt.bind dataId, id.toNat < s.lastId.toNat + 32768
  | _ => True

instance (s : ZhugeQueue) : (e : Event) → Decidable (s.NotBeforeWrap e)
  | .sendback _ _ => inferInstanceAs (Decidable (_ → _))
  | .updateTxRate _ => .isTrue trivial
  | .recvRcvdev _ _ _ => .isTrue trivial

/-! ## The test for newer ids -/

/-- The value pushed to `loss_seq` is the way forward from the last id. -/
theorem toNat_lossValue (id lastId : UInt16) :
    (lossValue id lastId).toNat = (id - lastId).toNat := by
  have hid := id.toNat_lt
  have hlast := lastId.toNat_lt
  have hsum : (id.toUInt32 + 65536).toNat = id.toNat + 65536 := by
    rw [UInt32.toNat_add, UInt16.toNat_toUInt32]
    change (id.toNat + 65536) % 2 ^ 32 = _
    omega
  have hle : lastId.toUInt32 ≤ id.toUInt32 + 65536 := by
    rw [UInt32.le_iff_toNat_le, hsum, UInt16.toNat_toUInt32]
    omega
  rw [lossValue, UInt32.toNat_mod, UInt32.toNat_sub_of_le _ _ hle, hsum, UInt16.toNat_toUInt32,
    UInt16.toNat_sub]
  change (id.toNat + 65536 - lastId.toNat) % 65536 = _
  omega

/-- The test in numbers. -/
theorem isFresh_iff (id lastId : UInt16) :
    isFresh id lastId = true ↔
      lastId.toNat < id.toNat ∨ id.toNat + 32768 < lastId.toNat := by
  have hid := id.toNat_lt
  have hlast := lastId.toNat_lt
  simp only [isFresh, Bool.or_eq_true, decide_eq_true_eq, gt_iff_lt, UInt32.lt_iff_toNat_lt,
    UInt32.toNat_sub, UInt16.toNat_toUInt32]
  change _ ∨ 32768 < (4294967296 - id.toNat + lastId.toNat) % 4294967296 ↔ _
  omega

/-- An id that passes the test comes later exactly if it is less than half the circle above. -/
theorem before_iff_of_isFresh {id lastId : UInt16} (h : isFresh id lastId = true) :
    Serial.Before lastId.toBitVec id.toBitVec ↔ id.toNat < lastId.toNat + 32768 := by
  have hid := id.toNat_lt
  have hlast := lastId.toNat_lt
  have hfresh := (isFresh_iff id lastId).mp h
  rw [Serial.before_iff, BitVec.toNat_sub]
  change 0 < (65536 - lastId.toNat + id.toNat) % 65536 ∧
    2 * ((65536 - lastId.toNat + id.toNat) % 65536) < 65536 ↔ _
  omega

/-! ## What the handlers do to the reports -/

variable {now : Time} {o : Observation LinkFrame} {s s' : ZhugeQueue}

/-- What a run keeps: one of the two modes, and the last id is that of the last report. -/
structure Reporting (s : ZhugeQueue) : Prop where
  mode : s.mode = 0 ∨ s.mode = 1
  last : ∀ netstate ∈ s.built.getLast?, reportId netstate = s.lastId

/-- Only `Sendback` reports. -/
theorem reports_step {e : Event} (hmode : s.mode = 0 ∨ s.mode = 1)
    (hother : ∀ now o, e ≠ .sendback now o) (h : s.step e = some s') :
    s'.built = s.built ∧ s'.lastId = s.lastId := by
  cases e with
  | updateTxRate o =>
      rw [eq_tick_of_step hmode h]
      exact ⟨rfl, rfl⟩
  | recvRcvdev now packet o =>
      cases hcc : s.ccCreate with
      | false =>
          cases (onRecvRcvdev_eq hcc).symm.trans h
          obtain ⟨_, _, _, _, _, _, _, hrecv⟩ := recvNoTcp_frame packet s
          rw [hrecv]
          exact ⟨rfl, rfl⟩
      | true =>
          obtain ⟨id, ipaddr, hold, curQSizeByte, cache, rfl⟩ := onRecvRcvdev_eq_some_of_cc hcc h
          exact ⟨rfl, rfl⟩
  | sendback now o => exact absurd rfl (hother now o)

/-- One more report keeps the order exactly if it goes forward from the last one. -/
theorem inOrder_build_iff (hs : s.Reporting) {id : UInt16} (delay : UInt32)
    (hfresh : isFresh id s.lastId = true) :
    (s.build now delay id).InOrder ↔
      s.InOrder ∧ (s.built ≠ [] → id.toNat < s.lastId.toNat + 32768) := by
  have hforward : ∀ netstate ∈ s.built.getLast?,
      (GoesForward netstate (s.report now delay id) ↔ id.toNat < s.lastId.toNat + 32768) := by
    intro netstate hlast
    have hid : reportId (s.report now delay id) = id := UInt16.toUInt16_toUInt32 id
    have hloss : (s.report now delay id).lossSeq = [((id - s.lastId).toNat : Int)] :=
      congrArg (fun n : ℕ => [(n : Int)]) (toNat_lossValue id s.lastId)
    rw [GoesForward, hid, hs.last netstate hlast, before_iff_of_isFresh hfresh]
    exact and_iff_left hloss
  rw [InOrder, build, List.isChain_append]
  simp only [List.isChain_singleton, List.head?_cons, Option.mem_some_iff, forall_eq', true_and]
  apply and_congr_right
  intro _
  rw [forall₂_congr hforward]
  cases hlast : s.built.getLast? with
  | none => simp [List.getLast?_eq_none_iff.mp hlast]
  | some netstate =>
      have hne : s.built ≠ [] := by
        rintro hnil
        simp [hnil] at hlast
      simp [hne]

/-- Answering the marked packet keeps the order exactly if a DATA packet is less than half the
circle above the last id. -/
theorem inOrder_answer_iff (hs : s.Reporting) (horder : s.InOrder) (delay : UInt32)
    (pkt : NetworkPacket) :
    (s.answer now delay pkt).InOrder ↔
      (s.built ≠ [] → ∀ id ∈ dataId pkt, id.toNat < s.lastId.toNat + 32768) := by
  have hother : dataId pkt = none → (s.answer now delay pkt) = s →
      ((s.answer now delay pkt).InOrder ↔
        (s.built ≠ [] → ∀ id ∈ dataId pkt, id.toNat < s.lastId.toNat + 32768)) := by
    intro hnone hsame
    rw [hsame, hnone]
    exact iff_of_true horder fun _ => by simp
  cases pkt with
  | video video =>
      cases video with
      | data data =>
          simp only [answer, dataId, Option.mem_some_iff, forall_eq']
          split_ifs with hfresh
          · exact (inOrder_build_iff hs delay hfresh).trans (and_iff_right horder)
          · -- an id that is not newer is no larger than the last one
            refine iff_of_true horder fun _ => ?_
            have hstale := mt (isFresh_iff data.globalId s.lastId).mpr hfresh
            omega
      | dupFec data => exact hother rfl rfl
      | fec fec => exact hother rfl rfl
  | ack ack => exact hother rfl rfl
  | frameAck frameAck => exact hother rfl rfl
  | netState netState => exact hother rfl rfl

/-- A handler keeps the reports in order exactly if it meets the condition. -/
theorem inOrder_step_iff {e : Event} (hs : s.Reporting) (horder : s.InOrder)
    (h : s.step e = some s') : s'.InOrder ↔ s.NotBeforeWrap e := by
  by_cases hsend : ∃ now o, e = .sendback now o
  · obtain ⟨now, o, rfl⟩ := hsend
    simp only [step] at h
    split_ifs at h with hpending
    obtain ⟨hempty, rfl⟩ | ⟨curQSizeByte, delay, pkt, hslots, -, hpkt, rfl⟩ := sendback_cases h
    · exact iff_of_true horder fun _ hne => absurd hempty hne
    · rw [inOrder_answer_iff (s := { s.unmark with curQSizeByte }) ⟨hs.mode, hs.last⟩ horder]
      simp only [NotBeforeWrap, hpkt, Option.bind_some]
      exact ⟨fun hdata _ _ => hdata, fun hdata => hdata hpending hslots⟩
  · have hother : ∀ now o, e ≠ .sendback now o := fun now o he => hsend ⟨now, o, he⟩
    have hbuilt := (reports_step hs.mode hother h).1
    have hcondition : s.NotBeforeWrap e := by
      cases e with
      | sendback now o => exact absurd rfl (hother now o)
      | _ => trivial
    exact iff_of_true (by rwa [InOrder, hbuilt]) hcondition

theorem Reporting.answer (hs : s.Reporting) (now : Time) (delay : UInt32) (pkt : NetworkPacket) :
    (s.answer now delay pkt).Reporting := by
  unfold ZhugeQueue.answer
  split
  · split_ifs
    · refine ⟨hs.mode, ?_⟩
      intro netstate hlast
      rw [build, List.getLast?_concat, Option.mem_some_iff] at hlast
      subst hlast
      exact UInt16.toUInt16_toUInt32 _
    · exact hs
  · exact hs

theorem Reporting.step {e : Event} (hs : s.Reporting) (h : s.step e = some s') :
    s'.Reporting := by
  by_cases hsend : ∃ now o, e = .sendback now o
  · obtain ⟨now, o, rfl⟩ := hsend
    simp only [ZhugeQueue.step] at h
    split_ifs at h
    obtain ⟨-, rfl⟩ | ⟨curQSizeByte, delay, pkt, -, -, -, rfl⟩ := sendback_cases h
    · exact ⟨hs.mode, hs.last⟩
    · exact Reporting.answer (s := { s.unmark with curQSizeByte }) ⟨hs.mode, hs.last⟩ _ _ _
  · obtain ⟨hbuilt, hlast⟩ := reports_step hs.mode (fun now o he => hsend ⟨now, o, he⟩) h
    have hmode := mode_step hs.mode h
    exact ⟨hmode ▸ hs.mode, by rw [hbuilt, hlast]; exact hs.last⟩

/-- In both modes, over any ticks, packets and feedback, every report goes forward from the one
before in serial order, with the distance in `loss_seq`, if and only if no DATA packet is answered
whose id is half the circle or more above the last one reported, as a number. -/
theorem inOrder_iff_notBeforeWrap {mode : Int} (hmode : mode = 0 ∨ mode = 1) (c : Config)
    (events : List Event) :
    Run.Always step InOrder (init mode c) events ↔
      Run.Each step NotBeforeWrap (init mode c) events := by
  apply Run.always_iff_each (I := Reporting)
  · exact fun s e s' hs hstep => hs.step hstep
  · exact fun s e s' hs horder hstep => inOrder_step_iff hs horder hstep
  · intro s e hs hout
    cases e with
    | sendback now o =>
        simp only [NotBeforeWrap, not_forall] at hout
        obtain ⟨hpending, -, -, id, hid, -⟩ := hout
        obtain ⟨pkt, hpkt, -⟩ := Option.bind_eq_some_iff.mp hid
        obtain ⟨s', hs'⟩ := sendback_isSome hs.mode hpkt now o
        exact ⟨s', (if_neg hpending).trans hs'⟩
    | _ => exact absurd trivial hout
  · exact ⟨hmode, by simp [init]⟩
  · exact List.IsChain.nil

theorem InOrder.ids (h : s.InOrder) :
    (s.built.map reportId).IsChain fun before after =>
      Serial.Before before.toBitVec after.toBitVec :=
  List.isChain_map_of_isChain reportId (fun _ _ hforward => hforward.1) h

/-- The handlers for one packet: it arrives, and a millisecond later it is answered. -/
private def reported (id : UInt16) : List Event :=
  [.recvRcvdev 0 (.ofFlow id) (.waiting []), .sendback 1000000 (.waiting [])]

/-- The ids wrap from 65535 to 0. -/
theorem inOrder_across_wrap :
    Run.Always step InOrder (init 1 .udpFlow)
      (.updateTxRate (.waiting []) :: reported 65535 ++ reported 1) := by
  apply (inOrder_iff_notBeforeWrap (.inr rfl) .udpFlow _).mpr
  refine ⟨trivial, fun s hs => ?_⟩
  cases hs
  refine ⟨trivial, fun s hs => ?_⟩
  cases hs
  refine ⟨by decide, fun s hs => ?_⟩
  cases hs
  refine ⟨trivial, fun s hs => ?_⟩
  cases hs
  refine ⟨?_, fun s hs => trivial⟩
  intro _ _ _ id hid
  cases hid
  simp [init]

/-- Packet 65535 is late: it arrives after packet 1, and its id is reported after that one. -/
theorem not_inOrder_late :
    ¬ Run.Always step InOrder (init 1 .udpFlow)
      (.updateTxRate (.waiting []) :: reported 1 ++ reported 65535) := by
  intro h
  obtain ⟨s, hs, hids⟩ : ∃ s, Run.exec step (init 1 .udpFlow)
      (.updateTxRate (.waiting []) :: reported 1 ++ reported 65535) = some s ∧
      s.built.map reportId = [1, 65535] := ⟨_, rfl, by rfl⟩
  have horder := (h.exec hs).ids
  rw [hids] at horder
  exact absurd horder (by decide)

end ZhugeQueue

end Zhuge
