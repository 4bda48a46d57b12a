-- SUMMARY: Frame acknowledgements go out in increasing order of frame ids, each for a frame that is all there.
import Zhuge.VideoDecoder

/-!
# Frame acknowledgements

Only the play loop for the next frame replies. The cursor may fall back within a discard
loop, but never behind where that loop started, and so never behind an acknowledged frame.
-/

namespace Zhuge.VideoDecoder

/-- The frames for which `ReplyFrameAck` was called, in order. -/
def ackedIds (d : VideoDecoder) : List UInt32 :=
  d.log.filterMap fun
    | .replyFrameAck frameId _ => some frameId
    | _ => none

/-- The ids within the frame of the packets given so far. -/
def idsInFrame (given : List DataPacket) (frameId : UInt32) : Finset UInt16 :=
  ((given.filter (·.frameId = frameId)).map (·.pktIdInFrame)).toFinset

/-- The frame was filled by packets given so far, and expects as many as one of them said. -/
structure FilledBy (given : List DataPacket) (frameId : UInt32) (frame : VideoFrame) : Prop where
  expects : ∃ pkt ∈ given, pkt.frameId = frameId ∧ pkt.framePktNum = frame.dataPktNum
  subset : frame.pkts ⊆ idsInFrame given frameId

/-- The packets given so far filled a frame with as many different packets as it expects. -/
def AllReceived (given : List DataPacket) (frameId : UInt32) : Prop :=
  ∃ frame, FilledBy given frameId frame ∧ frame.dataPktNum.toNat ≤ frame.pkts.card

/-- What holds between two packets. -/
structure AcksInOrder (given : List DataPacket) (d : VideoDecoder) : Prop where
  increasing : d.ackedIds.Pairwise (· < ·)
  behind : ∀ k ∈ d.ackedIds, k < d.lastPlayedFrameId + 1
  first : 0 ∈ d.playedFrames ∨ d.lastPlayedFrameId = -1
  maxFrameId : d.maxFrameId.toNat < 2 ^ 32 - 1
  frames : ∀ k frame, d.unplayedFrames.lookup k = some frame → FilledBy given k frame
  acked : ∀ k ∈ d.ackedIds, AllReceived given k

/-! ## Filling frames -/

theorem idsInFrame_append (given : List DataPacket) (pkt : DataPacket) (frameId : UInt32) :
    idsInFrame (given ++ [pkt]) frameId =
      if pkt.frameId = frameId then insert pkt.pktIdInFrame (idsInFrame given frameId)
      else idsInFrame given frameId := by
  unfold idsInFrame
  split
  case isTrue h => ext i; simp [h]
  case isFalse h => simp [h]

theorem idsInFrame_subset_append (given : List DataPacket) (pkt : DataPacket) (frameId : UInt32) :
    idsInFrame given frameId ⊆ idsInFrame (given ++ [pkt]) frameId := by
  rw [idsInFrame_append]
  split
  · exact Finset.subset_insert _ _
  · exact Finset.Subset.refl _

namespace FilledBy

variable {given : List DataPacket} {frameId : UInt32} {frame : VideoFrame}

theorem append (h : FilledBy given frameId frame) (pkt : DataPacket) :
    FilledBy (given ++ [pkt]) frameId frame := by
  obtain ⟨p, hp, heq⟩ := h.expects
  exact ⟨⟨p, List.mem_append_left _ hp, heq⟩,
    h.subset.trans (idsInFrame_subset_append given pkt frameId)⟩

theorem new (given : List DataPacket) (pkt : DataPacket) :
    FilledBy (given ++ [pkt]) pkt.frameId (.new pkt) where
  expects := ⟨pkt, by simp, rfl, rfl⟩
  subset := by
    rw [idsInFrame_append, if_pos rfl]
    simp [VideoFrame.new, VideoFrame.addPacket]

theorem addPacket {pkt : DataPacket} (h : FilledBy given pkt.frameId frame) :
    FilledBy (given ++ [pkt]) pkt.frameId (frame.addPacket pkt) where
  expects := (h.append pkt).expects
  subset := by
    rw [idsInFrame_append, if_pos rfl]
    exact Finset.insert_subset_insert _ h.subset

/-- A complete frame: the count is compared in 16 bits, so there are at least as many. -/
theorem allReceived (h : FilledBy given frameId frame) (hcomplete : frame.isComplete = true) :
    AllReceived given frameId := by
  have hcount : frame.dataPktNum = .ofNat frame.pkts.card := by
    simpa [VideoFrame.isComplete, VideoFrame.getDataPktRcvedNum] using hcomplete
  refine ⟨frame, h, ?_⟩
  rw [hcount, UInt16.toNat_ofNat']
  exact Nat.mod_le _ _

end FilledBy

theorem AllReceived.append {given : List DataPacket} {frameId : UInt32}
    (h : AllReceived given frameId) (pkt : DataPacket) : AllReceived (given ++ [pkt]) frameId := by
  obtain ⟨frame, hfilled, hle⟩ := h
  exact ⟨frame, hfilled.append pkt, hle⟩

/-! ## The loops -/

theorem ackedIds_playRound_false (idx : UInt32) (frame : VideoFrame) (d : VideoDecoder) :
    (d.playRound false idx frame).ackedIds = d.ackedIds := by
  simp [ackedIds, playRound, decodeFrame]

theorem ackedIds_playRound_true (idx : UInt32) (frame : VideoFrame) (d : VideoDecoder) :
    (d.playRound true idx frame).ackedIds = d.ackedIds ++ [idx] := by
  simp [ackedIds, playRound, decodeFrame, replyFrameAck]

/-- The catch-up loop does not reply. -/
theorem ackedIds_playFrom_false (idx : UInt32) (d : VideoDecoder) :
    (d.playFrom false idx).ackedIds = d.ackedIds := by
  obtain ⟨-, h, -⟩ := playFrom_rule (P := fun _ d' => d'.ackedIds = d.ackedIds) false idx d rfl
    fun idx d' frame h _ _ _ => (ackedIds_playRound_false idx frame d').trans h
  exact h

theorem ackedIds_discardFrame (idx : UInt32) (d : VideoDecoder) :
    (d.discardFrame idx).ackedIds = d.ackedIds := by
  simp [ackedIds, discardFrame]

theorem ackedIds_discardLoop (rounds : ℕ) (idx : UInt32) (d : VideoDecoder) :
    (d.discardLoop rounds idx).ackedIds = d.ackedIds := by
  induction rounds generalizing idx d with
  | zero => rfl
  | succ rounds ih =>
      rw [discardLoop, ih, ackedIds_playFrom_false, ackedIds_discardFrame]

theorem lt_add_one {k idx max : UInt32} (h : k < idx ∨ k = idx) (hle : idx ≤ max)
    (hmax : max.toNat < 2 ^ 32 - 1) : k < idx + 1 := by
  rw [UInt32.lt_iff_toNat_lt, UInt32.toNat_add]
  rw [UInt32.le_iff_toNat_le] at hle
  rw [UInt32.lt_iff_toNat_lt, ← UInt32.toNat_inj] at h
  simp only [UInt32.toNat_one]
  omega

namespace AcksInOrder

variable {given : List DataPacket} {d d' : VideoDecoder}

theorem new (delayDdl : Time) (fps : UInt16) : AcksInOrder [] (.new delayDdl fps) where
  increasing := .nil
  behind := fun _ hk => absurd hk List.not_mem_nil
  first := .inr rfl
  maxFrameId := by simp [VideoDecoder.new]
  frames := fun _ _ hframe => by cases hframe
  acked := fun _ hk => absurd hk List.not_mem_nil

theorem append (h : AcksInOrder given d) (pkt : DataPacket) : AcksInOrder (given ++ [pkt]) d where
  increasing := h.increasing
  behind := h.behind
  first := h.first
  maxFrameId := h.maxFrameId
  frames k frame hframe := (h.frames k frame hframe).append pkt
  acked k hk := (h.acked k hk).append pkt

/-- A complete frame moves over, with or without a reply. -/
theorem playRound (h : AcksInOrder given d) {idx : UInt32} {frame : VideoFrame}
    (hbehind : ∀ k ∈ d.ackedIds, k < idx) (hmax : idx ≤ d.maxFrameId) (hzero : 0 ∈ d.playedFrames)
    (hlookup : d.unplayedFrames.lookup idx = some frame) (hcomplete : frame.isComplete = true)
    (reply : Bool) : AcksInOrder given (d.playRound reply idx frame) ∧
      (∀ k ∈ (d.playRound reply idx frame).ackedIds, k < idx + 1) ∧
      0 ∈ (d.playRound reply idx frame).playedFrames := by
  have hmem : 0 ∈ (d.playRound reply idx frame).playedFrames := by
    cases reply <;> exact (AList.mem_insert _).mpr (.inr hzero)
  have hlast : (d.playRound reply idx frame).lastPlayedFrameId = idx := by cases reply <;> rfl
  have hmaxId : (d.playRound reply idx frame).maxFrameId = d.maxFrameId := by cases reply <;> rfl
  have hframes : ∀ k f, (d.playRound reply idx frame).unplayedFrames.lookup k = some f →
      FilledBy given k f := by
    intro k f hf
    rw [unplayedFrames_playRound, Dict.lookup_erase_eq] at hf
    split at hf
    · cases hf
    · exact h.frames k f hf
  have hbefore : ∀ k ∈ d.ackedIds, k < idx + 1 := fun k hk =>
    lt_add_one (.inl (hbehind k hk)) hmax h.maxFrameId
  have hall : ∀ k ∈ (d.playRound reply idx frame).ackedIds, k < idx + 1 := by
    cases reply with
    | false =>
        rw [ackedIds_playRound_false]
        exact hbefore
    | true =>
        intro k hk
        rw [ackedIds_playRound_true] at hk
        rcases List.mem_append.mp hk with hk | hk
        · exact hbefore k hk
        · exact lt_add_one (.inr (List.mem_singleton.mp hk)) hmax h.maxFrameId
  refine ⟨⟨?_, ?_, .inl hmem, hmaxId ▸ h.maxFrameId, hframes, ?_⟩, hall, hmem⟩
  · cases reply with
    | false =>
        rw [ackedIds_playRound_false]
        exact h.increasing
    | true =>
        rw [ackedIds_playRound_true, List.pairwise_append]
        refine ⟨h.increasing, List.pairwise_singleton _ _, ?_⟩
        intro k hk k' hk'
        rw [List.mem_singleton.mp hk']
        exact hbehind k hk
  · rw [hlast]
    exact hall
  · cases reply with
    | false =>
        rw [ackedIds_playRound_false]
        exact h.acked
    | true =>
        intro k hk
        rw [ackedIds_playRound_true] at hk
        rcases List.mem_append.mp hk with hk | hk
        · exact h.acked k hk
        · rw [List.mem_singleton.mp hk]
          exact (h.frames idx frame hlookup).allReceived hcomplete

theorem playFrom (h : AcksInOrder given d) {idx : UInt32} (hbehind : ∀ k ∈ d.ackedIds, k < idx)
    (hzero : 0 ∈ d.playedFrames) (reply : Bool) : AcksInOrder given (d.playFrom reply idx) ∧
      0 ∈ (d.playFrom reply idx).playedFrames := by
  obtain ⟨-, ⟨h', -, hzero'⟩, -⟩ := playFrom_rule
    (P := fun idx d => AcksInOrder given d ∧ (∀ k ∈ d.ackedIds, k < idx) ∧ 0 ∈ d.playedFrames)
    reply idx d ⟨h, hbehind, hzero⟩ fun idx d frame hP hmax hlookup hcomplete =>
      hP.1.playRound hP.2.1 hmax hP.2.2 hlookup hcomplete reply
  exact ⟨h', hzero'⟩

theorem discardFrame (h : AcksInOrder given d) {idx : UInt32}
    (hbehind : ∀ k ∈ d.ackedIds, k < idx + 1) (hzero : idx = 0 ∨ 0 ∈ d.playedFrames) :
    AcksInOrder given (d.discardFrame idx) ∧ 0 ∈ (d.discardFrame idx).playedFrames := by
  have hids := ackedIds_discardFrame idx d
  have hmem : 0 ∈ (d.discardFrame idx).playedFrames :=
    (AList.mem_insert _).mpr (hzero.imp_left Eq.symm)
  refine ⟨⟨hids ▸ h.increasing, hids ▸ hbehind, .inl hmem, h.maxFrameId, ?_, hids ▸ h.acked⟩, hmem⟩
  intro k frame hframe
  rw [VideoDecoder.discardFrame, Dict.lookup_erase_eq] at hframe
  split at hframe
  · cases hframe
  · exact h.frames k frame hframe

theorem discardLoop (h : AcksInOrder given d) {rounds : ℕ} {idx : UInt32}
    (hends : idx.toNat + rounds < 2 ^ 32) (hbehind : ∀ k ∈ d.ackedIds, k < idx)
    (hzero : idx = 0 ∨ 0 ∈ d.playedFrames) : AcksInOrder given (d.discardLoop rounds idx) ∧
      (0 < rounds ∨ 0 ∈ d.playedFrames → 0 ∈ (d.discardLoop rounds idx).playedFrames) := by
  induction rounds generalizing idx d with
  | zero => exact ⟨h, fun hplayed => hplayed.resolve_left (lt_irrefl 0)⟩
  | succ rounds ih =>
      have hnext : (idx + 1).toNat = idx.toNat + 1 := by
        rw [UInt32.toNat_add, UInt32.toNat_one]
        omega
      have hbehind' : ∀ k ∈ d.ackedIds, k < idx + 1 := by
        intro k hk
        have := hbehind k hk
        rw [UInt32.lt_iff_toNat_lt] at this ⊢
        omega
      obtain ⟨hdiscard, hplayed⟩ := h.discardFrame hbehind' hzero
      have hids := ackedIds_discardFrame idx d
      obtain ⟨hplay, hplayed'⟩ := hdiscard.playFrom (hids ▸ hbehind') hplayed false
      have hids' : ((d.discardFrame idx).playFrom false (idx + 1)).ackedIds = d.ackedIds :=
        (ackedIds_playFrom_false _ _).trans hids
      rw [← hids'] at hbehind'
      obtain ⟨hrest, hzero'⟩ := ih hplay (by omega) hbehind' (.inr hplayed')
      exact ⟨hrest, fun _ => hzero' (.inr hplayed')⟩

/-- The discard loop, where it ends. What was not played before it has no reply yet. -/
theorem discardExpired (h : AcksInOrder given d) {frameId : UInt32}
    (hrun : d.discardExpired frameId = some d') :
    AcksInOrder given d' ∧ d'.ackedIds = d.ackedIds := by
  unfold VideoDecoder.discardExpired at hrun
  simp only at hrun
  split at hrun
  case isTrue => cases hrun
  case isFalse =>
    split at hrun
    case isTrue => cases hrun
    case isFalse hends =>
      cases hrun
      refine ⟨?_, ackedIds_discardLoop _ _ _⟩
      have hzero : d.lastPlayedFrameId + 1 = 0 ∨ 0 ∈ d.playedFrames := by
        rcases h.first with hmem | hlast
        · exact .inr hmem
        · exact .inl (by rw [hlast]; rfl)
      have hfirst := (d.lastPlayedFrameId + 1).toNat_lt
      refine (h.discardLoop ?_ h.behind hzero).1
      rw [discardRounds]
      omega

theorem storePacket (h : AcksInOrder given d) {pkt : DataPacket}
    (hframe : pkt.frameId.toNat < 2 ^ 32 - 1) :
    AcksInOrder (given ++ [pkt]) (d.storePacket pkt) where
  increasing := h.increasing
  behind := h.behind
  first := h.first
  maxFrameId := by
    change (if d.maxFrameId ≤ pkt.frameId then pkt.frameId else d.maxFrameId).toNat < 2 ^ 32 - 1
    split
    · exact hframe
    · exact h.maxFrameId
  frames := by
    intro k frame hlookup
    simp only [VideoDecoder.storePacket, Dict.lookup_insert_eq] at hlookup
    split at hlookup
    case isFalse => exact (h.frames k frame hlookup).append pkt
    case isTrue heq =>
      subst heq
      cases hold : d.unplayedFrames.lookup pkt.frameId with
      | none =>
          rw [hold] at hlookup
          cases hlookup
          exact .new given pkt
      | some f =>
          rw [hold] at hlookup
          cases hlookup
          exact (h.frames _ f hold).addPacket
  acked k hk := (h.acked k hk).append pkt

/-- Frame 0 is played without a reply. -/
theorem decodeZero (h : AcksInOrder given d) (hnone : d.ackedIds = []) (frame : VideoFrame) :
    AcksInOrder given (d.decodeFrame 0 frame) := by
  have hids : (d.decodeFrame 0 frame).ackedIds = [] := by
    rw [← hnone]
    simp [ackedIds, decodeFrame]
  refine ⟨hids ▸ .nil, by simp [hids], .inl ?_, h.maxFrameId, ?_, by simp [hids]⟩
  · exact (AList.mem_insert _).mpr (.inl rfl)
  · intro k f hf
    rw [decodeFrame, Dict.lookup_erase_eq] at hf
    split at hf
    · cases hf
    · exact h.frames k f hf

theorem playStored (h : AcksInOrder given d) {frameId : UInt32}
    (hnone : frameId = 0 → d.ackedIds = []) : AcksInOrder given (d.playStored frameId) := by
  unfold VideoDecoder.playStored
  cases hlookup : d.unplayedFrames.lookup frameId with
  | none => exact h
  | some frame =>
      simp only
      split
      case isFalse => exact h
      case isTrue =>
        split
        case isTrue hzero =>
          rw [hzero]
          exact h.decodeZero (hnone hzero) frame
        case isFalse hzero =>
          split
          case isFalse => exact h
          case isTrue hnext =>
            -- the cursor is not where it started, so frame 0 was moved over
            have hmem : 0 ∈ d.playedFrames := by
              refine h.first.resolve_right fun hlast => hzero ?_
              rw [hnext, hlast]
              rfl
            exact (h.playFrom (hnext ▸ h.behind) hmem true).1

theorem decodePacket (h : AcksInOrder given d) {pkt : DataPacket}
    (hframe : pkt.frameId.toNat < 2 ^ 32 - 1) (hrun : d.decodePacket pkt = some d') :
    AcksInOrder (given ++ [pkt]) d' := by
  unfold VideoDecoder.decodePacket at hrun
  split at hrun
  case isTrue =>
    cases hrun
    exact h.append pkt
  case isFalse hmem =>
    obtain ⟨d₁, hdiscard, rfl⟩ := Option.map_eq_some_iff.mp hrun
    obtain ⟨h₁, hids⟩ := h.discardExpired hdiscard
    apply (h₁.storePacket hframe).playStored
    intro hzero
    change d₁.ackedIds = []
    rw [hids]
    have hlast := h.first.resolve_left (hzero ▸ hmem)
    apply List.eq_nil_iff_forall_not_mem.mpr
    intro k hk
    have hlt := h.behind k hk
    rw [hlast] at hlt
    exact absurd hlt (Nat.not_lt_zero _)

theorem exec (h : AcksInOrder given d) {pkts : List DataPacket}
    (hframe : ∀ pkt ∈ pkts, pkt.frameId.toNat < 2 ^ 32 - 1)
    (hrun : Run.exec VideoDecoder.decodePacket d pkts = some d') :
    AcksInOrder (given ++ pkts) d' := by
  induction pkts generalizing given d with
  | nil =>
      cases hrun
      rwa [List.append_nil]
  | cons pkt pkts ih =>
      obtain ⟨t, hstep, hrest⟩ := Run.exec_cons_eq_some.mp hrun
      have ht := h.decodePacket (hframe pkt List.mem_cons_self) hstep
      have := ih ht (fun p hp => hframe p (List.mem_cons_of_mem _ hp)) hrest
      rwa [List.append_assoc] at this

end AcksInOrder

/-- In every run the acknowledged frame ids increase, and every frame acknowledged so far has
received as many different packets as it expects. -/
theorem ackedIds_increasing {delayDdl : Time} {fps : UInt16} {pkts : List DataPacket}
    (hframe : ∀ pkt ∈ pkts, pkt.frameId.toNat < 2 ^ 32 - 1) {d : VideoDecoder}
    (hrun : decodeDataPacket pkts (.new delayDdl fps) = some d) :
    d.ackedIds.Pairwise (· < ·) ∧ ∀ k ∈ d.ackedIds, AllReceived pkts k := by
  have h := (AcksInOrder.new delayDdl fps).exec hframe hrun
  exact ⟨h.increasing, h.acked⟩

/-- Three frames of one packet each, the last one before the second. -/
theorem ackedIds_increasing_threeFrames : ∃ d,
    decodeDataPacket [.new 0 0 1 0, .new 2 0 1 0, .new 1 0 1 0] (.new (.milliSeconds 100) 30)
      = some d ∧ d.ackedIds = [1, 2] ∧ d.ackedIds.Pairwise (· < ·) ∧
    ∀ k ∈ d.ackedIds, AllReceived [.new 0 0 1 0, .new 2 0 1 0, .new 1 0 1 0] k := by
  obtain ⟨d, hrun, hids⟩ : ∃ d, decodeDataPacket [.new 0 0 1 0, .new 2 0 1 0, .new 1 0 1 0]
      (.new (.milliSeconds 100) 30) = some d ∧ d.ackedIds = [1, 2] := by
    decide +kernel
  exact ⟨d, hrun, hids, ackedIds_increasing (by decide) hrun⟩

end Zhuge.VideoDecoder
