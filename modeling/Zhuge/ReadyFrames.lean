-- SUMMARY: When the next frame is left waiting although it is complete: exactly after frame 0 was played in front of a complete frame 1.
import Zhuge.VideoDecoder

/-!
# Frames that are ready

The loops play on until the next frame is missing or incomplete. The branch for frame 0
plays that frame and no other.
-/

namespace Zhuge.VideoDecoder

/-- The frame after the last one played is not waiting complete. -/
def NotStalled (d : VideoDecoder) : Prop := ¬ d.ReadyAt (d.lastPlayedFrameId + 1)

/-- The frame of a packet, once the packet is in it. -/
def frameWith (pkt : DataPacket) (d : VideoDecoder) : VideoFrame :=
  match d.unplayedFrames.lookup pkt.frameId with
  | none => .new pkt
  | some frame => frame.addPacket pkt

/-- The packet completes frame 0, nothing expires, and frame 1 is already complete. -/
def LeavesReady (d : VideoDecoder) (pkt : DataPacket) : Prop :=
  pkt.frameId = 0 ∧ 0 ∉ d.playedFrames ∧ d.discardBound 0 < 0 ∧
    (d.frameWith pkt).isComplete = true ∧ d.ReadyAt 1

/-! ## What the loops take away -/

/-- Frames only went from `unplayedFrames` to `playedFrames`. -/
structure Moved (d d' : VideoDecoder) : Prop where
  maxFrameId : d'.maxFrameId = d.maxFrameId
  unplayed : ∀ k frame, d'.unplayedFrames.lookup k = some frame →
    d.unplayedFrames.lookup k = some frame
  played : ∀ k, k ∈ d.playedFrames → k ∈ d'.playedFrames

namespace Moved

variable {d d' d'' : VideoDecoder}

theorem refl (d : VideoDecoder) : Moved d d := ⟨rfl, fun _ _ h => h, fun _ h => h⟩

theorem trans (h : Moved d d') (h' : Moved d' d'') : Moved d d'' where
  maxFrameId := h'.maxFrameId.trans h.maxFrameId
  unplayed k frame hframe := h.unplayed k frame (h'.unplayed k frame hframe)
  played k hk := h'.played k (h.played k hk)

theorem not_readyAt (h : Moved d d') {idx : UInt32} (hready : ¬ d.ReadyAt idx) :
    ¬ d'.ReadyAt idx := by
  rintro ⟨frame, hframe, hcomplete⟩
  exact hready ⟨frame, h.unplayed idx frame hframe, hcomplete⟩

/-- A frame leaves `unplayedFrames` and appears in `playedFrames`. -/
theorem of_erase {idx : UInt32} {frame : Option VideoFrame} (hmax : d'.maxFrameId = d.maxFrameId)
    (hunplayed : d'.unplayedFrames = d.unplayedFrames.erase idx)
    (hplayed : d'.playedFrames = d.playedFrames.insert idx frame) : Moved d d' where
  maxFrameId := hmax
  unplayed k f hf := by
    rw [hunplayed, Dict.lookup_erase_eq] at hf
    split at hf
    · cases hf
    · exact hf
  played k hk := by
    rw [hplayed]
    exact (AList.mem_insert _).mpr (.inr hk)

theorem playRound (reply : Bool) (idx : UInt32) (frame : VideoFrame) (d : VideoDecoder) :
    Moved d (d.playRound reply idx frame) := by
  cases reply <;> exact .of_erase rfl rfl rfl

theorem playFrom (reply : Bool) (idx : UInt32) (d : VideoDecoder) :
    Moved d (d.playFrom reply idx) := by
  obtain ⟨-, h, -⟩ := playFrom_rule (P := fun _ d' => Moved d d') reply idx d (.refl d)
    fun idx d' frame h _ _ _ => h.trans (.playRound reply idx frame d')
  exact h

theorem discardFrame (idx : UInt32) (d : VideoDecoder) : Moved d (d.discardFrame idx) :=
  .of_erase rfl rfl rfl

theorem discardLoop (rounds : ℕ) (idx : UInt32) (d : VideoDecoder) :
    Moved d (d.discardLoop rounds idx) := by
  induction rounds generalizing idx d with
  | zero => exact .refl d
  | succ rounds ih => exact ((discardFrame idx d).trans (playFrom false _ _)).trans (ih _ _)

theorem playStored (frameId : UInt32) (d : VideoDecoder) : Moved d (d.playStored frameId) := by
  unfold VideoDecoder.playStored
  cases d.unplayedFrames.lookup frameId with
  | none => exact .refl d
  | some frame =>
      simp only
      split
      case isFalse => exact .refl d
      case isTrue =>
        split
        case isTrue => exact .of_erase rfl rfl rfl
        case isFalse =>
          split
          case isTrue => exact playFrom true frameId d
          case isFalse => exact .refl d

end Moved

/-- No id of a waiting frame is above `maxFrameId`. -/
def BelowMax (d : VideoDecoder) : Prop :=
  ∀ k frame, d.unplayedFrames.lookup k = some frame → k ≤ d.maxFrameId

theorem Moved.belowMax {d d' : VideoDecoder} (h : Moved d d') (hmax : d.BelowMax) :
    d'.BelowMax := by
  intro k frame hframe
  rw [h.maxFrameId]
  exact hmax k frame (h.unplayed k frame hframe)

/-- The play loop ends in front of a frame that is not ready, and where it started no frame is
ready any more. -/
theorem playFrom_stops {d : VideoDecoder} (hmax : d.BelowMax) {idx : UInt32}
    (hlast : d.lastPlayedFrameId + 1 = idx) (reply : Bool) :
    (d.playFrom reply idx).NotStalled ∧ ¬ (d.playFrom reply idx).ReadyAt idx := by
  have hmax' := (Moved.playFrom reply idx d).belowMax hmax
  obtain ⟨idx', ⟨hlast', hstart⟩, hstop⟩ := playFrom_rule
    (P := fun idx' d' => d'.lastPlayedFrameId + 1 = idx' ∧
      (idx' = idx ∨ d'.unplayedFrames.lookup idx = none)) reply idx d ⟨hlast, .inl rfl⟩ (by
      rintro idx' d' frame ⟨-, hstart⟩ - - -
      refine ⟨by cases reply <;> rfl, .inr ?_⟩
      rw [unplayedFrames_playRound, Dict.lookup_erase_eq]
      rcases hstart with rfl | hnone
      · exact if_pos rfl
      · rw [hnone, ite_self])
  have hstop' : ¬ (d.playFrom reply idx).ReadyAt idx' := by
    rintro ⟨frame, hframe, hcomplete⟩
    exact hstop (hmax' idx' frame hframe) ⟨frame, hframe, hcomplete⟩
  refine ⟨?_, ?_⟩
  · rw [NotStalled, hlast']
    exact hstop'
  · rcases hstart with rfl | hnone
    · exact hstop'
    · exact not_readyAt_of_lookup_none hnone

/-- After a discard loop that ran, the next frame is not ready, and neither is the one after
the first that was discarded. -/
theorem discardLoop_stops {d : VideoDecoder} (hmax : d.BelowMax) {rounds : ℕ} (hpos : 0 < rounds)
    (idx : UInt32) : (d.discardLoop rounds idx).NotStalled ∧
      ¬ (d.discardLoop rounds idx).ReadyAt (idx + 1) := by
  induction rounds generalizing d idx with
  | zero => exact absurd hpos (lt_irrefl 0)
  | succ rounds ih =>
      have hmoved := Moved.discardFrame idx d
      have hlast : (d.discardFrame idx).lastPlayedFrameId + 1 = idx + 1 := rfl
      obtain ⟨hstalled, hready⟩ := playFrom_stops (hmoved.belowMax hmax) hlast false
      refine ⟨?_, (Moved.discardLoop rounds _ _).not_readyAt hready⟩
      rcases Nat.eq_zero_or_pos rounds with rfl | hmore
      · exact hstalled
      · exact (ih ((hmoved.trans (.playFrom false _ _)).belowMax hmax) hmore (idx + 1)).1

/-! ## One packet -/

/-- What holds between two packets in every run. -/
structure Waiting (d : VideoDecoder) : Prop where
  belowMax : d.BelowMax
  zero : ¬ d.ReadyAt 0
  first : 0 ∈ d.playedFrames ∨ d.lastPlayedFrameId = -1

namespace Waiting

variable {d d' : VideoDecoder}

theorem new (delayDdl : Time) (fps : UInt16) : Waiting (.new delayDdl fps) where
  belowMax := fun _ _ hframe => by cases hframe
  zero := by
    rintro ⟨frame, hframe, -⟩
    cases hframe
  first := .inr rfl

theorem discardExpired (h : Waiting d) (hstalled : d.NotStalled) {frameId : UInt32}
    (hrun : d.discardExpired frameId = some d') :
    Waiting d' ∧ d'.NotStalled ∧ (d.discardRounds frameId = 0 → d' = d) ∧
      (0 ∉ d.playedFrames → 0 < d.discardRounds frameId → ¬ d'.ReadyAt 1) := by
  unfold VideoDecoder.discardExpired at hrun
  simp only at hrun
  split at hrun
  case isTrue => cases hrun
  case isFalse =>
    split at hrun
    case isTrue => cases hrun
    case isFalse =>
      cases hrun
      have hmoved := Moved.discardLoop (d.discardRounds frameId) (d.lastPlayedFrameId + 1) d
      have hfirst : d.lastPlayedFrameId + 1 = 0 ∨ 0 ∈ d.playedFrames :=
        h.first.symm.imp_left fun hlast => by rw [hlast]; rfl
      rcases Nat.eq_zero_or_pos (d.discardRounds frameId) with hnone | hpos
      · rw [hnone]
        exact ⟨h, hstalled, fun _ => rfl, fun _ hpos => absurd hpos (lt_irrefl 0)⟩
      · obtain ⟨hstops, hready⟩ := discardLoop_stops h.belowMax hpos (d.lastPlayedFrameId + 1)
        refine ⟨⟨hmoved.belowMax h.belowMax, hmoved.not_readyAt h.zero, .inl ?_⟩, hstops,
          fun hnone => absurd hnone hpos.ne', fun hzero _ => ?_⟩
        · obtain ⟨rounds, hrounds⟩ := Nat.exists_eq_succ_of_ne_zero hpos.ne'
          rw [hrounds, discardLoop]
          refine (Moved.discardLoop _ _ _).played 0 ((Moved.playFrom _ _ _).played 0 ?_)
          exact (AList.mem_insert _).mpr (hfirst.imp_left Eq.symm)
        · have hstart := hfirst.resolve_right hzero
          rw [hstart] at hready ⊢
          exact hready

theorem lookup_storePacket (d : VideoDecoder) (pkt : DataPacket) (k : UInt32) :
    (d.storePacket pkt).unplayedFrames.lookup k =
      if k = pkt.frameId then some (d.frameWith pkt) else d.unplayedFrames.lookup k := by
  rw [storePacket, Dict.lookup_insert_eq]
  rfl

theorem belowMax_storePacket (h : d.BelowMax) (pkt : DataPacket) :
    (d.storePacket pkt).BelowMax := by
  have hmax : d.maxFrameId ≤ (d.storePacket pkt).maxFrameId ∧
      pkt.frameId ≤ (d.storePacket pkt).maxFrameId := by
    change d.maxFrameId ≤ (if d.maxFrameId ≤ pkt.frameId then pkt.frameId else d.maxFrameId) ∧
      pkt.frameId ≤ (if d.maxFrameId ≤ pkt.frameId then pkt.frameId else d.maxFrameId)
    simp only [UInt32.le_iff_toNat_le]
    split <;> omega
  intro k frame hframe
  rw [lookup_storePacket] at hframe
  split at hframe
  case isTrue heq => exact heq ▸ hmax.2
  case isFalse => exact UInt32.le_trans (h k frame hframe) hmax.1

/-- Only the branch for frame 0 can leave the next frame waiting, and it does so if frame 1
is complete. -/
theorem playStored (h : Waiting d) (hstalled : d.NotStalled) (pkt : DataPacket) :
    Waiting ((d.storePacket pkt).playStored pkt.frameId) ∧
      (((d.storePacket pkt).playStored pkt.frameId).NotStalled ↔
        ¬ (pkt.frameId = 0 ∧ (d.frameWith pkt).isComplete = true ∧ d.ReadyAt 1)) := by
  have hlookup := lookup_storePacket d pkt
  have hmax := belowMax_storePacket h.belowMax pkt
  have hother : ∀ k, k ≠ pkt.frameId → ((d.storePacket pkt).ReadyAt k ↔ d.ReadyAt k) := by
    intro k hk
    rw [ReadyAt, hlookup, if_neg hk, ReadyAt]
  have hthis : (d.storePacket pkt).ReadyAt pkt.frameId ↔ (d.frameWith pkt).isComplete = true := by
    rw [ReadyAt, hlookup, if_pos rfl]
    simp
  unfold VideoDecoder.playStored
  rw [hlookup, if_pos rfl]
  simp only
  by_cases hcomplete : (d.frameWith pkt).isComplete = true
  · simp only [hcomplete, if_true, true_and]
    split
    case isTrue hzero =>
      have hmoved : Moved (d.storePacket pkt)
          ((d.storePacket pkt).decodeFrame pkt.frameId (d.frameWith pkt)) := .of_erase rfl rfl rfl
      rw [hzero] at hmoved hother ⊢
      have herased : ∀ k, ((d.storePacket pkt).decodeFrame 0 (d.frameWith pkt)).ReadyAt k ↔
          k ≠ 0 ∧ d.ReadyAt k := by
        intro k
        rw [ReadyAt, decodeFrame, Dict.lookup_erase_eq]
        by_cases hk : k = 0
        · simp [hk]
        · rw [if_neg hk]
          exact (hother k hk).trans (iff_and_self.mpr fun _ => hk)
      refine ⟨⟨hmoved.belowMax hmax, ?_, .inl ?_⟩, ?_⟩
      · rw [herased]
        exact fun hready => hready.1 rfl
      · exact (AList.mem_insert _).mpr (.inl rfl)
      · rw [NotStalled, herased]
        simp [decodeFrame]
    case isFalse hzero =>
      have hready : ¬ (d.storePacket pkt).ReadyAt 0 := by
        rw [hother 0 (Ne.symm hzero)]
        exact h.zero
      simp only [hzero, false_and, not_false_iff, iff_true]
      split
      case isTrue hnext =>
        have hmoved := Moved.playFrom true pkt.frameId (d.storePacket pkt)
        refine ⟨⟨hmoved.belowMax hmax, hmoved.not_readyAt hready, .inl (hmoved.played 0 ?_)⟩,
          (playFrom_stops hmax hnext.symm true).1⟩
        refine h.first.resolve_right fun hlast => hzero (hnext.trans ?_)
        change d.lastPlayedFrameId + 1 = 0
        rw [hlast]
        rfl
      case isFalse hnext =>
        refine ⟨⟨hmax, hready, h.first⟩, ?_⟩
        rw [NotStalled, hother _ (Ne.symm hnext)]
        exact hstalled
  · rw [if_neg hcomplete, iff_true_right fun hzero => hcomplete hzero.2.1]
    have hready : ∀ k, ¬ d.ReadyAt k → ¬ (d.storePacket pkt).ReadyAt k := by
      intro k hk
      by_cases heq : k = pkt.frameId
      · rw [heq, hthis]
        exact hcomplete
      · rwa [hother k heq]
    exact ⟨⟨hmax, hready 0 h.zero, h.first⟩, hready _ hstalled⟩

theorem discardRounds_zero (h : Waiting d) (hzero : 0 ∉ d.playedFrames) :
    d.discardRounds 0 = 0 ↔ d.discardBound 0 < 0 := by
  have hfirst : (d.lastPlayedFrameId + 1).toNat = 0 := by
    rw [h.first.resolve_left hzero]
    rfl
  rw [discardRounds, hfirst]
  omega

/-- One packet, in a state where nothing waits. -/
theorem decodePacket (h : Waiting d) (hstalled : d.NotStalled) {pkt : DataPacket}
    (hrun : d.decodePacket pkt = some d') :
    Waiting d' ∧ (d'.NotStalled ↔ ¬ d.LeavesReady pkt) := by
  unfold VideoDecoder.decodePacket at hrun
  split at hrun
  case isTrue hmem =>
    cases hrun
    exact ⟨h, iff_of_true hstalled fun hleaves => hleaves.2.1 (hleaves.1 ▸ hmem)⟩
  case isFalse hmem =>
    obtain ⟨d₁, hdiscard, rfl⟩ := Option.map_eq_some_iff.mp hrun
    obtain ⟨h₁, hstalled₁, hsame, hready⟩ := h.discardExpired hstalled hdiscard
    obtain ⟨h₂, hiff⟩ := h₁.playStored hstalled₁ pkt
    refine ⟨h₂, hiff.trans (not_congr ?_)⟩
    constructor
    · rintro ⟨hzero, hcomplete, hone⟩
      rw [hzero] at hmem hsame hready
      have hnone : d.discardRounds 0 = 0 := by
        by_contra hne
        exact hready hmem (Nat.pos_of_ne_zero hne) hone
      rw [hsame hnone] at hcomplete hone
      exact ⟨hzero, hmem, (h.discardRounds_zero hmem).mp hnone, hcomplete, hone⟩
    · rintro ⟨hzero, -, hbound, hcomplete, hone⟩
      rw [hzero] at hmem hsame
      rw [hsame ((h.discardRounds_zero hmem).mpr hbound)]
      exact ⟨hzero, hcomplete, hone⟩

end Waiting

/-- The decoder returns from a packet that leaves a ready frame behind. -/
theorem decodePacket_of_leavesReady {d : VideoDecoder} {pkt : DataPacket}
    (h : d.LeavesReady pkt) : ∃ d', d.decodePacket pkt = some d' := by
  obtain ⟨hzero, hmem, hbound, -, -⟩ := h
  have hinterval : d.frameInterval ≠ 0 := by
    intro hnone
    simp [discardBound, hnone] at hbound
  have hends : ¬ ((d.lastPlayedFrameId + 1).toNat ≤ d.discardBound 0 ∧
      2 ^ 32 - 1 ≤ d.discardBound 0) := by omega
  rw [decodePacket, hzero, if_neg hmem, discardExpired]
  simp only [if_neg hinterval, if_neg hends, Option.map_some, Option.some.injEq, exists_eq']

/-- In every run, the next frame is never left waiting complete if and only if no packet
completes frame 0 in front of a complete frame 1. -/
theorem notStalled_iff_not_leavesReady (delayDdl : Time) (fps : UInt16) (pkts : List DataPacket) :
    Run.Always decodePacket NotStalled (.new delayDdl fps) pkts ↔
      Run.Each decodePacket (fun d pkt => ¬ d.LeavesReady pkt) (.new delayDdl fps) pkts := by
  have h := Waiting.new delayDdl fps
  have hstalled : (VideoDecoder.new delayDdl fps).NotStalled := by
    rintro ⟨frame, hframe, -⟩
    cases hframe
  generalize VideoDecoder.new delayDdl fps = d at h hstalled
  induction pkts generalizing d with
  | nil => exact iff_of_true hstalled trivial
  | cons pkt pkts ih =>
      constructor
      · rintro ⟨-, hrest⟩
        refine ⟨fun hleaves => ?_, fun d' hstep => ?_⟩
        · obtain ⟨d', hstep⟩ := decodePacket_of_leavesReady hleaves
          exact (h.decodePacket hstalled hstep).2.mp (hrest d' hstep).head hleaves
        · obtain ⟨h', -⟩ := h.decodePacket hstalled hstep
          exact (ih d' h' (hrest d' hstep).head).mp (hrest d' hstep)
      · rintro ⟨hnot, hrest⟩
        refine ⟨hstalled, fun d' hstep => ?_⟩
        obtain ⟨h', hiff⟩ := h.decodePacket hstalled hstep
        exact (ih d' h' (hiff.mpr hnot)).mpr (hrest d' hstep)

/-- Frame 1 arrives before frame 0 and is left waiting. -/
theorem stalled : ∃ d, decodeDataPacket [.new 1 0 1 0, .new 0 0 1 0]
    (.new (.milliSeconds 100) 30) = some d ∧ ¬ d.NotStalled := by
  obtain ⟨d, hrun, frame, hframe⟩ : ∃ d, decodeDataPacket [.new 1 0 1 0, .new 0 0 1 0]
      (.new (.milliSeconds 100) 30) = some d ∧
      ∃ frame ∈ d.unplayedFrames.lookup (d.lastPlayedFrameId + 1), frame.isComplete = true := by
    decide +kernel
  exact ⟨d, hrun, not_not.mpr ⟨frame, hframe⟩⟩

end Zhuge.VideoDecoder
