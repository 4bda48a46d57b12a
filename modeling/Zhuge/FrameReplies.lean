-- SUMMARY: Every frame played with all its packets is acknowledged once, as long as no full frame expires and none follows the expired ones, and frame 0 is not completed.
import Zhuge.FrameMoves
import Zhuge.Playback

/-!
# Replies to played frames

Of the four places that move a frame over, only the loop that plays the frames from the next
one on replies and notes the frame as played. The branch for frame 0, the discard loop and the
catch-up loop in it move full frames in silence.
-/

namespace Zhuge

namespace VideoDecoder

/-- The encode times in the calls of `ReplyFrameAck` for a frame. -/
def replies (frameId : UInt32) (d : VideoDecoder) : List Time :=
  d.log.filterMap fun
    | .replyFrameAck id encodeTime => if id = frameId then some encodeTime else none
    | _ => none

/-- No full frame expires with the packet, the frame behind the expired ones is not played by
the catch-up loop, and the packet does not complete frame 0. A frame 0 that expires at its own
packet is made anew. -/
def NoneSilent (d : VideoDecoder) (pkt : DataPacket) : Prop :=
  pkt.frameId ∈ d.playedFrames ∨
    (∀ i < d.discardRounds pkt.frameId,
      ∀ frame ∈ d.unplayedFrames.lookup (d.lastPlayedFrameId + 1 + .ofNat i),
        ¬ frame.HasAllPkts) ∧
    (0 < d.discardRounds pkt.frameId →
      ∀ frame ∈ d.unplayedFrames.lookup
        (d.lastPlayedFrameId + 1 + .ofNat (d.discardRounds pkt.frameId)),
        frame.isComplete = false) ∧
    ¬ (pkt.frameId = 0 ∧
      (if d.discardRounds pkt.frameId = 0 then d.frameWith pkt else .new pkt).isComplete = true)

instance (d : VideoDecoder) (pkt : DataPacket) : Decidable (d.NoneSilent pkt) :=
  inferInstanceAs (Decidable (_ ∨ _))

end VideoDecoder

namespace DecoderLog

open VideoDecoder

/-- Every frame that was moved with all its packets has one reply, with its encode time, and
from frame 10 on it is in `excludeTenPlayedFrames`. -/
def Answered (l : DecoderLog) : Prop :=
  ∀ frameId frame, (frameId, some frame) ∈ l.moves → frame.HasAllPkts →
    l.decoder.replies frameId = [frame.encodeTime] ∧
      (10 ≤ frameId → frameId ∈ l.decoder.excludeTenPlayedFrames)

/-- The frames below `n` were moved and no others, and no others have replies. -/
structure AnsweredBelow (n : ℕ) (d : VideoDecoder) (ms : List Move) : Prop where
  le : n ≤ 2 ^ 32
  last : d.lastPlayedFrameId + 1 = .ofNat n
  played : ∀ k : UInt32, k.toNat < n → k ∈ d.playedFrames
  /-- The index of the play loop comes back to 0 after the last frame id. -/
  zero : ¬ d.ReadyAt 0
  behind : ∀ m ∈ ms, m.1.toNat < n
  unanswered : ∀ k : UInt32, n ≤ k.toNat → d.replies k = []
  answered : Answered ⟨d, ms⟩

namespace AnsweredBelow

variable {n : ℕ} {d d' : VideoDecoder} {ms : List Move}

theorem new (delayDdl : Time) (fps : UInt16) : AnsweredBelow 0 (.new delayDdl fps) [] where
  le := Nat.zero_le _
  last := by simp [VideoDecoder.new]
  played := fun _ hk => absurd hk (Nat.not_lt_zero _)
  zero := by
    rintro ⟨frame, hframe, -⟩
    cases hframe
  behind := fun _ hm => absurd hm List.not_mem_nil
  unanswered := fun _ _ => rfl
  answered := fun _ _ hm => absurd hm List.not_mem_nil

/-! ### The loops -/

theorem replies_append (k : UInt32) (log log' : List DecoderEvent)
    (hd : d.log = log) (hd' : d'.log = log ++ log') :
    d'.replies k = d.replies k ++ log'.filterMap fun
      | .replyFrameAck id encodeTime => if id = k then some encodeTime else none
      | _ => none := by
  simp only [replies, hd, hd', List.filterMap_append]

/-- The next frame moves over. It has its reply if it has all its packets, and nothing changes
for the others. -/
theorem move (h : AnsweredBelow n d ms) (hn : n < 2 ^ 32) {v : Option VideoFrame}
    (hmoved : Moved d d') (hlast : d'.lastPlayedFrameId = .ofNat n)
    (hplayed : d'.playedFrames = d.playedFrames.insert (.ofNat n : UInt32) v)
    (hothers : ∀ k, k ≠ .ofNat n → d'.replies k = d.replies k)
    (hexclude : d.excludeTenPlayedFrames ⊆ d'.excludeTenPlayedFrames)
    (hthis : ∀ frame ∈ v, frame.HasAllPkts → d'.replies (.ofNat n) = [frame.encodeTime] ∧
      (10 ≤ UInt32.ofNat n → .ofNat n ∈ d'.excludeTenPlayedFrames)) :
    AnsweredBelow (n + 1) d' (ms ++ [(.ofNat n, v)]) := by
  have htoNat := toNat_ofNat hn
  refine ⟨hn, by rw [hlast, ofNat_succ], fun k hk => ?_, hmoved.not_readyAt h.zero,
    fun m hm => ?_, fun k hk => ?_, fun k f hmem hfull => ?_⟩
  · rw [hplayed, AList.mem_insert]
    rcases Nat.lt_succ_iff_lt_or_eq.mp hk with hlt | heq
    · exact .inr (h.played k hlt)
    · exact .inl (UInt32.toNat_inj.mp (heq.trans htoNat.symm))
  · rcases List.mem_append.mp hm with hm | hm
    · exact Nat.lt_succ_of_lt (h.behind m hm)
    · rw [List.mem_singleton.mp hm, htoNat]
      exact Nat.lt_succ_self n
  · have hne : k ≠ .ofNat n := by
      rintro rfl
      rw [htoNat] at hk
      exact absurd hk (Nat.not_succ_le_self n)
    rw [hothers k hne]
    exact h.unanswered k (Nat.le_of_succ_le hk)
  · rcases List.mem_append.mp hmem with hold | hnew
    · -- an earlier frame keeps its one reply
      obtain ⟨hone, hten⟩ := h.answered k f hold hfull
      have hne : k ≠ .ofNat n := by
        rintro rfl
        have hlt := h.behind _ hold
        rw [htoNat] at hlt
        exact lt_irrefl n hlt
      exact ⟨(hothers k hne).trans hone, fun hk => hexclude (hten hk)⟩
    · obtain ⟨rfl, rfl⟩ := Prod.mk.inj (List.mem_singleton.mp hnew)
      exact hthis f rfl hfull

/-- The next frame is played with a reply. -/
theorem playRound (h : AnsweredBelow n d ms) {frame : VideoFrame}
    (hlookup : d.unplayedFrames.lookup (.ofNat n) = some frame)
    (hcomplete : frame.isComplete = true) :
    AnsweredBelow (n + 1) (d.playRound true (.ofNat n) frame) (ms ++ [(.ofNat n, some frame)]) := by
  have hn : n < 2 ^ 32 := by
    apply lt_of_le_of_ne h.le
    rintro rfl
    exact h.zero ⟨frame, hlookup, hcomplete⟩
  -- the one event that is a reply is about frame `n`
  have hreplies : ∀ k, (d.playRound true (.ofNat n) frame).replies k =
      d.replies k ++ if .ofNat n = k then [frame.encodeTime] else [] := by
    intro k
    rw [replies_append k d.log [.decode (.ofNat n), .replyFrameAck (.ofNat n) frame.encodeTime]
      rfl (by simp [VideoDecoder.playRound, decodeFrame, replyFrameAck])]
    congr 1
    split <;> simp [*]
  have hexclude : (d.playRound true (.ofNat n) frame).excludeTenPlayedFrames =
      if UInt32.ofNat n ≥ 10 then insert (.ofNat n) d.excludeTenPlayedFrames
      else d.excludeTenPlayedFrames := rfl
  have hmoved : Moved d (d.playRound true (.ofNat n) frame) := .playRound true _ frame d
  refine h.move hn hmoved rfl rfl ?_ ?_ ?_
  · intro k hk
    rw [hreplies, if_neg hk.symm, List.append_nil]
  · rw [hexclude]
    split
    · exact Finset.subset_insert _ _
    · exact Finset.Subset.refl _
  · intro f hf hfull
    cases hf
    rw [hreplies, if_pos rfl, h.unanswered _ (toNat_ofNat hn).ge, List.nil_append]
    refine ⟨rfl, fun hk => ?_⟩
    rw [hexclude, if_pos hk]
    exact Finset.mem_insert_self _ _

theorem playFrom (h : AnsweredBelow n d ms) : ∃ n',
    AnsweredBelow n' (d.playFrom true (.ofNat n)) (ms ++ d.playFromMoves true (.ofNat n)) := by
  obtain ⟨-, n', -, h'⟩ := playFromMoves_rule
    (P := fun idx d ms => ∃ n, idx = .ofNat n ∧ AnsweredBelow n d ms) true (.ofNat n) d ms
    ⟨n, rfl, h⟩ (by
      rintro idx d ms frame ⟨n, rfl, h⟩ - hlookup hcomplete
      exact ⟨n + 1, ofNat_succ n, h.playRound hlookup hcomplete⟩)
  exact ⟨n', h'⟩

/-- The next frame is discarded, without all its packets or as a null pointer. -/
theorem discardFrame (h : AnsweredBelow n d ms) (hn : n < 2 ^ 32)
    (hpart : ∀ frame ∈ d.unplayedFrames.lookup (.ofNat n), ¬ frame.HasAllPkts) :
    AnsweredBelow (n + 1) (d.discardFrame (.ofNat n))
      (ms ++ [(.ofNat n, d.unplayedFrames.lookup (.ofNat n))]) := by
  have hreplies : ∀ k, (d.discardFrame (.ofNat n)).replies k = d.replies k := by
    intro k
    rw [replies_append k d.log [.discard (.ofNat n)] rfl rfl]
    simp
  exact h.move hn (.discardFrame _ d) rfl rfl (fun k _ => hreplies k) (Finset.Subset.refl _)
    fun frame hframe hfull => absurd hfull (hpart frame hframe)

/-- No full frame expires, so the catch-up loop finds nothing to play either, up to the last
round; and there the next frame is incomplete. -/
theorem discardLoop (h : AnsweredBelow n d ms) {rounds : ℕ} (hends : n + rounds < 2 ^ 32)
    (hpart : ∀ i < rounds, ∀ frame ∈ d.unplayedFrames.lookup (.ofNat (n + i)),
      ¬ frame.HasAllPkts)
    (hnext : 0 < rounds → ¬ d.ReadyAt (.ofNat (n + rounds))) :
    AnsweredBelow (n + rounds) (d.discardLoop rounds (.ofNat n))
      (ms ++ d.discardMoves rounds (.ofNat n)) := by
  induction rounds generalizing n d ms with
  | zero => simpa [VideoDecoder.discardLoop, discardMoves] using h
  | succ rounds ih =>
      have hdiscard := h.discardFrame (by omega) (hpart 0 (Nat.succ_pos _))
      have hmoved := Moved.discardFrame (.ofNat n) d
      -- the catch-up loop stops at once: the next frame expires too, or is the one behind
      have hready : ¬ (d.discardFrame (.ofNat n)).ReadyAt (.ofNat (n + 1)) := by
        apply hmoved.not_readyAt
        rcases Nat.eq_zero_or_pos rounds with rfl | hmore
        · exact hnext (Nat.succ_pos _)
        · rintro ⟨frame, hframe, hcomplete⟩
          exact hpart 1 (by omega) frame hframe (frame.hasAllPkts_of_isComplete hcomplete)
      have hrest := ih hdiscard (by omega)
        (fun i hi frame hframe => hpart (i + 1) (by omega) frame
          (hmoved.unplayed _ frame (by rw [← hframe, Nat.add_assoc, Nat.add_comm 1 i])))
        (fun hpos => hmoved.not_readyAt
          (by rw [Nat.add_assoc, Nat.add_comm 1]; exact hnext (Nat.succ_pos _)))
      rw [VideoDecoder.discardLoop, discardMoves, ofNat_succ, playFromMoves,
        playMoves_of_not_readyAt hready, VideoDecoder.playFrom, playLoop_of_not_readyAt hready,
        List.nil_append]
      rw [List.append_assoc, List.singleton_append] at hrest
      rw [Nat.add_comm rounds 1, ← Nat.add_assoc]
      exact hrest

/-! ### One packet -/

theorem storePacket (h : AnsweredBelow n d ms) {pkt : DataPacket}
    (hzero : ¬ (pkt.frameId = 0 ∧ (d.frameWith pkt).isComplete = true)) :
    AnsweredBelow n (d.storePacket pkt) ms where
  le := h.le
  last := h.last
  played := h.played
  zero := by
    rintro ⟨frame, hframe, hcomplete⟩
    rw [Waiting.lookup_storePacket] at hframe
    split at hframe
    case isFalse => exact h.zero ⟨frame, hframe, hcomplete⟩
    case isTrue heq =>
      cases hframe
      exact hzero ⟨heq.symm, hcomplete⟩
  behind := h.behind
  unanswered := h.unanswered
  answered := h.answered

theorem playStored (h : AnsweredBelow n d ms) {frameId : UInt32}
    (hzero : frameId = 0 → ¬ d.ReadyAt 0) : ∃ n',
    AnsweredBelow n' (d.playStored frameId) (ms ++ d.storedMoves frameId) := by
  have hstay : AnsweredBelow n d (ms ++ []) := by
    rw [List.append_nil]
    exact h
  unfold VideoDecoder.playStored storedMoves
  cases hlookup : d.unplayedFrames.lookup frameId with
  | none => exact ⟨n, hstay⟩
  | some frame =>
      simp only
      split
      case isFalse => exact ⟨n, hstay⟩
      case isTrue hcomplete =>
        split
        -- the branch for frame 0, which does not reply
        case isTrue hframe =>
          subst hframe
          exact absurd ⟨frame, hlookup, hcomplete⟩ (hzero rfl)
        case isFalse =>
          split
          case isFalse => exact ⟨n, hstay⟩
          case isTrue hnext =>
            rw [hnext, h.last]
            exact h.playFrom

/-- The frame of the packet after the discard loop: the one that waited, or a new one. -/
theorem frameWith_afterDiscards (h : AnsweredBelow n d ms) {pkt : DataPacket}
    (hzero : pkt.frameId = 0) (hmem : pkt.frameId ∉ d.playedFrames) :
    (d.afterDiscards pkt.frameId).frameWith pkt =
      if d.discardRounds pkt.frameId = 0 then d.frameWith pkt else .new pkt := by
  have hn : n = 0 := by
    by_contra hne
    exact hmem (h.played pkt.frameId (by rw [hzero]; exact Nat.pos_of_ne_zero hne))
  have hfirst : d.lastPlayedFrameId + 1 = 0 := by
    rw [h.last, hn]
    rfl
  split
  case isTrue hnone => rw [afterDiscards, hnone, VideoDecoder.discardLoop]
  case isFalse hsome =>
    have hgone := discardLoop_lookup_first d (Nat.pos_of_ne_zero hsome) 0
    rw [frameWith, afterDiscards, hfirst]
    rw [hzero] at hgone ⊢
    rw [hgone]

theorem decodePacket (h : AnsweredBelow n d ms) {pkt : DataPacket} (hsilent : d.NoneSilent pkt)
    (hstep : d.decodePacket pkt = some d') : ∃ n', AnsweredBelow n' d' (ms ++ d.moves pkt) := by
  rcases decodePacket_eq_some hstep with ⟨hmem, rfl⟩ | ⟨hmem, hends, rfl⟩
  · rw [VideoDecoder.moves, if_pos hmem, List.append_nil]
    exact ⟨n, h⟩
  · obtain ⟨hpart, hnext, hzero⟩ := hsilent.resolve_left hmem
    have hn : n < 2 ^ 32 := by
      apply lt_of_le_of_ne h.le
      rintro rfl
      exact hmem (h.played _ pkt.frameId.toNat_lt)
    rw [h.last, toNat_ofNat hn] at hends
    have hdiscards := h.discardLoop hends
      (fun i hi frame hframe => hpart i hi frame (by rw [h.last, ← UInt32.ofNat_add]; exact hframe))
      (fun hpos => by
        rintro ⟨frame, hframe, hcomplete⟩
        have := hnext hpos frame (by rw [h.last, ← UInt32.ofNat_add]; exact hframe)
        rw [hcomplete] at this
        cases this)
    rw [← h.last] at hdiscards
    have hstored := @storePacket _ _ _ hdiscards pkt (by
      rintro ⟨hframe, hcomplete⟩
      change ((d.afterDiscards pkt.frameId).frameWith pkt).isComplete = true at hcomplete
      rw [h.frameWith_afterDiscards hframe hmem] at hcomplete
      exact hzero ⟨hframe, hcomplete⟩)
    obtain ⟨n', h'⟩ := @playStored _ _ _ hstored pkt.frameId fun _ => hstored.zero
    rw [VideoDecoder.moves, if_neg hmem, ← List.append_assoc]
    exact ⟨n', h'⟩

end AnsweredBelow

/-- In every run in which no full frame is moved in silence, every full frame that was played
is answered once. -/
theorem answered_of_noneSilent {delayDdl : Time} {fps : UInt16} {pkts : List DataPacket}
    (h : Run.Each step (fun l pkt => l.decoder.NoneSilent pkt) (.new delayDdl fps) pkts) :
    Run.Always step Answered (.new delayDdl fps) pkts := by
  have hinv : Run.Always step (fun l => ∃ n, AnsweredBelow n l.decoder l.moves)
      (.new delayDdl fps) pkts := by
    refine h.always (fun l pkt l' ⟨n, hl⟩ hsilent hstep => ?_) ⟨0, .new delayDdl fps⟩
    obtain ⟨d, hd, rfl⟩ := Option.map_eq_some_iff.mp hstep
    exact hl.decodePacket hsilent hd
  exact hinv.mono fun l ⟨_, hl⟩ => hl.answered

/-- Frame 0 expires before any of its packets came. The frames 1 and 2 are played and answered. -/
theorem answered_of_noneSilent_expired :
    Run.Always step Answered (.new (.milliSeconds 100) 30)
      [.new 3 0 2 0, .new 1 0 1 0, .new 2 0 1 0] ∧
    ∃ l, Run.exec step (.new (.milliSeconds 100) 30) [.new 3 0 2 0, .new 1 0 1 0, .new 2 0 1 0]
      = some l ∧ l.moves.map Prod.fst = [0, 1, 2] ∧ l.decoder.replies 2 = [0] :=
  ⟨answered_of_noneSilent (by decide +kernel), by decide +kernel⟩

/-- The only packet of frame 0 completes it: the frame is played, without a reply. -/
theorem not_answered_of_frameZero :
    ¬ ∀ (delayDdl : Time) (fps : UInt16) (pkts : List DataPacket),
      Run.Always step Answered (.new delayDdl fps) pkts := by
  intro hclaim
  obtain ⟨l, hrun, m, hm, frame, hframe, hfull, hreplies⟩ :
      ∃ l, Run.exec step (.new (.milliSeconds 100) 30) [.new 0 0 1 0] = some l ∧
        ∃ m ∈ l.moves, ∃ frame ∈ m.2, frame.HasAllPkts ∧ l.decoder.replies m.1 = [] := by
    decide +kernel
  have hanswered := (hclaim (.milliSeconds 100) 30 [.new 0 0 1 0]).exec hrun
  have hmem : (m.1, some frame) ∈ l.moves := by
    rw [← Option.mem_def.mp hframe]
    exact hm
  have hone := (hanswered m.1 frame hmem hfull).1
  rw [hreplies] at hone
  cases hone

end DecoderLog

end Zhuge
