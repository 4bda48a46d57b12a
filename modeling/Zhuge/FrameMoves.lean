-- SUMMARY: The moves from unplayed_frames to played_frames that a packet causes, in order, and the rules that carry an invariant along them.
import Zhuge.ReadyFrames

/-!
# Moves

What `played_frames` holds under an id is the last thing that was stored there. The statements
about everything that ever entered it are about the list of moves: one entry a store, in the
order of the stores.
-/

namespace Zhuge

/-- The frame has as many different packets as it expects. The test in the loops compares the
counts in 16 bits. -/
def VideoFrame.HasAllPkts (f : VideoFrame) : Prop := f.dataPktNum.toNat ≤ f.pkts.card

instance : DecidablePred VideoFrame.HasAllPkts := fun _ => inferInstanceAs (Decidable (_ ≤ _))

theorem VideoFrame.hasAllPkts_of_isComplete {f : VideoFrame} (h : f.isComplete = true) :
    f.HasAllPkts := by
  have hcount : f.dataPktNum = .ofNat f.pkts.card := by
    simpa [isComplete, getDataPktRcvedNum] using h
  rw [HasAllPkts, hcount, UInt16.toNat_ofNat']
  exact Nat.mod_le _ _

/-- A store to `playedFrames`: the id and what is stored under it. -/
abbrev Move := UInt32 × Option VideoFrame

namespace VideoDecoder

/-! ## The moves of each loop -/

def playMoves (reply : Bool) : ℕ → UInt32 → VideoDecoder → List Move
  | 0, _, _ => []
  | rounds + 1, idx, d =>
    if idx ≤ d.maxFrameId then
      match d.unplayedFrames.lookup idx with
      | none => []
      | some frame =>
        if frame.isComplete then
          (idx, some frame) :: playMoves reply rounds (idx + 1) (d.playRound reply idx frame)
        else []
    else []

def playFromMoves (reply : Bool) (idx : UInt32) (d : VideoDecoder) : List Move :=
  playMoves reply (Dict.size d.unplayedFrames) idx d

def discardMoves : ℕ → UInt32 → VideoDecoder → List Move
  | 0, _, _ => []
  | rounds + 1, idx, d =>
    (idx, d.unplayedFrames.lookup idx) :: ((d.discardFrame idx).playFromMoves false (idx + 1) ++
      discardMoves rounds (idx + 1) ((d.discardFrame idx).playFrom false (idx + 1)))

def storedMoves (frameId : UInt32) (d : VideoDecoder) : List Move :=
  match d.unplayedFrames.lookup frameId with
  | none => []
  | some frame =>
    if frame.isComplete then
      if frameId = 0 then [(frameId, some frame)]
      else if frameId = d.lastPlayedFrameId + 1 then d.playFromMoves true frameId
      else []
    else []

/-- The state between the discard loop and the packet. -/
def afterDiscards (frameId : UInt32) (d : VideoDecoder) : VideoDecoder :=
  d.discardLoop (d.discardRounds frameId) (d.lastPlayedFrameId + 1)

/-- The moves of one packet. -/
def moves (d : VideoDecoder) (pkt : DataPacket) : List Move :=
  if pkt.frameId ∈ d.playedFrames then []
  else d.discardMoves (d.discardRounds pkt.frameId) (d.lastPlayedFrameId + 1) ++
    ((d.afterDiscards pkt.frameId).storePacket pkt).storedMoves pkt.frameId

/-- A packet of a played frame changes nothing. With any other, the discard loop comes to an
end in front of the last id, and the packet is stored and played after it. -/
theorem decodePacket_eq_some {d d' : VideoDecoder} {pkt : DataPacket}
    (h : d.decodePacket pkt = some d') :
    (pkt.frameId ∈ d.playedFrames ∧ d' = d) ∨
      (pkt.frameId ∉ d.playedFrames ∧
        (d.lastPlayedFrameId + 1).toNat + d.discardRounds pkt.frameId < 2 ^ 32 ∧
        d' = ((d.afterDiscards pkt.frameId).storePacket pkt).playStored pkt.frameId) := by
  unfold decodePacket at h
  split at h
  case isTrue hmem =>
    cases h
    exact .inl ⟨hmem, rfl⟩
  case isFalse hmem =>
    obtain ⟨d₁, hdiscard, rfl⟩ := Option.map_eq_some_iff.mp h
    unfold discardExpired at hdiscard
    simp only at hdiscard
    split at hdiscard
    case isTrue => cases hdiscard
    case isFalse =>
      split at hdiscard
      case isTrue => cases hdiscard
      case isFalse hends =>
        cases hdiscard
        refine .inr ⟨hmem, ?_, rfl⟩
        have hfirst := (d.lastPlayedFrameId + 1).toNat_lt
        rw [discardRounds]
        omega

/-! ## What is played is what was moved -/

/-- The stores, one after the other. -/
def store (played : Dict UInt32 (Option VideoFrame)) (moves : List Move) :
    Dict UInt32 (Option VideoFrame) :=
  moves.foldl (fun played m => played.insert m.1 m.2) played

theorem playedFrames_playRound (reply : Bool) (idx : UInt32) (frame : VideoFrame)
    (d : VideoDecoder) :
    (d.playRound reply idx frame).playedFrames = d.playedFrames.insert idx (some frame) := by
  cases reply <;> rfl

/-- The loop is the loop with the rounds as they are named for the rules. -/
theorem playLoop_succ (reply : Bool) (rounds : ℕ) (idx : UInt32) (d : VideoDecoder)
    {frame : VideoFrame} (hmax : idx ≤ d.maxFrameId)
    (hlookup : d.unplayedFrames.lookup idx = some frame) (hcomplete : frame.isComplete = true) :
    d.playLoop reply (rounds + 1) idx =
      (d.playRound reply idx frame).playLoop reply rounds (idx + 1) := by
  simp only [playLoop, if_pos hmax, hlookup, hcomplete, if_true]
  cases reply <;> rfl

/-- Where no complete frame waits, the loop moves nothing. -/
theorem playMoves_of_not_readyAt {d : VideoDecoder} {idx : UInt32} (h : ¬ d.ReadyAt idx)
    (reply : Bool) (rounds : ℕ) : d.playMoves reply rounds idx = [] := by
  cases rounds with
  | zero => rfl
  | succ rounds =>
      simp only [playMoves]
      split
      case isFalse => rfl
      case isTrue =>
        cases hlookup : d.unplayedFrames.lookup idx with
        | none => rfl
        | some frame =>
            simp only
            split
            case isFalse => rfl
            case isTrue hcomplete => exact absurd ⟨frame, hlookup, hcomplete⟩ h

/-- What every round keeps, the move it makes included, holds at the end of the loop. -/
theorem playMoves_rule {P : UInt32 → VideoDecoder → List Move → Prop} {reply : Bool}
    (hplay : ∀ idx d ms frame, P idx d ms → idx ≤ d.maxFrameId →
      d.unplayedFrames.lookup idx = some frame → frame.isComplete = true →
      P (idx + 1) (d.playRound reply idx frame) (ms ++ [(idx, some frame)]))
    {idx : UInt32} {d : VideoDecoder} {ms : List Move} (h : P idx d ms) (rounds : ℕ) :
    ∃ idx', P idx' (d.playLoop reply rounds idx) (ms ++ d.playMoves reply rounds idx) := by
  induction rounds generalizing idx d ms with
  | zero => exact ⟨idx, by simpa [playLoop, playMoves] using h⟩
  | succ rounds ih =>
      by_cases hready : d.ReadyAt idx
      · obtain ⟨frame, hlookup, hcomplete⟩ := hready
        by_cases hmax : idx ≤ d.maxFrameId
        · obtain ⟨idx', hP⟩ := ih (hplay idx d ms frame h hmax hlookup hcomplete)
          refine ⟨idx', ?_⟩
          rw [playLoop_succ reply rounds idx d hmax hlookup hcomplete]
          rw [playMoves, if_pos hmax, hlookup]
          simpa [hcomplete] using hP
        · refine ⟨idx, ?_⟩
          simpa [playLoop, playMoves, hmax] using h
      · refine ⟨idx, ?_⟩
        rw [playLoop_of_not_readyAt hready, playMoves_of_not_readyAt hready, List.append_nil]
        exact h

/-- The same for `playFrom`, on top of moves made before. -/
theorem playFromMoves_rule {P : UInt32 → VideoDecoder → List Move → Prop} (reply : Bool)
    (idx : UInt32) (d : VideoDecoder) (ms : List Move) (h : P idx d ms)
    (hplay : ∀ idx d ms frame, P idx d ms → idx ≤ d.maxFrameId →
      d.unplayedFrames.lookup idx = some frame → frame.isComplete = true →
      P (idx + 1) (d.playRound reply idx frame) (ms ++ [(idx, some frame)])) :
    ∃ idx', P idx' (d.playFrom reply idx) (ms ++ d.playFromMoves reply idx) :=
  playMoves_rule hplay h (Dict.size d.unplayedFrames)

theorem playedFrames_playFrom (reply : Bool) (idx : UInt32) (d : VideoDecoder) :
    (d.playFrom reply idx).playedFrames =
      store d.playedFrames (d.playFromMoves reply idx) := by
  obtain ⟨-, h⟩ := playFromMoves_rule
    (P := fun _ d' ms => d'.playedFrames = store d.playedFrames ms) reply idx d [] rfl
    fun idx d' ms frame h _ _ _ => by
      rw [playedFrames_playRound, h, store, store, List.foldl_append]
      rfl
  exact h

theorem playedFrames_discardLoop (rounds : ℕ) (idx : UInt32) (d : VideoDecoder) :
    (d.discardLoop rounds idx).playedFrames =
      store d.playedFrames (d.discardMoves rounds idx) := by
  induction rounds generalizing idx d with
  | zero => rfl
  | succ rounds ih =>
      rw [discardLoop, ih, playedFrames_playFrom, discardMoves]
      simp only [store, List.foldl_cons, List.foldl_append]
      rfl

theorem playedFrames_playStored (frameId : UInt32) (d : VideoDecoder) :
    (d.playStored frameId).playedFrames = store d.playedFrames (d.storedMoves frameId) := by
  unfold playStored storedMoves
  cases d.unplayedFrames.lookup frameId with
  | none => rfl
  | some frame =>
      simp only
      split
      case isFalse => rfl
      case isTrue =>
        split
        case isTrue => rfl
        case isFalse =>
          split
          case isTrue => exact playedFrames_playFrom true frameId d
          case isFalse => rfl

/-- The moves of a packet are all that changes what is played. -/
theorem playedFrames_decodePacket {d d' : VideoDecoder} {pkt : DataPacket}
    (h : d.decodePacket pkt = some d') :
    d'.playedFrames = store d.playedFrames (d.moves pkt) := by
  rcases decodePacket_eq_some h with ⟨hmem, rfl⟩ | ⟨hmem, -, rfl⟩
  · rw [moves, if_pos hmem]
    rfl
  · rw [playedFrames_playStored, moves, if_neg hmem, store, store, List.foldl_append]
    have hdiscards := playedFrames_discardLoop (d.discardRounds pkt.frameId)
      (d.lastPlayedFrameId + 1) d
    change List.foldl _ (d.afterDiscards pkt.frameId).playedFrames _ = _
    rw [afterDiscards, hdiscards]
    rfl

end VideoDecoder

/-! ## A decoder and all its moves -/

structure DecoderLog where
  decoder : VideoDecoder
  moves : List Move

namespace DecoderLog

def new (delayDdl : Time) (fps : UInt16) : DecoderLog := ⟨.new delayDdl fps, []⟩

def step (l : DecoderLog) (pkt : DataPacket) : Option DecoderLog :=
  (l.decoder.decodePacket pkt).map fun d => ⟨d, l.moves ++ l.decoder.moves pkt⟩

/-- The decoder runs as it does without the record of its moves. -/
theorem exec_decoder (l : DecoderLog) (pkts : List DataPacket) :
    (Run.exec step l pkts).map decoder = VideoDecoder.decodeDataPacket pkts l.decoder := by
  induction pkts generalizing l with
  | nil => rfl
  | cons pkt pkts ih =>
      simp only [VideoDecoder.decodeDataPacket, Run.exec, step]
      cases l.decoder.decodePacket pkt with
      | none => rfl
      | some d => exact ih ⟨d, _⟩

/-- In every run, what is played is what was moved. -/
theorem playedFrames_exec {delayDdl : Time} {fps : UInt16} {pkts : List DataPacket}
    {l : DecoderLog} (h : Run.exec step (.new delayDdl fps) pkts = some l) :
    l.decoder.playedFrames = VideoDecoder.store ∅ l.moves := by
  refine Run.exec_invariant (P := fun l => l.decoder.playedFrames = VideoDecoder.store ∅ l.moves)
    (fun l pkt l' hl hstep => ?_) rfl h
  obtain ⟨d, hd, rfl⟩ := Option.map_eq_some_iff.mp hstep
  rw [VideoDecoder.playedFrames_decodePacket hd, hl]
  exact (List.foldl_append ..).symm

end DecoderLog

end Zhuge
