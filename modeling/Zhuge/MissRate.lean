-- SUMMARY: The deadline-miss rate that the decoder reports is the true one, as long as every frame that expires is full and the number of frames fits in 32 bits.
import Zhuge.FrameMoves
import Zhuge.Playback
import Zhuge.Lib.Binary64

/-!
# The deadline-miss rate

`GetDDLMissRate` takes every entry of `played_frames` for a frame that was played. The loops
also store there what they give up: frames without all their packets, and null pointers, which
the sum of the delays then dereferences.
-/

namespace Zhuge

namespace VideoDecoder

/-- `none`: it dereferences a null pointer. The number of frames is computed in 32 bits. -/
def getDDLMissRate (d : VideoDecoder) : Option Binary64 :=
  let frameRcvdCnt := Dict.size d.playedFrames
  let frameTotalCnt := (d.maxFrameId - d.minFrameId + 1).toNat
  if frameTotalCnt = 0 then some (.ofNat 0)
  else d.frameDelays.map fun _ =>
    .div (.sub (.ofNat frameTotalCnt) (.ofNat frameRcvdCnt)) (.ofNat frameTotalCnt)

/-- The packet is the last one of the frame with the last id, and every other frame is played by
then: the frames before the first that expires are, and behind those that expire all others wait
for the catch-up loop. -/
def FillsUp (d : VideoDecoder) (pkt : DataPacket) : Prop :=
  (d.frameWith pkt).isComplete = true ∧
    (∀ k < d.lastPlayedFrameId + 1, k ∈ d.playedFrames) ∧
    ∀ k < pkt.frameId,
      (d.lastPlayedFrameId + 1).toNat + d.discardRounds pkt.frameId ≤ k.toNat →
        0 < d.discardRounds pkt.frameId ∧ d.ReadyAt k

/-- Every frame that expires is full, and behind the first one none passes the test of the
catch-up loop, which would play it too early. A frame 0 that its own packet completes after it
expired is stored again. -/
def ExpiresFull (d : VideoDecoder) (pkt : DataPacket) : Prop :=
  ∀ i < d.discardRounds pkt.frameId,
    (d.lastPlayedFrameId + 1 + .ofNat i = 0 ∧ pkt.frameId = 0 ∧ pkt.framePktNum = 1) ∨
      ∃ frame ∈ d.unplayedFrames.lookup (d.lastPlayedFrameId + 1 + .ofNat i),
        frame.HasAllPkts ∧ (i = 0 ∨ frame.isComplete = false)

instance (d : VideoDecoder) (pkt : DataPacket) : Decidable (d.ExpiresFull pkt) :=
  inferInstanceAs (Decidable (∀ i < d.discardRounds pkt.frameId, _))

/-- The packet is late, or what expires is full and the packet is not of the frame with the last
id unless every frame is played with it. -/
def KeepsCount (d : VideoDecoder) (pkt : DataPacket) : Prop :=
  pkt.frameId ∈ d.playedFrames ∨
    d.ExpiresFull pkt ∧ (pkt.frameId = -1 → d.FillsUp pkt)

/-! ## The play loop up to an id -/

/-- With complete frames all the way up to `top`, the play loop takes all of them. -/
theorem playFrom_reaches {d : VideoDecoder} {idx top : UInt32} (hmax : d.BelowMax)
    (hlast : d.lastPlayedFrameId + 1 = idx) (hle : idx.toNat ≤ top.toNat)
    (hready : ∀ k : UInt32, idx.toNat ≤ k.toNat → k < top → d.ReadyAt k)
    (hnone : d.unplayedFrames.lookup top = none) (reply : Bool) :
    (d.playFrom reply idx).lastPlayedFrameId + 1 = top ∧
      ∀ k : UInt32, idx.toNat ≤ k.toNat → k < top → k ∈ (d.playFrom reply idx).playedFrames := by
  obtain ⟨idx', ⟨hlo, hhi, hlast', hplayed, hsame⟩, hstop⟩ := playFrom_rule
    (P := fun idx' d' => idx.toNat ≤ idx'.toNat ∧ idx'.toNat ≤ top.toNat ∧
      d'.lastPlayedFrameId + 1 = idx' ∧
      (∀ k : UInt32, idx.toNat ≤ k.toNat → k < idx' → k ∈ d'.playedFrames) ∧
      ∀ k : UInt32, idx'.toNat ≤ k.toNat →
        d'.unplayedFrames.lookup k = d.unplayedFrames.lookup k) reply idx d
    ⟨le_rfl, hle, hlast, fun k hk hlt => absurd hlt (not_lt.mpr hk), fun _ _ => rfl⟩ (by
      rintro idx' d' frame ⟨hlo, hhi, -, hplayed, hsame⟩ - hlookup -
      -- nothing waits under `top`, so the loop has not come to it yet
      have hne : idx' ≠ top := by
        rintro rfl
        rw [hsame idx' le_rfl, hnone] at hlookup
        cases hlookup
      have hlt : idx'.toNat < top.toNat :=
        lt_of_le_of_ne hhi fun heq => hne (UInt32.toNat_inj.mp heq)
      have htop := top.toNat_lt
      have hnext : (idx' + 1).toNat = idx'.toNat + 1 := by
        rw [UInt32.toNat_add, UInt32.toNat_one]
        omega
      refine ⟨by omega, by omega, by cases reply <;> rfl, fun k hk hk' => ?_, fun k hk => ?_⟩
      · rw [playedFrames_playRound, AList.mem_insert]
        rcases Nat.lt_succ_iff_lt_or_eq.mp (hnext ▸ UInt32.lt_iff_toNat_lt.mp hk') with hlt | heq
        · exact .inr (hplayed k hk hlt)
        · exact .inl (UInt32.toNat_inj.mp heq)
      · have hk' : k ≠ idx' := by
          rintro rfl
          omega
        rw [unplayedFrames_playRound, AList.lookup_erase_ne hk']
        exact hsame k (by omega))
  -- the loop stopped at an id where no complete frame waits, and below `top` there is none
  have hend : idx' = top := by
    by_contra hne
    have hlt : idx' < top := lt_of_le_of_ne hhi fun heq => hne (UInt32.toNat_inj.mp heq)
    obtain ⟨frame, hframe, hcomplete⟩ := hready idx' hlo hlt
    rw [← hsame idx' le_rfl] at hframe
    exact hstop ((Moved.playFrom reply idx d).belowMax hmax idx' frame hframe)
      ⟨frame, hframe, hcomplete⟩
  subst hend
  exact ⟨hlast', hplayed⟩

/-- The same for a discard loop that runs: what expires is moved over, the rest is played by
the catch-up loop after the last round. -/
theorem discardLoop_reaches {d : VideoDecoder} {rounds : ℕ} {idx top : UInt32}
    (hmax : d.BelowMax) (hpos : 0 < rounds) (hle : idx.toNat + rounds ≤ top.toNat)
    (hpart : ∀ i < rounds, i ≠ 0 → ¬ d.ReadyAt (idx + .ofNat i))
    (hready : ∀ k : UInt32, idx.toNat + rounds ≤ k.toNat → k < top → d.ReadyAt k)
    (hnone : d.unplayedFrames.lookup top = none) :
    (d.discardLoop rounds idx).lastPlayedFrameId + 1 = top ∧
      ∀ k : UInt32, idx.toNat ≤ k.toNat → k < top →
        k ∈ (d.discardLoop rounds idx).playedFrames := by
  induction rounds generalizing d idx with
  | zero => exact absurd hpos (lt_irrefl 0)
  | succ rounds ih =>
      have htop := top.toNat_lt
      have hnext : (idx + 1).toNat = idx.toNat + 1 := by
        rw [UInt32.toNat_add, UInt32.toNat_one]
        omega
      have hmoved := Moved.discardFrame idx d
      have hmem : idx ∈ (d.discardFrame idx).playedFrames := (AList.mem_insert _).mpr (.inl rfl)
      have hother : ∀ k, k ≠ idx →
          (d.discardFrame idx).unplayedFrames.lookup k = d.unplayedFrames.lookup k :=
        fun k hk => AList.lookup_erase_ne hk
      have hnone' : (d.discardFrame idx).unplayedFrames.lookup top = none := by
        rw [hother top (by rintro rfl; omega)]
        exact hnone
      have hready' : ∀ k : UInt32, idx.toNat + (rounds + 1) ≤ k.toNat → k < top →
          (d.discardFrame idx).ReadyAt k := by
        intro k hk hlt
        rw [ReadyAt, hother k (by rintro rfl; omega)]
        exact hready k hk hlt
      have hfirst : ∀ d', Moved (d.discardFrame idx) d' →
          (∀ k : UInt32, (idx + 1).toNat ≤ k.toNat → k < top → k ∈ d'.playedFrames) →
          ∀ k : UInt32, idx.toNat ≤ k.toNat → k < top → k ∈ d'.playedFrames := by
        intro d' hmoved' hrest k hk hlt
        rcases hk.lt_or_eq with hk | hk
        · exact hrest k (by omega) hlt
        · rw [← UInt32.toNat_inj.mp hk]
          exact hmoved'.played idx hmem
      rw [VideoDecoder.discardLoop]
      rcases Nat.eq_zero_or_pos rounds with rfl | hmore
      · -- the last round: its catch-up loop plays the rest
        have hcursor : (d.discardFrame idx).lastPlayedFrameId + 1 = idx + 1 := rfl
        obtain ⟨hlast, hplayed⟩ := playFrom_reaches (hmoved.belowMax hmax) hcursor (by omega)
          (fun k hk hlt => hready' k (by omega) hlt) hnone' false
        exact ⟨hlast, hfirst _ (.playFrom false _ _) hplayed⟩
      · -- more rounds: this catch-up loop finds nothing
        have hincomplete : ¬ (d.discardFrame idx).ReadyAt (idx + 1) :=
          hmoved.not_readyAt (hpart 1 (by omega) one_ne_zero)
        have hsame : (d.discardFrame idx).playFrom false (idx + 1) = d.discardFrame idx :=
          playLoop_of_not_readyAt hincomplete false _
        rw [hsame]
        have hle' : (idx + 1).toNat + rounds ≤ top.toNat := by omega
        obtain ⟨hlast, hplayed⟩ := ih (hmoved.belowMax hmax) hmore hle'
          (fun i hi _ => hmoved.not_readyAt (by
            have := hpart (i + 1) (by omega) (Nat.succ_ne_zero i)
            rwa [UInt32.add_assoc, UInt32.add_comm 1, ofNat_succ]))
          (fun k hk hlt => hready' k (by omega) hlt) hnone'
        exact ⟨hlast, hfirst _ (.discardLoop rounds _ _) hplayed⟩

theorem mem_playFrom {d : VideoDecoder} {idx : UInt32} (hmax : d.BelowMax) (hready : d.ReadyAt idx)
    (reply : Bool) : idx ∈ (d.playFrom reply idx).playedFrames := by
  obtain ⟨idx', h | h, hstop⟩ := playFrom_rule
    (P := fun idx' d' => (idx' = idx ∧ d' = d) ∨ idx ∈ d'.playedFrames) reply idx d
    (.inl ⟨rfl, rfl⟩) (by
      rintro idx' d' frame h - - -
      rw [playedFrames_playRound, AList.mem_insert]
      exact .inr (h.imp (·.1.symm) id))
  · obtain ⟨rfl, hsame⟩ := h
    rw [hsame] at hstop
    obtain ⟨frame, hframe, hcomplete⟩ := hready
    exact absurd ⟨frame, hframe, hcomplete⟩ (hstop (hmax _ frame hframe))
  · exact h

theorem mem_playStored {d : VideoDecoder} {frameId : UInt32} (hmax : d.BelowMax)
    (hready : d.ReadyAt frameId) (hzero : frameId ≠ 0) (hnext : d.lastPlayedFrameId + 1 = frameId) :
    frameId ∈ (d.playStored frameId).playedFrames := by
  have hmem := mem_playFrom hmax hready true
  obtain ⟨frame, hlookup, hcomplete⟩ := hready
  rw [Option.mem_def] at hlookup
  simp only [playStored, hlookup, hcomplete, if_true, if_neg hzero, if_pos hnext.symm]
  exact hmem

end VideoDecoder

/-! ## The true rate -/

namespace DecoderLog

open VideoDecoder

/-- The frame was moved with all its packets. -/
def PlayedWhole (ms : List Move) (frameId : UInt32) : Prop :=
  ∃ m ∈ ms, m.1 = frameId ∧ ∃ frame ∈ m.2, frame.HasAllPkts

instance (ms : List Move) (frameId : UInt32) : Decidable (PlayedWhole ms frameId) :=
  inferInstanceAs (Decidable (∃ m ∈ ms, _))

/-- The ids between the least and the greatest that were not. -/
def missed (l : DecoderLog) : Finset ℕ :=
  (Finset.Icc l.decoder.minFrameId.toNat l.decoder.maxFrameId.toNat).filter
    fun k => ¬ PlayedWhole l.moves (.ofNat k)

def missRate (l : DecoderLog) : Binary64 :=
  .div (.ofNat l.missed.card)
    (.ofNat (l.decoder.maxFrameId.toNat - l.decoder.minFrameId.toNat + 1))

/-- The rate is a fraction. -/
theorem missRate_mem_unit (l : DecoderLog) : 0 ≤ l.missRate.val ∧ l.missRate.val ≤ 1 := by
  refine Binary64.div_ofNat_mem_unit ((Finset.card_filter_le _ _).trans ?_)
  rw [Nat.card_Icc]
  omega

/-! ## The invariant -/

/-- Every entry of `playedFrames` is a frame that was moved with all its packets, except
perhaps that of frame 0, while `z` says that it is about to be replaced. -/
structure CountsWhole (z : Prop) (d : VideoDecoder) (ms : List Move) : Prop where
  minFrameId : d.minFrameId = 0
  belowMax : d.BelowMax
  le_max : ∀ k ∈ d.playedFrames, k ≤ d.maxFrameId
  frames : ∀ k, ¬ (z ∧ k = 0) → ∀ v, d.playedFrames.lookup k = some v → v ≠ none
  whole : ∀ k, ¬ (z ∧ k = 0) → (k ∈ d.playedFrames ↔ PlayedWhole ms k)

/-- When the number of frames is past 32 bits, all of them were played. -/
def Full (d : VideoDecoder) : Prop := d.maxFrameId = -1 → ∀ k, k ∈ d.playedFrames

namespace CountsWhole

variable {z z' : Prop} {d d' : VideoDecoder} {ms : List Move}

theorem new (delayDdl : Time) (fps : UInt16) : CountsWhole False (.new delayDdl fps) [] where
  minFrameId := rfl
  belowMax := fun _ _ hframe => by cases hframe
  le_max := fun k hk => absurd hk (AList.notMem_empty k)
  frames := fun _ _ _ hv => by cases hv
  whole := fun k _ => iff_of_false (AList.notMem_empty k) (by rintro ⟨m, hm, -⟩; cases hm)

theorem playedWhole_append (ms : List Move) (m : Move) (k : UInt32) :
    PlayedWhole (ms ++ [m]) k ↔
      PlayedWhole ms k ∨ (m.1 = k ∧ ∃ frame ∈ m.2, frame.HasAllPkts) := by
  simp [PlayedWhole, or_and_right, exists_or]

/-- A full frame moves over, or what frame 0 is replaced by later. A full frame 0 replaces it. -/
theorem store (h : CountsWhole z d ms) {idx : UInt32} {v : Option VideoFrame}
    (hmax : idx ≤ d.maxFrameId) (hz : z → z' ∨ idx = 0)
    (hv : (z' ∧ idx = 0) ∨ ∃ frame ∈ v, frame.HasAllPkts) (hmoved : Moved d d')
    (hmin : d'.minFrameId = d.minFrameId)
    (hplayed : d'.playedFrames = d.playedFrames.insert idx v) :
    CountsWhole z' d' (ms ++ [(idx, v)]) where
  minFrameId := hmin.trans h.minFrameId
  belowMax := hmoved.belowMax h.belowMax
  le_max := by
    intro k hk
    rw [hmoved.maxFrameId]
    rw [hplayed, AList.mem_insert] at hk
    rcases hk with rfl | hk
    · exact hmax
    · exact h.le_max k hk
  frames := by
    intro k hk w hw
    rw [hplayed, Dict.lookup_insert_eq] at hw
    split at hw
    case isTrue heq =>
      subst heq
      cases hw
      obtain ⟨frame, hframe, -⟩ := hv.resolve_left hk
      rw [Option.mem_def.mp hframe]
      exact Option.some_ne_none frame
    case isFalse hne =>
      exact h.frames k (fun hzk => (hz hzk.1).elim (fun hz' => hk ⟨hz', hzk.2⟩)
        fun hidx => hne (hzk.2.trans hidx.symm)) w hw
  whole := by
    intro k hk
    rw [hplayed, AList.mem_insert, playedWhole_append]
    by_cases heq : k = idx
    · -- the new entry
      subst heq
      exact iff_of_true (.inl rfl) (.inr ⟨rfl, hv.resolve_left hk⟩)
    · rw [h.whole k fun hzk => (hz hzk.1).elim (fun hz' => hk ⟨hz', hzk.2⟩)
        fun hidx => heq (hzk.2.trans hidx.symm)]
      simp [heq, Ne.symm heq]

theorem clear (h : CountsWhole z d ms) (hz : ¬ z) : CountsWhole False d ms where
  minFrameId := h.minFrameId
  belowMax := h.belowMax
  le_max := h.le_max
  frames k _ := h.frames k fun hzk => hz hzk.1
  whole k _ := h.whole k fun hzk => hz hzk.1

/-! ### The loops -/

theorem playRound (h : CountsWhole z d ms) (reply : Bool) {idx : UInt32} {frame : VideoFrame}
    (hmax : idx ≤ d.maxFrameId) (hcomplete : frame.isComplete = true) :
    CountsWhole z (d.playRound reply idx frame) (ms ++ [(idx, some frame)]) :=
  h.store hmax .inl (.inr ⟨frame, rfl, frame.hasAllPkts_of_isComplete hcomplete⟩)
    (.playRound reply idx frame d) (by cases reply <;> rfl)
    (playedFrames_playRound reply idx frame d)

theorem playFrom (h : CountsWhole z d ms) (reply : Bool) (idx : UInt32) :
    CountsWhole z (d.playFrom reply idx) (ms ++ d.playFromMoves reply idx) := by
  obtain ⟨-, h'⟩ := playFromMoves_rule (P := fun _ d ms => CountsWhole z d ms) reply idx d ms h
    fun idx d ms frame h hmax _ hcomplete => h.playRound reply hmax hcomplete
  exact h'

/-- What the discard loop finds under the ids it goes over. -/
def Expires (z : Prop) (d : VideoDecoder) (rounds : ℕ) (idx : UInt32) : Prop :=
  ∀ i < rounds, (z ∧ idx + .ofNat i = 0) ∨
    ∃ frame ∈ d.unplayedFrames.lookup (idx + .ofNat i),
      frame.HasAllPkts ∧ (i = 0 ∨ frame.isComplete = false)

theorem discardFrame (h : CountsWhole z d ms) {idx : UInt32}
    (hv : (z ∧ idx = 0) ∨ ∃ frame ∈ d.unplayedFrames.lookup idx, frame.HasAllPkts) :
    CountsWhole z (d.discardFrame idx) (ms ++ [(idx, d.unplayedFrames.lookup idx)]) := by
  have hmax : idx ≤ d.maxFrameId := by
    rcases hv with ⟨-, rfl⟩ | ⟨frame, hframe, -⟩
    · exact UInt32.le_iff_toNat_le.mpr (Nat.zero_le _)
    · exact h.belowMax idx frame hframe
  exact h.store hmax .inl hv (.discardFrame idx d) rfl rfl

theorem discardLoop (h : CountsWhole z d ms) {rounds : ℕ} {idx : UInt32}
    (hends : idx.toNat + rounds < 2 ^ 32) (hexpires : Expires z d rounds idx) :
    CountsWhole z (d.discardLoop rounds idx) (ms ++ d.discardMoves rounds idx) := by
  induction rounds generalizing d ms idx with
  | zero => simpa [VideoDecoder.discardLoop, discardMoves] using h
  | succ rounds ih =>
      have hstart : ∀ k : UInt32, k + .ofNat 0 = k := UInt32.add_zero
      have hv := hexpires 0 (Nat.succ_pos _)
      rw [hstart] at hv
      have hdiscard := h.discardFrame (hv.imp id fun hexpired => by
        obtain ⟨frame, hframe, hfull, -⟩ := hexpired
        exact ⟨frame, hframe, hfull⟩)
      have hplay := hdiscard.playFrom false (idx + 1)
      rw [List.append_assoc, List.singleton_append] at hplay
      rw [VideoDecoder.discardLoop, discardMoves, ← List.cons_append, ← List.append_assoc]
      rcases Nat.eq_zero_or_pos rounds with rfl | hmore
      · simpa [VideoDecoder.discardLoop, discardMoves] using hplay
      · -- the frame behind is not for the catch-up loop, so nothing changed for the next rounds
        have hnext : (idx + 1).toNat = idx.toNat + 1 := by
          rw [UInt32.toNat_add, UInt32.toNat_one]
          omega
        have hlater : ∀ i < rounds, ∃ frame ∈ d.unplayedFrames.lookup (idx + 1 + .ofNat i),
            frame.HasAllPkts ∧ frame.isComplete = false := by
          intro i hi
          have hsum : idx + 1 + .ofNat i = idx + .ofNat (i + 1) := by
            rw [UInt32.add_assoc, UInt32.add_comm 1, ofNat_succ]
          have hne : idx + .ofNat (i + 1) ≠ 0 := by
            intro hzero
            have hnat := congrArg UInt32.toNat hzero
            rw [UInt32.toNat_add, toNat_ofNat (by omega), Nat.mod_eq_of_lt (by omega)] at hnat
            exact absurd hnat (by simp)
          obtain ⟨frame, hframe, hfull, hpart⟩ :=
            (hexpires (i + 1) (by omega)).resolve_left fun hzero => hne hzero.2
          rw [hsum]
          exact ⟨frame, hframe, hfull, hpart.resolve_left (Nat.succ_ne_zero i)⟩
        have hother : ∀ i < rounds, (d.discardFrame idx).unplayedFrames.lookup
            (idx + 1 + .ofNat i) = d.unplayedFrames.lookup (idx + 1 + .ofNat i) := by
          intro i hi
          apply AList.lookup_erase_ne
          intro heq
          have hnat := congrArg UInt32.toNat heq
          rw [UInt32.toNat_add, toNat_ofNat (by omega), hnext, Nat.mod_eq_of_lt (by omega)] at hnat
          omega
        have hincomplete : ¬ (d.discardFrame idx).ReadyAt (idx + 1) := by
          obtain ⟨frame, hframe, -, hpart⟩ := hlater 0 hmore
          have hsame := hother 0 hmore
          rw [hstart] at hsame hframe
          exact not_readyAt_of_incomplete (hsame.trans hframe) hpart
        have hnoop := playLoop_of_not_readyAt hincomplete false
          (Dict.size (d.discardFrame idx).unplayedFrames)
        refine ih hplay (by omega) fun i hi => .inr ?_
        obtain ⟨frame, hframe, hfull, hpart⟩ := hlater i hi
        refine ⟨frame, ?_, hfull, .inr hpart⟩
        rw [VideoDecoder.playFrom, hnoop, hother i hi]
        exact hframe

/-! ### One packet -/

theorem storePacket (h : CountsWhole z d ms) (pkt : DataPacket) :
    CountsWhole z (d.storePacket pkt) ms where
  minFrameId := by
    change (if d.minFrameId ≤ pkt.frameId then d.minFrameId else pkt.frameId) = 0
    rw [h.minFrameId]
    exact if_pos (UInt32.le_iff_toNat_le.mpr (Nat.zero_le _))
  belowMax := Waiting.belowMax_storePacket h.belowMax pkt
  le_max := by
    intro k hk
    apply UInt32.le_trans (h.le_max k hk)
    change d.maxFrameId ≤ if d.maxFrameId ≤ pkt.frameId then pkt.frameId else d.maxFrameId
    split
    · assumption
    · exact UInt32.le_refl _
  frames := h.frames
  whole := h.whole

theorem playStored (h : CountsWhole z d ms) {frameId : UInt32}
    (hz : z → frameId = 0 ∧ d.ReadyAt frameId) :
    CountsWhole False (d.playStored frameId) (ms ++ d.storedMoves frameId) := by
  have hstay : ¬ z → CountsWhole False d (ms ++ []) := by
    intro hnot
    rw [List.append_nil]
    exact h.clear hnot
  unfold VideoDecoder.playStored storedMoves
  cases hlookup : d.unplayedFrames.lookup frameId with
  | none =>
      apply hstay
      intro hz'
      obtain ⟨-, frame, hframe, -⟩ := hz hz'
      rw [hlookup] at hframe
      cases hframe
  | some frame =>
      simp only
      split
      case isFalse hpart =>
        apply hstay
        intro hz'
        obtain ⟨-, frame', hframe, hcomplete⟩ := hz hz'
        rw [hlookup] at hframe
        cases hframe
        exact hpart hcomplete
      case isTrue hcomplete =>
        split
        case isTrue hzero =>
          subst hzero
          exact h.store (UInt32.le_iff_toNat_le.mpr (Nat.zero_le _)) (fun _ => .inr rfl)
            (.inr ⟨frame, rfl, frame.hasAllPkts_of_isComplete hcomplete⟩)
            (Moved.of_erase rfl rfl rfl) rfl rfl
        case isFalse hzero =>
          have hnot : ¬ z := fun hz' => hzero (hz hz').1
          split
          case isTrue => exact (h.clear hnot).playFrom true frameId
          case isFalse => exact hstay hnot

theorem isComplete_new {pkt : DataPacket} (h : pkt.framePktNum = 1) :
    (VideoFrame.new pkt).isComplete = true := by
  simp [VideoFrame.isComplete, VideoFrame.new, VideoFrame.addPacket,
    VideoFrame.getDataPktRcvedNum, h]

theorem decodePacket (h : CountsWhole False d ms) {pkt : DataPacket} (hkeeps : d.KeepsCount pkt)
    (hstep : d.decodePacket pkt = some d') : CountsWhole False d' (ms ++ d.moves pkt) := by
  rcases decodePacket_eq_some hstep with ⟨hmem, rfl⟩ | ⟨hmem, hends, rfl⟩
  · rw [VideoDecoder.moves, if_pos hmem, List.append_nil]
    exact h
  · obtain ⟨hexpires, -⟩ := hkeeps.resolve_left hmem
    -- frame 0 expires at its own packet, which makes it anew and completes it
    have hanew : CountsWhole (d.lastPlayedFrameId + 1 = 0 ∧ pkt.frameId = 0 ∧
        pkt.framePktNum = 1 ∧ 0 < d.discardRounds pkt.frameId) d ms :=
      ⟨h.minFrameId, h.belowMax, h.le_max, fun k _ => h.frames k fun hzk => hzk.1,
        fun k _ => h.whole k fun hzk => hzk.1⟩
    -- only the first id of the loop can be 0, since the indices do not wrap
    have hdiscards := hanew.discardLoop hends fun i hi => (hexpires i hi).imp_left (by
      rintro ⟨hsum, hframe, hnum⟩
      have hnat := congrArg UInt32.toNat hsum
      rw [UInt32.toNat_add, toNat_ofNat (by omega), Nat.mod_eq_of_lt (by omega)] at hnat
      have hfirst : (d.lastPlayedFrameId + 1).toNat = 0 := Nat.eq_zero_of_add_eq_zero_right hnat
      exact ⟨⟨UInt32.toNat_inj.mp hfirst, hframe, hnum, by omega⟩, hsum⟩)
    have hstored := @playStored _ _ _ (hdiscards.storePacket pkt) pkt.frameId (by
      rintro ⟨hfirst, hframe, hnum, hpos⟩
      refine ⟨hframe, .new pkt, ?_, isComplete_new hnum⟩
      have hgone := discardLoop_lookup_first d hpos (d.lastPlayedFrameId + 1)
      rw [Waiting.lookup_storePacket, if_pos rfl, frameWith]
      rw [hfirst, ← hframe] at hgone ⊢
      rw [hgone]
      rfl)
    rw [VideoDecoder.moves, if_neg hmem, ← List.append_assoc]
    exact hstored

/-- Before the last packet of the last frame, the discard loop goes over all frames in front
of it that are not played yet. -/
theorem afterDiscards_fillsUp (h : CountsWhole False d ms) {pkt : DataPacket}
    (hnone : d.unplayedFrames.lookup pkt.frameId = none)
    (hends : (d.lastPlayedFrameId + 1).toNat + d.discardRounds pkt.frameId ≤ pkt.frameId.toNat)
    (hexpires : ∀ i < d.discardRounds pkt.frameId, i ≠ 0 →
      ¬ d.ReadyAt (d.lastPlayedFrameId + 1 + .ofNat i)) (hfills : d.FillsUp pkt) :
    (d.afterDiscards pkt.frameId).lastPlayedFrameId + 1 = pkt.frameId ∧
      (∀ k < pkt.frameId, k ∈ (d.afterDiscards pkt.frameId).playedFrames) ∧
      ((d.afterDiscards pkt.frameId).frameWith pkt).isComplete = true := by
  obtain ⟨hcomplete, hbefore, hrest⟩ := hfills
  have hmoved := Moved.discardLoop (d.discardRounds pkt.frameId) (d.lastPlayedFrameId + 1) d
  have hnone' : (d.afterDiscards pkt.frameId).unplayedFrames.lookup pkt.frameId = none := by
    cases hlookup : (d.afterDiscards pkt.frameId).unplayedFrames.lookup pkt.frameId with
    | none => rfl
    | some frame =>
        have hold := hmoved.unplayed _ frame hlookup
        rw [hnone] at hold
        cases hold
  have hframe : (d.afterDiscards pkt.frameId).frameWith pkt = d.frameWith pkt := by
    rw [frameWith, frameWith, hnone, hnone']
  rw [hframe]
  have hready : ∀ k : UInt32,
      (d.lastPlayedFrameId + 1).toNat + d.discardRounds pkt.frameId ≤ k.toNat →
      k < pkt.frameId → d.ReadyAt k := fun k hk hk' => (hrest k hk' hk).2
  rcases Nat.eq_zero_or_pos (d.discardRounds pkt.frameId) with hzero | hpos
  · -- nothing expires, so the frame is the next one
    have hnext : d.lastPlayedFrameId + 1 = pkt.frameId := by
      by_contra hne
      have hlt : (d.lastPlayedFrameId + 1).toNat < pkt.frameId.toNat :=
        lt_of_le_of_ne (by omega) fun heq => hne (UInt32.toNat_inj.mp heq)
      have := (hrest _ (UInt32.lt_iff_toNat_lt.mpr hlt) (by omega)).1
      omega
    rw [afterDiscards, hzero, VideoDecoder.discardLoop]
    exact ⟨hnext, fun k hk => hbefore k (hnext ▸ hk), hcomplete⟩
  · obtain ⟨hlast, hplayed⟩ :=
      discardLoop_reaches h.belowMax hpos hends hexpires hready hnone
    refine ⟨hlast, fun k hk => ?_, hcomplete⟩
    rcases Nat.lt_or_ge k.toNat (d.lastPlayedFrameId + 1).toNat with hbelow | habove
    · exact hmoved.played k (hbefore k (UInt32.lt_iff_toNat_lt.mpr hbelow))
    · exact hplayed k habove hk

/-- A packet of the frame with the last id is stored when every other frame is played by then. -/
theorem full_decodePacket (h : CountsWhole False d ms) (hfull : Full d) {pkt : DataPacket}
    (hkeeps : d.KeepsCount pkt) (hstep : d.decodePacket pkt = some d') : Full d' := by
  rcases decodePacket_eq_some hstep with ⟨-, rfl⟩ | ⟨hmem, hends, rfl⟩
  · exact hfull
  · obtain ⟨hexpires, hfills⟩ := hkeeps.resolve_left hmem
    have hmoved := Moved.discardLoop (d.discardRounds pkt.frameId) (d.lastPlayedFrameId + 1) d
    have hne : d.maxFrameId ≠ -1 := fun heq => hmem (hfull heq _)
    intro hmax
    rw [(Moved.playStored _ _).maxFrameId] at hmax
    change (if (d.afterDiscards pkt.frameId).maxFrameId ≤ pkt.frameId then pkt.frameId
      else (d.afterDiscards pkt.frameId).maxFrameId) = -1 at hmax
    have hlast : pkt.frameId = -1 := by
      split at hmax
      case isTrue => exact hmax
      case isFalse => exact absurd (hmoved.maxFrameId.symm.trans hmax) hne
    have htop : pkt.frameId.toNat = 2 ^ 32 - 1 := by
      rw [hlast]
      rfl
    -- no earlier packet of this frame came, or `maxFrameId` would be the last id already
    have hnone : d.unplayedFrames.lookup pkt.frameId = none := by
      cases hlookup : d.unplayedFrames.lookup pkt.frameId with
      | none => rfl
      | some frame =>
          have hle := UInt32.le_iff_toNat_le.mp (h.belowMax _ frame hlookup)
          have hmaxlt := d.maxFrameId.toNat_lt
          exact absurd (UInt32.toNat_inj.mp (by rw [← hlast]; omega)) hne
    obtain ⟨hcursor, hplayed, hcomplete⟩ := h.afterDiscards_fillsUp hnone (by omega)
      (fun i hi hpos => by
        rcases hexpires i hi with ⟨-, hzero, -⟩ | ⟨frame, hframe, -, hpart⟩
        · rw [hzero] at htop
          cases htop
        · exact not_readyAt_of_incomplete hframe (hpart.resolve_left hpos)) (hfills hlast)
    have hbelow := Waiting.belowMax_storePacket (hmoved.belowMax h.belowMax) pkt
    have hlookup := Waiting.lookup_storePacket (d.afterDiscards pkt.frameId) pkt pkt.frameId
    rw [if_pos rfl] at hlookup
    have hmine := mem_playStored hbelow ⟨_, hlookup, hcomplete⟩ (by rw [hlast]; decide) hcursor
    intro k
    by_cases heq : k = pkt.frameId
    · rw [heq]
      exact hmine
    · have hlt : k < pkt.frameId := by
        have := k.toNat_lt
        have hne' : k.toNat ≠ pkt.frameId.toNat := fun h => heq (UInt32.toNat_inj.mp h)
        rw [UInt32.lt_iff_toNat_lt]
        omega
      exact (Moved.playStored _ _).played k (hplayed k hlt)

end CountsWhole

/-! ## The reported rate -/

/-- The frames that were not missed are those in `playedFrames`. -/
theorem CountsWhole.card_missed {l : DecoderLog} (h : CountsWhole False l.decoder l.moves) :
    l.missed.card = l.decoder.maxFrameId.toNat + 1 - Dict.size l.decoder.playedFrames ∧
      Dict.size l.decoder.playedFrames ≤ l.decoder.maxFrameId.toNat + 1 := by
  have hmin : l.decoder.minFrameId.toNat = 0 := by
    rw [h.minFrameId]
    rfl
  have hplayed : (Finset.Icc 0 l.decoder.maxFrameId.toNat).filter
      (fun k => PlayedWhole l.moves (.ofNat k)) =
        (Dict.keySet l.decoder.playedFrames).image UInt32.toNat := by
    ext k
    rw [Finset.mem_filter, Finset.mem_Icc, Finset.mem_image]
    constructor
    · rintro ⟨⟨-, hle⟩, hwhole⟩
      refine ⟨.ofNat k, Dict.mem_keySet.mpr ((h.whole _ (by simp)).mpr hwhole), ?_⟩
      exact toNat_ofNat (lt_of_le_of_lt hle l.decoder.maxFrameId.toNat_lt)
    · rintro ⟨id, hid, rfl⟩
      have hmem := Dict.mem_keySet.mp hid
      refine ⟨⟨Nat.zero_le _, UInt32.le_iff_toNat_le.mp (h.le_max id hmem)⟩, ?_⟩
      rw [UInt32.ofNat_toNat]
      exact (h.whole id (by simp)).mp hmem
  have hcard := Finset.card_filter_add_card_filter_not
    (s := Finset.Icc 0 l.decoder.maxFrameId.toNat) fun k => PlayedWhole l.moves (.ofNat k)
  rw [hplayed, Finset.card_image_of_injective _ fun a b => UInt32.toNat_inj.mp, Dict.card_keySet,
    Nat.card_Icc] at hcard
  rw [missed, hmin]
  omega

theorem CountsWhole.getDDLMissRate {l : DecoderLog} (h : CountsWhole False l.decoder l.moves)
    (hfull : Full l.decoder) : l.decoder.getDDLMissRate = some l.missRate := by
  by_cases htop : l.decoder.maxFrameId = -1
  · -- the count is 0, and so is the number of missed frames
    have hnone : l.missed = ∅ := by
      refine Finset.filter_eq_empty_iff.mpr fun k _ => not_not.mpr ?_
      exact (h.whole _ (by simp)).mp (hfull htop _)
    rw [missRate, hnone, Finset.card_empty, Binary64.div_ofNat_zero, VideoDecoder.getDDLMissRate,
      h.minFrameId, htop]
    rfl
  · obtain ⟨hcard, hle⟩ := h.card_missed
    have hlt := l.decoder.maxFrameId.toNat_lt
    have hne : l.decoder.maxFrameId.toNat ≠ 2 ^ 32 - 1 := fun heq =>
      htop (UInt32.toNat_inj.mp heq)
    have htotal : (l.decoder.maxFrameId - l.decoder.minFrameId + 1).toNat =
        l.decoder.maxFrameId.toNat + 1 := by
      rw [h.minFrameId, UInt32.sub_zero, UInt32.toNat_add, UInt32.toNat_one]
      omega
    have hmin : l.decoder.minFrameId.toNat = 0 := by
      rw [h.minFrameId]
      rfl
    obtain ⟨delays, hdelays⟩ := Option.isSome_iff_exists.mp
      (VideoDecoder.frameDelays_isSome fun k => h.frames k (by simp))
    rw [missRate, hcard, hmin, VideoDecoder.getDDLMissRate]
    simp only [htotal, Nat.succ_ne_zero, if_false, hdelays, Option.map_some, Nat.sub_zero]
    rw [Binary64.sub_ofNat hle (by omega)]

/-- In every run in which what expires is full and the last frame comes last, the rate is the
true one after every packet. -/
theorem missRate_of_keepsCount {delayDdl : Time} {fps : UInt16} {pkts : List DataPacket}
    (h : Run.Each step (fun l pkt => l.decoder.KeepsCount pkt) (.new delayDdl fps) pkts) :
    Run.Always step (fun l => l.decoder.getDDLMissRate = some l.missRate ∧
      0 ≤ l.missRate.val ∧ l.missRate.val ≤ 1) (.new delayDdl fps) pkts := by
  have hinv : Run.Always step (fun l => CountsWhole False l.decoder l.moves ∧ Full l.decoder)
      (.new delayDdl fps) pkts := by
    have hstart : Full (new delayDdl fps).decoder := fun hmax => by cases hmax
    refine h.always (fun l pkt l' ⟨hl, hfull⟩ hkeeps hstep => ?_) ⟨.new delayDdl fps, hstart⟩
    obtain ⟨d, hd, rfl⟩ := Option.map_eq_some_iff.mp hstep
    exact ⟨hl.decodePacket hkeeps hd, hl.full_decodePacket hfull hkeeps hd⟩
  exact hinv.mono fun l ⟨hl, hfull⟩ => ⟨hl.getDDLMissRate hfull, l.missRate_mem_unit⟩

/-- Frame 1 waits for frame 0, is left behind by it and expires full. -/
theorem missRate_of_keepsCount_expired :
    Run.Always step (fun l => l.decoder.getDDLMissRate = some l.missRate ∧
      0 ≤ l.missRate.val ∧ l.missRate.val ≤ 1) (.new (.milliSeconds 100) 30)
      [.new 1 0 1 0, .new 0 0 1 0, .new 4 0 2 0] ∧
    ∃ l, Run.exec step (.new (.milliSeconds 100) 30) [.new 1 0 1 0, .new 0 0 1 0, .new 4 0 2 0]
      = some l ∧ l.moves.map Prod.fst = [0, 1] ∧ l.missed = {2, 3, 4} := by
  have hfull : Run.Each step (fun l pkt => l.decoder.ExpiresFull pkt ∧ pkt.frameId ≠ -1)
      (.new (.milliSeconds 100) 30) [.new 1 0 1 0, .new 0 0 1 0, .new 4 0 2 0] := by
    decide +kernel
  exact ⟨missRate_of_keepsCount (hfull.mono fun l pkt h => .inr ⟨h.1, fun heq => absurd heq h.2⟩),
    by decide +kernel⟩

/-- A frame that expires with one of its two packets is counted as played. -/
theorem missRate_wrong :
    ¬ ∀ (delayDdl : Time) (fps : UInt16) (pkts : List DataPacket),
      Run.Always step (fun l => l.decoder.getDDLMissRate = some l.missRate)
        (.new delayDdl fps) pkts := by
  intro hclaim
  obtain ⟨l, hrun, hwrong⟩ : ∃ l, Run.exec step (.new (.milliSeconds 100) 30)
      [.new 0 0 2 0, .new 3 0 2 0] = some l ∧
        l.decoder.getDDLMissRate ≠ some l.missRate := by
    decide +kernel
  exact hwrong ((hclaim _ _ _).exec hrun)

end DecoderLog

end Zhuge
