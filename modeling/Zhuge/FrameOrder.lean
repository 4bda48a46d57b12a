-- SUMMARY: A decoder that gets the packets of the frames in order, some of them again, plays each frame at its last packet.
import Zhuge.Playback

/-!
# Frames in order

Packets come frame by frame, in order within a frame, and packets that came before may come
again. As long as the deadline is not shorter than a frame interval, nothing is discarded.
-/

namespace Zhuge

/-- The frames below `frame` came whole, and of this frame the first `inFrame` packets came. -/
structure FrameCursor where
  frame : ℕ
  inFrame : ℕ
  /-- What the packets of this frame say of its size, if one of them came. -/
  framePktNum : UInt16

namespace FrameCursor

/-- The packet came before. -/
def Past (c : FrameCursor) (frameId : UInt32) (pktIdInFrame : UInt16) : Prop :=
  frameId.toNat < c.frame ∨ frameId.toNat = c.frame ∧ pktIdInFrame.toNat < c.inFrame

/-- The packet is the next one. -/
structure Next (c : FrameCursor) (pkt : DataPacket) : Prop where
  frameId : pkt.frameId.toNat = c.frame
  pktIdInFrame : pkt.pktIdInFrame.toNat = c.inFrame
  lt : c.inFrame < pkt.framePktNum.toNat
  framePktNum : 0 < c.inFrame → pkt.framePktNum = c.framePktNum

def advance (pkt : DataPacket) (c : FrameCursor) : FrameCursor :=
  if pkt.pktIdInFrame.toNat + 1 = pkt.framePktNum.toNat then ⟨c.frame + 1, 0, 0⟩
  else ⟨c.frame, c.inFrame + 1, pkt.framePktNum⟩

variable {c : FrameCursor}

theorem Past.advance {frameId : UInt32} {pktIdInFrame : UInt16} (h : c.Past frameId pktIdInFrame)
    (pkt : DataPacket) : (c.advance pkt).Past frameId pktIdInFrame := by
  unfold FrameCursor.advance
  split
  · refine .inl ?_
    rcases h with hframe | ⟨hframe, -⟩
    · exact Nat.lt_succ_of_lt hframe
    · exact Nat.lt_succ_of_le hframe.le
  · exact h.imp_right fun ⟨hframe, hpkt⟩ => ⟨hframe, Nat.lt_succ_of_lt hpkt⟩

/-- The next packet came once it came. -/
theorem Next.past_advance {pkt : DataPacket} (h : c.Next pkt) :
    (c.advance pkt).Past pkt.frameId pkt.pktIdInFrame := by
  unfold FrameCursor.advance
  split
  · exact .inl (Nat.lt_succ_of_le h.frameId.le)
  · exact .inr ⟨h.frameId, Nat.lt_succ_of_le h.pktIdInFrame.le⟩

end FrameCursor

namespace VideoDecoder

variable {c : FrameCursor} {d : VideoDecoder} {pkt : DataPacket}

/-- The decoder holds what came, and nothing else. -/
structure InOrder (c : FrameCursor) (d : VideoDecoder) : Prop where
  playback : Playback c.frame d
  interval : d.frameInterval ≠ 0
  deadline : 0 < d.delayDdl.getMilliSeconds.tdiv d.frameInterval.toNat
  maxFrameId : d.maxFrameId.toNat ≤ c.frame
  others : ∀ k, k.toNat ≠ c.frame ∨ c.inFrame = 0 → d.unplayedFrames.lookup k = none
  current : 0 < c.inFrame → ∀ k, k.toNat = c.frame → ∃ frame,
    d.unplayedFrames.lookup k = some frame ∧ frame.dataPktNum = c.framePktNum ∧
    frame.pkts = (Finset.range c.inFrame).image UInt16.ofNat ∧ c.inFrame < c.framePktNum.toNat
  whole : ∀ k v, d.playedFrames.lookup k = some v → ∃ frame, v = some frame ∧ frame.isComplete
  kept : ∀ k, .discard k ∉ d.log

theorem InOrder.new {delayDdl : Time} {fps : UInt16} (hinterval : 1000 / fps ≠ 0)
    (hdeadline : ((1000 / fps : UInt16).toNat : Int) ≤ delayDdl.getMilliSeconds) :
    InOrder ⟨0, 0, 0⟩ (.new delayDdl fps) where
  playback := .new delayDdl fps
  interval := hinterval
  deadline := by
    have hpos : 0 < (1000 / fps : UInt16).toNat :=
      Nat.pos_of_ne_zero fun hzero => hinterval (UInt16.toNat_inj.mp hzero)
    change 0 < delayDdl.getMilliSeconds.tdiv (1000 / fps : UInt16).toNat
    rw [Int.tdiv_eq_ediv_of_nonneg (by omega)]
    exact (Int.le_ediv_iff_mul_le (by omega)).mpr (by omega)
  maxFrameId := le_rfl
  others := fun _ _ => rfl
  current := fun h => absurd h (lt_irrefl 0)
  whole := fun _ _ h => by cases h
  kept := fun _ => List.not_mem_nil

/-- No frame is old enough to be discarded. -/
theorem InOrder.discardExpired_eq (h : InOrder c d) {frameId : UInt32}
    (hframe : frameId.toNat = c.frame) : d.discardExpired frameId = some d := by
  have hlt : c.frame < 2 ^ 32 := hframe ▸ frameId.toNat_lt
  have hfirst : (d.lastPlayedFrameId + 1).toNat = c.frame := by
    rw [h.playback.last, toNat_ofNat hlt]
  have hdeadline := h.deadline
  have hbound : d.discardBound frameId < c.frame := by
    rw [discardBound, hframe]
    omega
  have hrounds : d.discardRounds frameId = 0 := by
    rw [discardRounds, hfirst]
    omega
  have hends : ¬ (((d.lastPlayedFrameId + 1).toNat : Int) ≤ d.discardBound frameId ∧
      2 ^ 32 - 1 ≤ d.discardBound frameId) := by
    rw [hfirst]
    omega
  simp only [discardExpired, if_neg h.interval, if_neg hends, hrounds]
  rfl

/-! ## Storing and playing -/

theorem card_firstIds {m : ℕ} (hm : m ≤ 65535) :
    ((Finset.range m).image UInt16.ofNat).card = m := by
  rw [Finset.card_image_of_injOn, Finset.card_range]
  intro i hi j hj heq
  rw [Finset.mem_coe, Finset.mem_range] at hi hj
  have hnat := congrArg UInt16.toNat heq
  rwa [UInt16.toNat_ofNat_of_lt' (by simp only [UInt16.size]; omega),
    UInt16.toNat_ofNat_of_lt' (by simp only [UInt16.size]; omega)] at hnat

/-- A frame that holds its first packets is complete when these are all. -/
theorem isComplete_iff {frame : VideoFrame} {m : ℕ} (hm : m ≤ 65535)
    (hpkts : frame.pkts = (Finset.range m).image UInt16.ofNat) :
    frame.isComplete = true ↔ frame.dataPktNum.toNat = m := by
  rw [VideoFrame.isComplete, beq_iff_eq, VideoFrame.getDataPktRcvedNum, hpkts, card_firstIds hm,
    ← UInt16.toNat_inj, UInt16.toNat_ofNat_of_lt' (by simp only [UInt16.size]; omega)]

/-- A complete frame whose turn has come is played, and no other one if there is none. -/
theorem playStored_complete {frameId : UInt32} {frame : VideoFrame}
    (hlookup : d.unplayedFrames.lookup frameId = some frame) (hcomplete : frame.isComplete = true)
    (hlast : d.lastPlayedFrameId + 1 = frameId) (hmax : frameId ≤ d.maxFrameId)
    (hothers : ∀ k, k ≠ frameId → d.unplayedFrames.lookup k = none) :
    ∃ reply, d.playStored frameId = d.playRound reply frameId frame := by
  simp only [playStored, hlookup, hcomplete, if_true]
  split
  case isTrue => exact ⟨false, rfl⟩
  case isFalse =>
    refine ⟨true, ?_⟩
    obtain ⟨rounds, hrounds⟩ := Nat.exists_eq_succ_of_ne_zero (Dict.size_pos_of_lookup hlookup).ne'
    rw [if_pos hlast.symm, playFrom, hrounds]
    simp only [playLoop, hlookup, hcomplete, hmax, if_true]
    refine playLoop_of_not_readyAt (not_readyAt_of_lookup_none ?_) true rounds
    change (d.unplayedFrames.erase frameId).lookup (frameId + 1) = none
    rw [Dict.lookup_erase_eq]
    split
    case isTrue => rfl
    case isFalse hne => exact hothers _ hne

theorem maxFrameId_storePacket (h : InOrder c d) (hframe : pkt.frameId.toNat = c.frame) :
    (d.storePacket pkt).maxFrameId = pkt.frameId := by
  have hle := h.maxFrameId
  change (if d.maxFrameId ≤ pkt.frameId then pkt.frameId else d.maxFrameId) = _
  rw [if_pos (UInt32.le_iff_toNat_le.mpr (hframe ▸ hle))]

theorem InOrder.storePacket_others (h : InOrder c d) (hframe : pkt.frameId.toNat = c.frame)
    {k : UInt32} (hk : k ≠ pkt.frameId) : (d.storePacket pkt).unplayedFrames.lookup k = none := by
  have hother : k.toNat ≠ c.frame := fun heq => hk (UInt32.toNat_inj.mp (heq.trans hframe.symm))
  exact (AList.lookup_insert_ne hk).trans (h.others k (.inl hother))

theorem InOrder.storePacket_playback (h : InOrder c d) (hframe : pkt.frameId.toNat = c.frame) :
    Playback c.frame (d.storePacket pkt) := by
  apply h.playback.storePacket
  intro hpos hzero
  rw [hzero] at hframe
  exact absurd hframe hpos.ne

/-- A packet of the frame under way is stored, and the frame is not complete yet. -/
theorem InOrder.store (h : InOrder c d) (hframe : pkt.frameId.toNat = c.frame) {frame : VideoFrame}
    (hstored : (d.storePacket pkt).unplayedFrames.lookup pkt.frameId = some frame) {m : ℕ}
    (hpkts : frame.pkts = (Finset.range m).image UInt16.ofNat) (hpos : 0 < m)
    (hlt : m < frame.dataPktNum.toNat) :
    InOrder ⟨c.frame, m, frame.dataPktNum⟩ ((d.storePacket pkt).playStored pkt.frameId) := by
  have hm : m ≤ 65535 := hlt.le.trans (Nat.le_of_lt_succ frame.dataPktNum.toNat_lt)
  have hincomplete : ¬ frame.isComplete = true := fun hcomplete =>
    hlt.ne' ((isComplete_iff hm hpkts).mp hcomplete)
  have hstay : (d.storePacket pkt).playStored pkt.frameId = d.storePacket pkt := by
    simp only [playStored, hstored, if_neg hincomplete]
  rw [hstay]
  refine ⟨h.storePacket_playback hframe, h.interval, h.deadline, ?_, ?_, ?_, h.whole, h.kept⟩
  · rw [maxFrameId_storePacket h hframe]
    exact hframe.le
  · rintro k (hk | hzero)
    · exact h.storePacket_others hframe fun heq => hk (heq ▸ hframe)
    · exact absurd hzero hpos.ne'
  · intro _ k hk
    rw [UInt32.toNat_inj.mp (hk.trans hframe.symm)]
    exact ⟨frame, hstored, rfl, hpkts, hlt⟩

/-- A packet of the frame under way is stored, and the frame is complete. -/
theorem InOrder.play (h : InOrder c d) (hframe : pkt.frameId.toNat = c.frame) {frame : VideoFrame}
    (hstored : (d.storePacket pkt).unplayedFrames.lookup pkt.frameId = some frame)
    (hcomplete : frame.isComplete = true) :
    InOrder ⟨c.frame + 1, 0, 0⟩ ((d.storePacket pkt).playStored pkt.frameId) := by
  have hlt : c.frame < 2 ^ 32 := hframe ▸ pkt.frameId.toNat_lt
  have hid : pkt.frameId = .ofNat c.frame := by rw [← hframe, UInt32.ofNat_toNat]
  have hplayback := h.storePacket_playback hframe
  have hlast : (d.storePacket pkt).lastPlayedFrameId + 1 = pkt.frameId := by
    rw [hplayback.last, hid]
  have hmax := maxFrameId_storePacket h hframe
  obtain ⟨reply, hplay⟩ := playStored_complete hstored hcomplete hlast
    (hmax ▸ UInt32.le_refl _) fun k hk => h.storePacket_others hframe hk
  rw [hplay]
  refine ⟨?_, ?_, ?_, ?_, ?_, fun hpos => absurd hpos (lt_irrefl 0), ?_, ?_⟩
  · have hplayed : ((d.storePacket pkt).playRound reply pkt.frameId frame).playedIds
        = (d.storePacket pkt).playedIds ++ [pkt.frameId] := by
      cases reply <;> simp [playedIds, playRound, decodeFrame, replyFrameAck]
    rw [hid] at hplayed ⊢
    exact hplayback.move hlt (by cases reply <;> rfl) (unplayedFrames_playRound ..)
      (by cases reply <;> rfl) hplayed
  · cases reply <;> exact h.interval
  · cases reply <;> exact h.deadline
  · have hsame : ((d.storePacket pkt).playRound reply pkt.frameId frame).maxFrameId
        = (d.storePacket pkt).maxFrameId := by cases reply <;> rfl
    rw [hsame, hmax, hframe]
    exact Nat.le_succ _
  · intro k _
    rw [unplayedFrames_playRound, Dict.lookup_erase_eq]
    split
    case isTrue => rfl
    case isFalse hk => exact h.storePacket_others hframe hk
  · intro k v hv
    have hplayed : ((d.storePacket pkt).playRound reply pkt.frameId frame).playedFrames
        = d.playedFrames.insert pkt.frameId (some frame) := by cases reply <;> rfl
    rw [hplayed, Dict.lookup_insert_eq] at hv
    split at hv
    case isTrue =>
      cases hv
      exact ⟨frame, rfl, hcomplete⟩
    case isFalse => exact h.whole k v hv
  · intro k hk
    have hlog : .discard k ∈ d.log := by
      cases reply <;> simpa [playRound, decodeFrame, replyFrameAck, storePacket] using hk
    exact h.kept k hlog

/-! ## One packet -/

/-- A packet of the frame under way, or of the next one, is not too late. -/
theorem InOrder.decodePacket_eq (h : InOrder c d) (hframe : pkt.frameId.toNat = c.frame) :
    d.decodePacket pkt = some ((d.storePacket pkt).playStored pkt.frameId) := by
  have hmem : pkt.frameId ∉ d.playedFrames := by
    rw [h.playback.keys, hframe]
    exact lt_irrefl _
  rw [decodePacket, if_neg hmem, h.discardExpired_eq hframe]
  rfl

/-- A packet that came before changes nothing. -/
theorem InOrder.past (h : InOrder c d) (hpast : c.Past pkt.frameId pkt.pktIdInFrame) :
    ∃ d', d.decodePacket pkt = some d' ∧ InOrder c d' := by
  rcases hpast with hlt | ⟨hframe, hid⟩
  · refine ⟨d, ?_, h⟩
    rw [decodePacket, if_pos ((h.playback.keys _).mpr hlt)]
  · have hpos : 0 < c.inFrame := Nat.zero_lt_of_lt hid
    obtain ⟨frame, hlookup, hnum, hpkts, hlt⟩ := h.current hpos _ hframe
    have hmem : pkt.pktIdInFrame ∈ frame.pkts := by
      rw [hpkts]
      exact Finset.mem_image.mpr ⟨_, Finset.mem_range.mpr hid, UInt16.ofNat_toNat⟩
    have hstored : (d.storePacket pkt).unplayedFrames.lookup pkt.frameId
        = some (frame.addPacket pkt) := by
      simp only [storePacket, hlookup, AList.lookup_insert]
    have hsame : (frame.addPacket pkt).pkts = (Finset.range c.inFrame).image UInt16.ofNat := by
      rw [← hpkts]
      exact Finset.insert_eq_of_mem hmem
    have hstay := h.store hframe hstored hsame hpos (by rw [← hnum] at hlt; exact hlt)
    refine ⟨_, h.decodePacket_eq hframe, ?_⟩
    rwa [show (frame.addPacket pkt).dataPktNum = c.framePktNum from hnum] at hstay

/-- The next packet is stored, and its frame is played if it was the last one. -/
theorem InOrder.next (h : InOrder c d) (hnext : c.Next pkt) :
    ∃ d', d.decodePacket pkt = some d' ∧ InOrder (c.advance pkt) d' := by
  refine ⟨_, h.decodePacket_eq hnext.frameId, ?_⟩
  have hid : pkt.pktIdInFrame = .ofNat c.inFrame := by
    rw [← hnext.pktIdInFrame, UInt16.ofNat_toNat]
  obtain ⟨frame, hstored, hnum, hpkts⟩ : ∃ frame,
      (d.storePacket pkt).unplayedFrames.lookup pkt.frameId = some frame ∧
      frame.dataPktNum = pkt.framePktNum ∧
      frame.pkts = (Finset.range (c.inFrame + 1)).image UInt16.ofNat := by
    rw [Finset.range_add_one, Finset.image_insert, ← hid]
    rcases Nat.eq_zero_or_pos c.inFrame with hzero | hpos
    · refine ⟨.new pkt, ?_, rfl, ?_⟩
      · simp only [storePacket, h.others _ (.inr hzero), AList.lookup_insert]
      · rw [hzero]
        rfl
    · obtain ⟨frame, hlookup, hnum, hpkts, -⟩ := h.current hpos _ hnext.frameId
      refine ⟨frame.addPacket pkt, ?_, hnum.trans (hnext.framePktNum hpos).symm, ?_⟩
      · simp only [storePacket, hlookup, AList.lookup_insert]
      · rw [← hpkts]
        rfl
  have hlt := hnext.lt
  have hmax : c.inFrame + 1 ≤ 65535 := hlt.trans_le (Nat.le_of_lt_succ pkt.framePktNum.toNat_lt)
  unfold FrameCursor.advance
  rw [hnext.pktIdInFrame]
  split
  case isTrue hlast =>
    refine h.play hnext.frameId hstored ((isComplete_iff hmax hpkts).mpr ?_)
    rw [hnum, hlast]
  case isFalse hmore =>
    rw [← hnum] at hlt hmore ⊢
    exact h.store hnext.frameId hstored hpkts (Nat.succ_pos _) (by omega)

/-- A list of packets that all came before. -/
theorem InOrder.pasts (h : InOrder c d) {pkts : List DataPacket}
    (hpast : ∀ pkt ∈ pkts, c.Past pkt.frameId pkt.pktIdInFrame) :
    ∃ d', d.decodeDataPacket pkts = some d' ∧ InOrder c d' := by
  induction pkts generalizing d with
  | nil => exact ⟨d, rfl, h⟩
  | cons pkt pkts ih =>
      obtain ⟨hfirst, hrest⟩ := List.forall_mem_cons.mp hpast
      obtain ⟨d₁, hstep, h₁⟩ := h.past hfirst
      obtain ⟨d', hrun, h'⟩ := ih h₁ hrest
      exact ⟨d', Run.exec_cons_eq_some.mpr ⟨d₁, hstep, hrun⟩, h'⟩

end VideoDecoder

end Zhuge
