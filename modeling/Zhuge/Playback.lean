-- SUMMARY: The playback cursor is sound as long as every frame that expires is there and none behind the first of them is complete.
import Zhuge.VideoDecoder

/-!
# Soundness of the playback cursor

The frames played so far are the first `n`, in order, each of them a real frame. Every
step of the decoder keeps this, except that the discard loop stores a null pointer for a
frame that is missing, and goes over frames again that the catch-up loop inside it played.
-/

namespace Zhuge.VideoDecoder

/-! ## What the claim of soundness says -/

/-- `m_lastPlayedFrameId`, with the value before the first frame read as `-1`. -/
def cursor (d : VideoDecoder) : Int :=
  if d.lastPlayedFrameId = -1 ∧ 0 ∉ d.playedFrames then -1 else d.lastPlayedFrameId.toNat

/-- The frames moved to `playedFrames`, in order. -/
def playedIds (d : VideoDecoder) : List UInt32 :=
  d.log.filterMap fun
    | .discard frameId => some frameId
    | .decode frameId => some frameId
    | .replyFrameAck _ _ => none

/-- From `d` to a later state `d'`, the cursor only moves forward over played frames, and
what was played stays as it was. -/
structure SoundBetween (d d' : VideoDecoder) : Prop where
  cursor : d.cursor ≤ d'.cursor
  played : ∀ k : UInt32, k.toNat ≤ d.cursor → k ∈ d.playedFrames
  frames : ∀ k v, d.playedFrames.lookup k = some v → v ≠ none
  kept : ∀ k v, d.playedFrames.lookup k = some v → d'.playedFrames.lookup k = some v

/-- The frames that expire are all there, and the ones after the first are incomplete. A
packet of frame 0 does not complete it again after it expired. -/
def DiscardsSafely (d : VideoDecoder) (pkt : DataPacket) : Prop :=
  pkt.frameId ∈ d.playedFrames ∨
    (∀ i < d.discardRounds pkt.frameId,
      ∃ frame ∈ d.unplayedFrames.lookup (d.lastPlayedFrameId + 1 + .ofNat i),
        i = 0 ∨ frame.isComplete = false) ∧
    ¬ (pkt.frameId = 0 ∧ 0 < d.discardRounds pkt.frameId ∧ pkt.framePktNum = 1)

instance (d : VideoDecoder) (pkt : DataPacket) : Decidable (d.DiscardsSafely pkt) :=
  inferInstanceAs (Decidable (_ ∨ _))

/-! ## The invariant -/

/-- The frames below `n` were played, in order, and nothing else. -/
structure Playback (n : ℕ) (d : VideoDecoder) : Prop where
  le : n ≤ 2 ^ 32
  last : d.lastPlayedFrameId + 1 = .ofNat n
  keys : ∀ k, k ∈ d.playedFrames ↔ k.toNat < n
  frames : ∀ k v, d.playedFrames.lookup k = some v → v ≠ none
  ids : d.playedIds = (List.range n).map .ofNat
  /-- The index of the play loop comes back to 0 after the last frame id. -/
  zero : 0 < n → ∀ frame, d.unplayedFrames.lookup 0 = some frame → frame.isComplete = false

/-- `playedFrames` of `d'` has all entries of `d`. -/
def Extends (d d' : VideoDecoder) : Prop :=
  ∀ k v, d.playedFrames.lookup k = some v → d'.playedFrames.lookup k = some v

theorem Extends.refl (d : VideoDecoder) : Extends d d := fun _ _ h => h

theorem Extends.trans {d₁ d₂ d₃ : VideoDecoder} (h₁ : Extends d₁ d₂) (h₂ : Extends d₂ d₃) :
    Extends d₁ d₃ := fun k v h => h₂ k v (h₁ k v h)

/-- Without null pointers, all delays are there to be added up. -/
theorem frameDelays_isSome {d : VideoDecoder}
    (h : ∀ k v, d.playedFrames.lookup k = some v → v ≠ none) : d.frameDelays.isSome := by
  have hentries : ∀ e ∈ d.playedFrames.entries, ∃ frame, e.2 = some frame := fun e he =>
    Option.ne_none_iff_exists'.mp (h e.1 e.2 (Dict.lookup_of_mem_entries he))
  unfold frameDelays
  generalize d.playedFrames.entries = entries at hentries
  induction entries with
  | nil => rfl
  | cons e entries ih =>
      obtain ⟨frame, hframe⟩ := hentries e List.mem_cons_self
      obtain ⟨delays, hdelays⟩ := Option.isSome_iff_exists.mp
        (ih fun e he => hentries e (List.mem_cons_of_mem _ he))
      simp [hframe, hdelays]

theorem toNat_ofNat {n : ℕ} (h : n < 2 ^ 32) : (UInt32.ofNat n).toNat = n :=
  UInt32.toNat_ofNat_of_lt' h

theorem ofNat_succ (n : ℕ) : UInt32.ofNat n + 1 = .ofNat (n + 1) := by
  rw [UInt32.ofNat_add]; rfl

namespace Playback

variable {n : ℕ} {d d' : VideoDecoder}

theorem new (delayDdl : Time) (fps : UInt16) : Playback 0 (.new delayDdl fps) where
  le := Nat.zero_le _
  last := by simp [VideoDecoder.new]
  keys := by simp [VideoDecoder.new]
  frames := by simp [VideoDecoder.new]
  ids := rfl
  zero := fun h => absurd h (lt_irrefl 0)

/-- The next frame moves over, as a real frame. -/
theorem move (h : Playback n d) (hn : n < 2 ^ 32) {frame : VideoFrame}
    (hplayed : d'.playedFrames =
      d.playedFrames.insert (.ofNat n : UInt32) (some frame : Option VideoFrame))
    (hunplayed : d'.unplayedFrames = d.unplayedFrames.erase (.ofNat n))
    (hlast : d'.lastPlayedFrameId = .ofNat n)
    (hids : d'.playedIds = d.playedIds ++ [.ofNat n]) : Playback (n + 1) d' where
  le := hn
  last := by rw [hlast, ofNat_succ]
  keys := by
    intro k
    rw [hplayed, AList.mem_insert, h.keys, ← UInt32.toNat_inj, toNat_ofNat hn]
    omega
  frames := by
    intro k v hv
    rw [hplayed, Dict.lookup_insert_eq] at hv
    split at hv
    case isTrue => cases hv; simp
    case isFalse => exact h.frames k v hv
  ids := by rw [hids, h.ids, List.range_succ, List.map_append]; rfl
  zero := by
    intro _ f hf
    rw [hunplayed, Dict.lookup_erase_eq] at hf
    split at hf
    case isTrue => cases hf
    case isFalse hne =>
      have hpos : n ≠ 0 := by rintro rfl; exact hne rfl
      exact h.zero (Nat.pos_of_ne_zero hpos) f hf

theorem extends_move (h : Playback n d) (d' : VideoDecoder) (hn : n < 2 ^ 32) {frame : VideoFrame}
    (hplayed : d'.playedFrames =
      d.playedFrames.insert (.ofNat n : UInt32) (some frame : Option VideoFrame)) :
    Extends d d' := by
  intro k v hv
  have hk := (h.keys k).mp (Dict.mem_of_lookup hv)
  have hne : k ≠ .ofNat n := by
    rintro rfl
    rw [toNat_ofNat hn] at hk
    exact lt_irrefl n hk
  rw [hplayed, AList.lookup_insert_ne hne]
  exact hv

/-- Nothing that the invariant speaks of changes. -/
theorem congr (h : Playback n d) (hplayed : d'.playedFrames = d.playedFrames)
    (hunplayed : d'.unplayedFrames = d.unplayedFrames)
    (hlast : d'.lastPlayedFrameId = d.lastPlayedFrameId)
    (hids : d'.playedIds = d.playedIds) : Playback n d' where
  le := h.le
  last := by rw [hlast]; exact h.last
  keys := by rw [hplayed]; exact h.keys
  frames := by rw [hplayed]; exact h.frames
  ids := by rw [hids]; exact h.ids
  zero := by rw [hunplayed]; exact h.zero

theorem playLoop (h : Playback n d) (reply : Bool) (rounds : ℕ) :
    ∃ n', n ≤ n' ∧ Playback n' (d.playLoop reply rounds (.ofNat n)) ∧
      Extends d (d.playLoop reply rounds (.ofNat n)) := by
  induction rounds generalizing n d with
  | zero => exact ⟨n, le_rfl, h, .refl d⟩
  | succ rounds ih =>
      have hstay : ∃ n', n ≤ n' ∧ Playback n' d ∧ Extends d d := ⟨n, le_rfl, h, .refl d⟩
      simp only [VideoDecoder.playLoop]
      split
      case isFalse => exact hstay
      case isTrue =>
        cases hlookup : d.unplayedFrames.lookup (.ofNat n) with
        | none => exact hstay
        | some frame =>
            simp only
            split
            case isFalse => exact hstay
            case isTrue hcomplete =>
              have hn : n < 2 ^ 32 := by
                apply lt_of_le_of_ne h.le
                rintro rfl
                have := h.zero (by norm_num) frame hlookup
                rw [hcomplete] at this
                cases this
              have hmove : Playback (n + 1) (d.decodeFrame (.ofNat n) frame) :=
                h.move hn rfl rfl rfl (by simp [playedIds, decodeFrame])
              have hext := h.extends_move (d.decodeFrame (.ofNat n) frame) hn rfl
              rw [ofNat_succ]
              cases reply with
              | false =>
                  obtain ⟨n', hle, hp, he⟩ := ih hmove
                  exact ⟨n', Nat.le_of_succ_le hle, hp, hext.trans he⟩
              | true =>
                  obtain ⟨n', hle, hp, he⟩ := ih (d := (d.decodeFrame (.ofNat n) frame).replyFrameAck
                    (.ofNat n) frame) (hmove.congr rfl rfl rfl (by simp [playedIds, replyFrameAck]))
                  exact ⟨n', Nat.le_of_succ_le hle, hp, hext.trans he⟩

theorem discardFrame (h : Playback n d) (hn : n < 2 ^ 32) {frame : VideoFrame}
    (hlookup : d.unplayedFrames.lookup (.ofNat n) = some frame) :
    Playback (n + 1) (d.discardFrame (.ofNat n)) ∧ Extends d (d.discardFrame (.ofNat n)) := by
  have hplayed : (d.discardFrame (.ofNat n)).playedFrames
      = d.playedFrames.insert (.ofNat n : UInt32) (some frame : Option VideoFrame) := by
    rw [← hlookup]; rfl
  exact ⟨h.move hn hplayed rfl rfl (by simp [playedIds, VideoDecoder.discardFrame]),
    h.extends_move _ hn hplayed⟩

end Playback

/-- The discard loop, when every frame it goes over is there and incomplete, except for the
first, which may be complete. -/
theorem Playback.discardLoop {n : ℕ} {d : VideoDecoder} (h : Playback n d) {rounds : ℕ}
    (hle : n + rounds ≤ 2 ^ 32)
    (hsafe : ∀ i < rounds, ∃ frame ∈ d.unplayedFrames.lookup (.ofNat (n + i)),
      i = 0 ∨ frame.isComplete = false) :
    ∃ n', n + rounds ≤ n' ∧ (rounds = 0 → n' = n) ∧
      Playback n' (d.discardLoop rounds (.ofNat n)) ∧
      Extends d (d.discardLoop rounds (.ofNat n)) := by
  induction rounds generalizing n d with
  | zero => exact ⟨n, le_rfl, fun _ => rfl, h, .refl d⟩
  | succ rounds ih =>
      have hn : n < 2 ^ 32 := by omega
      obtain ⟨frame, hlookup, -⟩ := hsafe 0 (Nat.succ_pos _)
      obtain ⟨hmove, hext⟩ := h.discardFrame hn hlookup
      simp only [VideoDecoder.discardLoop, ofNat_succ]
      cases rounds with
      | zero =>
          -- the last round: what follows the discarded frame may be played
          obtain ⟨n', hle', hp, he⟩ := hmove.playLoop false
            (Dict.size (d.discardFrame (.ofNat n)).unplayedFrames)
          exact ⟨n', hle', by simp, hp, hext.trans he⟩
      | succ rounds =>
          obtain ⟨next, hnext, hincomplete⟩ := hsafe 1 (by omega)
          have hnext' : ∀ i, 0 < i → i < rounds + 2 →
              (d.discardFrame (.ofNat n)).unplayedFrames.lookup (.ofNat (n + i))
                = d.unplayedFrames.lookup (.ofNat (n + i)) := by
            intro i hi hlt
            have hne : UInt32.ofNat (n + i) ≠ .ofNat n := by
              intro heq
              have := congrArg UInt32.toNat heq
              rw [toNat_ofNat hn, toNat_ofNat (by omega)] at this
              omega
            exact AList.lookup_erase_ne hne
          have hstop : (d.discardFrame (.ofNat n)).playFrom false (.ofNat (n + 1))
              = d.discardFrame (.ofNat n) :=
            playLoop_of_not_readyAt (not_readyAt_of_incomplete
              ((hnext' 1 one_pos (by omega)).trans hnext)
              (hincomplete.resolve_left one_ne_zero)) _ _
          rw [hstop]
          obtain ⟨n', hle', -, hp, he⟩ := ih hmove (by omega) (by
            intro i hi
            obtain ⟨f, hf, hcomplete⟩ := hsafe (i + 1) (by omega)
            rw [add_assoc, add_comm 1 i, hnext' (i + 1) (Nat.succ_pos i) (by omega)]
            exact ⟨f, hf, .inr (hcomplete.resolve_left (Nat.succ_ne_zero i))⟩)
          exact ⟨n', by omega, by simp, hp, hext.trans he⟩

/-! ## Frames that are gone stay gone -/

theorem playLoop_lookup_none {d : VideoDecoder} {k : UInt32}
    (h : d.unplayedFrames.lookup k = none) (reply : Bool) (rounds : ℕ) (idx : UInt32) :
    (d.playLoop reply rounds idx).unplayedFrames.lookup k = none := by
  induction rounds generalizing d idx with
  | zero => exact h
  | succ rounds ih =>
      simp only [playLoop]
      split
      case isFalse => exact h
      case isTrue =>
        cases hlookup : d.unplayedFrames.lookup idx with
        | none => exact h
        | some frame =>
            simp only
            split
            case isFalse => exact h
            case isTrue =>
              have herase : (d.decodeFrame idx frame).unplayedFrames.lookup k = none := by
                rw [decodeFrame, Dict.lookup_erase_eq, h, ite_self]
              cases reply with
              | false => exact ih herase _
              | true => exact ih (d := (d.decodeFrame idx frame).replyFrameAck idx frame) herase _

theorem discardLoop_lookup_none {d : VideoDecoder} {k : UInt32}
    (h : d.unplayedFrames.lookup k = none) (rounds : ℕ) (idx : UInt32) :
    (d.discardLoop rounds idx).unplayedFrames.lookup k = none := by
  induction rounds generalizing d idx with
  | zero => exact h
  | succ rounds ih =>
      refine ih (playLoop_lookup_none ?_ _ _ _) _
      rw [discardFrame, Dict.lookup_erase_eq, h, ite_self]

/-- The frame that a discard loop starts with is gone. -/
theorem discardLoop_lookup_first (d : VideoDecoder) {rounds : ℕ} (hpos : 0 < rounds)
    (idx : UInt32) : (d.discardLoop rounds idx).unplayedFrames.lookup idx = none := by
  obtain ⟨rounds, rfl⟩ := Nat.exists_eq_succ_of_ne_zero hpos.ne'
  refine discardLoop_lookup_none (playLoop_lookup_none ?_ _ _ _) _ _
  rw [discardFrame, AList.lookup_erase]

/-! ## One packet -/

namespace Playback

variable {n : ℕ} {d d' : VideoDecoder}

theorem discardExpired (h : Playback n d) {frameId : UInt32} (hframe : n ≤ frameId.toNat)
    (hsafe : ∀ i < d.discardRounds frameId,
      ∃ frame ∈ d.unplayedFrames.lookup (d.lastPlayedFrameId + 1 + .ofNat i),
        i = 0 ∨ frame.isComplete = false)
    (hdiscard : d.discardExpired frameId = some d') :
    ∃ n', n ≤ n' ∧ (n' = n ∨ 0 < d.discardRounds frameId ∧
        d'.unplayedFrames.lookup (.ofNat n) = none) ∧
      Playback n' d' ∧ Extends d d' := by
  have hn : n < 2 ^ 32 := lt_of_le_of_lt hframe frameId.toNat_lt
  have hfirst : (d.lastPlayedFrameId + 1).toNat = n := by rw [h.last, toNat_ofNat hn]
  unfold VideoDecoder.discardExpired at hdiscard
  simp only [hfirst] at hdiscard
  split at hdiscard
  case isTrue => cases hdiscard
  case isFalse =>
    split at hdiscard
    case isTrue => cases hdiscard
    case isFalse hends =>
      cases hdiscard
      have hrounds : n + d.discardRounds frameId ≤ 2 ^ 32 := by
        rw [discardRounds, hfirst]; omega
      rw [h.last]
      obtain ⟨n', hle, hzero, hp, hext⟩ := h.discardLoop hrounds (by
        intro i hi
        rw [UInt32.ofNat_add, ← h.last]
        exact hsafe i hi)
      refine ⟨n', by omega, ?_, hp, hext⟩
      rcases Nat.eq_zero_or_pos (d.discardRounds frameId) with hnone | hpos
      · exact .inl (hzero hnone)
      · exact .inr ⟨hpos, discardLoop_lookup_first d hpos _⟩

/-- A packet of a frame that is not played goes into a frame. -/
theorem storePacket (h : Playback n d) {pkt : DataPacket}
    (hzero : 0 < n → pkt.frameId = 0 →
      d.unplayedFrames.lookup 0 = none ∧ pkt.framePktNum ≠ 1) :
    Playback n (d.storePacket pkt) where
  le := h.le
  last := h.last
  keys := h.keys
  frames := h.frames
  ids := h.ids
  zero := by
    intro hn frame hframe
    simp only [VideoDecoder.storePacket, Dict.lookup_insert_eq] at hframe
    split at hframe
    case isFalse => exact h.zero hn frame hframe
    case isTrue heq =>
      obtain ⟨hnone, hnum⟩ := hzero hn heq.symm
      rw [← heq, hnone] at hframe
      cases hframe
      simpa [VideoFrame.isComplete, VideoFrame.new, VideoFrame.addPacket,
        VideoFrame.getDataPktRcvedNum] using hnum

theorem playStored (h : Playback n d) (frameId : UInt32) :
    ∃ n', n ≤ n' ∧ Playback n' (d.playStored frameId) ∧ Extends d (d.playStored frameId) := by
  have hstay : ∃ n', n ≤ n' ∧ Playback n' d ∧ Extends d d := ⟨n, le_rfl, h, .refl d⟩
  unfold VideoDecoder.playStored
  cases hlookup : d.unplayedFrames.lookup frameId with
  | none => exact hstay
  | some frame =>
      simp only
      split
      case isFalse => exact hstay
      case isTrue hcomplete =>
        split
        case isTrue hframe =>
          subst hframe
          -- a complete frame 0 was not played before
          have hn : n = 0 := by
            by_contra hne
            have := h.zero (Nat.pos_of_ne_zero hne) frame hlookup
            rw [hcomplete] at this
            cases this
          subst hn
          refine ⟨1, Nat.zero_le 1, ?_, ?_⟩
          · exact h.move (by norm_num) rfl rfl rfl (by simp [playedIds, decodeFrame])
          · exact h.extends_move (d.decodeFrame 0 frame) (by norm_num) rfl
        case isFalse =>
          split
          case isFalse => exact hstay
          case isTrue hnext =>
            rw [hnext, h.last]
            exact h.playLoop true _

/-- One packet, when what it discards is safe to discard. -/
theorem decodePacket (h : Playback n d) {pkt : DataPacket} (hsafe : d.DiscardsSafely pkt)
    (hstep : d.decodePacket pkt = some d') :
    ∃ n', n ≤ n' ∧ Playback n' d' ∧ Extends d d' := by
  unfold VideoDecoder.decodePacket at hstep
  split at hstep
  case isTrue =>
    cases hstep
    exact ⟨n, le_rfl, h, .refl d⟩
  case isFalse hmem =>
    obtain ⟨hdiscards, hzero⟩ := hsafe.resolve_left hmem
    obtain ⟨d₁, hdiscard, rfl⟩ := Option.map_eq_some_iff.mp hstep
    have hframe : n ≤ pkt.frameId.toNat := not_lt.mp (mt (h.keys _).mpr hmem)
    obtain ⟨n₁, hle, hgone, h₁, hext⟩ := h.discardExpired hframe hdiscards hdiscard
    have hstore : Playback n₁ (d₁.storePacket pkt) := by
      apply h₁.storePacket
      intro hpos heq
      have hn : n = 0 := by
        rw [heq] at hframe
        exact Nat.le_zero.mp hframe
      subst hn
      obtain ⟨hrounds, hnone⟩ := hgone.resolve_left hpos.ne'
      exact ⟨hnone, fun hnum => hzero ⟨heq, hrounds, hnum⟩⟩
    obtain ⟨n₂, hle', h₂, hext'⟩ := hstore.playStored pkt.frameId
    exact ⟨n₂, hle.trans hle', h₂, hext.trans hext'⟩

/-- A run of such packets. -/
theorem exec (h : Playback n d) {pkts : List DataPacket}
    (hsafe : Run.Each VideoDecoder.decodePacket DiscardsSafely d pkts)
    (hrun : Run.exec VideoDecoder.decodePacket d pkts = some d') :
    ∃ n', n ≤ n' ∧ Playback n' d' ∧ Extends d d' := by
  induction pkts generalizing n d with
  | nil =>
      cases hrun
      exact ⟨n, le_rfl, h, .refl _⟩
  | cons pkt pkts ih =>
      obtain ⟨t, hstep, hrest⟩ := Run.exec_cons_eq_some.mp hrun
      obtain ⟨n₁, hle, h₁, hext⟩ := h.decodePacket hsafe.1 hstep
      obtain ⟨n₂, hle', h₂, hext'⟩ := ih h₁ (hsafe.2 t hstep) hrest
      exact ⟨n₂, hle.trans hle', h₂, hext.trans hext'⟩

theorem cursor_eq (h : Playback n d) : d.cursor = n - 1 := by
  have hlast : d.lastPlayedFrameId = .ofNat n - 1 := by rw [← h.last]; simp
  have hle := h.le
  cases n with
  | zero =>
      have hmem : 0 ∉ d.playedFrames := by rw [h.keys]; exact Nat.not_lt_zero _
      have hnone : d.lastPlayedFrameId = -1 := hlast.trans (by decide)
      simp [cursor, hnone, hmem]
  | succ m =>
      have hmem : 0 ∈ d.playedFrames := by rw [h.keys]; exact Nat.succ_pos m
      have hm : d.lastPlayedFrameId = .ofNat m := by rw [hlast, ← ofNat_succ]; simp
      have htoNat : (UInt32.ofNat m).toNat = m := toNat_ofNat (by omega)
      simp [cursor, hmem, hm, htoNat]

theorem soundBetween {n' : ℕ} (h : Playback n d) (h' : Playback n' d') (hle : n ≤ n')
    (hext : Extends d d') : SoundBetween d d' where
  cursor := by rw [h.cursor_eq, h'.cursor_eq]; omega
  played := by
    intro k hk
    rw [h.cursor_eq] at hk
    rw [h.keys]
    omega
  frames := h.frames
  kept := hext

theorem nodup_playedIds (h : Playback n d) : d.playedIds.Nodup := by
  rw [h.ids]
  refine List.Nodup.map_on ?_ List.nodup_range
  intro i hi j hj hij
  have hsmall : ∀ k ∈ List.range n, (UInt32.ofNat k).toNat = k := fun k hk =>
    toNat_ofNat (lt_of_lt_of_le (List.mem_range.mp hk) h.le)
  rw [← hsmall i hi, ← hsmall j hj, hij]

theorem frameDelays_isSome (h : Playback n d) : d.frameDelays.isSome :=
  VideoDecoder.frameDelays_isSome h.frames

end Playback

/-! ## Runs -/

/-- As long as what expires is safe to discard, the cursor is sound: from any state of the
run to any later one. No frame is moved over twice, and the statistics at the end
dereference real frames only. -/
theorem cursor_sound_of_discardsSafely {delayDdl : Time} {fps : UInt16}
    {pkts rest : List DataPacket}
    (hsafe : Run.Each decodePacket DiscardsSafely (.new delayDdl fps) (pkts ++ rest))
    {d d' : VideoDecoder} (hd : decodeDataPacket pkts (.new delayDdl fps) = some d)
    (hd' : decodeDataPacket rest d = some d') :
    SoundBetween d d' ∧ d'.playedIds.Nodup ∧ d'.frameDelays.isSome := by
  obtain ⟨n, -, h, -⟩ := (Playback.new delayDdl fps).exec hsafe.of_append hd
  obtain ⟨n', hle, h', hext⟩ := h.exec (hsafe.of_append_right hd) hd'
  exact ⟨h.soundBetween h' hle hext, h'.nodup_playedIds, h'.frameDelays_isSome⟩

/-- Two frames of one packet each, the second one first. -/
theorem cursor_sound_of_discardsSafely_twoFrames :
    ∃ d d', decodeDataPacket [.new 1 0 1 0] (.new (.milliSeconds 100) 30) = some d ∧
      decodeDataPacket [.new 0 0 1 0] d = some d' ∧
      SoundBetween d d' ∧ d'.playedIds.Nodup ∧ d'.frameDelays.isSome := by
  have hfirst : (decodeDataPacket [.new 1 0 1 0] (.new (.milliSeconds 100) 30)).isSome := by
    decide +kernel
  obtain ⟨d, hd⟩ := Option.isSome_iff_exists.mp hfirst
  have hboth : (decodeDataPacket ([.new 1 0 1 0] ++ [.new 0 0 1 0])
      (.new (.milliSeconds 100) 30)).isSome := by decide +kernel
  obtain ⟨d', hrun⟩ := Option.isSome_iff_exists.mp hboth
  obtain ⟨t, ht, hd'⟩ := Run.exec_append_eq_some.mp hrun
  have hsame : t = d := Option.some.inj (ht.symm.trans hd)
  subst hsame
  exact ⟨t, d', hd, hd', cursor_sound_of_discardsSafely (by decide +kernel) hd hd'⟩

/-- A first packet of frame 5 discards the frames 0, 1 and 2, none of which is there. -/
theorem cursor_not_sound :
    ¬ ∀ (delayDdl : Time) (fps : UInt16) (pkts rest : List DataPacket) (d d' : VideoDecoder),
      decodeDataPacket pkts (.new delayDdl fps) = some d → decodeDataPacket rest d = some d' →
      SoundBetween d d' := by
  intro hclaim
  obtain ⟨d, hd, hnull⟩ : ∃ d, decodeDataPacket [.new 5 0 1 0] (.new (.milliSeconds 100) 30)
      = some d ∧ d.playedFrames.lookup 0 = some none := by
    decide +kernel
  exact (hclaim (.milliSeconds 100) 30 _ [] d d hd rfl).frames 0 none hnull rfl

end Zhuge.VideoDecoder
