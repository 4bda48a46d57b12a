-- SUMMARY: The video decoder: frames filled by data packets, played in order, and discarded when they are too old.
import Zhuge.Lib.Dict
import Zhuge.Lib.Run
import Zhuge.Packet

/-!
# The decoder

Frames wait in `unplayedFrames` until all their packets are there and all earlier frames
were played. Frames that lie a deadline behind the frame of an arriving packet are
discarded first: they move to `playedFrames`, as null pointers where there is no frame.
-/

namespace Zhuge

/-! ## Frames -/

structure VideoFrame where
  dataPktNum : UInt16
  encodeTime : Time
  firstPktRcvTime : Time
  lastPktRcvTime : Time
  groupIds : Finset UInt16
  pkts : Finset UInt16
deriving DecidableEq

namespace VideoFrame

def addPacket (pkt : DataPacket) (f : VideoFrame) : VideoFrame :=
  { f with
    lastPktRcvTime := if pkt.rcvTime > f.lastPktRcvTime then pkt.rcvTime else f.lastPktRcvTime
    encodeTime := if pkt.encodeTime < f.encodeTime then pkt.encodeTime else f.encodeTime
    pkts := insert pkt.pktIdInFrame f.pkts }

/-- The constructor. -/
def new (pkt : DataPacket) : VideoFrame :=
  addPacket pkt {
    dataPktNum := pkt.framePktNum
    encodeTime := pkt.encodeTime
    firstPktRcvTime := pkt.rcvTime
    lastPktRcvTime := pkt.rcvTime
    groupIds := {pkt.groupId.toUInt16}
    pkts := ∅ }

def getDataPktRcvedNum (f : VideoFrame) : UInt16 := .ofNat f.pkts.card

/-- `GetDataPktNum() == GetDataPktRcvedNum()`. -/
def isComplete (f : VideoFrame) : Bool := f.dataPktNum == f.getDataPktRcvedNum

def getFrameDelay (f : VideoFrame) : Time := f.lastPktRcvTime - f.encodeTime

end VideoFrame

/-! ## The decoder -/

/-- What the decoder prints and sends. -/
inductive DecoderEvent where
  | discard (frameId : UInt32)
  | decode (frameId : UInt32)
  | replyFrameAck (frameId : UInt32) (encodeTime : Time)
deriving DecidableEq

structure VideoDecoder where
  delayDdl : Time
  unplayedFrames : Dict UInt32 VideoFrame
  /-- `none` is a null pointer. -/
  playedFrames : Dict UInt32 (Option VideoFrame)
  minFrameId : UInt32
  maxFrameId : UInt32
  lastPlayedFrameId : UInt32
  frameInterval : UInt16
  excludeTenPlayedFrames : Finset UInt32
  log : List DecoderEvent

namespace VideoDecoder

/-- The constructor. -/
def new (delayDdl : Time) (fps : UInt16) : VideoDecoder where
  delayDdl := delayDdl
  unplayedFrames := ∅
  playedFrames := ∅
  minFrameId := 0
  maxFrameId := 0
  lastPlayedFrameId := -1
  frameInterval := 1000 / fps
  excludeTenPlayedFrames := ∅
  log := []

/-- The bound of the discard loop, a 64-bit signed number. -/
def discardBound (frameId : UInt32) (d : VideoDecoder) : Int :=
  frameId.toNat - d.delayDdl.getMilliSeconds.tdiv d.frameInterval.toNat

/-- Move a frame over as discarded. For a missing frame `unplayed_frames[idx]` makes a null
pointer first. -/
def discardFrame (idx : UInt32) (d : VideoDecoder) : VideoDecoder :=
  { d with
    playedFrames := d.playedFrames.insert idx (d.unplayedFrames.lookup idx)
    unplayedFrames := d.unplayedFrames.erase idx
    lastPlayedFrameId := idx
    log := d.log ++ [.discard idx] }

/-- Move a complete frame over as played. -/
def decodeFrame (idx : UInt32) (frame : VideoFrame) (d : VideoDecoder) : VideoDecoder :=
  { d with
    playedFrames := d.playedFrames.insert idx (some frame)
    unplayedFrames := d.unplayedFrames.erase idx
    lastPlayedFrameId := idx
    log := d.log ++ [.decode idx] }

/-- What the second of the two loops over complete frames does besides. -/
def replyFrameAck (idx : UInt32) (frame : VideoFrame) (d : VideoDecoder) : VideoDecoder :=
  { d with
    excludeTenPlayedFrames :=
      if idx ≥ 10 then insert idx d.excludeTenPlayedFrames else d.excludeTenPlayedFrames
    log := d.log ++ [.replyFrameAck idx frame.encodeTime] }

/-- The loop that plays complete frames from `idx` on, with or without replies. Every round
takes a frame out of `unplayedFrames`, so as many rounds as it has frames are enough. -/
def playLoop (reply : Bool) : ℕ → UInt32 → VideoDecoder → VideoDecoder
  | 0, _, d => d
  | rounds + 1, idx, d =>
    if idx ≤ d.maxFrameId then
      match d.unplayedFrames.lookup idx with
      | none => d
      | some frame =>
        if frame.isComplete then
          let d := d.decodeFrame idx frame
          playLoop reply rounds (idx + 1) (if reply then d.replyFrameAck idx frame else d)
        else d
    else d

def playFrom (reply : Bool) (idx : UInt32) (d : VideoDecoder) : VideoDecoder :=
  playLoop reply (Dict.size d.unplayedFrames) idx d

/-- The discard loop, for a number of rounds. -/
def discardLoop : ℕ → UInt32 → VideoDecoder → VideoDecoder
  | 0, _, d => d
  | rounds + 1, idx, d =>
    discardLoop rounds (idx + 1) ((d.discardFrame idx).playFrom false (idx + 1))

/-- How often the discard loop runs, if it ends. -/
def discardRounds (frameId : UInt32) (d : VideoDecoder) : ℕ :=
  (d.discardBound frameId + 1 - (d.lastPlayedFrameId + 1).toNat).toNat

/-- The discard loop. `none`: it divides by zero, or no `uint32_t` index is past its bound
and it never ends. -/
def discardExpired (frameId : UInt32) (d : VideoDecoder) : Option VideoDecoder :=
  let first := d.lastPlayedFrameId + 1
  let bound := d.discardBound frameId
  if d.frameInterval = 0 then none
  else if first.toNat ≤ bound ∧ 2 ^ 32 - 1 ≤ bound then none
  else some (d.discardLoop (d.discardRounds frameId) first)

/-- Put a packet into its frame. -/
def storePacket (pkt : DataPacket) (d : VideoDecoder) : VideoDecoder :=
  { d with
    maxFrameId := max d.maxFrameId pkt.frameId
    minFrameId := min d.minFrameId pkt.frameId
    unplayedFrames := d.unplayedFrames.insert pkt.frameId
      (match d.unplayedFrames.lookup pkt.frameId with
      | none => .new pkt
      | some frame => frame.addPacket pkt) }

/-- Play the frame of the packet just stored, if it is complete and its turn has come. -/
def playStored (frameId : UInt32) (d : VideoDecoder) : VideoDecoder :=
  match d.unplayedFrames.lookup frameId with
  | none => d
  | some frame =>
    if frame.isComplete then
      if frameId = 0 then d.decodeFrame frameId frame
      else if frameId = d.lastPlayedFrameId + 1 then d.playFrom true frameId
      else d
    else d

/-- The body of `DecodeDataPacket`. -/
def decodePacket (d : VideoDecoder) (pkt : DataPacket) : Option VideoDecoder :=
  if pkt.frameId ∈ d.playedFrames then some d
  else (d.discardExpired pkt.frameId).map fun d => (d.storePacket pkt).playStored pkt.frameId

def decodeDataPacket (pkts : List DataPacket) (d : VideoDecoder) : Option VideoDecoder :=
  Run.exec decodePacket d pkts

/-- The frame delays that `GetDDLMissRate` adds up. `none`: it dereferences a null pointer. -/
def frameDelays (d : VideoDecoder) : Option (List Time) :=
  d.playedFrames.entries.mapM fun e => e.2.map (·.getFrameDelay)

/-! ## Rules for the loops -/

/-- A complete frame waits under the id. -/
def ReadyAt (idx : UInt32) (d : VideoDecoder) : Prop :=
  ∃ frame ∈ d.unplayedFrames.lookup idx, frame.isComplete = true

/-- One round of the play loop. -/
def playRound (reply : Bool) (idx : UInt32) (frame : VideoFrame) (d : VideoDecoder) :
    VideoDecoder :=
  if reply then (d.decodeFrame idx frame).replyFrameAck idx frame else d.decodeFrame idx frame

theorem unplayedFrames_playRound (reply : Bool) (idx : UInt32) (frame : VideoFrame)
    (d : VideoDecoder) :
    (d.playRound reply idx frame).unplayedFrames = d.unplayedFrames.erase idx := by
  cases reply <;> rfl

/-- Where no complete frame waits, the loop does nothing. -/
theorem playLoop_of_not_readyAt {d : VideoDecoder} {idx : UInt32} (h : ¬ d.ReadyAt idx)
    (reply : Bool) (rounds : ℕ) : d.playLoop reply rounds idx = d := by
  cases rounds with
  | zero => rfl
  | succ rounds =>
      simp only [playLoop]
      split
      case isFalse => rfl
      case isTrue =>
        cases hlookup : d.unplayedFrames.lookup idx with
        | none => rfl
        | some frame =>
            simp only
            split
            case isFalse => rfl
            case isTrue hcomplete => exact absurd ⟨frame, hlookup, hcomplete⟩ h

theorem not_readyAt_of_lookup_none {d : VideoDecoder} {idx : UInt32}
    (h : d.unplayedFrames.lookup idx = none) : ¬ d.ReadyAt idx := by
  rintro ⟨frame, hframe, -⟩
  rw [h] at hframe
  cases hframe

theorem not_readyAt_of_incomplete {d : VideoDecoder} {idx : UInt32} {frame : VideoFrame}
    (hlookup : d.unplayedFrames.lookup idx = some frame) (h : frame.isComplete = false) :
    ¬ d.ReadyAt idx := by
  rintro ⟨frame', hframe, hcomplete⟩
  rw [hlookup] at hframe
  cases hframe
  rw [h] at hcomplete
  cases hcomplete

/-- What every round keeps holds at the end, and with enough rounds the loop stops at an id
where no complete frame waits. -/
theorem playLoop_rule {P : UInt32 → VideoDecoder → Prop} {reply : Bool}
    (hplay : ∀ idx d frame, P idx d → idx ≤ d.maxFrameId →
      d.unplayedFrames.lookup idx = some frame → frame.isComplete = true →
      P (idx + 1) (d.playRound reply idx frame))
    {idx : UInt32} {d : VideoDecoder} (h : P idx d) (rounds : ℕ) :
    ∃ idx', P idx' (d.playLoop reply rounds idx) ∧ (Dict.size d.unplayedFrames ≤ rounds →
      idx' ≤ (d.playLoop reply rounds idx).maxFrameId →
      ¬ (d.playLoop reply rounds idx).ReadyAt idx') := by
  induction rounds generalizing idx d with
  | zero =>
      refine ⟨idx, h, fun hsize _ => ?_⟩
      rintro ⟨frame, hframe, -⟩
      exact absurd (Dict.size_pos_of_lookup hframe) (not_lt.mpr hsize)
  | succ rounds ih =>
      simp only [playLoop]
      split
      case isFalse hmax => exact ⟨idx, h, fun _ hle => absurd hle hmax⟩
      case isTrue hmax =>
        cases hlookup : d.unplayedFrames.lookup idx with
        | none =>
            exact ⟨idx, h, fun _ _ => not_readyAt_of_lookup_none hlookup⟩
        | some frame =>
            simp only
            split
            case isFalse hcomplete =>
              have hpart : frame.isComplete = false := by simpa using hcomplete
              exact ⟨idx, h, fun _ _ => not_readyAt_of_incomplete hlookup hpart⟩
            case isTrue hcomplete =>
              obtain ⟨idx', hP, hstop⟩ := ih (hplay idx d frame h hmax hlookup hcomplete)
              refine ⟨idx', hP, fun hsize => hstop ?_⟩
              have := Dict.size_erase_of_mem (Dict.mem_of_lookup hlookup)
              rw [unplayedFrames_playRound]
              omega

/-- The same for `playFrom`, which has enough rounds. -/
theorem playFrom_rule {P : UInt32 → VideoDecoder → Prop} (reply : Bool) (idx : UInt32)
    (d : VideoDecoder) (h : P idx d)
    (hplay : ∀ idx d frame, P idx d → idx ≤ d.maxFrameId →
      d.unplayedFrames.lookup idx = some frame → frame.isComplete = true →
      P (idx + 1) (d.playRound reply idx frame)) :
    ∃ idx', P idx' (d.playFrom reply idx) ∧ (idx' ≤ (d.playFrom reply idx).maxFrameId →
      ¬ (d.playFrom reply idx).ReadyAt idx') := by
  obtain ⟨idx', hP, hstop⟩ := playLoop_rule hplay h (Dict.size d.unplayedFrames)
  exact ⟨idx', hP, hstop le_rfl⟩

end VideoDecoder

end Zhuge
