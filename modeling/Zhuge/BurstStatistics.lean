-- SUMMARY: The metrics reported between bursts are the true ones, except in the first report, where the first packet of all is missing from the mean it was counted for.
import Zhuge.BurstFeedback
import Zhuge.Lib.Bursts

/-!
# The metrics between bursts

At the switch to a new burst, the controller is told how the burst that ends compares with the
one before it: the difference of their mean arrivals, of their mean departures and of their bytes.
-/

namespace Zhuge

/-- An item of a report, with what the controller knows about the packet. -/
structure BurstItem where
  txTime : UInt64
  rxTime : UInt64
  size : UInt64
deriving DecidableEq

namespace BurstItem

/-- Sent within 10 ms of the first packet of the burst. -/
def near (first x : BurstItem) : Bool := x.txTime.toNat ≤ first.txTime.toNat + 10000

def txTimes (items : List BurstItem) : List ℕ := items.map (·.txTime.toNat)

def rxTimes (items : List BurstItem) : List ℕ := items.map (·.rxTime.toNat)

def bytes (items : List BurstItem) : ℕ := (items.map (·.size.toNat)).sum

end BurstItem

open BurstItem (near txTimes rxTimes bytes)
open Burst (mean cut)

/-- What `processFeedback` is told about the burst that ends. -/
structure BurstMetrics where
  interArrival : Int64
  interDeparture : UInt64
  interGroupSize : Int32

namespace BurstFeedback

def metrics (s : BurstFeedback) : BurstMetrics where
  interArrival := (s.currFrameRxTime / s.currPktsInFrame.toUInt64
    - s.prevFrameRxTime / s.prevPktsInFrame.toUInt64).toInt64
  interDeparture := s.currFrameTxTime / s.currPktsInFrame.toUInt64
    - s.prevFrameTxTime / s.prevPktsInFrame.toUInt64
  interGroupSize := s.groupSize - s.prevGroupSize

/-- The event gets to the call of `processFeedback`. -/
def Calls (s : BurstFeedback) : Event → Prop
  | .item _ id _ =>
    let txTime := s.controller.getPacketTxTimestamp id
    s.firstFeedback = false ∧ s.inTime txTime ∧ 10000 < txTime - s.groupstartTxTime ∧
      s.groupId ≠ 0 ∧ s.prevPktsInFrame ≠ 0 ∧ s.currPktsInFrame ≠ 0
  | .send .. => False
  | .updateLossRate _ => False

instance (s : BurstFeedback) : (e : Event) → Decidable (s.Calls e)
  | .item .. => inferInstanceAs (Decidable (_ ∧ _))
  | .send .. => .isFalse id
  | .updateLossRate _ => .isFalse id

/-- The call, and what is kept of it. -/
theorem reportBurst_eq {s : BurstFeedback} (nowUs : UInt64) {id : UInt16} (rxTime : UInt64)
    (h : s.Calls (.item nowUs id rxTime)) :
    s.reportBurst nowUs id rxTime =
      (s.controller.processFeedback nowUs id rxTime).map fun (_, controller) =>
        { s with
          interArrival := s.metrics.interArrival
          interDeparture := s.metrics.interDeparture
          interDelayVar :=
            (s.metrics.interArrival.toUInt64 - s.metrics.interDeparture).toInt64
          interGroupSize := s.metrics.interGroupSize
          controller } := by
  obtain ⟨-, -, -, hgroup, hprev, hcurr⟩ := h
  rw [reportBurst, if_neg hgroup, if_neg (not_or.mpr ⟨hprev, hcurr⟩)]
  rfl

end BurstFeedback

/-- The sender's feedback, with all items so far. -/
structure BurstLog where
  feedback : BurstFeedback
  stream : List BurstItem := []
deriving DecidableEq

namespace BurstLog

open BurstFeedback (Event)

def bursts (a : BurstLog) : List (Burst BurstItem) := cut near a.stream

/-- The item of an event. -/
def itemOf (s : BurstFeedback) (id : UInt16) (rxTime : UInt64) : BurstItem where
  txTime := s.controller.getPacketTxTimestamp id
  rxTime := rxTime
  size := s.controller.getPacketSize id

def itemsOf (s : BurstFeedback) : Event → List BurstItem
  | .item _ id rxTime => [itemOf s id rxTime]
  | .send .. => []
  | .updateLossRate _ => []

def step (a : BurstLog) (e : Event) : Option BurstLog :=
  (a.feedback.step e).map fun feedback => { feedback, stream := a.stream ++ itemsOf a.feedback e }

/-- Packets are sent in the order of time. A packet that is reported is in the transit history; it
was not sent before the one reported last, and at most `20 * m_interval` ms after the start of the
burst. -/
def Admissible (a : BurstLog) : Event → Prop
  | .send txTimestampUs _ _ =>
    ∀ r ∈ a.feedback.controller.packetTransitHistory, r.txTimestampUs ≤ txTimestampUs
  | .updateLossRate _ => True
  | .item _ id rxTime =>
    let x := itemOf a.feedback id rxTime
    (∃ r ∈ a.feedback.controller.packetTransitHistory, r.sequence = id) ∧
      (∀ last ∈ a.stream.getLast?, last.txTime ≤ x.txTime) ∧
      ∀ b ∈ a.bursts.head?,
        x.txTime.toNat ≤ b.first.txTime.toNat + 20000 * a.feedback.interval.toNat

/-- The counts and sums of every burst have room in the fields that hold them. -/
def Fits (a : BurstLog) (_ : Event) : Prop :=
  ∀ b ∈ a.bursts, b.items.length < 2 ^ 16 ∧ (txTimes b.items).sum < 2 ^ 63 ∧
    (rxTimes b.items).sum < 2 ^ 63 ∧ bytes b.items < 2 ^ 31

instance (a : BurstLog) : (e : Event) → Decidable (a.Admissible e)
  | .send .. => inferInstanceAs (Decidable (∀ _ ∈ _, _))
  | .updateLossRate _ => .isTrue trivial
  | .item .. => inferInstanceAs (Decidable ((∃ _ ∈ _, _) ∧ (∀ _ ∈ _, _) ∧ ∀ _ ∈ _, _))

instance (a : BurstLog) (e : Event) : Decidable (a.Fits e) :=
  inferInstanceAs (Decidable (∀ _ ∈ _, _))

/-- What is reported about the burst that ends is so. -/
def RightReport (a : BurstLog) (e : Event) : Prop :=
  a.feedback.Calls e → ∃ b c older, a.bursts = b :: c :: older ∧
    (a.feedback.metrics.interArrival.toInt : ℤ)
      = mean (rxTimes b.items) - mean (rxTimes c.items) ∧
    (a.feedback.metrics.interDeparture.toNat : ℤ)
      = mean (txTimes b.items) - mean (txTimes c.items) ∧
    a.feedback.metrics.interGroupSize.toInt = bytes b.items - bytes c.items

/-- When the second burst is reported, it makes no difference to the means of the first one that
the times of the first packet of all are not added up. -/
def FirstMakesNoDifference (a : BurstLog) (e : Event) : Prop :=
  a.feedback.Calls e → ∀ b c, a.bursts = [b, c] →
    (txTimes c.more).sum / c.items.length = mean (txTimes c.items) ∧
      (rxTimes c.more).sum / c.items.length = mean (rxTimes c.items)

end BurstLog

namespace BurstFeedback

/-! ## The transit history -/

/-- The transit history has the packets that the bursts refer to. -/
structure History (s : BurstFeedback) (stream : List BurstItem) : Prop where
  nodup : (s.controller.packetTransitHistory.map (·.sequence)).Nodup
  sorted : s.controller.packetTransitHistory.Pairwise fun r t => r.txTimestampUs ≤ t.txTimestampUs
  last : ∀ x ∈ stream.getLast?, ∃ r ∈ s.controller.packetTransitHistory,
    r.sequence = s.prevId ∧ r.txTimestampUs = x.txTime
  target : s.prevGroupendId = 0 ∨ ∃ r ∈ s.controller.packetTransitHistory,
    r.sequence = s.prevGroupendId ∧ r.txTimestampUs < s.groupstartTxTime
  ordered : stream.Pairwise fun x y => x.txTime ≤ y.txTime

section Lookup

variable {history : List PacketRecord} {r : PacketRecord}

theorem find?_of_nodup (hnodup : (history.map (·.sequence)).Nodup) (hr : r ∈ history) :
    history.find? (·.sequence = r.sequence) = some r := by
  obtain ⟨found, hfound⟩ : ∃ found, history.find? (·.sequence = r.sequence) = some found := by
    rw [← Option.isSome_iff_exists, List.find?_isSome]
    exact ⟨r, hr, decide_eq_true rfl⟩
  have hsequence : found.sequence = r.sequence := by simpa using List.find?_some hfound
  rw [hfound, List.inj_on_of_nodup_map hnodup (List.mem_of_find?_eq_some hfound) hr hsequence]

variable {c : SenderBasedController}

theorem getPacketTxTimestamp_of_nodup (hnodup : (c.packetTransitHistory.map (·.sequence)).Nodup)
    (hr : r ∈ c.packetTransitHistory) : c.getPacketTxTimestamp r.sequence = r.txTimestampUs := by
  have hreverse : (c.packetTransitHistory.reverse.map (·.sequence)).Nodup := by
    rw [List.map_reverse]
    exact List.nodup_reverse.mpr hnodup
  rw [SenderBasedController.getPacketTxTimestamp,
    find?_of_nodup hreverse (List.mem_reverse.mpr hr)]

theorem getPacketSize_of_nodup (hnodup : (c.packetTransitHistory.map (·.sequence)).Nodup)
    (hr : r ∈ c.packetTransitHistory) : c.getPacketSize r.sequence = r.size.toUInt64 := by
  rw [SenderBasedController.getPacketSize, find?_of_nodup hnodup hr]

end Lookup

section Pruning

variable {s : BurstFeedback} {stream : List BurstItem} {r : PacketRecord}

theorem kept_suffix (s : BurstFeedback) : s.kept <:+ s.controller.packetTransitHistory :=
  List.dropWhile_suffix _

/-- Pruning stops at the end of a burst in the past: the packets sent later stay. -/
theorem History.mem_kept (h : History s stream) (hr : r ∈ s.controller.packetTransitHistory)
    (hlater : s.groupstartTxTime ≤ r.txTimestampUs) : r ∈ s.kept := by
  rw [kept]
  rcases h.target with hzero | ⟨target, htarget, hsequence, hpast⟩
  · have hnone (l : List PacketRecord) : l.dropWhile (fun r =>
        decide (r.sequence.toUInt32 < s.prevGroupendId.toUInt32)) = l := by
      rw [hzero]
      cases l with
      | nil => rfl
      | cons r l => exact List.dropWhile_cons_of_neg (by simp)
    rwa [hnone]
  · obtain ⟨older, newer, hsplit⟩ := List.append_of_mem htarget
    have hsorted := h.sorted
    rw [hsplit] at hr hsorted ⊢
    have hstops : target :: newer <:+ (older ++ target :: newer).dropWhile fun r =>
        decide (r.sequence.toUInt32 < s.prevGroupendId.toUInt32) := by
      rw [List.dropWhile_append, List.dropWhile_cons_of_neg (by simp [hsequence])]
      split
      · exact List.suffix_refl _
      · exact List.suffix_append _ _
    apply hstops.subset
    rcases List.mem_append.mp hr with hold | hnew
    · have hle := (List.pairwise_append.mp hsorted).2.2 r hold target List.mem_cons_self
      exact absurd (UInt64.lt_of_le_of_lt (UInt64.le_trans hlater hle) hpast)
        (UInt64.lt_irrefl _)
    · exact hnew

end Pruning

/-- Sending leaves the transit history alone, or adds a record with a new sequence to it. -/
theorem transitHistory_processSendPacket {txTimestampUs : UInt64} {sequence : UInt16}
    {size : UInt32} {c c' : SenderBasedController} {ok : Bool}
    (h : c.processSendPacket txTimestampUs sequence size = some (ok, c')) :
    c'.packetTransitHistory = c.packetTransitHistory ∨
      ∃ r, c'.packetTransitHistory = c.packetTransitHistory ++ [r] ∧
        r.txTimestampUs = txTimestampUs ∧
        ∀ t ∈ c.packetTransitHistory, t.sequence ≠ r.sequence := by
  simp only [SenderBasedController.processSendPacket] at h
  split at h
  · cases h
    exact .inl rfl
  · obtain ⟨history, hrecord, heq⟩ := Option.map_eq_some_iff.mp h
    cases heq
    rw [SenderBasedController.recordSent] at hrecord
    split at hrecord
    · cases hrecord
    case isFalse hfree =>
      cases hrecord
      push Not at hfree
      exact .inr ⟨_, rfl, rfl, hfree⟩

/-- What a switch leaves behind. -/
structure Switched (txTime : UInt64) (s t : BurstFeedback) : Prop where
  history : t.controller.packetTransitHistory = s.kept
  firstFeedback : t.firstFeedback = s.firstFeedback
  interval : t.interval = s.interval
  groupId : t.groupId = s.groupId + 1
  groupstart : t.groupstartTxTime = txTime
  groupend : t.prevGroupendId = s.prevId
  prevGroupSize : t.prevGroupSize = s.groupSize
  prevPkts : t.prevPktsInFrame = s.currPktsInFrame
  prevTx : t.prevFrameTxTime = s.currFrameTxTime
  prevRx : t.prevFrameRxTime = s.currFrameRxTime
  groupSize : t.groupSize = 0
  currPkts : t.currPktsInFrame = 0
  currTx : t.currFrameTxTime = 0
  currRx : t.currFrameRxTime = 0

theorem switched_switchBurst {nowUs : UInt64} {id : UInt16} {txTime rxTime : UInt64}
    {s t : BurstFeedback} (h : s.switchBurst nowUs id txTime rxTime = some t) :
    Switched txTime s t := by
  obtain ⟨u, hu, hrest⟩ := Option.bind_eq_some_iff.mp h
  obtain ⟨_, _, _, _, controller, hhistory, rfl⟩ := reportBurst_eq_some hu
  obtain ⟨pruned, hprune, heq⟩ := Option.bind_eq_some_iff.mp hrest
  simp only [prunTransitHistory_eq hhistory] at hprune
  split at hprune
  · cases hprune
  · cases hprune
    cases heq
    exact ⟨rfl, rfl, rfl, rfl, rfl, rfl, rfl, rfl, rfl, rfl, rfl, rfl, rfl, rfl⟩

/-! ## Sums of the bursts -/

/-- The items of a burst whose times are added up. -/
def added (b : Burst BurstItem) (older : List (Burst BurstItem)) : List BurstItem :=
  if older.isEmpty then b.more else b.items

/-- The fields about the burst that goes on. -/
structure Current (s : BurstFeedback) (b : Burst BurstItem) (older : List (Burst BurstItem)) :
    Prop where
  groupstart : s.groupstartTxTime = b.first.txTime
  groupId : s.groupId = .ofNat older.length
  count : s.currPktsInFrame = .ofNat b.items.length
  tx : s.currFrameTxTime = ((added b older).map (·.txTime)).sum
  rx : s.currFrameRxTime = ((added b older).map (·.rxTime)).sum
  size : s.groupSize = (b.items.map (·.size.toUInt32.toInt32)).sum

/-- The fields about the burst before it. -/
structure Previous (s : BurstFeedback) (b : Burst BurstItem) (older : List (Burst BurstItem)) :
    Prop where
  count : s.prevPktsInFrame = .ofNat b.items.length
  tx : s.prevFrameTxTime = ((added b older).map (·.txTime)).sum
  rx : s.prevFrameRxTime = ((added b older).map (·.rxTime)).sum
  size : s.prevGroupSize = (b.items.map (·.size.toUInt32.toInt32)).sum

/-- The fields about the last two bursts. -/
structure Tracks (s : BurstFeedback) (bursts : List (Burst BurstItem)) : Prop where
  firstFeedback : s.firstFeedback = bursts.isEmpty
  fresh : bursts = [] →
    s.prevGroupendId = 0 ∧ s.currFrameTxTime = 0 ∧ s.currFrameRxTime = 0
  current : ∀ b older, bursts = b :: older → Current s b older
  previous : ∀ b c older, bursts = b :: c :: older → Previous s c older

theorem tracks_init (interval : UInt16) : Tracks { interval } [] where
  firstFeedback := rfl
  fresh := fun _ => ⟨rfl, rfl, rfl⟩
  current := nofun
  previous := nofun

theorem Tracks.setController {s : BurstFeedback} {bursts : List (Burst BurstItem)}
    (h : Tracks s bursts) (controller : SenderBasedController) :
    Tracks { s with controller } bursts where
  firstFeedback := h.firstFeedback
  fresh := h.fresh
  current b older hb :=
    let ⟨hstart, hid, hcount, htx, hrx, hsize⟩ := h.current b older hb
    ⟨hstart, hid, hcount, htx, hrx, hsize⟩
  previous b c older hb :=
    let ⟨hcount, htx, hrx, hsize⟩ := h.previous b c older hb
    ⟨hcount, htx, hrx, hsize⟩

theorem added_more (b : Burst BurstItem) (older : List (Burst BurstItem)) (x : BurstItem) :
    added { b with more := b.more ++ [x] } older = added b older ++ [x] := by
  rw [added, added]
  split <;> rfl

/-- The first item of all. -/
theorem tracks_firstItem (s : BurstFeedback) (id : UInt16) (rxTime : UInt64)
    (htx : s.currFrameTxTime = 0) (hrx : s.currFrameRxTime = 0) :
    Tracks (s.firstItem id (s.controller.getPacketTxTimestamp id) rxTime)
      [⟨BurstLog.itemOf s id rxTime, []⟩] where
  firstFeedback := rfl
  fresh := nofun
  current := by
    intro b older hb
    cases hb
    refine ⟨rfl, rfl, rfl, htx, hrx, ?_⟩
    simp [firstItem, BurstLog.itemOf, Burst.items]
  previous := by
    intro b c older hb
    cases hb

/-- An item that goes on with the burst. -/
theorem Tracks.account {s : BurstFeedback} {b : Burst BurstItem}
    {older : List (Burst BurstItem)} (h : Tracks s (b :: older)) (id : UInt16) (rxTime : UInt64) :
    Tracks (s.account id (s.controller.getPacketTxTimestamp id) rxTime)
      ({ b with more := b.more ++ [BurstLog.itemOf s id rxTime] } :: older) where
  firstFeedback := h.firstFeedback
  fresh := nofun
  current := by
    intro c older' hc
    cases hc
    obtain ⟨hstart, hid, hcount, htx, hrx, hsize⟩ := h.current b older rfl
    have hitems : ({ b with more := b.more ++ [BurstLog.itemOf s id rxTime] }
        : Burst BurstItem).items = b.items ++ [BurstLog.itemOf s id rxTime] := rfl
    refine ⟨hstart, hid, ?_, ?_, ?_, ?_⟩
    · rw [hitems, List.length_append, List.length_singleton, UInt16.ofNat_add, ← hcount]
      rfl
    · rw [added_more, List.map_append, List.sum_append, ← htx]
      simp [BurstFeedback.account, BurstLog.itemOf]
    · rw [added_more, List.map_append, List.sum_append, ← hrx]
      simp [BurstFeedback.account, BurstLog.itemOf]
    · rw [hitems, List.map_append, List.sum_append, ← hsize]
      simp [BurstFeedback.account, BurstLog.itemOf, addSize]
  previous := by
    intro c d older' hc
    cases hc
    obtain ⟨hcount, htx, hrx, hsize⟩ := h.previous b d older' rfl
    exact ⟨hcount, htx, hrx, hsize⟩

/-- An item that starts a burst. -/
theorem Tracks.switch {s t : BurstFeedback} {b : Burst BurstItem}
    {older : List (Burst BurstItem)} {id : UInt16} {rxTime : UInt64}
    (h : Tracks s (b :: older)) (hswitched : Switched (s.controller.getPacketTxTimestamp id) s t)
    (hsize : t.controller.getPacketSize id = s.controller.getPacketSize id) :
    Tracks (t.account id (s.controller.getPacketTxTimestamp id) rxTime)
      (⟨BurstLog.itemOf s id rxTime, []⟩ :: b :: older) := by
  obtain ⟨hstart, hid, hcount, htx, hrx, hbytes⟩ := h.current b older rfl
  refine ⟨hswitched.firstFeedback.trans h.firstFeedback, nofun, ?_, ?_⟩
  · intro c older' hc
    cases hc
    refine ⟨hswitched.groupstart, ?_, ?_, ?_, ?_, ?_⟩
    · rw [List.length_cons, UInt32.ofNat_add, ← hid]
      exact hswitched.groupId
    · simp [BurstFeedback.account, hswitched.currPkts, Burst.items]
    · simp [BurstFeedback.account, hswitched.currTx, added, Burst.items, BurstLog.itemOf]
    · simp [BurstFeedback.account, hswitched.currRx, added, Burst.items, BurstLog.itemOf]
    · simp [BurstFeedback.account, hswitched.groupSize, hsize, Burst.items, BurstLog.itemOf,
        addSize]
  · intro c d older' hc
    cases hc
    exact ⟨hswitched.prevPkts.trans hcount, hswitched.prevTx.trans htx,
      hswitched.prevRx.trans hrx, hswitched.prevGroupSize.trans hbytes⟩

end BurstFeedback

namespace BurstLog

open BurstFeedback (Event History Tracks)

/-! ## One event -/

/-- What holds in every run. -/
structure Inv (a : BurstLog) : Prop where
  tracks : Tracks a.feedback a.bursts
  history : History a.feedback a.stream

theorem inv_init (interval : UInt16) : Inv { feedback := { interval } } where
  tracks := BurstFeedback.tracks_init interval
  history := ⟨.nil, .nil, nofun, .inl rfl, .nil⟩

section Stream

variable {stream : List BurstItem} {b : Burst BurstItem} {older : List (Burst BurstItem)}

/-- The stream ends with the last burst. -/
theorem stream_eq (hcut : cut near stream = b :: older) :
    stream = older.reverse.flatMap Burst.items ++ b.items := by
  have hall : (cut near stream).reverse.flatMap Burst.items = stream := Burst.flatMap_cut stream
  rw [← hall, hcut, List.reverse_cons, List.flatMap_append]
  simp

theorem getLast?_mem_burst (hcut : cut near stream = b :: older) {last : BurstItem}
    (hlast : last ∈ stream.getLast?) : last ∈ b.items := by
  have hne : b.items ≠ [] := List.cons_ne_nil _ _
  rw [stream_eq hcut, List.getLast?_append_of_ne_nil _ hne] at hlast
  exact List.mem_of_getLast? hlast

/-- In a stream in the order of time, the last item was sent last. -/
theorem le_last (hordered : stream.Pairwise fun x y => x.txTime ≤ y.txTime) {x last : BurstItem}
    (hx : x ∈ stream) (hlast : last ∈ stream.getLast?) : x.txTime ≤ last.txTime := by
  obtain ⟨init, rfl⟩ := List.getLast?_eq_some_iff.mp hlast
  rcases List.mem_append.mp hx with hx | hx
  · exact (List.pairwise_append.mp hordered).2.2 x hx last (List.mem_singleton_self last)
  · rw [List.mem_singleton.mp hx]
    exact UInt64.le_refl _

theorem first_mem (hcut : cut near stream = b :: older) : b.first ∈ stream := by
  rw [stream_eq hcut]
  exact List.mem_append_right _ List.mem_cons_self

/-- The items of the last burst were sent within 10 ms. -/
theorem le_first_add (hcut : cut near stream = b :: older) {x : BurstItem} (hx : x ∈ b.items) :
    x.txTime.toNat ≤ b.first.txTime.toNat + 10000 := by
  rcases List.mem_cons.mp hx with rfl | hmore
  · exact Nat.le_add_right _ _
  · have hnear : near b.first x = true :=
      Burst.near_of_mem_cut (hcut ▸ List.mem_cons_self) x hmore
    exact of_decide_eq_true hnear

end Stream

theorem Inv.send {a a' : BurstLog} (h : Inv a) {tx : UInt64} {sequence : UInt16} {size : UInt32}
    (hadm : a.Admissible (.send tx sequence size))
    (hstep : a.step (.send tx sequence size) = some a') : Inv a' := by
  obtain ⟨s, hs, rfl⟩ := Option.map_eq_some_iff.mp hstep
  obtain ⟨⟨ok, controller⟩, hsend, rfl⟩ := Option.map_eq_some_iff.mp hs
  have hstream : a.stream ++ itemsOf a.feedback (.send tx sequence size) = a.stream :=
    List.append_nil _
  rw [hstream]
  refine ⟨h.tracks.setController controller, ?_⟩
  obtain ⟨hnodup, hsorted, hlast, htarget, hordered⟩ := h.history
  rcases BurstFeedback.transitHistory_processSendPacket hsend with hsame | ⟨r, hadd, htx, hfree⟩
  · -- the packet was refused
    refine ⟨?_, ?_, ?_, ?_, hordered⟩ <;> simp only [hsame] <;> assumption
  · refine ⟨?_, ?_, fun x hx => ?_, ?_, hordered⟩
    · rw [hadd, List.map_append]
      refine List.nodup_append.mpr ⟨hnodup, List.nodup_singleton _, ?_⟩
      intro i hi j hj
      obtain ⟨t, ht, rfl⟩ := List.mem_map.mp hi
      rw [List.mem_singleton.mp hj]
      exact hfree t ht
    · rw [hadd]
      refine List.pairwise_append.mpr ⟨hsorted, List.pairwise_singleton .., fun t ht u hu => ?_⟩
      rw [List.mem_singleton.mp hu, htx]
      exact hadm t ht
    · obtain ⟨t, ht, hprops⟩ := hlast x hx
      exact ⟨t, hadd ▸ List.mem_append_left _ ht, hprops⟩
    · refine htarget.imp_right fun ⟨t, ht, hprops⟩ => ⟨t, ?_, hprops⟩
      exact hadd ▸ List.mem_append_left _ ht

section Item

variable {a : BurstLog} {nowUs : UInt64} {id : UInt16} {rxTime : UInt64} {r : PacketRecord}

/-- What the controller knows about the packet. -/
theorem Inv.itemOf_eq (h : Inv a) (hr : r ∈ a.feedback.controller.packetTransitHistory)
    (hid : r.sequence = id) :
    itemOf a.feedback id rxTime = ⟨r.txTimestampUs, rxTime, r.size.toUInt64⟩ := by
  rw [← hid, itemOf, BurstFeedback.getPacketTxTimestamp_of_nodup h.history.nodup hr,
    BurstFeedback.getPacketSize_of_nodup h.history.nodup hr]

theorem Inv.le_next (h : Inv a) {x y : BurstItem}
    (hx : ∀ last ∈ a.stream.getLast?, last.txTime ≤ x.txTime) (hy : y ∈ a.stream) :
    y.txTime ≤ x.txTime := by
  obtain ⟨last, hlast⟩ :=
    Option.isSome_iff_exists.mp (List.getLast?_isSome.mpr (List.ne_nil_of_mem hy))
  exact UInt64.le_trans (le_last h.history.ordered hy hlast) (hx last hlast)

theorem Inv.ordered_concat (h : Inv a) {x : BurstItem}
    (hx : ∀ last ∈ a.stream.getLast?, last.txTime ≤ x.txTime) :
    (a.stream ++ [x]).Pairwise fun x y => x.txTime ≤ y.txTime := by
  refine List.pairwise_append.mpr ⟨h.history.ordered, List.pairwise_singleton .., ?_⟩
  intro y hy z hz
  rw [List.mem_singleton.mp hz]
  exact h.le_next hx hy

/-- The start of the burst is in the past, and the item in time. -/
theorem Inv.item_gap (h : Inv a) (hadm : a.Admissible (.item nowUs id rxTime))
    {b : Burst BurstItem} {older : List (Burst BurstItem)} (hb : a.bursts = b :: older) :
    a.feedback.groupstartTxTime ≤ (itemOf a.feedback id rxTime).txTime ∧
      a.feedback.inTime (itemOf a.feedback id rxTime).txTime ∧
      (10000 < (itemOf a.feedback id rxTime).txTime - a.feedback.groupstartTxTime ↔
        ¬ near b.first (itemOf a.feedback id rxTime)) := by
  obtain ⟨-, hlast, hgap⟩ := hadm
  have hstart := (h.tracks.current b older hb).groupstart
  have hle : b.first.txTime ≤ (itemOf a.feedback id rxTime).txTime :=
    h.le_next hlast (first_mem hb)
  have hsub : ((itemOf a.feedback id rxTime).txTime - b.first.txTime).toNat
      = (itemOf a.feedback id rxTime).txTime.toNat - b.first.txTime.toNat :=
    UInt64.toNat_sub_of_le _ _ hle
  have hgap' := hgap b (by rw [hb]; rfl)
  refine ⟨hstart ▸ hle, ?_, ?_⟩
  · rw [BurstFeedback.inTime_iff, hstart, UInt64.le_iff_toNat_le, hsub,
      BurstFeedback.maxGap_toNat]
    omega
  · rw [hstart, UInt64.lt_iff_toNat_lt, hsub, near, decide_eq_true_eq]
    change 10000 < _ ↔ _
    omega

theorem bursts_concat (a : BurstLog) (s : BurstFeedback) (x : BurstItem) :
    bursts { feedback := s, stream := a.stream ++ [x] } = Burst.join near a.bursts x :=
  Burst.cut_concat _ _ _

/-- The item is the last one of the stream, and its packet is in the transit history. -/
theorem History.concat_last {s : BurstFeedback} {stream : List BurstItem} {x : BurstItem}
    (hr : r ∈ s.controller.packetTransitHistory) (hid : r.sequence = s.prevId)
    (htx : r.txTimestampUs = x.txTime) :
    ∀ y ∈ (stream ++ [x]).getLast?, ∃ r ∈ s.controller.packetTransitHistory,
      r.sequence = s.prevId ∧ r.txTimestampUs = y.txTime := by
  intro y hy
  rw [List.getLast?_concat, Option.mem_some_iff] at hy
  exact ⟨r, hr, hid, hy ▸ htx⟩

/-- A packet that was sent after the start of the burst is still found after the switch. -/
theorem Inv.getPacketSize_switched (h : Inv a) {t : BurstFeedback} {txTime : UInt64}
    (hswitched : BurstFeedback.Switched txTime a.feedback t)
    (hr : r ∈ a.feedback.controller.packetTransitHistory)
    (hlater : a.feedback.groupstartTxTime ≤ r.txTimestampUs) :
    t.controller.getPacketSize r.sequence = a.feedback.controller.getPacketSize r.sequence := by
  have hkept := h.history.mem_kept hr hlater
  have hnodup := h.history.nodup.sublist ((BurstFeedback.kept_suffix a.feedback).sublist.map _)
  rw [← hswitched.history] at hkept hnodup
  rw [BurstFeedback.getPacketSize_of_nodup hnodup hkept,
    BurstFeedback.getPacketSize_of_nodup h.history.nodup hr]

/-- The transit history after a switch. -/
theorem Inv.history_switched (h : Inv a) {b : Burst BurstItem} {older : List (Burst BurstItem)}
    (hb : a.bursts = b :: older) {t : BurstFeedback} {x : BurstItem}
    (hswitched : BurstFeedback.Switched x.txTime a.feedback t)
    (hr : r ∈ a.feedback.controller.packetTransitHistory) (htx : r.txTimestampUs = x.txTime)
    (hlast : ∀ last ∈ a.stream.getLast?, last.txTime ≤ x.txTime) (hfar : ¬ near b.first x) :
    History (t.account r.sequence x.txTime x.rxTime) (a.stream ++ [x]) := by
  have hhistory : (t.account r.sequence x.txTime x.rxTime).controller.packetTransitHistory
      = a.feedback.kept := hswitched.history
  have hsub := (BurstFeedback.kept_suffix a.feedback).sublist
  have hstart := (h.tracks.current b older hb).groupstart
  have hpast : a.feedback.groupstartTxTime ≤ r.txTimestampUs := by
    rw [hstart, htx]
    exact h.le_next hlast (first_mem hb)
  refine ⟨?_, ?_, ?_, .inr ?_, h.ordered_concat hlast⟩
  · rw [hhistory]
    exact h.history.nodup.sublist (hsub.map _)
  · rw [hhistory]
    exact h.history.sorted.sublist hsub
  · exact History.concat_last (hhistory ▸ h.history.mem_kept hr hpast) rfl htx
  · -- the last packet of the burst that ends is the target of the next pruning, and it was kept
    obtain ⟨last, hend⟩ := Option.isSome_iff_exists.mp
      (List.getLast?_isSome.mpr (List.ne_nil_of_mem (first_mem hb)))
    obtain ⟨q, hq, hsequence, hqtx⟩ := h.history.last last hend
    have hafter : a.feedback.groupstartTxTime ≤ q.txTimestampUs := by
      rw [hstart, hqtx]
      exact le_last h.history.ordered (first_mem hb) hend
    have hbefore : q.txTimestampUs < x.txTime := by
      have hle := le_first_add hb (getLast?_mem_burst hb hend)
      rw [near, decide_eq_true_eq] at hfar
      rw [hqtx, UInt64.lt_iff_toNat_lt]
      omega
    refine ⟨q, hhistory ▸ h.history.mem_kept hq hafter, ?_, ?_⟩
    · exact hsequence.trans hswitched.groupend.symm
    · exact hbefore.trans_eq hswitched.groupstart.symm

theorem Inv.item (h : Inv a) {a' : BurstLog} (hadm : a.Admissible (.item nowUs id rxTime))
    (hstep : a.step (.item nowUs id rxTime) = some a') : Inv a' := by
  obtain ⟨s, hs, rfl⟩ := Option.map_eq_some_iff.mp hstep
  have hknown := hadm
  obtain ⟨⟨r, hr, rfl⟩, hlast, -⟩ := hknown
  have hitem : itemOf a.feedback r.sequence rxTime
      = ⟨r.txTimestampUs, rxTime, r.size.toUInt64⟩ := h.itemOf_eq hr rfl
  have htx : a.feedback.controller.getPacketTxTimestamp r.sequence = r.txTimestampUs :=
    congrArg BurstItem.txTime hitem
  have hordered := h.ordered_concat hlast
  have hbursts := bursts_concat a s (itemOf a.feedback r.sequence rxTime)
  have hfirst := h.tracks.firstFeedback
  change a.feedback.onRecvTimeItem nowUs r.sequence rxTime = some s at hs
  simp only [itemsOf]
  cases hb : a.bursts with
  -- the first item of all starts the first burst, and is not added to the sums
  | nil =>
      rw [hb, List.isEmpty_nil] at hfirst
      rw [hb, Burst.join] at hbursts
      obtain ⟨htarget, htxSum, hrxSum⟩ := h.tracks.fresh hb
      simp only [BurstFeedback.onRecvTimeItem, hfirst, if_true] at hs
      cases hs
      refine ⟨?_, h.history.nodup, h.history.sorted, ?_, .inl htarget, hordered⟩
      · rw [hbursts]
        exact BurstFeedback.tracks_firstItem a.feedback r.sequence rxTime htxSum hrxSum
      · exact History.concat_last hr rfl htx.symm
  | cons b older =>
      obtain ⟨hpast, htime, hswitch⟩ := h.item_gap hadm hb
      have htracks := h.tracks
      rw [hb] at htracks
      rw [hb, List.isEmpty_cons] at hfirst
      rw [hb, Burst.join] at hbursts
      simp only [itemOf] at hpast htime hswitch
      simp only [BurstFeedback.onRecvTimeItem, hfirst, Bool.false_eq_true, if_false, htime,
        if_true] at hs
      by_cases hnear : near b.first (itemOf a.feedback r.sequence rxTime)
      · -- the burst goes on
        rw [if_neg (mt hswitch.mp (not_not.mpr hnear))] at hs
        rw [if_pos hnear] at hbursts
        cases hs
        refine ⟨?_, h.history.nodup, h.history.sorted, ?_, h.history.target, hordered⟩
        · rw [hbursts]
          exact htracks.account r.sequence rxTime
        · exact History.concat_last hr rfl htx.symm
      · -- a new burst: the current one becomes the previous one, and the history is pruned
        rw [if_pos (hswitch.mpr hnear)] at hs
        rw [if_neg hnear] at hbursts
        obtain ⟨t, ht, rfl⟩ := Option.map_eq_some_iff.mp hs
        have hswitched := BurstFeedback.switched_switchBurst ht
        refine ⟨?_, ?_⟩
        · rw [hbursts]
          exact htracks.switch hswitched
            (h.getPacketSize_switched hswitched hr (htx ▸ hpast))
        · exact h.history_switched hb hswitched hr htx.symm hlast hnear

end Item

theorem Inv.step {a a' : BurstLog} {e : Event} (h : Inv a) (hadm : a.Admissible e)
    (hstep : a.step e = some a') : Inv a' := by
  cases e with
  | send tx sequence size => exact h.send hadm hstep
  | updateLossRate lossQ8 =>
      cases hstep
      rw [itemsOf, List.append_nil]
      exact ⟨h.tracks.setController _, h.history.nodup, h.history.sorted, h.history.last,
        h.history.target, h.history.ordered⟩
  | item nowUs id rxTime => exact h.item hadm hstep

/-! ## What is reported -/

theorem toNat_sum_map {items : List BurstItem} (field : BurstItem → UInt64)
    (h : (items.map fun x => (field x).toNat).sum < 2 ^ 63) :
    (items.map field).sum.toNat = (items.map fun x => (field x).toNat).sum := by
  induction items with
  | nil => rfl
  | cons x items ih =>
      rw [List.map_cons, List.sum_cons] at h ⊢
      rw [List.map_cons, List.sum_cons, UInt64.toNat_add, ih (by omega)]
      omega

theorem toInt_sum_sizes {items : List BurstItem} (h : bytes items < 2 ^ 31) :
    (items.map fun x : BurstItem => x.size.toUInt32.toInt32).sum.toInt = bytes items := by
  induction items with
  | nil => rfl
  | cons x items ih =>
      have hbytes : bytes (x :: items) = x.size.toNat + bytes items := by
        rw [bytes, List.map_cons, List.sum_cons]
        rfl
      rw [hbytes] at h ⊢
      have hsize : x.size.toUInt32.toInt32.toInt = x.size.toNat := by
        rw [← Int32.toInt_toBitVec, UInt32.toBitVec_toInt32, BitVec.toInt_eq_toNat_bmod,
          UInt32.toNat_toBitVec, UInt64.toNat_toUInt32, Int.bmod_def]
        omega
      rw [List.map_cons, List.sum_cons, Int32.toInt_add, ih (by omega), hsize, Int.bmod_def]
      omega

/-- A difference of 64-bit numbers, read as a signed one. -/
theorem toInt_sub {m n : UInt64} (hm : m.toNat < 2 ^ 63) (hn : n.toNat < 2 ^ 63) :
    (m - n).toInt64.toInt = (m.toNat : ℤ) - n.toNat := by
  rw [← Int64.toInt_toBitVec, UInt64.toBitVec_toInt64, BitVec.toInt_eq_toNat_bmod]
  simp only [UInt64.toNat_toBitVec, UInt64.toNat_sub, Int.bmod_def]
  omega

/-- The mean of the times that were added up. -/
def addedMean (times : List BurstItem → List ℕ) (b : Burst BurstItem)
    (older : List (Burst BurstItem)) : ℕ :=
  (times (BurstFeedback.added b older)).sum / b.items.length

section Means

variable {b : Burst BurstItem} {older : List (Burst BurstItem)} {field : BurstItem → UInt64}
  {times : List BurstItem → List ℕ}

/-- No more is added up than the burst has. -/
theorem sum_added_le (htimes : times = List.map fun x => (field x).toNat) :
    (times (BurstFeedback.added b older)).sum ≤ (times b.items).sum := by
  rw [htimes, BurstFeedback.added]
  split
  · rw [Burst.items, List.map_cons, List.sum_cons]
    exact Nat.le_add_left _ _
  · exact le_refl _

theorem addedMean_le (htimes : times = List.map fun x => (field x).toNat) :
    addedMean times b older ≤ mean (times b.items) := by
  rw [addedMean, mean]
  have hlength : (times b.items).length = b.items.length := by rw [htimes, List.length_map]
  rw [hlength]
  exact Nat.div_le_div_right (sum_added_le htimes)

/-- The quotient that the code computes. -/
theorem toNat_div (htimes : times = List.map fun x => (field x).toNat)
    (hsum : (times b.items).sum < 2 ^ 63) (hcount : b.items.length < 2 ^ 16) :
    (((BurstFeedback.added b older).map field).sum
        / (UInt16.ofNat b.items.length).toUInt64).toNat = addedMean times b older := by
  have hadded : (times (BurstFeedback.added b older)).sum ≤ (times b.items).sum :=
    sum_added_le htimes
  have hlength : (UInt16.ofNat b.items.length).toUInt64.toNat = b.items.length := by
    rw [UInt16.toNat_toUInt64]
    exact UInt16.toNat_ofNat_of_lt' hcount
  rw [UInt64.toNat_div, hlength, addedMean]
  rw [htimes] at hadded hsum ⊢
  rw [toNat_sum_map field (by omega)]

end Means

/-- The call that reports a burst has one before it to compare with. -/
theorem Inv.bursts_of_calls {a : BurstLog} {e : Event} (h : Inv a)
    (hcalls : a.feedback.Calls e) : ∃ b c older, a.bursts = b :: c :: older := by
  cases e with
  | send tx sequence size => exact hcalls.elim
  | updateLossRate lossQ8 => exact hcalls.elim
  | item nowUs id rxTime =>
      obtain ⟨hfirst, -, -, hgroup, -, -⟩ := hcalls
      rw [h.tracks.firstFeedback] at hfirst
      obtain ⟨b, rest, hb⟩ := List.exists_cons_of_ne_nil (List.isEmpty_eq_false_iff.mp hfirst)
      rw [(h.tracks.current b rest hb).groupId] at hgroup
      -- with one burst only, `groupId` is still 0
      cases rest with
      | nil => exact absurd rfl hgroup
      | cons c older => exact ⟨b, c, older, hb⟩

section Report

variable {a : BurstLog} {e : Event} {b c : Burst BurstItem} {older : List (Burst BurstItem)}

/-- The mean departures of bursts follow each other. -/
theorem Inv.mean_le_mean (h : Inv a) (hb : a.bursts = b :: c :: older) :
    mean (txTimes c.items) ≤ mean (txTimes b.items) := by
  have hordered := h.history.ordered
  rw [stream_eq hb, List.reverse_cons, List.flatMap_append, List.append_assoc] at hordered
  have hlast := (List.pairwise_append.mp hordered).2.1
  rw [List.flatMap_cons, List.flatMap_nil, List.append_nil] at hlast
  obtain ⟨-, hnewer, hacross⟩ := List.pairwise_append.mp hlast
  obtain ⟨hfirst, -⟩ := List.pairwise_cons.mp hnewer
  -- the first packet of `b` was sent after all of `c` and before the rest of `b`
  have hbefore : mean (txTimes c.items) ≤ b.first.txTime.toNat := by
    apply Burst.mean_le
    intro t ht
    obtain ⟨x, hx, rfl⟩ := List.mem_map.mp ht
    exact hacross x hx b.first List.mem_cons_self
  have hafter : b.first.txTime.toNat ≤ mean (txTimes b.items) := by
    refine Burst.le_mean (List.cons_ne_nil _ _) fun t ht => ?_
    obtain ⟨x, hx, rfl⟩ := List.mem_map.mp ht
    rcases List.mem_cons.mp hx with rfl | hx
    · exact le_refl _
    · exact hfirst x hx
  exact hbefore.trans hafter

/-- What is reported, when everything fits. -/
theorem Inv.metrics_eq (h : Inv a) (hfits : a.Fits e) (hb : a.bursts = b :: c :: older) :
    a.feedback.metrics.interArrival.toInt
        = (mean (rxTimes b.items) : ℤ) - addedMean rxTimes c older ∧
      (a.feedback.metrics.interDeparture.toNat : ℤ)
        = (mean (txTimes b.items) : ℤ) - addedMean txTimes c older ∧
      a.feedback.metrics.interGroupSize.toInt = (bytes b.items : ℤ) - bytes c.items := by
  obtain ⟨hcountB, htxB, hrxB, hbytesB⟩ := hfits b (hb ▸ List.mem_cons_self)
  obtain ⟨hcountC, htxC, hrxC, hbytesC⟩ :=
    hfits c (hb ▸ List.mem_cons_of_mem b List.mem_cons_self)
  obtain ⟨-, -, hcurrCount, hcurrTx, hcurrRx, hcurrSize⟩ := h.tracks.current b (c :: older) hb
  obtain ⟨hprevCount, hprevTx, hprevRx, hprevSize⟩ := h.tracks.previous b c older hb
  have hmean (times : List BurstItem → List ℕ) (field : BurstItem → UInt64)
      (htimes : times = List.map fun x => (field x).toNat) :
      addedMean times b (c :: older) = mean (times b.items) := by
    rw [addedMean, mean, BurstFeedback.added, htimes, List.length_map]
    rfl
  have htxTimes : txTimes = List.map fun x => x.txTime.toNat := rfl
  have hrxTimes : rxTimes = List.map fun x => x.rxTime.toNat := rfl
  have hrxMean : addedMean rxTimes b (c :: older) = mean (rxTimes b.items) :=
    hmean rxTimes _ hrxTimes
  have htxMean : addedMean txTimes b (c :: older) = mean (txTimes b.items) :=
    hmean txTimes _ htxTimes
  refine ⟨?_, ?_, ?_⟩
  · -- arrivals may be in any order, so the difference is signed
    have hnewer : _ = addedMean rxTimes b (c :: older) := toNat_div hrxTimes hrxB hcountB
    have holder : _ = addedMean rxTimes c older := toNat_div hrxTimes hrxC hcountC
    rw [← hcurrRx, ← hcurrCount] at hnewer
    rw [← hprevRx, ← hprevCount] at holder
    have hbound : mean (rxTimes b.items) < 2 ^ 63 := (Nat.div_le_self _ _).trans_lt hrxB
    have hbound' : addedMean rxTimes c older < 2 ^ 63 :=
      (addedMean_le hrxTimes).trans_lt ((Nat.div_le_self _ _).trans_lt hrxC)
    rw [hrxMean] at hnewer
    rw [← hnewer, ← holder]
    exact toInt_sub (hnewer ▸ hbound) (holder ▸ hbound')
  · -- departures are in order, so the unsigned difference does not wrap
    have hnewer : _ = addedMean txTimes b (c :: older) := toNat_div htxTimes htxB hcountB
    have holder : _ = addedMean txTimes c older := toNat_div htxTimes htxC hcountC
    rw [← hcurrTx, ← hcurrCount] at hnewer
    rw [← hprevTx, ← hprevCount] at holder
    rw [htxMean] at hnewer
    have hle : addedMean txTimes c older ≤ mean (txTimes b.items) :=
      (addedMean_le htxTimes).trans (h.mean_le_mean hb)
    rw [← hnewer, ← holder] at hle ⊢
    rw [BurstFeedback.metrics, UInt64.toNat_sub_of_le _ _ (UInt64.le_iff_toNat_le.mpr hle)]
    exact Nat.cast_sub hle
  · rw [BurstFeedback.metrics, hcurrSize, hprevSize, Int32.toInt_sub, toInt_sum_sizes hbytesB,
      toInt_sum_sizes hbytesC, Int.bmod_def]
    omega

/-- A report is right if and only if the times that were not added up make no difference. -/
theorem Inv.rightReport_iff (h : Inv a) (hfits : a.Fits e) :
    a.RightReport e ↔ a.FirstMakesNoDifference e := by
  apply imp_congr_right
  intro hcalls
  obtain ⟨b, c, older, hb⟩ := h.bursts_of_calls hcalls
  obtain ⟨harrival, hdeparture, hsize⟩ := h.metrics_eq hfits hb
  have hright : (∃ b' c' older', a.bursts = b' :: c' :: older' ∧
        (a.feedback.metrics.interArrival.toInt : ℤ)
          = mean (rxTimes b'.items) - mean (rxTimes c'.items) ∧
        (a.feedback.metrics.interDeparture.toNat : ℤ)
          = mean (txTimes b'.items) - mean (txTimes c'.items) ∧
        a.feedback.metrics.interGroupSize.toInt = bytes b'.items - bytes c'.items) ↔
      addedMean txTimes c older = mean (txTimes c.items) ∧
        addedMean rxTimes c older = mean (rxTimes c.items) := by
    constructor
    · rintro ⟨b', c', older', hb', harrival', hdeparture', -⟩
      rw [hb] at hb'
      cases hb'
      omega
    · rintro ⟨htx, hrx⟩
      exact ⟨b, c, older, hb, by rw [harrival, hrx], by rw [hdeparture, htx], hsize⟩
  rw [hright, hb]
  cases older with
  | nil => simp [addedMean, BurstFeedback.added]
  | cons d older => simp [addedMean, BurstFeedback.added, mean, txTimes, rxTimes]

end Report

/-- In every run in which everything fits, all reports are right if and only if the first packet of
all makes no difference to the means of the first burst when the second one is reported. -/
theorem rightReports_iff (interval : UInt16) {es : List Event}
    (hadm : Run.Each step Admissible { feedback := { interval } } es)
    (hfits : Run.Each step Fits { feedback := { interval } } es) :
    Run.Each step RightReport { feedback := { interval } } es ↔
      Run.Each step FirstMakesNoDifference { feedback := { interval } } es :=
  Run.Each.iff_of_each (fun _ _ _ h he hstep => h.step he.1 hstep)
    (fun _ _ h he => h.rightReport_iff he.2) (inv_init interval) (hadm.and hfits)

/-- Three packets, sent 30 ms apart. -/
def threeBursts : List Event :=
  [.send 10000 0 1000, .send 40000 1 1200, .send 70000 2 1400,
    .item 61000 0 60000, .item 91000 1 90000, .item 121000 2 120000]

theorem rightReports_iff_threeBursts :
    Run.Each step RightReport { feedback := { interval := 40 } } threeBursts ↔
      Run.Each step FirstMakesNoDifference { feedback := { interval := 40 } } threeBursts :=
  rightReports_iff 40 (by decide +kernel) (by decide +kernel)

/-- The packets arrive 30 ms apart, and 90 ms are reported. -/
theorem firstReport_wrong :
    Run.Each step Admissible { feedback := { interval := 40 } } threeBursts ∧
      Run.Each step Fits { feedback := { interval := 40 } } threeBursts ∧
      ∃ a, Run.exec step { feedback := { interval := 40 } } (threeBursts.take 5) = some a ∧
        a.bursts = [⟨⟨40000, 90000, 1200⟩, []⟩, ⟨⟨10000, 60000, 1000⟩, []⟩] ∧
        a.feedback.metrics.interArrival = 90000 ∧
        ¬ a.RightReport (.item 121000 2 120000) := by
  obtain ⟨a, hrun, hb, hmetrics, hcalls⟩ : ∃ a,
      Run.exec step { feedback := { interval := 40 } } (threeBursts.take 5) = some a ∧
        a.bursts = [⟨⟨40000, 90000, 1200⟩, []⟩, ⟨⟨10000, 60000, 1000⟩, []⟩] ∧
        a.feedback.metrics.interArrival = 90000 ∧
        a.feedback.Calls (.item 121000 2 120000) :=
    ⟨_, rfl, by decide +kernel⟩
  refine ⟨by decide +kernel, by decide +kernel, a, hrun, hb, hmetrics, fun hright => ?_⟩
  obtain ⟨b, c, older, hb', harrival, -⟩ := hright hcalls
  rw [hb] at hb'
  cases hb'
  rw [hmetrics] at harrival
  exact absurd harrival (by decide)

end BurstLog

end Zhuge
