-- SUMMARY: Every packet put into the sending queue leaves it once, in order, with the next id.
import Mathlib.Data.List.Infix
import Zhuge.ControllerInvariant
import Zhuge.SendQueue

/-!
# Runs of the sending queue

The windows hold the ids of the last packets sent. As long as the goodput window is not
longer than the history reaches back, every id in it has an entry.
-/

namespace Zhuge.SendQueue

variable {P : Type}

/-! ## What is delivered -/

/-- The packets of frame `n` that were sent, in order. -/
def sentOf (n : Nat) (sent : List (SentRecord P)) : List P :=
  (sent.filter (·.frame = n)).map (·.packet)

/-- The packets of frame `n` that are still in the queue. -/
def remaining (n : Nat) (queue : List (QueuedFrame P)) : List P :=
  (queue.filter (·.number = n)).flatMap (·.packetsInFrame)

/-- The ids of the first `n` packets sent. -/
def ids (n : Nat) : List UInt16 := (List.range n).map .ofNat

/-- What the sending queue is for. -/
structure Delivers (s : SendQueue P) : Prop where
  nonempty : ∀ frame ∈ s.queue, frame.packetsInFrame ≠ []
  scheduled : s.queue ≠ [] → 0 < s.pending
  /-- Of each frame some packets were sent, in order, and the others are in the queue. -/
  once : ∀ n packets, s.enqueued[n]? = some packets →
    sentOf n s.sent ++ remaining n s.queue = packets
  known : ∀ r ∈ s.sent, r.frame < s.enqueued.length
  globalIds : s.sent.map (·.globalId) = ids s.sent.length
  accepted : ∀ r ∈ s.sent, r.accepted

/-- Once no event is scheduled, every packet of every frame was sent. -/
theorem Delivers.sentOf_eq {s : SendQueue P} (h : s.Delivers) (hdone : s.pending = 0) {n : Nat}
    {packets : List P} (hn : s.enqueued[n]? = some packets) : sentOf n s.sent = packets := by
  have hempty : s.queue = [] := by
    by_contra hne
    exact absurd hdone (Nat.pos_iff_ne_zero.mp (h.scheduled hne))
  have honce := h.once n packets hn
  rwa [hempty, remaining, List.filter_nil, List.flatMap_nil, List.append_nil] at honce

/-- The packets in the queue. -/
def queuedPackets (queue : List (QueuedFrame P)) : Nat :=
  (queue.map fun frame => frame.packetsInFrame.length).sum

/-- The windows after `n` packets: the ids of the last ones, all of which have an entry in the
history. -/
structure Windows (n : Nat) (s : SendQueue P) : Prop where
  counter : s.ipidCounter = .ofNat n
  sendWnd : s.sendWnd = (ids n).drop (n - sendWndSize)
  history : ∀ id, (s.pktsHistory.lookup id).isSome ↔ id ∈ s.sendWnd
  goodputWnd : s.goodputWnd <:+ ids n

/-- What is delivered, with what the next event needs. -/
structure Invariant (s : SendQueue P) : Prop extends Delivers s where
  numbers : ∀ frame ∈ s.queue, frame.number < s.enqueued.length
  small : queuedPackets s.queue < 2 ^ 32
  next : s.ipidCounter = s.controller.nextSequence s.ipidCounter
  transit : s.controller.packetTransitHistory.map (·.sequence) = ids s.sent.length
  windows : s.Windows s.sent.length

theorem invariant_new (sendTimeLimit : Time) : Invariant (P := P) { sendTimeLimit } where
  nonempty := by simp
  scheduled := by simp
  once := by simp
  known := by simp
  globalIds := rfl
  accepted := by simp
  numbers := by simp
  small := by simp [queuedPackets]
  next := rfl
  transit := rfl
  windows := ⟨rfl, by simp [ids], by simp, List.suffix_refl _⟩

/-! ## The pacing rate -/

/-- No frame is empty and there are few enough packets: no division by zero. -/
theorem pacingLoop_isSome (sendTimeLimit now : Time) {frames : List (QueuedFrame P)}
    {left : UInt32} (pacingInterval : Time)
    (hne : ∀ frame ∈ frames, frame.packetsInFrame ≠ [])
    (hsmall : left.toNat + queuedPackets frames < 2 ^ 32) :
    ∃ interval, pacingLoop sendTimeLimit now frames left pacingInterval = some interval := by
  induction frames generalizing left pacingInterval with
  | nil => exact ⟨_, rfl⟩
  | cons frame frames ih =>
      have hrest : ∀ f ∈ frames, f.packetsInFrame ≠ [] :=
        fun f hf => hne f (List.mem_cons_of_mem _ hf)
      have hsum : queuedPackets (frame :: frames)
          = frame.packetsInFrame.length + queuedPackets frames := by simp [queuedPackets]
      rw [hsum] at hsmall
      simp only [pacingLoop]
      split
      · exact ih _ hrest (by omega)
      · have hpos : 0 < frame.packetsInFrame.length :=
          List.length_pos_iff.mpr (hne frame List.mem_cons_self)
        have hleft : (left + .ofNat frame.packetsInFrame.length).toNat
            = left.toNat + frame.packetsInFrame.length := by
          rw [UInt32.toNat_add, UInt32.toNat_ofNat']
          omega
        have hzero : left + .ofNat frame.packetsInFrame.length ≠ 0 := by
          intro heq
          rw [heq] at hleft
          change 0 = _ at hleft
          omega
        rw [if_neg hzero]
        exact ih _ hrest (by rw [hleft]; omega)

theorem calculatePacingRate_eq (now : Time) {s : SendQueue P}
    (hne : ∀ frame ∈ s.queue, frame.packetsInFrame ≠ [])
    (hsmall : queuedPackets s.queue < 2 ^ 32) :
    ∃ interval, calculatePacingRate now s = some { s with pacingInterval := interval } := by
  have hzero : (0 : UInt32).toNat + queuedPackets s.queue < 2 ^ 32 := by
    rw [UInt32.toNat_zero, Nat.zero_add]
    exact hsmall
  obtain ⟨interval, hloop⟩ :=
    pacingLoop_isSome s.sendTimeLimit now s.pacingInterval hne hzero
  exact ⟨interval, by rw [calculatePacingRate, hloop, Option.map_some]⟩

/-! ## Enqueuing -/

theorem sentOf_eq_nil {n : Nat} {sent : List (SentRecord P)} (h : ∀ r ∈ sent, r.frame < n) :
    sentOf n sent = [] := by
  rw [sentOf, List.filter_eq_nil_iff.mpr, List.map_nil]
  intro r hr
  simpa using (h r hr).ne

theorem remaining_eq_nil {n : Nat} {queue : List (QueuedFrame P)}
    (h : ∀ frame ∈ queue, frame.number < n) : remaining n queue = [] := by
  rw [remaining, List.filter_eq_nil_iff.mpr, List.flatMap_nil]
  intro frame hframe
  simpa using (h frame hframe).ne

/-- The queue with a new frame somewhere between the others. -/
def enqueue (front back : List (QueuedFrame P)) (frame : QueuedFrame P) (pacingInterval : Time)
    (s : SendQueue P) : SendQueue P :=
  { s with
    queue := front ++ frame :: back
    enqueued := s.enqueued ++ [frame.packetsInFrame]
    pacingInterval
    pending := s.pending + 1 }

theorem remaining_append (n : Nat) (front back : List (QueuedFrame P)) :
    remaining n (front ++ back) = remaining n front ++ remaining n back := by
  simp [remaining]

theorem remaining_cons (n : Nat) (frame : QueuedFrame P) (back : List (QueuedFrame P)) :
    remaining n (frame :: back)
      = (if frame.number = n then frame.packetsInFrame else []) ++ remaining n back := by
  by_cases hn : frame.number = n <;> simp [remaining, hn]

theorem queuedPackets_append (front back : List (QueuedFrame P)) :
    queuedPackets (front ++ back) = queuedPackets front + queuedPackets back := by
  simp [queuedPackets]

theorem queuedPackets_cons (frame : QueuedFrame P) (back : List (QueuedFrame P)) :
    queuedPackets (frame :: back) = frame.packetsInFrame.length + queuedPackets back := by
  simp [queuedPackets]

theorem invariant_enqueue {s : SendQueue P} (h : s.Invariant)
    {front back : List (QueuedFrame P)} {frame : QueuedFrame P} (pacingInterval : Time)
    (hqueue : s.queue = front ++ back) (hne : frame.packetsInFrame ≠ [])
    (hnumber : frame.number = s.enqueued.length)
    (hsmall : queuedPackets s.queue + frame.packetsInFrame.length < 2 ^ 32) :
    (s.enqueue front back frame pacingInterval).Invariant := by
  have hmem : ∀ f ∈ front ++ frame :: back, f ∈ s.queue ∨ f = frame := by
    intro f hf
    rw [hqueue]
    rcases List.mem_append.mp hf with hf | hf
    · exact .inl (List.mem_append_left _ hf)
    · rcases List.mem_cons.mp hf with rfl | hf
      · exact .inr rfl
      · exact .inl (List.mem_append_right _ hf)
  refine { h with
    nonempty := ?_, scheduled := ?_, once := ?_, known := ?_, numbers := ?_, small := ?_
    windows := { h.windows with } }
  · intro f hf
    rcases hmem f hf with hf | rfl
    · exact h.nonempty f hf
    · exact hne
  · exact fun _ => Nat.succ_pos _
  · intro n packets hn
    have hsplit : remaining n (front ++ frame :: back)
        = remaining n front ++ ((if frame.number = n then frame.packetsInFrame else [])
          ++ remaining n back) := by rw [remaining_append, remaining_cons]
    have hold : remaining n s.queue = remaining n front ++ remaining n back := by
      rw [hqueue, remaining_append]
    simp only [enqueue, hsplit]
    rcases Nat.lt_trichotomy n s.enqueued.length with hlt | rfl | hgt
    · have honce := h.once n packets (by
        simpa [enqueue, List.getElem?_append_left hlt] using hn)
      rw [if_neg (by omega), List.nil_append, ← hold, honce]
    · have hnone : remaining s.enqueued.length s.queue = [] := remaining_eq_nil h.numbers
      rw [hold, List.append_eq_nil_iff] at hnone
      rw [if_pos hnumber, hnone.1, hnone.2, sentOf_eq_nil h.known]
      simpa [enqueue] using hn
    · simp only [enqueue] at hn
      rw [List.getElem?_eq_none (by simp; omega)] at hn
      cases hn
  · intro r hr
    have hlt := h.known r hr
    simp only [enqueue, List.length_append, List.length_singleton]
    omega
  · intro f hf
    simp only [enqueue, List.length_append, List.length_singleton]
    rcases hmem f hf with hf | rfl
    · have hlt := h.numbers f hf
      omega
    · omega
  · rw [hqueue, queuedPackets_append] at hsmall
    simp only [enqueue, queuedPackets_append, queuedPackets_cons]
    omega

/-- The state that `Calculate_pacing_rate` is called on, after which the event is scheduled. -/
theorem enqueue_eq (now : Time) (frame : QueuedFrame P) {s : SendQueue P}
    {front back : List (QueuedFrame P)} (h : s.Invariant) (hqueue : s.queue = front ++ back)
    (hne : frame.packetsInFrame ≠ [])
    (hsmall : queuedPackets s.queue + frame.packetsInFrame.length < 2 ^ 32) :
    ∃ interval, (calculatePacingRate now { s with
        queue := front ++ frame :: back
        enqueued := s.enqueued ++ [frame.packetsInFrame] }).map scheduleSend
      = some (s.enqueue front back frame interval) := by
  rw [hqueue, queuedPackets_append] at hsmall
  have hfull : queuedPackets (front ++ frame :: back) < 2 ^ 32 := by
    rw [queuedPackets_append, queuedPackets_cons]
    omega
  have hnonempty : ∀ f ∈ front ++ frame :: back, f.packetsInFrame ≠ [] := by
    intro f hf
    have hold := h.nonempty f
    rw [hqueue] at hold
    simp only [List.mem_append, List.mem_cons] at hf hold
    grind
  obtain ⟨interval, heq⟩ : ∃ interval, calculatePacingRate now { s with
        queue := front ++ frame :: back
        enqueued := s.enqueued ++ [frame.packetsInFrame] }
      = some { s with
        queue := front ++ frame :: back
        enqueued := s.enqueued ++ [frame.packetsInFrame]
        pacingInterval := interval } := calculatePacingRate_eq now hnonempty hfull
  exact ⟨interval, by rw [heq]; rfl⟩

theorem invariant_sendFrame (now encodeTime : Time) {packets : List P} {s : SendQueue P}
    (h : s.Invariant) (hne : packets ≠ [])
    (hsmall : queuedPackets s.queue + packets.length < 2 ^ 32) :
    ∃ interval, s.sendFrame now packets encodeTime
        = some (s.enqueue s.queue [] (s.newFrame packets false encodeTime) interval) ∧
      (s.enqueue s.queue [] (s.newFrame packets false encodeTime) interval).Invariant := by
  have hqueue : s.queue = s.queue ++ [] := (List.append_nil _).symm
  obtain ⟨interval, heq⟩ :=
    enqueue_eq now (s.newFrame packets false encodeTime) h hqueue hne hsmall
  have hinv : (s.enqueue s.queue [] (s.newFrame packets false encodeTime) interval).Invariant :=
    invariant_enqueue h interval hqueue hne rfl hsmall
  refine ⟨interval, ?_, hinv⟩
  rw [sendFrame, if_neg (by simpa using hne)]
  exact heq

theorem invariant_sendRtx (now encodeTime : Time) {packets : List P} {s : SendQueue P}
    (h : s.Invariant) (hne : packets ≠ [])
    (hsmall : queuedPackets s.queue + packets.length < 2 ^ 32) :
    ∃ interval, s.sendRtx now packets encodeTime
        = some (s.enqueue [] s.queue (s.newFrame packets true encodeTime) interval) ∧
      (s.enqueue [] s.queue (s.newFrame packets true encodeTime) interval).Invariant := by
  have hqueue : s.queue = [] ++ s.queue := (List.nil_append _).symm
  obtain ⟨interval, heq⟩ :=
    enqueue_eq now (s.newFrame packets true encodeTime) h hqueue hne hsmall
  have hinv : (s.enqueue [] s.queue (s.newFrame packets true encodeTime) interval).Invariant :=
    invariant_enqueue h interval hqueue hne rfl hsmall
  refine ⟨interval, ?_, hinv⟩
  rw [sendRtx, if_neg (by simpa using hne)]
  exact heq

/-! ## The windows -/

theorem length_ids (n : Nat) : (ids n).length = n := by
  rw [ids, List.length_map, List.length_range]

theorem ids_succ (n : Nat) : ids (n + 1) = ids n ++ [.ofNat n] := by
  rw [ids, List.range_succ, List.map_append]
  rfl

/-- Less than a full circle of ids has no id twice. -/
theorem nodup_drop_ids {n k : Nat} (h : n - k ≤ 65536) : ((ids n).drop k).Nodup := by
  rw [ids, ← List.map_drop]
  refine List.Nodup.map_on ?_ (List.nodup_range.sublist (List.drop_sublist _ _))
  intro i hi j hj heq
  have hbounds {i : Nat} (hi : i ∈ (List.range n).drop k) : k ≤ i ∧ i < n := by
    rw [List.range_eq_range', List.drop_range', List.mem_range'_1] at hi
    omega
  have hi' := hbounds hi
  have hj' := hbounds hj
  have hmod := UInt16.toNat_inj.mpr heq
  rw [UInt16.toNat_ofNat', UInt16.toNat_ofNat'] at hmod
  omega

/-- If every id of the window has an entry, then what is left is a suffix. -/
theorem trimGoodput_isSome {history : Dict UInt16 SentPacketInfo} (nowUs : UInt64)
    {wnd : List UInt16} (total goodput : UInt64)
    (h : ∀ id ∈ wnd, (history.lookup id).isSome) :
    ∃ wnd' total' goodput',
      trimGoodput history nowUs wnd total goodput = some (wnd', total', goodput') ∧
        wnd' <:+ wnd := by
  induction wnd generalizing total goodput with
  | nil => exact ⟨_, _, _, rfl, List.suffix_refl _⟩
  | cons id rest ih =>
      obtain ⟨info, hinfo⟩ := Option.isSome_iff_exists.mp (h id List.mem_cons_self)
      simp only [trimGoodput, hinfo]
      split
      · obtain ⟨wnd', total', goodput', heq, hsuffix⟩ :=
          ih _ _ fun id' hid' => h id' (List.mem_cons_of_mem _ hid')
        exact ⟨wnd', total', goodput', heq, hsuffix.trans (List.suffix_cons _ _)⟩
      · exact ⟨_, _, _, rfl, List.suffix_refl _⟩

/-- The window keeps its last ids and the history their entries. -/
theorem trimSendWnd_eq {wnd : List UInt16} {history : Dict UInt16 SentPacketInfo}
    (hnodup : wnd.Nodup) (h : ∀ id, (history.lookup id).isSome ↔ id ∈ wnd) :
    ∃ history', trimSendWnd wnd history = some (wnd.drop (wnd.length - sendWndSize), history') ∧
      ∀ id, (history'.lookup id).isSome ↔ id ∈ wnd.drop (wnd.length - sendWndSize) := by
  induction wnd generalizing history with
  | nil => exact ⟨history, rfl, h⟩
  | cons id rest ih =>
      obtain ⟨hfirst, hrest⟩ := List.nodup_cons.mp hnodup
      rw [trimSendWnd]
      by_cases hlong : sendWndSize < (id :: rest).length
      · have hdrop : (id :: rest).drop ((id :: rest).length - sendWndSize)
            = rest.drop (rest.length - sendWndSize) := by
          rw [List.length_cons, Nat.succ_sub (Nat.le_of_lt_succ hlong), List.drop_succ_cons]
        have herase : ∀ id', ((history.erase id).lookup id').isSome ↔ id' ∈ rest := by
          intro id'
          rw [Dict.lookup_erase_eq]
          by_cases hid : id' = id
          · rw [if_pos hid, hid]
            simpa using hfirst
          · rw [if_neg hid, h id', List.mem_cons, or_iff_right hid]
        rw [if_pos hlong, if_pos ((h id).mpr List.mem_cons_self), hdrop]
        exact ih hrest herase
      · rw [if_neg hlong, Nat.sub_eq_zero_of_le (Nat.le_of_not_lt hlong), List.drop_zero]
        exact ⟨history, rfl, h⟩

/-- The windows once the next packet was recorded. -/
def recorded (pktsHistory : Dict UInt16 SentPacketInfo) (sendWnd goodputWnd : List UInt16)
    (totalPktsInwnd goodputPktsInwnd : UInt64) (s : SendQueue P) : SendQueue P :=
  { s with
    pktsHistory, sendWnd, goodputWnd, totalPktsInwnd, goodputPktsInwnd
    ipidCounter := s.ipidCounter + 1 }

theorem windows_recordSent (now : Time) (look : PacketLook) {n : Nat} {s : SendQueue P}
    (h : s.Windows n) (hgoodput : s.goodputWnd.length ≤ sendWndSize) :
    ∃ history sendWnd goodputWnd total goodput,
      recordSent now look s = some (s.recorded history sendWnd goodputWnd total goodput) ∧
        (s.recorded history sendWnd goodputWnd total goodput).Windows (n + 1) := by
  have hsuffix : s.goodputWnd ++ [s.ipidCounter] <:+ ids (n + 1) := by
    obtain ⟨front, hfront⟩ := h.goodputWnd
    exact ⟨front, by rw [ids_succ, ← hfront, h.counter, List.append_assoc]⟩
  have hwnd : s.sendWnd ++ [s.ipidCounter] = (ids (n + 1)).drop (n - sendWndSize) := by
    rw [ids_succ, List.drop_append_of_le_length (by rw [length_ids]; omega), h.sendWnd, h.counter]
  have hlength : (s.sendWnd ++ [s.ipidCounter]).length = n + 1 - (n - sendWndSize) := by
    rw [hwnd, List.length_drop, length_ids]
  have hinsert (info : SentPacketInfo) (id : UInt16) :
      ((s.pktsHistory.insert s.ipidCounter info).lookup id).isSome
        ↔ id ∈ s.sendWnd ++ [s.ipidCounter] := by
    rw [Dict.lookup_insert_eq, List.mem_append, List.mem_singleton]
    by_cases hid : id = s.ipidCounter
    · simp [hid]
    · rw [if_neg hid, h.history id, or_iff_left hid]
  -- The goodput window reaches no further back than the window of the history.
  have hreach : ∀ id ∈ s.goodputWnd ++ [s.ipidCounter], id ∈ s.sendWnd ++ [s.ipidCounter] := by
    have hn := h.goodputWnd.length_le
    rw [length_ids] at hn
    rw [hwnd] at hlength ⊢
    refine (List.suffix_of_suffix_length_le hsuffix (List.drop_suffix _ _) ?_).subset
    rw [hlength, List.length_append, List.length_singleton]
    omega
  have hnodup : (s.sendWnd ++ [s.ipidCounter]).Nodup := by
    rw [hwnd]
    apply nodup_drop_ids
    simp only [sendWndSize]
    omega
  obtain ⟨goodputWnd, total, goodput, hgood, hsub⟩ :=
    trimGoodput_isSome (toUs now) (s.totalPktsInwnd + look.size.toUInt16.toUInt64)
      (if look.isGoodput then s.goodputPktsInwnd + look.size.toUInt16.toUInt64
      else s.goodputPktsInwnd)
      fun id hid => (hinsert ⟨now, look.isGoodput, look.size.toUInt16⟩ id).mpr (hreach id hid)
  obtain ⟨history, hsend, hhistory⟩ :=
    trimSendWnd_eq hnodup (hinsert ⟨now, look.isGoodput, look.size.toUInt16⟩)
  have hkept : (s.sendWnd ++ [s.ipidCounter]).drop
      ((s.sendWnd ++ [s.ipidCounter]).length - sendWndSize)
        = (ids (n + 1)).drop (n + 1 - sendWndSize) := by
    have hsum : n - sendWndSize + (n + 1 - (n - sendWndSize) - sendWndSize)
        = n + 1 - sendWndSize := by omega
    rw [hlength, hwnd, List.drop_drop, hsum]
  obtain ⟨sendWnd, hsendWnd⟩ : ∃ wnd, wnd = (ids (n + 1)).drop (n + 1 - sendWndSize) := ⟨_, rfl⟩
  rw [hkept, ← hsendWnd] at hsend hhistory
  refine ⟨history, sendWnd, goodputWnd, total, goodput, ?_, ?_⟩
  · simp only [recordSent, hgood, hsend]
    rfl
  · have hcounter : s.ipidCounter + 1 = .ofNat (n + 1) := by rw [h.counter, UInt16.ofNat_add]; rfl
    exact ⟨hcounter, hsendWnd, hhistory, hsub.trans hsuffix⟩

/-! ## Sending -/

/-- The queue once the first packet of its first frame is gone. -/
def afterPop (frame : QueuedFrame P) (rest : List P) (frames : List (QueuedFrame P)) :
    List (QueuedFrame P) :=
  if rest.isEmpty then frames else { frame with packetsInFrame := rest } :: frames

theorem remaining_afterPop (n : Nat) (frame : QueuedFrame P) (rest : List P)
    (frames : List (QueuedFrame P)) :
    remaining n (afterPop frame rest frames)
      = (if frame.number = n then rest else []) ++ remaining n frames := by
  cases rest with
  | nil => simp [afterPop]
  | cons packet rest => exact remaining_cons n _ frames

theorem queuedPackets_afterPop (frame : QueuedFrame P) (rest : List P)
    (frames : List (QueuedFrame P)) :
    queuedPackets (afterPop frame rest frames) = rest.length + queuedPackets frames := by
  cases rest with
  | nil => simp [afterPop]
  | cons packet rest => exact queuedPackets_cons _ frames

/-- What is left is a frame behind the first one, or what is left of the first one. -/
theorem mem_afterPop {frame f : QueuedFrame P} {rest : List P} {frames : List (QueuedFrame P)}
    (h : f ∈ afterPop frame rest frames) :
    f ∈ frames ∨ (rest ≠ [] ∧ f = { frame with packetsInFrame := rest }) := by
  cases rest with
  | nil => exact .inl h
  | cons packet rest =>
      rcases List.mem_cons.mp h with rfl | hf
      · exact .inr ⟨List.cons_ne_nil _ _, rfl⟩
      · exact .inl hf

theorem popPacket_eq (now : Time) (frame : QueuedFrame P) (rest : List P)
    (frames : List (QueuedFrame P)) (s : SendQueue P)
    (hne : ∀ f ∈ frames, f.packetsInFrame ≠ []) (hsmall : queuedPackets frames < 2 ^ 32) :
    ∃ interval, s.popPacket now frame rest frames
      = some { s with queue := afterPop frame rest frames, pacingInterval := interval } := by
  rw [popPacket, afterPop]
  split
  · exact calculatePacingRate_eq now hne hsmall
  · exact ⟨s.pacingInterval, rfl⟩

/-- The first packet of the first frame has moved from the queue to the socket. -/
theorem invariant_sent {s s' : SendQueue P} {frame : QueuedFrame P} {packet : P}
    {rest : List P} {frames : List (QueuedFrame P)} (h : s.Invariant)
    (hqueue : s.queue = frame :: frames) (hpackets : frame.packetsInFrame = packet :: rest)
    (hqueue' : s'.queue = afterPop frame rest frames) (henqueued : s'.enqueued = s.enqueued)
    (hsent : s'.sent = s.sent ++ [⟨frame.number, packet, s.ipidCounter, true⟩])
    (hpending : 0 < s'.pending) (hnext : s'.ipidCounter = s'.controller.nextSequence s'.ipidCounter)
    (htransit : s'.controller.packetTransitHistory.map (·.sequence) = ids (s.sent.length + 1))
    (hwindows : s'.Windows (s.sent.length + 1)) : s'.Invariant := by
  have hframe : frame.number < s.enqueued.length :=
    h.numbers frame (hqueue ▸ List.mem_cons_self)
  have hframes {f : QueuedFrame P} (hf : f ∈ frames) : f ∈ s.queue :=
    hqueue ▸ List.mem_cons_of_mem _ hf
  have hlength : s'.sent.length = s.sent.length + 1 := by
    rw [hsent, List.length_append, List.length_singleton]
  refine ⟨⟨?_, fun _ => hpending, ?_, ?_, ?_, ?_⟩, ?_, ?_, hnext, hlength ▸ htransit,
    hlength ▸ hwindows⟩
  · intro f hf
    rcases mem_afterPop (hqueue' ▸ hf) with hf | ⟨hrest, rfl⟩
    · exact h.nonempty f (hframes hf)
    · exact hrest
  · intro n packets hn
    have honce := h.once n packets (henqueued ▸ hn)
    rw [hqueue, remaining_cons, hpackets] at honce
    rw [hqueue', remaining_afterPop, hsent, sentOf, List.filter_append, List.map_append,
      ← sentOf, ← honce]
    by_cases hnumber : frame.number = n <;> simp [hnumber]
  · intro r hr
    rw [hsent, List.mem_append, List.mem_singleton] at hr
    rw [henqueued]
    rcases hr with hr | rfl
    · exact h.known r hr
    · exact hframe
  · rw [hlength, ids_succ, ← h.globalIds, ← h.windows.counter, hsent, List.map_append]
    rfl
  · intro r hr
    rw [hsent, List.mem_append, List.mem_singleton] at hr
    rcases hr with hr | rfl
    · exact h.accepted r hr
    · rfl
  · intro f hf
    rw [henqueued]
    rcases mem_afterPop (hqueue' ▸ hf) with hf | ⟨-, rfl⟩
    · exact h.numbers f (hframes hf)
    · exact hframe
  · have hsmall := h.small
    rw [hqueue, queuedPackets_cons, hpackets, List.length_cons] at hsmall
    rw [hqueue', queuedPackets_afterPop]
    omega

/-- The state in which the windows are updated. -/
def handedOver (now : Time) (look : PacketLook) (frame : QueuedFrame P) (packet : P)
    (frames : List (QueuedFrame P)) (s : SendQueue P) : SendQueue P :=
  { s with
    queue := frame :: frames
    controller := s.controller.afterSend (toUs now) s.ipidCounter look.size
    pending := s.pending - 1
    sent := s.sent ++ [⟨frame.number, packet, s.ipidCounter, true⟩] }

/-- The state after the event, with the windows as they are now. -/
def afterwards (queue : List (QueuedFrame P)) (pacingInterval : Time) (s : SendQueue P) :
    SendQueue P :=
  { s with queue, pacingInterval, pending := s.pending + 1 }

/-- The packet is accepted and recorded, and the next event is scheduled. -/
theorem sendPacket_eq (now : Time) (look : P → PacketLook) {s : SendQueue P}
    {frame : QueuedFrame P} {packet : P} {rest : List P} {frames : List (QueuedFrame P)}
    (h : s.Invariant) (hqueue : s.queue = frame :: frames)
    (hpackets : frame.packetsInFrame = packet :: rest)
    (hgoodput : s.goodputWnd.length ≤ sendWndSize)
    (hfree : ∀ r ∈ s.controller.packetTransitHistory, r.sequence ≠ s.ipidCounter) :
    ∃ history sendWnd goodputWnd total goodput interval,
      recordSent now (look packet) (s.handedOver now (look packet) frame packet frames)
          = some ((s.handedOver now (look packet) frame packet frames).recorded
            history sendWnd goodputWnd total goodput) ∧
        ((s.handedOver now (look packet) frame packet frames).recorded
            history sendWnd goodputWnd total goodput).Windows (s.sent.length + 1) ∧
        s.sendPacket now look
          = some (((s.handedOver now (look packet) frame packet frames).recorded
            history sendWnd goodputWnd total goodput).afterwards
              (afterPop frame rest frames) interval) := by
  have haccept : s.controller.processSendPacket (toUs now) s.ipidCounter (look packet).size
      = some (true, _) := SenderBasedController.processSendPacket_eq h.next hfree
  have hwindows : (s.handedOver now (look packet) frame packet frames).Windows s.sent.length :=
    { h.windows with }
  obtain ⟨history, sendWnd, goodputWnd, total, goodput, hrecord, hwindows'⟩ :=
    windows_recordSent now (look packet) hwindows hgoodput
  have hsmall : queuedPackets frames < 2 ^ 32 := by
    have hs := h.small
    rw [hqueue, queuedPackets_cons] at hs
    omega
  obtain ⟨interval, hpop⟩ := popPacket_eq now frame rest frames
    ((s.handedOver now (look packet) frame packet frames).recorded
      history sendWnd goodputWnd total goodput)
    (fun f hf => h.nonempty f (hqueue ▸ List.mem_cons_of_mem _ hf)) hsmall
  refine ⟨history, sendWnd, goodputWnd, total, goodput, interval, hrecord, hwindows', ?_⟩
  simp only [sendPacket, hqueue, hpackets, haccept]
  change (recordSent now (look packet)
    (s.handedOver now (look packet) frame packet frames)).bind _ = _
  rw [hrecord, Option.bind_some, hpop]
  rfl

theorem invariant_sendPacket (now : Time) (look : P → PacketLook) {s : SendQueue P}
    {frame : QueuedFrame P} {frames : List (QueuedFrame P)} (h : s.Invariant)
    (hqueue : s.queue = frame :: frames) (hgoodput : s.goodputWnd.length ≤ sendWndSize)
    (hfree : ∀ r ∈ s.controller.packetTransitHistory, r.sequence ≠ s.ipidCounter) :
    ∃ s', s.sendPacket now look = some s' ∧ s'.Invariant := by
  obtain ⟨packet, rest, hpackets⟩ :=
    List.exists_cons_of_ne_nil (h.nonempty frame (hqueue ▸ List.mem_cons_self))
  obtain ⟨history, sendWnd, goodputWnd, total, goodput, interval, -, hwindows, heq⟩ :=
    sendPacket_eq now look h hqueue hpackets hgoodput hfree
  have htransit : (s.controller.afterSend (toUs now) s.ipidCounter
      (look packet).size).packetTransitHistory.map (·.sequence) = ids (s.sent.length + 1) := by
    rw [ids_succ, ← h.transit, ← h.windows.counter, SenderBasedController.afterSend,
      List.map_append]
    rfl
  exact ⟨_, heq,
    invariant_sent h hqueue hpackets rfl rfl rfl (Nat.succ_pos _) rfl htransit { hwindows with }⟩

theorem invariant_idle {now : Time} {look : P → PacketLook} {s : SendQueue P} (h : s.Invariant)
    (hqueue : s.queue = []) : ∃ s', s.sendPacket now look = some s' ∧ s'.Invariant := by
  refine ⟨{ s with pending := s.pending - 1 }, by simp only [sendPacket, hqueue], ?_⟩
  exact { h with scheduled := fun hne => absurd hqueue hne, windows := { h.windows with } }

/-! ## Runs -/

/-- Frames are not empty and events that run were scheduled. -/
def Legal (s : SendQueue P) : Event P → Prop
  | .sendFrame _ packets _ => packets ≠ []
  | .sendRtx _ packets _ => packets ≠ []
  | .sendPacket _ _ => 0 < s.pending

/-- What keeps a step away from the three defects: a count of packets that wraps to zero, a
goodput window that reaches further back than the history, and a controller that still has a
record of the id. -/
def Sound (s : SendQueue P) : Event P → Prop
  | .sendFrame _ packets _ => queuedPackets s.queue + packets.length < 2 ^ 32
  | .sendRtx _ packets _ => queuedPackets s.queue + packets.length < 2 ^ 32
  | .sendPacket _ _ => s.queue ≠ [] →
    s.goodputWnd.length ≤ sendWndSize ∧
      ∀ r ∈ s.controller.packetTransitHistory, r.sequence ≠ s.ipidCounter

instance (s : SendQueue P) : (e : Event P) → Decidable (Legal s e)
  | .sendFrame .. => inferInstanceAs (Decidable (_ ≠ []))
  | .sendRtx .. => inferInstanceAs (Decidable (_ ≠ []))
  | .sendPacket .. => inferInstanceAs (Decidable (_ < _))

instance (s : SendQueue P) : (e : Event P) → Decidable (Sound s e)
  | .sendFrame .. => inferInstanceAs (Decidable (_ < _))
  | .sendRtx .. => inferInstanceAs (Decidable (_ < _))
  | .sendPacket .. => inferInstanceAs (Decidable (_ ≠ [] → _ ∧ ∀ r ∈ _, _))

theorem step_invariant (s : SendQueue P) (e : Event P) (h : s.Invariant)
    (he : Legal s e ∧ Sound s e) : ∃ s', step s e = some s' ∧ s'.Invariant := by
  obtain ⟨hlegal, hsound⟩ := he
  cases e with
  | sendFrame now packets encodeTime =>
      obtain ⟨interval, heq, hinv⟩ := invariant_sendFrame now encodeTime h hlegal hsound
      exact ⟨_, heq, hinv⟩
  | sendRtx now packets encodeTime =>
      obtain ⟨interval, heq, hinv⟩ := invariant_sendRtx now encodeTime h hlegal hsound
      exact ⟨_, heq, hinv⟩
  | sendPacket now look =>
      cases hqueue : s.queue with
      | nil => exact invariant_idle h hqueue
      | cons frame frames =>
          obtain ⟨hgoodput, hfree⟩ := hsound (hqueue ▸ List.cons_ne_nil _ _)
          exact invariant_sendPacket now look h hqueue hgoodput hfree

/-- In a run whose steps stay away from the defects every event returns and every packet is
delivered. -/
theorem delivers_of_sound {sendTimeLimit : Time} {es : List (Event P)}
    (hlegal : Run.Each step Legal { sendTimeLimit } es)
    (hsound : Run.Each step Sound { sendTimeLimit } es) :
    (∃ s, Run.exec step { sendTimeLimit } es = some s) ∧
      Run.Always step Delivers { sendTimeLimit } es := by
  have hboth := hlegal.and hsound
  constructor
  · obtain ⟨s, hrun, -⟩ := hboth.exec step_invariant (invariant_new sendTimeLimit)
    exact ⟨s, hrun⟩
  · have halways : Run.Always step Invariant { sendTimeLimit } es := by
      refine hboth.always (fun s e s' h he hstep => ?_) (invariant_new sendTimeLimit)
      obtain ⟨t, ht, hinv⟩ := step_invariant s e h he
      cases ht.symm.trans hstep
      exact hinv
    exact halways.mono fun s h => h.toDelivers

theorem delivers_of_sound_rtx :
    (∃ s, Run.exec step { sendTimeLimit := 50000000 } [.sendFrame 0 ['a', 'b'] 0,
        .sendPacket 0 fun _ => ⟨true, 1000⟩, .sendRtx 5000 ['c'] 0,
        .sendPacket 5000 fun _ => ⟨false, 1000⟩, .sendPacket 5000 fun _ => ⟨true, 1000⟩] = some s) ∧
      Run.Always step Delivers { sendTimeLimit := 50000000 } [.sendFrame 0 ['a', 'b'] 0,
        .sendPacket 0 fun _ => ⟨true, 1000⟩, .sendRtx 5000 ['c'] 0,
        .sendPacket 5000 fun _ => ⟨false, 1000⟩, .sendPacket 5000 fun _ => ⟨true, 1000⟩] :=
  delivers_of_sound (by decide) (by decide)

/-! ## A burst of packets -/

/-- Every packet in the history was sent at this time. -/
def SentAt (now : Time) (history : Dict UInt16 SentPacketInfo) : Prop :=
  ∀ id info, history.lookup id = some info → info.pktSendTime = now

/-- Nothing leaves the goodput window while the clock stands still. -/
theorem trimGoodput_sentAt {now : Time} {history : Dict UInt16 SentPacketInfo}
    {wnd wnd' : List UInt16} {total goodput total' goodput' : UInt64} (h : SentAt now history)
    (hnow : goodputWndSize ≤ toUs now)
    (heq : trimGoodput history (toUs now) wnd total goodput = some (wnd', total', goodput')) :
    wnd' = wnd := by
  cases wnd with
  | nil =>
      cases heq
      rfl
  | cons id rest =>
      rw [trimGoodput] at heq
      cases hid : history.lookup id with
      | none =>
          rw [hid] at heq
          cases heq
      | some info =>
          have hold : ¬ toUs info.pktSendTime < toUs now - goodputWndSize := by
            rw [h id info hid, UInt64.lt_iff_toNat_lt, UInt64.toNat_sub_of_le _ _ hnow]
            omega
          simp only [hid, if_neg hold] at heq
          cases heq
          rfl

theorem lookup_trimSendWnd {wnd wnd' : List UInt16} {history history' : Dict UInt16 SentPacketInfo}
    {id : UInt16} {info : SentPacketInfo}
    (heq : trimSendWnd wnd history = some (wnd', history'))
    (h : history'.lookup id = some info) : history.lookup id = some info := by
  induction wnd generalizing history with
  | nil =>
      cases heq
      exact h
  | cons first rest ih =>
      rw [trimSendWnd] at heq
      split at heq
      · split at heq
        · have hrest := ih heq
          rw [Dict.lookup_erase_eq] at hrest
          split at hrest
          · cases hrest
          · exact hrest
        · cases heq
      · cases heq
        exact h

theorem recordSent_sentAt {now : Time} {look : PacketLook} {s s' : SendQueue P}
    (h : SentAt now s.pktsHistory) (hnow : goodputWndSize ≤ toUs now)
    (heq : recordSent now look s = some s') :
    s'.goodputWnd = s.goodputWnd ++ [s.ipidCounter] ∧ SentAt now s'.pktsHistory := by
  have hinsert : SentAt now (s.pktsHistory.insert s.ipidCounter
      ⟨now, look.isGoodput, look.size.toUInt16⟩) := by
    intro id info hid
    rw [Dict.lookup_insert_eq] at hid
    split at hid
    · cases hid
      rfl
    · exact h id info hid
  simp only [recordSent, Option.bind_eq_bind, Option.bind_eq_some_iff] at heq
  obtain ⟨⟨goodputWnd, total, goodput⟩, hgood, ⟨sendWnd, history⟩, hsend, heq⟩ := heq
  cases heq
  exact ⟨trimGoodput_sentAt hinsert hnow hgood,
    fun id info hid => hinsert id info (lookup_trimSendWnd hsend hid)⟩

/-- `k` packets of a frame of `n` were sent at one time. -/
structure Burst (now : Time) (n k : Nat) (s : SendQueue P) : Prop extends Invariant s where
  sentCount : s.sent.length = k
  left : queuedPackets s.queue + k = n
  goodput : s.goodputWnd = ids k
  sentAt : SentAt now s.pktsHistory

/-- While there are fewer than 65536 ids, none of them is used twice. -/
theorem ofNat_notMem_ids {n : Nat} (h : n < 65536) : UInt16.ofNat n ∉ ids n := by
  have hnodup : (ids (n + 1)).Nodup := nodup_drop_ids (k := 0) (by omega)
  rw [ids_succ, List.nodup_append] at hnodup
  exact fun hmem => hnodup.2.2 _ hmem _ (List.mem_singleton_self _) rfl

/-- The next packet of a burst, and that the controller has no record of its id. -/
theorem Burst.exists_next {now : Time} {n k : Nat} {s : SendQueue P} (h : Burst now n k s)
    (hk : k < 65536) (hn : k < n) :
    (∃ frame frames packet rest, s.queue = frame :: frames ∧
        frame.packetsInFrame = packet :: rest) ∧
      ∀ r ∈ s.controller.packetTransitHistory, r.sequence ≠ s.ipidCounter := by
  constructor
  · have hne : s.queue ≠ [] := by
      intro hnil
      have hleft := h.left
      rw [hnil] at hleft
      simp only [queuedPackets, List.map_nil, List.sum_nil] at hleft
      omega
    obtain ⟨frame, frames, hqueue⟩ := List.exists_cons_of_ne_nil hne
    obtain ⟨packet, rest, hpackets⟩ :=
      List.exists_cons_of_ne_nil (h.nonempty frame (hqueue ▸ List.mem_cons_self))
    exact ⟨frame, frames, packet, rest, hqueue, hpackets⟩
  · intro r hr heq
    have hmem : r.sequence ∈ ids s.sent.length := h.transit ▸ List.mem_map_of_mem hr
    rw [heq, h.windows.counter, h.sentCount] at hmem
    exact ofNat_notMem_ids hk hmem

theorem burst_sendPacket {now : Time} (look : P → PacketLook) {n k : Nat} {s : SendQueue P}
    (h : Burst now n k s) (hnow : goodputWndSize ≤ toUs now) (hk : k ≤ sendWndSize)
    (hn : k < n) : ∃ s', s.sendPacket now look = some s' ∧ Burst now n (k + 1) s' := by
  obtain ⟨⟨frame, frames, packet, rest, hqueue, hpackets⟩, hfree⟩ :=
    h.exists_next (hk.trans_lt (by decide)) hn
  have hgoodput : s.goodputWnd.length ≤ sendWndSize := by rwa [h.goodput, length_ids]
  obtain ⟨history, sendWnd, goodputWnd, total, goodput, interval, hrecord, -, heq⟩ :=
    sendPacket_eq now look h.toInvariant hqueue hpackets hgoodput hfree
  obtain ⟨s', hs', hinv⟩ := invariant_sendPacket now look h.toInvariant hqueue hgoodput hfree
  have hsame : SentAt now (s.handedOver now (look packet) frame packet frames).pktsHistory :=
    h.sentAt
  obtain ⟨hwnd, hsentAt⟩ := recordSent_sentAt hsame hnow hrecord
  have hcount (record : SentRecord P) : (s.sent ++ [record]).length = k + 1 := by
    rw [List.length_append, h.sentCount, List.length_singleton]
  have hleft : queuedPackets (afterPop frame rest frames) + (k + 1) = n := by
    rw [← h.left, hqueue, queuedPackets_afterPop, queuedPackets_cons, hpackets, List.length_cons]
    omega
  have hids : s.goodputWnd ++ [s.ipidCounter] = ids (k + 1) := by
    rw [h.goodput, h.windows.counter, h.sentCount, ids_succ]
  cases hs'.symm.trans heq
  exact ⟨_, heq, hinv, hcount _, hleft, hwnd.trans hids, hsentAt⟩

/-- The window of the history has gone past the first packet, the goodput window has not. -/
theorem burst_fails {now : Time} (look : P → PacketLook) {n : Nat} {s : SendQueue P}
    (h : Burst now n (sendWndSize + 1) s) (hn : sendWndSize + 1 < n) :
    s.sendPacket now look = none := by
  obtain ⟨⟨frame, frames, packet, rest, hqueue, hpackets⟩, hfree⟩ :=
    h.exists_next (by decide) hn
  have haccept : s.controller.processSendPacket (toUs now) s.ipidCounter (look packet).size
      = some (true, _) := SenderBasedController.processSendPacket_eq h.next hfree
  have hids : ids (sendWndSize + 1) = 0 :: (ids (sendWndSize + 1)).drop 1 := by
    rw [ids, ← List.map_drop, List.range_succ_eq_map]
    rfl
  have hfirst : 0 ∉ s.sendWnd := by
    have hnodup : (ids (sendWndSize + 1)).Nodup := nodup_drop_ids (k := 0) (by decide)
    rw [h.windows.sendWnd, h.sentCount, Nat.add_sub_cancel_left]
    rw [hids] at hnodup
    exact (List.nodup_cons.mp hnodup).1
  have hgone (info : SentPacketInfo) :
      (s.pktsHistory.insert s.ipidCounter info).lookup 0 = none := by
    have hother : (0 : UInt16) ≠ s.ipidCounter := by
      rw [h.windows.counter, h.sentCount]
      decide
    rw [Dict.lookup_insert_eq, if_neg hother, ← Option.not_isSome_iff_eq_none]
    exact mt (h.windows.history 0).mp hfirst
  have hrecord : recordSent now (look packet)
      (s.handedOver now (look packet) frame packet frames) = none := by
    simp only [recordSent, handedOver, h.goodput]
    rw [hids, List.cons_append, trimGoodput, hgone]
    rfl
  simp only [sendPacket, hqueue, hpackets, haccept]
  change (recordSent now (look packet)
    (s.handedOver now (look packet) frame packet frames)).bind _ = _
  rw [hrecord, Option.bind_none]

/-- A frame of `n` packets and `k` events, all at one time. -/
def burst (now : Time) (look : P → PacketLook) (packets : List P) (k : Nat) : List (Event P) :=
  .sendFrame now packets now :: List.replicate k (.sendPacket now look)

theorem Burst.pending_pos {now : Time} {n k : Nat} {s : SendQueue P} (h : Burst now n k s)
    (hk : k < 65536) (hn : k < n) : 0 < s.pending := by
  obtain ⟨⟨frame, frames, packet, rest, hqueue, hpackets⟩, -⟩ := h.exists_next hk hn
  exact h.scheduled (hqueue ▸ List.cons_ne_nil _ _)

/-- The clock stands still until the window of the history is full. -/
theorem burst_run {now : Time} (look : P → PacketLook) {n k m : Nat} {s : SendQueue P}
    (h : Burst now n k s) (hnow : goodputWndSize ≤ toUs now) (hm : k + m = sendWndSize + 1)
    (hn : sendWndSize + 1 < n) :
    Run.Each step Legal s (List.replicate (m + 1) (.sendPacket now look)) ∧
      Run.exec step s (List.replicate (m + 1) (.sendPacket now look)) = none := by
  have hsize : sendWndSize + 1 < 65536 := by decide
  induction m generalizing s k with
  | zero =>
      obtain rfl : k = sendWndSize + 1 := by omega
      have hfail : step s (.sendPacket now look) = none := burst_fails look h hn
      refine ⟨⟨h.pending_pos hsize hn, fun s' hs' => ?_⟩, ?_⟩
      · rw [hfail] at hs'
        cases hs'
      · rw [List.replicate_succ, Run.exec, hfail, Option.bind_none]
  | succ m ih =>
      obtain ⟨s', hs', h'⟩ := burst_sendPacket look h hnow (by omega) (by omega)
      have hstep : step s (.sendPacket now look) = some s' := hs'
      obtain ⟨hlegal, hrun⟩ := ih h' (by omega)
      refine ⟨⟨h.pending_pos (by omega) (by omega), fun t ht => ?_⟩, ?_⟩
      · cases hstep.symm.trans ht
        exact hlegal
      · rw [List.replicate_succ, Run.exec, hstep, Option.bind_some]
        exact hrun

theorem burst_sendFrame (sendTimeLimit now encodeTime : Time) {packets : List P}
    (hne : packets ≠ []) (hsmall : packets.length < 2 ^ 32) :
    ∃ s, step { sendTimeLimit } (.sendFrame now packets encodeTime) = some s ∧
      Burst now packets.length 0 s := by
  have hqueued : queuedPackets (P := P) [] + packets.length < 2 ^ 32 := by
    simpa [queuedPackets] using hsmall
  obtain ⟨interval, heq, hinv⟩ :=
    invariant_sendFrame now encodeTime (invariant_new sendTimeLimit) hne hqueued
  refine ⟨_, heq, hinv, rfl, ?_, rfl, fun id info hid => ?_⟩
  · simp [enqueue, newFrame, queuedPackets]
  · cases hid

/-- A frame of more packets than the history holds, sent at one time: once the history is full
the goodput window begins with a packet that has left it, and the next event is the last. -/
theorem burst_stops (sendTimeLimit : Time) {now : Time} (look : P → PacketLook) {packets : List P}
    (hnow : goodputWndSize ≤ toUs now) (hlong : sendWndSize + 1 < packets.length)
    (hsmall : packets.length < 2 ^ 32) :
    Run.Each step Legal { sendTimeLimit } (burst now look packets (sendWndSize + 2)) ∧
      Run.exec step { sendTimeLimit } (burst now look packets (sendWndSize + 2)) = none := by
  have hne : packets ≠ [] := List.length_pos_iff.mp (Nat.zero_lt_of_lt hlong)
  obtain ⟨s, hs, hburst⟩ := burst_sendFrame sendTimeLimit now now hne hsmall
  obtain ⟨hlegal, hrun⟩ := burst_run look hburst hnow (Nat.zero_add _) hlong
  refine ⟨⟨hne, fun t ht => ?_⟩, ?_⟩
  · cases hs.symm.trans ht
    exact hlegal
  · rw [burst, Run.exec, hs, Option.bind_some]
    exact hrun

theorem sendPacket_burst :
    Run.Each step Legal { sendTimeLimit := 50000000 }
        (.sendFrame 100000000 (List.replicate 10003 'a') 100000000 ::
          List.replicate 10002 (.sendPacket 100000000 fun _ => ⟨true, 1000⟩)) ∧
      Run.exec step { sendTimeLimit := 50000000 }
        (.sendFrame 100000000 (List.replicate 10003 'a') 100000000 ::
          List.replicate 10002 (.sendPacket 100000000 fun _ => ⟨true, 1000⟩)) = none := by
  have hlength : (List.replicate 10003 'a').length = 10003 := List.length_replicate
  exact burst_stops 50000000 (fun _ => ⟨true, 1000⟩) (by decide) (by rw [hlength]; decide)
    (by rw [hlength]; decide)

end Zhuge.SendQueue
