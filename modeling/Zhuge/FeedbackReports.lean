-- SUMMARY: When every arrival is reported once: by the first feedback after it.
import Zhuge.ReceiveWindow
import Zhuge.Lib.Run
import Zhuge.Lib.Sweep

/-!
# Reporting every arrival once

The record is shared by two uses: throughput is measured over a window of time, and
reports are made from what is in the record when the timer runs out. An arrival is
reported by the first feedback after it, and only by that, as long as no arrival is
erased before that feedback, and every new id is ahead of all ids in the record.
-/

namespace Zhuge

namespace ReceiveWindow

/-! ## Sliding and inserting -/

theorem kept_sublist (rxTime : UInt32) (removed : ℕ → Bool) (s : ReceiveWindow) :
    (s.kept rxTime removed).Sublist s.record := by
  have hsub := (List.filter_sublist (p := fun entry =>
    !erased s.timeWndSize rxTime removed entry) (l := s.record.zipIdx)).map Prod.fst
  rwa [List.zipIdx_map_fst] at hsub

/-- Behind entries that are all before it, the new packet goes to the end. -/
theorem insertBehind_of_forall {rt : RcvTime} {record : List RcvTime} (hne : record ≠ [])
    (h : ∀ entry ∈ record, lessThanSimple entry.id rt.id) :
    insertBehind rt record = some (record ++ [rt]) := by
  induction record with
  | nil => exact absurd rfl hne
  | cons entry record ih =>
      obtain ⟨hentry, hrest⟩ := List.forall_mem_cons.mp h
      cases record with
      | nil => simp [insertBehind, hentry]
      | cons next record => rw [insertBehind, ih (List.cons_ne_nil _ _) hrest]; rfl

theorem insert_of_forall (rt : RcvTime) {record : List RcvTime}
    (h : ∀ entry ∈ record, lessThanSimple entry.id rt.id) :
    insert rt record = record ++ [rt] := by
  cases record with
  | nil => rfl
  | cons front record =>
      have hfront := lessThanSimple_asymm (h front List.mem_cons_self)
      simp [insert, hfront, insertBehind_of_forall (List.cons_ne_nil _ _) h]

/-! ## The loop of the feedback -/

theorem Scan.countLosses_frame (rt : RcvTime) (isLast : Bool) (scan : Scan) :
    (scan.countLosses rt isLast).lastFeedback = scan.lastFeedback ∧
      (scan.countLosses rt isLast).recvSample = scan.recvSample ∧
      (scan.countLosses rt isLast).first = scan.first := by
  simp only [Scan.countLosses]
  split <;> exact ⟨rfl, rfl, rfl⟩

theorem Scan.sample_spec (rt : RcvTime) (scan : Scan) :
    (scan.sample rt).lastFeedback =
        (if lessThanSimple scan.lastFeedback rt.id then rt.id else scan.lastFeedback) ∧
      (scan.sample rt).recvSample = scan.recvSample ++
        (if lessThanSimple scan.lastFeedback rt.id then [rt] else []) ∧
      (scan.sample rt).first = scan.first := by
  simp only [Scan.sample]
  split <;> simp

theorem Scan.setPrevId_frame (prevId : UInt32) (scan : Scan) :
    (scan.setPrevId prevId).prevId = prevId ∧ (scan.setPrevId prevId).first = scan.first ∧
      (scan.setPrevId prevId).lastFeedback = scan.lastFeedback ∧
      (scan.setPrevId prevId).recvSample = scan.recvSample := ⟨rfl, rfl, rfl, rfl⟩

theorem Scan.setFirst_frame (first : Bool) (scan : Scan) :
    (scan.setFirst first).first = first ∧
      (scan.setFirst first).lastFeedback = scan.lastFeedback ∧
      (scan.setFirst first).recvSample = scan.recvSample := ⟨rfl, rfl, rfl⟩

theorem Scan.round_spec (rt : RcvTime) (isLast : Bool) (scan : Scan) :
    (scan.round rt isLast).first = false ∧ (scan.round rt isLast).prevId = rt.pktId ∧
      (scan.round rt isLast).lastFeedback =
        (if lessThanSimple scan.lastFeedback rt.id then rt.id else scan.lastFeedback) ∧
      (scan.round rt isLast).recvSample = scan.recvSample ++
        (if lessThanSimple scan.lastFeedback rt.id then [rt] else []) := by
  simp only [Scan.round, setPrevId_frame, sample_spec, countLosses_frame, setFirst_frame,
    and_self]

/-- One round over an entry that is in order. -/
theorem Scan.loop_cons (scan : Scan) (rt : RcvTime) (record : List RcvTime)
    (hin : scan.first = false → lessThanSimple scan.prevId.toUInt16 rt.id) :
    scan.loop (rt :: record) = (scan.round rt record.isEmpty).loop record := by
  rw [Scan.loop, if_neg]
  rintro ⟨hfirst, hout⟩
  exact hout (hin (by simpa using hfirst))

/-- The ids in the order of the record. -/
def ids (record : List RcvTime) : List UInt16 := record.map (·.id)

theorem ids_append (record record' : List RcvTime) :
    ids (record ++ record') = ids record ++ ids record' := List.map_append

theorem lessThanSimple_head {rt : RcvTime} {record : List RcvTime}
    (h : (ids (rt :: record)).IsChain lessThanSimple) :
    ∀ next ∈ record.head?, lessThanSimple rt.id next.id := by
  intro next hnext
  apply List.IsChain.rel_head? h
  rw [List.head?_map]
  exact Option.mem_map_of_mem _ hnext

/-- Over entries that are in order and ahead of all reported ones, the loop reports them all. -/
theorem Scan.loop_fresh (scan : Scan) {fresh : List RcvTime}
    (hfirst : scan.first = false → ∀ rt ∈ fresh.head?,
      lessThanSimple scan.prevId.toUInt16 rt.id)
    (hfresh : (scan.lastFeedback :: ids fresh).IsChain lessThanSimple) :
    ∃ scan' : Scan, scan.loop fresh = some scan' ∧
      scan'.recvSample = scan.recvSample ++ fresh ∧
      scan'.lastFeedback = (ids fresh).getLastD scan.lastFeedback := by
  induction fresh generalizing scan with
  | nil => exact ⟨scan, rfl, (List.append_nil _).symm, rfl⟩
  | cons rt fresh ih =>
      obtain ⟨hahead, hrest⟩ := List.isChain_cons_cons.mp hfresh
      have hloop := loop_cons scan rt fresh fun h => hfirst h rt rfl
      obtain ⟨-, hprev, hlast, hsample⟩ := round_spec rt fresh.isEmpty scan
      rw [if_pos hahead] at hlast hsample
      have hnext := lessThanSimple_head hrest
      obtain ⟨scan', hscan', hsample', hlast'⟩ := ih (scan.round rt fresh.isEmpty)
        (fun _ => by rwa [hprev]) (by rwa [hlast])
      refine ⟨scan', hloop.trans hscan', ?_, ?_⟩
      · rw [hsample', hsample, List.append_assoc, List.singleton_append]
      · rw [hlast', hlast]
        exact (List.getLastD_cons).symm

/-- Over an ordered record, the loop reports the entries that lie ahead of what has been
reported, when these stand at the end. -/
theorem Scan.loop_spec (scan : Scan) {reported fresh : List RcvTime}
    (hordered : (ids (reported ++ fresh)).IsChain lessThanSimple)
    (hfirst : scan.first = false → ∀ rt ∈ (reported ++ fresh).head?,
      lessThanSimple scan.prevId.toUInt16 rt.id)
    (hreported : ∀ rt ∈ reported, ¬ lessThanSimple scan.lastFeedback rt.id)
    (hfresh : (scan.lastFeedback :: ids fresh).IsChain lessThanSimple) :
    ∃ scan' : Scan, scan.loop (reported ++ fresh) = some scan' ∧
      scan'.recvSample = scan.recvSample ++ fresh ∧
      scan'.lastFeedback = (ids fresh).getLastD scan.lastFeedback := by
  induction reported generalizing scan with
  | nil => exact loop_fresh scan hfirst hfresh
  | cons rt reported ih =>
      obtain ⟨hrt, hrest⟩ := List.forall_mem_cons.mp hreported
      have hloop := loop_cons scan rt (reported ++ fresh) fun h => hfirst h rt rfl
      obtain ⟨-, hprev, hlast, hsample⟩ := round_spec rt (reported ++ fresh).isEmpty scan
      rw [if_neg hrt] at hlast hsample
      rw [List.append_nil] at hsample
      have hnext := lessThanSimple_head hordered
      obtain ⟨scan', hscan', hsample', hlast'⟩ := ih
        (scan.round rt (reported ++ fresh).isEmpty) hordered.tail
        (fun _ => by rwa [hprev]) (by rwa [hlast]) (by rwa [hlast])
      rw [hsample] at hsample'
      rw [hlast] at hlast'
      exact ⟨scan', hloop.trans hscan', hsample', hlast'⟩

/-- The feedback over a record whose entries not yet reported stand at the end: it reports
these. -/
theorem feedbackNetState_spec (now : Time) {s : ReceiveWindow} {reported fresh : List RcvTime}
    (hrecord : s.record = reported ++ fresh) (hordered : (ids s.record).IsChain lessThanSimple)
    (hreported : ∀ rt ∈ reported, ¬ lessThanSimple s.lastFeedback rt.id)
    (hfresh : (s.lastFeedback :: ids fresh).IsChain lessThanSimple) :
    ∃ s' feedback, s.feedbackNetState now = some (s', feedback) ∧
      feedback.recvtimeHist = fresh ∧ s'.record = s.record ∧
      s'.lastFeedback = (ids fresh).getLastD s.lastFeedback ∧ s'.feedbackTimer ≠ none := by
  rw [hrecord] at hordered
  obtain ⟨scan, hscan, hsample, hlast⟩ := Scan.loop_spec
    (.start s.lastFeedback s.record) hordered nofun hreported hfresh
  rw [← hrecord] at hscan
  simp only [feedbackNetState, hscan]
  exact ⟨_, _, rfl, hsample, rfl, hlast, Option.some_ne_none _⟩

/-! ## One arrival -/

theorem id_arrival (now : Time) (id : UInt16) (size : UInt32) : (arrival now id size).id = id := by
  simp [arrival, RcvTime.id]

theorem record_onSocketRecv {now : Time} {id : UInt16} (size : UInt32) {removed : ℕ → Bool}
    {s : ReceiveWindow}
    (h : ∀ rt ∈ s.kept (rxTimeOf now) removed, lessThanSimple rt.id id) :
    (s.onSocketRecv now id size removed).record =
      s.kept (rxTimeOf now) removed ++ [arrival now id size] := by
  simp only [onSocketRecv]
  by_cases hempty : s.record.isEmpty
  · rw [if_pos hempty]
    simp [kept, List.isEmpty_iff.mp hempty]
  · rw [if_neg hempty]
    apply insert_of_forall (arrival now id size)
    intro rt hrt
    rw [id_arrival]
    exact h rt hrt

theorem lastFeedback_onSocketRecv (now : Time) (id : UInt16) (size : UInt32)
    (removed : ℕ → Bool) (s : ReceiveWindow) :
    (s.onSocketRecv now id size removed).lastFeedback = s.lastFeedback := by
  simp only [onSocketRecv]
  split_ifs <;> rfl

/-- The timer is started by the first arrival and goes on running. -/
theorem feedbackTimer_onSocketRecv {now : Time} {id : UInt16} {size : UInt32}
    {removed : ℕ → Bool} {s : ReceiveWindow} (h : s.record ≠ [] → s.feedbackTimer ≠ none) :
    (s.onSocketRecv now id size removed).feedbackTimer ≠ none := by
  simp only [onSocketRecv]
  split_ifs with hempty hnone
  · exact Option.some_ne_none _
  · simpa using hnone
  · exact h (by simpa using hempty)

end ReceiveWindow

/-! ## Runs -/

/-- The window over a run, with what has happened so far. -/
structure FeedbackRun where
  window : ReceiveWindow
  clock : Time
  /-- The id of the last arrival, and 65535 before the first. -/
  newest : UInt16
  /-- The arrivals since the last feedback. -/
  unreported : List RcvTime
  /-- For each feedback, the arrivals between the one before it and itself. -/
  due : List (List RcvTime)
  /-- For each feedback, its `recvtime_hist`. -/
  reports : List (List RcvTime)

namespace FeedbackRun

open ReceiveWindow

inductive Event where
  | arrive (now : Time) (id : UInt16) (size : UInt32) (removed : ℕ → Bool)
  | feedback

def init (wndsize : UInt32) (interval : UInt16) : FeedbackRun :=
  ⟨.init wndsize interval, 0, 65535, [], [], []⟩

/-- One handler. `none`: the timer is not running, or the assertion in the feedback fails. -/
def step (s : FeedbackRun) : Event → Option FeedbackRun
  | .arrive now id size removed =>
    some { s with
      window := s.window.onSocketRecv now id size removed
      clock := now
      newest := id
      unreported := s.unreported ++ [arrival now id size] }
  | .feedback => do
    let now ← s.window.feedbackTimer
    let (window, feedback) ← s.window.feedbackNetState now
    return { s with
      window := window
      clock := now
      unreported := []
      due := s.due ++ [s.unreported]
      reports := s.reports ++ [feedback.recvtimeHist] }

/-- What can happen next: a packet whose id is ahead of the last one, not later than the
feedback on the calendar, or that feedback. -/
def Admissible (s : FeedbackRun) : Event → Prop
  | .arrive now id _ _ =>
    s.clock ≤ now ∧ (∀ expiry ∈ s.window.feedbackTimer, now ≤ expiry) ∧
      lessThanSimple s.newest id
  | .feedback => s.window.feedbackTimer ≠ none

instance (s : FeedbackRun) : DecidablePred s.Admissible
  | .arrive _ _ _ _ => inferInstanceAs (Decidable (_ ∧ (∀ _ ∈ _, _) ∧ _))
  | .feedback => inferInstanceAs (Decidable (_ ≠ none))

/-- Every feedback so far has reported exactly the arrivals since the one before it. A packet
is thus in the first feedback after it and in no other one, and that feedback is on the
calendar until it is built. -/
def Reported (s : FeedbackRun) : Prop :=
  s.reports = s.due ∧ (s.unreported ≠ [] → s.window.feedbackTimer ≠ none)

/-- An arrival erases no entry that is not reported yet, and its id is ahead of all that stay. -/
def Harmless (s : FeedbackRun) : Event → Prop
  | .arrive now id _ removed =>
    (∀ rt ∈ s.unreported, rt ∈ s.window.kept (rxTimeOf now) removed) ∧
      ∀ rt ∈ s.window.kept (rxTimeOf now) removed, lessThanSimple rt.id id
  | .feedback => True

instance (s : FeedbackRun) : DecidablePred s.Harmless
  | .arrive _ _ _ _ => inferInstanceAs (Decidable ((∀ _ ∈ _, _) ∧ ∀ _ ∈ _, _))
  | .feedback => .isTrue trivial

/-! ### The invariant -/

/-- The record is ordered: first the entries that were reported, then the others. -/
structure Inv (reported : List RcvTime) (s : FeedbackRun) : Prop where
  record : s.window.record = reported ++ s.unreported
  ordered : (ids s.window.record).Pairwise lessThanSimple
  reported_behind : ∀ rt ∈ reported, ¬ lessThanSimple s.window.lastFeedback rt.id
  unreported_ahead : (s.window.lastFeedback :: ids s.unreported).IsChain lessThanSimple
  newest : s.newest = (ids s.unreported).getLastD s.window.lastFeedback
  timer : s.window.record ≠ [] → s.window.feedbackTimer ≠ none
  reports : s.reports = s.due

theorem Inv.init (wndsize : UInt32) (interval : UInt16) :
    Inv [] (FeedbackRun.init wndsize interval) where
  record := rfl
  ordered := .nil
  reported_behind := nofun
  unreported_ahead := .singleton _
  newest := rfl
  timer := nofun
  reports := rfl

theorem Inv.toReported {reported : List RcvTime} {s : FeedbackRun} (h : Inv reported s) :
    s.Reported := by
  refine ⟨h.reports, fun hne => h.timer ?_⟩
  rw [h.record]
  exact List.append_ne_nil_of_right_ne_nil _ hne

theorem nodup_of_ordered {record : List RcvTime}
    (h : (ids record).Pairwise lessThanSimple) : record.Nodup := by
  have hne := h.imp fun {a b} (hab : lessThanSimple a b) (heq : a = b) =>
    lessThanSimple_irrefl b (heq ▸ hab)
  exact List.Nodup.of_map _ hne

/-- Nothing in an ordered record is ahead of its last entry. -/
theorem not_ahead_of_last {record : List RcvTime} {last : RcvTime}
    (h : (ids (record ++ [last])).Pairwise lessThanSimple) :
    ∀ rt ∈ record ++ [last], ¬ lessThanSimple last.id rt.id := by
  intro rt hrt
  rw [ids_append] at h
  rcases List.mem_append.mp hrt with hbefore | hlast
  · exact lessThanSimple_asymm ((List.pairwise_append.mp h).2.2 rt.id
      (List.mem_map_of_mem hbefore) last.id List.mem_cons_self)
  · rw [List.mem_singleton.mp hlast]
    exact lessThanSimple_irrefl _

/-- A harmless arrival goes to the end of the record, behind what is not reported yet. -/
theorem Inv.arrive {reported : List RcvTime} {s : FeedbackRun} (h : Inv reported s)
    {now : Time} {id : UInt16} {size : UInt32} {removed : ℕ → Bool}
    (hnext : lessThanSimple s.newest id) (hharmless : s.Harmless (.arrive now id size removed)) :
    ∃ reported' s', step s (.arrive now id size removed) = some s' ∧ Inv reported' s' := by
  obtain ⟨hstay, hahead⟩ := hharmless
  have hsub := h.record ▸ kept_sublist (rxTimeOf now) removed s.window
  obtain ⟨reported', hsub', hkept⟩ := Sweep.exists_append_of_sublist hsub
    (h.record ▸ nodup_of_ordered h.ordered) hstay
  have hrecord := record_onSocketRecv size hahead
  have hids : ids [arrival now id size] = [id] := congrArg (fun i => [i]) (id_arrival now id size)
  refine ⟨reported', _, rfl, ?_, ?_, ?_, ?_, ?_, ?_, h.reports⟩
  · rw [hrecord, hkept, List.append_assoc]
  · rw [hrecord, ids_append, hids]
    refine List.pairwise_append.mpr ⟨?_, List.pairwise_singleton _ _, ?_⟩
    · exact h.ordered.sublist ((kept_sublist _ _ _).map _)
    · rintro a ha b hb
      obtain ⟨rt, hrt, rfl⟩ := List.mem_map.mp ha
      exact List.mem_singleton.mp hb ▸ hahead rt hrt
  · rw [lastFeedback_onSocketRecv]
    exact fun rt hrt => h.reported_behind rt (hsub'.subset hrt)
  · rw [lastFeedback_onSocketRecv, ids_append, hids, ← List.cons_append]
    refine List.isChain_append.mpr ⟨h.unreported_ahead, .singleton _, ?_⟩
    intro a ha b hb
    rw [List.getLast?_cons, ← List.getLastD_eq_getLast?, ← h.newest] at ha
    obtain rfl := Option.some.inj ha
    obtain rfl := Option.some.inj hb
    exact hnext
  · rw [ids_append, hids, List.getLastD_concat]
  · exact fun _ => feedbackTimer_onSocketRecv h.timer

/-- A feedback reports what was not reported yet. -/
theorem Inv.feedback {reported : List RcvTime} {s : FeedbackRun} (h : Inv reported s)
    (htimer : s.window.feedbackTimer ≠ none) :
    ∃ reported' s', step s .feedback = some s' ∧ Inv reported' s' := by
  obtain ⟨now, hnow⟩ := Option.ne_none_iff_exists'.mp htimer
  obtain ⟨window, feedback, hfeedback, hhist, hrecord, hlast, htimer'⟩ :=
    feedbackNetState_spec now h.record h.ordered.isChain h.reported_behind h.unreported_ahead
  simp only [step, hnow, hfeedback, Option.bind_eq_bind, Option.bind_some]
  refine ⟨s.window.record, _, rfl, ?_, ?_, ?_, ?_, ?_, ?_, ?_⟩
  · rw [hrecord, List.append_nil]
  · rw [hrecord]
    exact h.ordered
  · rw [hlast, h.record]
    have hordered := h.record ▸ h.ordered
    rcases s.unreported.eq_nil_or_concat with hnil | ⟨unreported, last, hconcat⟩
    · simpa [hnil, ids] using h.reported_behind
    · rw [hconcat, List.concat_eq_append] at hordered ⊢
      rw [← List.append_assoc] at hordered ⊢
      rw [ids_append, show ids [last] = [last.id] from rfl, List.getLastD_concat]
      exact not_ahead_of_last hordered
  · exact .singleton _
  · exact h.newest.trans hlast.symm
  · exact fun _ => htimer'
  · simp only [h.reports, hhist]

theorem exists_step_of_inv {s : FeedbackRun} {e : Event} (hs : ∃ reported, Inv reported s)
    (hadmissible : s.Admissible e) (hharmless : s.Harmless e) :
    ∃ s', step s e = some s' ∧ ∃ reported, Inv reported s' := by
  obtain ⟨reported, hs⟩ := hs
  cases e with
  | arrive now id size removed =>
      obtain ⟨reported', s', hs', hinv⟩ := hs.arrive hadmissible.2.2 hharmless
      exact ⟨s', hs', reported', hinv⟩
  | feedback =>
      obtain ⟨reported', s', hs', hinv⟩ := hs.feedback hadmissible
      exact ⟨s', hs', reported', hinv⟩

/-- Along every run of admissible events that are harmless, no feedback fails, and every
feedback reports exactly the arrivals since the one before it. -/
theorem always_reported (wndsize : UInt32) (interval : UInt16) {events : List Event}
    (hadmissible : Run.Each step Admissible (init wndsize interval) events)
    (hharmless : Run.Each step Harmless (init wndsize interval) events) :
    (∃ s, Run.exec step (init wndsize interval) events = some s) ∧
      Run.Always step Reported (init wndsize interval) events := by
  have hboth := hadmissible.and hharmless
  have hinit : ∃ reported, Inv reported (init wndsize interval) := ⟨[], .init wndsize interval⟩
  refine ⟨?_, ?_⟩
  · obtain ⟨s, hs, -⟩ := hboth.exec (fun s e hs he => exists_step_of_inv hs he.1 he.2) hinit
    exact ⟨s, hs⟩
  · have hinv : Run.Always step (fun s => ∃ reported, Inv reported s)
        (init wndsize interval) events := by
      refine hboth.always (fun s e s' hs he hs' => ?_) hinit
      obtain ⟨s'', hs'', hinv⟩ := exists_step_of_inv hs he.1 he.2
      cases hs'.symm.trans hs''
      exact hinv
    exact hinv.mono fun s ⟨reported, hs⟩ => hs.toReported

/-- A feedback every 16 ms over a window of 34 ms: two packets are in one feedback. -/
theorem always_reported_twoPackets :
    (∃ s, Run.exec step (init 34000 16)
        [.arrive 2000000000 0 1000 fun _ => true, .arrive 2010000000 1 1000 fun _ => true,
          .feedback] = some s) ∧
      Run.Always step Reported (init 34000 16)
        [.arrive 2000000000 0 1000 fun _ => true, .arrive 2010000000 1 1000 fun _ => true,
          .feedback] :=
  always_reported 34000 16 (by decide) (by decide)

/-- A feedback every 50 ms over a window of 34 ms: the packet that arrives 40 ms before the
second one is erased before the feedback, and is in no report. -/
theorem firstPacket_not_reported :
    ∃ s, Run.exec step (init 34000 50)
        [.arrive 2000000000 0 1000 fun _ => true, .arrive 2040000000 1 1000 fun _ => true,
          .feedback] = some s ∧
      Run.Each step Admissible (init 34000 50)
        [.arrive 2000000000 0 1000 fun _ => true, .arrive 2040000000 1 1000 fun _ => true,
          .feedback] ∧
      s.due = [[⟨0, 2000000, 1000⟩, ⟨1, 2040000, 1000⟩]] ∧
      s.reports = [[⟨1, 2040000, 1000⟩]] :=
  ⟨_, rfl, by decide, rfl, rfl⟩

end FeedbackRun

end Zhuge
