-- SUMMARY: Runs of a delta-delay history: how a sample is settled, and when its queues are exact age windows.
import Zhuge.Lib.Run
import Zhuge.Lib.Sweep
import Zhuge.DeltaDelay

/-!
# The history of delta delays

Deltas and tokens are queued in the order of their times, so the sweeps of their queues find
every entry that is too old. The queue of the last window is fed from three queues, one after
the other, and is swept from its front all the same.
-/

namespace Zhuge

namespace DeltaDelay

/-! ## Windows -/

def inWindow (now t : Time) : Bool := now - t ≤ historyLen

def inLastWindow (now t : Time) : Bool := historyLen < now - t ∧ now - t ≤ 2 * historyLen

/-- `m_lastwndPkt` as its sweep finds it. -/
def unsweptLastwndPkt (now : Time) (s : DeltaDelay) : TimedQueue :=
  s.lastwndPkt ++ s.historyDeltas.takeWhile (olderThan historyLen now)
    ++ s.historyTokens.takeWhile (olderThan historyLen now)
    ++ s.popTokens.takeWhile (olderThan historyLen now)

/-- The queues hold what was added in their windows. A token is known by its time, as its
value shrinks. -/
structure ExactWindows (now : Time) (added paid : TimedQueue) (s : DeltaDelay) : Prop where
  deltas : s.historyDeltas = added.filter fun e => inWindow now e.1
  tokens : (s.popTokens ++ s.historyTokens).map Prod.fst
    = (paid.map Prod.fst).filter (inWindow now)
  last : (s.lastwndPkt.map Prod.fst).Perm
    ((added.map Prod.fst ++ paid.map Prod.fst).filter (inLastWindow now))

/-- The same, but for entries in `m_lastwndPkt` that should have left it. -/
structure Windows (now : Time) (added paid : TimedQueue) (s : DeltaDelay) : Prop where
  deltas : s.historyDeltas = added.filter fun e => inWindow now e.1
  tokens : (s.popTokens ++ s.historyTokens).map Prod.fst
    = (paid.map Prod.fst).filter (inWindow now)
  last : ∀ t, now - t ≤ 2 * historyLen → (s.lastwndPkt.map Prod.fst).count t
    = if inWindow now t then 0 else (added.map Prod.fst ++ paid.map Prod.fst).count t

/-- Entries in the order of their times. -/
def Sorted (q : TimedQueue) : Prop := q.Pairwise fun a b => a.1 ≤ b.1

theorem Sorted.expiredFirst {q : TimedQueue} (h : Sorted q) (len now : Time) :
    Sweep.ExpiredFirst (olderThan len now) q :=
  Sweep.expiredFirst_of_sorted Prod.fst (fun a b hab hb => by
    simp only [olderThan, decide_eq_true_eq] at hb ⊢
    lia) h

theorem olderThan_historyLen (now : Time) (e : Time × Time) :
    olderThan historyLen now e = !inWindow now e.1 := by
  simp only [olderThan, inWindow, gt_iff_lt, ← not_le, decide_not]

theorem inWindow_mono {before now t : Time} (hnow : before ≤ now) (h : inWindow now t) :
    inWindow before t := by
  simp only [inWindow, decide_eq_true_eq] at h ⊢
  lia

/-- The filter at a later time goes further. -/
theorem filter_inWindow {before now : Time} (hnow : before ≤ now) (q : TimedQueue) :
    (q.filter fun e => inWindow before e.1).filter (fun e => inWindow now e.1)
      = q.filter fun e => inWindow now e.1 := by
  rw [List.filter_filter]
  apply List.filter_congr
  intro e _
  cases h : inWindow now e.1 with
  | false => rfl
  | true => simp [inWindow_mono hnow h]

theorem dropWhile_inWindow {q : TimedQueue} (h : Sorted q) (now : Time) :
    q.dropWhile (olderThan historyLen now) = q.filter fun e => inWindow now e.1 := by
  rw [Sweep.dropWhile_eq_filter_of_expiredFirst (h.expiredFirst _ _)]
  simp [olderThan_historyLen]

/-- What a sweep moves to the last window, by time. -/
theorem count_takeWhile {q : TimedQueue} (h : Sorted q) (now t : Time) :
    ((q.takeWhile (olderThan historyLen now)).map Prod.fst).count t
      = if inWindow now t then 0 else (q.map Prod.fst).count t := by
  have hout : olderThan historyLen now = fun e => !inWindow now e.1 :=
    funext (olderThan_historyLen now)
  rw [Sweep.takeWhile_eq_filter_of_expiredFirst (h.expiredFirst _ _), hout,
    Sweep.count_map_filter _ fun t => !inWindow now t]
  cases inWindow now t <;> rfl

theorem sorted_of_map_eq {q : TimedQueue} {times : List Time} (h : q.map Prod.fst = times)
    (hsorted : times.Pairwise (· ≤ ·)) : Sorted q :=
  List.pairwise_map.mp (h ▸ hsorted)

section ClearAged

variable {before now : Time} {added paid : TimedQueue} {s : DeltaDelay}

theorem Windows.sorted (h : Windows before added paid s) (hadded : Sorted added)
    (hpaid : Sorted paid) :
    Sorted s.historyDeltas ∧ Sorted s.popTokens ∧ Sorted s.historyTokens := by
  have hdeltas : Sorted s.historyDeltas := by
    rw [h.deltas]
    exact List.Pairwise.filter _ hadded
  have htokens : Sorted (s.popTokens ++ s.historyTokens) :=
    sorted_of_map_eq h.tokens (List.Pairwise.filter _ (List.pairwise_map.mpr hpaid))
  obtain ⟨hpop, hleft, -⟩ := List.pairwise_append.mp htokens
  exact ⟨hdeltas, hpop, hleft⟩

/-- Before its sweep, `m_lastwndPkt` has every entry of the last window once. -/
theorem Windows.count_unswept (hnow : before ≤ now) (h : Windows before added paid s)
    (hadded : Sorted added) (hpaid : Sorted paid) {t : Time} (ht : now - t ≤ 2 * historyLen) :
    ((s.unsweptLastwndPkt now).map Prod.fst).count t
      = if inWindow now t then 0 else (added.map Prod.fst ++ paid.map Prod.fst).count t := by
  obtain ⟨hdeltas, hpop, hleft⟩ := h.sorted hadded hpaid
  have hlast := h.last t (by lia)
  have hcount : (s.historyDeltas.map Prod.fst).count t + (s.historyTokens.map Prod.fst).count t
      + (s.popTokens.map Prod.fst).count t
      = if inWindow before t then (added.map Prod.fst ++ paid.map Prod.fst).count t else 0 := by
    have htokens := congrArg (List.count t) h.tokens
    have hfilter := Sweep.count_map_filter Prod.fst (inWindow before) t added
    have hfilter' := Sweep.count_map_filter id (inWindow before) t (paid.map Prod.fst)
    simp only [List.map_append, List.count_append, List.map_id, id_eq] at htokens hfilter' ⊢
    rw [h.deltas, hfilter]
    rw [hfilter'] at htokens
    split_ifs at htokens ⊢ <;> omega
  simp only [unsweptLastwndPkt, List.map_append, List.count_append, count_takeWhile hdeltas,
    count_takeWhile hpop, count_takeWhile hleft] at hcount hlast ⊢
  by_cases hin : inWindow now t
  · simp only [if_pos hin, if_pos (inWindow_mono hnow hin)] at hlast ⊢
    omega
  · simp only [if_neg hin]
    split_ifs at hlast hcount <;> omega

theorem Windows.clearAged (hnow : before ≤ now) (h : Windows before added paid s)
    (hadded : Sorted added) (hpaid : Sorted paid) :
    Windows now added paid (clearAged now s) := by
  obtain ⟨hdeltas, hpop, hleft⟩ := h.sorted hadded hpaid
  have hpaid' : ((paid.map Prod.fst).filter (inWindow before)).filter (inWindow now)
      = (paid.map Prod.fst).filter (inWindow now) := by
    rw [List.filter_filter]
    apply List.filter_congr
    intro t _
    cases hin : inWindow now t with
    | false => rfl
    | true => simp only [inWindow_mono hnow hin, Bool.and_self]
  refine { deltas := ?_, tokens := ?_, last := fun t ht => ?_ }
  · change s.historyDeltas.dropWhile (olderThan historyLen now) = _
    rw [dropWhile_inWindow hdeltas, h.deltas, filter_inWindow hnow]
  · change (s.popTokens.dropWhile (olderThan historyLen now)
      ++ s.historyTokens.dropWhile (olderThan historyLen now)).map Prod.fst = _
    rw [dropWhile_inWindow hpop, dropWhile_inWindow hleft, ← List.filter_append, ← hpaid',
      ← h.tokens, List.filter_map]
    rfl
  · change (((s.unsweptLastwndPkt now).dropWhile (olderThan (2 * historyLen) now)).map
      Prod.fst).count t = _
    rw [Sweep.count_dropWhile_of_neg, h.count_unswept hnow hadded hpaid ht]
    rintro e rfl
    simpa only [olderThan, decide_eq_true_eq, not_lt] using ht

/-- After the ageing the queues are the windows if and only if the entries to be swept from
`m_lastwndPkt` stand before the others. -/
theorem Windows.exact_iff (hnow : before ≤ now) (h : Windows before added paid s)
    (hadded : Sorted added) (hpaid : Sorted paid) :
    ExactWindows now added paid (DeltaDelay.clearAged now s) ↔
      Sweep.ExpiredFirst (olderThan (2 * historyLen) now) (s.unsweptLastwndPkt now) := by
  have haged := h.clearAged hnow hadded hpaid
  have hswept : (DeltaDelay.clearAged now s).lastwndPkt
      = (s.unsweptLastwndPkt now).dropWhile (olderThan (2 * historyLen) now) := rfl
  rw [← Sweep.forall_mem_dropWhile_iff, ← hswept]
  constructor
  · intro hexact e he hold
    have hmem : e.1 ∈ (added.map Prod.fst ++ paid.map Prod.fst).filter (inLastWindow now) :=
      hexact.last.subset (List.mem_map_of_mem he)
    have hin := (List.mem_filter.mp hmem).2
    simp only [inLastWindow, olderThan, decide_eq_true_eq] at hin hold
    lia
  · intro hall
    refine { haged with last := List.perm_iff_count.mpr fun t => ?_ }
    have hfilter := Sweep.count_map_filter id (inLastWindow now) t
      (added.map Prod.fst ++ paid.map Prod.fst)
    simp only [List.map_id, id_eq] at hfilter
    rw [hfilter]
    by_cases hage : now - t ≤ 2 * historyLen
    · rw [haged.last t hage]
      simp only [inLastWindow, inWindow, decide_eq_true_eq]
      split_ifs <;> first | rfl | lia
    · have hnone : ¬ inLastWindow now t := by
        simp only [inLastWindow, decide_eq_true_eq]
        exact fun hin => hage hin.2
      rw [if_neg hnone]
      apply List.count_eq_zero.mpr
      intro hmem
      obtain ⟨e, he, rfl⟩ := List.mem_map.mp hmem
      apply hall e he
      simpa only [olderThan, decide_eq_true_eq, gt_iff_lt, not_le] using hage

end ClearAged

/-! ## Settling a delay -/

/-- The sum of the values in a queue. -/
def total (q : TimedQueue) : Time := (q.map Prod.snd).sum

@[simp] theorem total_nil : total [] = 0 := rfl

@[simp] theorem total_cons (e : Time × Time) (q : TimedQueue) : total (e :: q) = e.2 + total q :=
  rfl

theorem total_nonneg {q : TimedQueue} (h : ∀ e ∈ q, 0 ≤ e.2) : 0 ≤ total q :=
  List.sum_nonneg fun v hv => by
    obtain ⟨e, he, rfl⟩ := List.mem_map.mp hv
    exact h e he

/-- Tokens are used up from the front, and the one after them pays what is left. -/
structure OldestFirst (delay : Time) (tokens : TimedQueue) (settled : TokenSettlement) :
    Prop where
  front : ∃ rest, tokens = settled.popped ++ rest ∧
    ((rest = [] ∧ settled.remaining = []) ∨ ∃ added taketoken younger,
      rest = (added, taketoken) :: younger ∧
      settled.remaining = (added, taketoken - (delay - total settled.popped)) :: younger)

theorem takeTokens_oldestFirst (delay : Time) (tokens : TimedQueue) :
    OldestFirst delay tokens (takeTokens delay tokens) := by
  induction tokens generalizing delay with
  | nil => exact ⟨[], rfl, .inl ⟨rfl, rfl⟩⟩
  | cons token tokens ih =>
      obtain ⟨added, taketoken⟩ := token
      unfold takeTokens
      split
      case isTrue hlt =>
        obtain ⟨rest, htokens, hrest⟩ := ih (delay - taketoken)
        refine ⟨rest, congrArg _ htokens, hrest.imp id ?_⟩
        rintro ⟨first, value, younger, hfront, hremaining⟩
        refine ⟨first, value, younger, hfront, ?_⟩
        rw [hremaining, total_cons, sub_sub]
      case isFalse hge =>
        exact ⟨(added, taketoken) :: tokens, rfl,
          .inr ⟨added, taketoken, tokens, rfl, by simp only [total_nil, sub_zero]⟩⟩

theorem takeTokens_times (delay : Time) (tokens : TimedQueue) :
    ((takeTokens delay tokens).popped ++ (takeTokens delay tokens).remaining).map Prod.fst
      = tokens.map Prod.fst := by
  obtain ⟨rest, htokens, ⟨hrest, hremaining⟩ | ⟨added, value, younger, hrest, hremaining⟩⟩ :=
    (takeTokens_oldestFirst delay tokens).front
  · conv_rhs => rw [htokens, hrest]
    rw [hremaining]
  · conv_rhs => rw [htokens, hrest]
    rw [hremaining, List.map_append, List.map_append, List.map_cons, List.map_cons]

/-- No token becomes a debt, also where the delay is negative. -/
theorem takeTokens_remaining_nonneg {delay : Time} {tokens : TimedQueue}
    (htokens : ∀ e ∈ tokens, 0 ≤ e.2) : ∀ e ∈ (takeTokens delay tokens).remaining, 0 ≤ e.2 := by
  induction tokens generalizing delay with
  | nil => exact fun e he => absurd he List.not_mem_nil
  | cons token tokens ih =>
      obtain ⟨added, taketoken⟩ := token
      have hrest : ∀ e ∈ tokens, 0 ≤ e.2 := fun e he => htokens e (List.mem_cons_of_mem _ he)
      unfold takeTokens
      split
      case isTrue hlt => exact ih hrest
      case isFalse hge =>
        intro e he
        rcases List.mem_cons.mp he with rfl | he
        · dsimp only; lia
        · exact hrest e he

/-- The tokens pay as much of the delay as they can. -/
theorem takeTokens_total {delay : Time} {tokens : TimedQueue} (hdelay : 0 ≤ delay)
    (htokens : ∀ e ∈ tokens, 0 ≤ e.2) :
    (takeTokens delay tokens).resDeltaDelay = delay - min delay (total tokens) ∧
      total (takeTokens delay tokens).remaining = total tokens - min delay (total tokens) := by
  induction tokens generalizing delay with
  | nil => simp [takeTokens, hdelay]
  | cons token tokens ih =>
      obtain ⟨added, taketoken⟩ := token
      have htoken : 0 ≤ taketoken := htokens _ List.mem_cons_self
      have hrest : ∀ e ∈ tokens, 0 ≤ e.2 := fun e he => htokens e (List.mem_cons_of_mem _ he)
      have hnonneg := total_nonneg hrest
      unfold takeTokens
      split
      case isTrue hlt =>
        obtain ⟨hres, hremaining⟩ := ih (by lia : 0 ≤ delay - taketoken) hrest
        simp only [total_cons]
        constructor <;> lia
      case isFalse hge =>
        simp only [total_cons]
        constructor <;> lia

/-- The queues after the token loop. -/
def settle (delay : Time) (s : DeltaDelay) : DeltaDelay :=
  { s with
    historyTokens := (takeTokens delay s.historyTokens).remaining
    popTokens := s.popTokens ++ (takeTokens delay s.historyTokens).popped }

section Windows

variable {now : Time} {added paid : TimedQueue} {s : DeltaDelay}

theorem inWindow_self (now : Time) : inWindow now now = true := by
  simp only [inWindow, sub_self]
  decide

theorem count_now {now t : Time} (h : ¬ inWindow now t) (v : Time) :
    ([(now, v)].map Prod.fst).count t = 0 :=
  List.count_eq_zero.mpr fun hmem => h (by
    rw [List.mem_singleton.mp hmem]
    exact inWindow_self now)

theorem Windows.addDelta (h : Windows now added paid s) (v : Time) :
    Windows now (added ++ [(now, v)]) paid
      { s with historyDeltas := s.historyDeltas ++ [(now, v)] } where
  deltas := by
    simp only [h.deltas, List.filter_append, List.filter_singleton, inWindow_self, cond_true]
  tokens := h.tokens
  last t ht := by
    rw [h.last t ht]
    split_ifs with hin
    · rfl
    · simp only [List.map_append, List.count_append, count_now hin, Nat.add_zero]

theorem Windows.addToken (h : Windows now added paid s) (v : Time) :
    Windows now added (paid ++ [(now, v)])
      { s with historyTokens := s.historyTokens ++ [(now, v)] } where
  deltas := h.deltas
  tokens := by
    rw [← List.append_assoc, List.map_append, h.tokens, List.map_append, List.filter_append,
      List.map_singleton, List.filter_singleton, inWindow_self, cond_true]
  last t ht := by
    rw [h.last t ht]
    split_ifs with hin
    · rfl
    · simp only [List.map_append, List.count_append, count_now hin, Nat.add_zero]

theorem Windows.settle (h : Windows now added paid s) (delay : Time) :
    Windows now added paid (s.settle delay) where
  deltas := h.deltas
  tokens := by
    have htimes := takeTokens_times delay s.historyTokens
    rw [List.map_append] at htimes
    rw [← h.tokens]
    simp only [DeltaDelay.settle, List.map_append, List.append_assoc, htimes]
  last := h.last

end Windows

/-- The delay to be settled. -/
def owed (sampledDeltaDelay minDeltaDelay : Time) : Time := max sampledDeltaDelay minDeltaDelay

theorem sampleDeltaDelay_of_some {mulTime : Binary64 → Time → Time} {now : Time} {pick : ℕ}
    {minDeltaDelay : Time} {s : DeltaDelay} {added sampled : Time}
    (hget : (clearAged now s).historyDeltas[pick % (clearAged now s).historyDeltas.length]?
      = some (added, sampled)) :
    ∃ r, r = scaleDelay mulTime ((clearAged now s).settle (owed sampled minDeltaDelay))
        (takeTokens (owed sampled minDeltaDelay) (clearAged now s).historyTokens).resDeltaDelay ∧
      sampleDeltaDelay mulTime now pick minDeltaDelay s
        = if r ≤ maxDelta then
            some (r, (clearAged now s).settle (owed sampled minDeltaDelay))
          else none := by
  have howed : (if sampled < minDeltaDelay then minDeltaDelay else sampled)
      = owed sampled minDeltaDelay := by
    rw [owed, max_def]
    split_ifs <;> lia
  refine ⟨_, rfl, ?_⟩
  simp only [sampleDeltaDelay, hget, howed]
  rfl

theorem sampleDeltaDelay_cases {mulTime : Binary64 → Time → Time} {now : Time} {pick : ℕ}
    {minDeltaDelay r : Time} {s s' : DeltaDelay}
    (h : sampleDeltaDelay mulTime now pick minDeltaDelay s = some (r, s')) :
    s' = clearAged now s ∨ ∃ delay, s' = (clearAged now s).settle delay := by
  cases hget : (clearAged now s).historyDeltas[pick % (clearAged now s).historyDeltas.length]? with
  | none =>
      simp only [sampleDeltaDelay, hget] at h
      cases h
      exact .inl rfl
  | some e =>
      obtain ⟨r', -, hsample⟩ := sampleDeltaDelay_of_some hget
      rw [hsample] at h
      split_ifs at h
      cases h
      exact .inr ⟨_, rfl⟩

/-! ## Calls -/

inductive Call
  | addDeltaDelay (deltaDelay : Time)
  | sampleDeltaDelay (pick : ℕ) (minDeltaDelay : Time)

def call (mulTime : Binary64 → Time → Time) (now : Time) (s : DeltaDelay) :
    Call → Option DeltaDelay
  | .addDeltaDelay deltaDelay => some (s.addDeltaDelay now deltaDelay)
  | .sampleDeltaDelay pick minDeltaDelay =>
    (s.sampleDeltaDelay mulTime now pick minDeltaDelay).map Prod.snd

/-- The deltas and the tokens that a call adds. -/
def Call.adds (now : Time) : Call → TimedQueue × TimedQueue
  | .addDeltaDelay deltaDelay =>
    if deltaDelay > Time.microSeconds (-1) then ([(now, min maxDelta deltaDelay)], [])
    else ([], [(now, min maxDelta (-1 * deltaDelay))])
  | .sampleDeltaDelay _ _ => ([], [])

end DeltaDelay

open DeltaDelay

/-- A `DeltaDelay`, the time of its last call, and the deltas and tokens ever added to it. -/
structure DeltaHistory where
  now : Time
  delay : DeltaDelay := .init
  deltas : TimedQueue := []
  tokens : TimedQueue := []

namespace DeltaHistory

variable {mulTime : Binary64 → Time → Time}

/-- A call at `now`. Time does not go back. -/
def step (mulTime : Binary64 → Time → Time) (h : DeltaHistory) : Time × Call → Option DeltaHistory
  | (now, call) =>
    if h.now ≤ now then
      (h.delay.call mulTime now call).map fun delay =>
        { now, delay
          deltas := h.deltas ++ (call.adds now).1
          tokens := h.tokens ++ (call.adds now).2 }
    else none

/-- What holds between calls. -/
structure Inv (h : DeltaHistory) : Prop where
  windows : Windows h.now h.deltas h.tokens h.delay
  deltas : Sorted h.deltas
  tokens : Sorted h.tokens
  past : ∀ e ∈ h.deltas ++ h.tokens, e.1 ≤ h.now
  debts : ∀ e ∈ h.delay.historyTokens, 0 ≤ e.2

theorem Inv.start (start : Time) : Inv { now := start } where
  windows := { deltas := rfl, tokens := rfl, last := fun t _ => by simp [DeltaDelay.init] }
  deltas := .nil
  tokens := .nil
  past e he := absurd he List.not_mem_nil
  debts e he := absurd he List.not_mem_nil

theorem Inv.clearAged {h : DeltaHistory} (hinv : h.Inv) {now : Time} (hnow : h.now ≤ now) :
    Windows now h.deltas h.tokens (h.delay.clearAged now) ∧
      ∀ e ∈ (h.delay.clearAged now).historyTokens, 0 ≤ e.2 :=
  ⟨hinv.windows.clearAged hnow hinv.deltas hinv.tokens,
    fun e he => hinv.debts e ((List.dropWhile_sublist _).subset he)⟩

theorem sorted_append {q : TimedQueue} {now v : Time} (hq : Sorted q) (hpast : ∀ e ∈ q, e.1 ≤ now) :
    Sorted (q ++ [(now, v)]) :=
  List.pairwise_append.mpr ⟨hq, List.pairwise_singleton .., fun e he f hf => by
    rw [List.mem_singleton.mp hf]
    exact hpast e he⟩

theorem Inv.call {h : DeltaHistory} (hinv : h.Inv) {now : Time} (hnow : h.now ≤ now) {c : Call}
    {delay : DeltaDelay} (hcall : h.delay.call mulTime now c = some delay) :
    Windows now (h.deltas ++ (c.adds now).1) (h.tokens ++ (c.adds now).2) delay ∧
      ∀ e ∈ delay.historyTokens, 0 ≤ e.2 := by
  obtain ⟨haged, hdebts⟩ := hinv.clearAged hnow
  cases c with
  | addDeltaDelay deltaDelay =>
      cases hcall
      simp only [Call.adds, DeltaDelay.addDeltaDelay]
      split
      case isTrue hpos =>
        rw [List.append_nil]
        exact ⟨haged.addDelta _, hdebts⟩
      case isFalse hneg =>
        rw [List.append_nil]
        refine ⟨haged.addToken _, fun e he => ?_⟩
        rcases List.mem_append.mp he with he | he
        · exact hdebts e he
        · rw [List.mem_singleton.mp he]
          simp only [Time.microSeconds] at hneg
          exact le_min (by decide) (by lia)
  | sampleDeltaDelay pick minDeltaDelay =>
      obtain ⟨⟨r, s'⟩, hsample, rfl⟩ := Option.map_eq_some_iff.mp hcall
      rw [Call.adds, List.append_nil, List.append_nil]
      obtain hcleared | ⟨delay, hsettled⟩ := sampleDeltaDelay_cases hsample
      · cases hcleared
        exact ⟨haged, hdebts⟩
      · cases hsettled
        exact ⟨haged.settle delay, takeTokens_remaining_nonneg hdebts⟩

/-- What a call adds is as late as the call, and in order. -/
theorem sorted_adds {q : TimedQueue} {now : Time} (hq : Sorted q) (hpast : ∀ e ∈ q, e.1 ≤ now)
    (c : Call) : Sorted (q ++ (c.adds now).1) ∧ Sorted (q ++ (c.adds now).2) := by
  cases c with
  | addDeltaDelay deltaDelay =>
      simp only [Call.adds]
      split
      · exact ⟨sorted_append hq hpast, by rwa [List.append_nil]⟩
      · exact ⟨by rwa [List.append_nil], sorted_append hq hpast⟩
  | sampleDeltaDelay pick minDeltaDelay =>
      simp only [Call.adds, List.append_nil, and_self]
      exact hq

theorem adds_time (now : Time) (c : Call) : ∀ e ∈ (c.adds now).1 ++ (c.adds now).2, e.1 = now := by
  cases c with
  | addDeltaDelay deltaDelay =>
      simp only [Call.adds]
      split <;> simp
  | sampleDeltaDelay pick minDeltaDelay => simp [Call.adds]

theorem Inv.step {h h' : DeltaHistory} {e : Time × Call} (hinv : h.Inv)
    (hstep : h.step mulTime e = some h') : h'.Inv := by
  obtain ⟨now, c⟩ := e
  simp only [DeltaHistory.step] at hstep
  split_ifs at hstep with hnow
  obtain ⟨delay, hcall, rfl⟩ := Option.map_eq_some_iff.mp hstep
  obtain ⟨hwindows, hdebts⟩ := hinv.call hnow hcall
  have hpast : ∀ e ∈ h.deltas ++ h.tokens, e.1 ≤ now := fun e he => (hinv.past e he).trans hnow
  refine {
    windows := hwindows
    deltas := (sorted_adds hinv.deltas (fun e he => hpast e (List.mem_append_left _ he)) c).1
    tokens := (sorted_adds hinv.tokens (fun e he => hpast e (List.mem_append_right _ he)) c).2
    past := fun e he => ?_
    debts := hdebts }
  have hadds := adds_time now c
  simp only [List.mem_append] at he hpast hadds
  rcases he with (he | he) | he | he
  · exact hpast e (.inl he)
  · exact (hadds e (.inl he)).le
  · exact hpast e (.inr he)
  · exact (hadds e (.inr he)).le

theorem reachable_inv {start : Time} {es : List (Time × Call)} {h : DeltaHistory}
    (hrun : Run.exec (step mulTime) { now := start } es = some h) : h.Inv :=
  Run.exec_invariant (fun _ _ _ => Inv.step) (.start start) hrun

/-! ## Samples -/

/-- How the token loop settles a delay against the tokens. -/
structure Settles (delay : Time) (tokens : TimedQueue) (settled : TokenSettlement) : Prop where
  oldestFirst : OldestFirst delay tokens settled
  nonneg : ∀ e ∈ settled.remaining, 0 ≤ e.2
  remaining : total settled.remaining = total tokens - min delay (total tokens)
  left : settled.resDeltaDelay = delay - min delay (total tokens)

/-- A sample is settled exactly, with the oldest tokens first. -/
theorem sampleDeltaDelay_settles (hmul : FractionOfTime mulTime) {start : Time}
    {es : List (Time × Call)} {h : DeltaHistory}
    (hrun : Run.exec (step mulTime) { now := start } es = some h) {now : Time}
    (hnow : h.now ≤ now) {pick : ℕ} {added sampled : Time}
    (hget : (h.delay.clearAged now).historyDeltas[pick
      % (h.delay.clearAged now).historyDeltas.length]? = some (added, sampled))
    {minDeltaDelay : Time} (hmin : 0 ≤ minDeltaDelay) :
    let aged := h.delay.clearAged now
    let delay := max sampled minDeltaDelay
    Sorted aged.historyTokens ∧
      Settles delay aged.historyTokens (takeTokens delay aged.historyTokens) ∧
      ∃ r, 0 ≤ r ∧ r ≤ delay - min delay (total aged.historyTokens) ∧
        h.delay.sampleDeltaDelay mulTime now pick minDeltaDelay
          = if r ≤ maxDelta then some (r, aged.settle delay) else none := by
  intro aged delay
  have hinv := reachable_inv hrun
  obtain ⟨hwindows, hdebts⟩ := hinv.clearAged hnow
  have hdelay : 0 ≤ delay := hmin.trans (le_max_right _ _)
  obtain ⟨hleft, hremaining⟩ := takeTokens_total hdelay hdebts
  obtain ⟨r, hr, hsample⟩ := sampleDeltaDelay_of_some hget
  obtain ⟨hlow, hhigh⟩ := scaleDelay_spec hmul (aged.settle delay)
    (takeTokens_spec hdelay hdebts).1
  refine ⟨(hwindows.sorted hinv.deltas hinv.tokens).2.2,
    ⟨takeTokens_oldestFirst _ _, takeTokens_remaining_nonneg hdebts, hremaining, hleft⟩,
    r, ?_, ?_, hsample⟩
  · rw [hr]
    exact hlow
  · rw [hr, ← hleft]
    exact hhigh

/-- A delta of 5 ms, then a token of 3 ms. -/
def deltaThenToken : List (Time × Call) :=
  [(0, .addDeltaDelay (Time.milliSeconds 5)),
    (Time.milliSeconds 1, .addDeltaDelay (Time.milliSeconds (-3)))]

theorem sampleDeltaDelay_settles_deltaThenToken :
    ∃ h, Run.exec (step floorMul) { now := 0 } deltaThenToken = some h ∧
      ∃ r s', 0 ≤ r ∧ r ≤ Time.milliSeconds 2 ∧
        h.delay.sampleDeltaDelay floorMul (Time.milliSeconds 2) 0 0 = some (r, s') := by
  have hfacts : (Run.exec (step floorMul) { now := 0 } deltaThenToken).map (fun h =>
      (h.now, (h.delay.clearAged (Time.milliSeconds 2)).historyDeltas,
        (h.delay.clearAged (Time.milliSeconds 2)).historyTokens))
      = some (1000000, [(0, 5000000)], [(1000000, 3000000)]) := by decide
  obtain ⟨h, hrun, hfacts⟩ := Option.map_eq_some_iff.mp hfacts
  simp only [Prod.mk.injEq] at hfacts
  obtain ⟨hnow, hdeltas, htokens⟩ := hfacts
  have hget : (h.delay.clearAged (Time.milliSeconds 2)).historyDeltas[0
      % (h.delay.clearAged (Time.milliSeconds 2)).historyDeltas.length]? = some (0, 5000000) := by
    rw [hdeltas]
    rfl
  obtain ⟨-, -, r, hlow, hhigh, hsample⟩ :=
    sampleDeltaDelay_settles .floorMul hrun (hnow.trans_le (by decide)) hget le_rfl
  rw [htokens] at hhigh
  have hle : r ≤ Time.milliSeconds 2 := hhigh
  exact ⟨h, hrun, r, _, hlow, hle,
    hsample.trans (if_pos (hle.trans (by decide)))⟩

/-! ## Exact windows -/

/-- The entries that a call at `now` should sweep from `m_lastwndPkt` stand before the others. -/
def SweptInOrder (h : DeltaHistory) (now : Time) : Prop :=
  Sweep.ExpiredFirst (olderThan (2 * historyLen) now) (h.delay.unsweptLastwndPkt now)

/-- The ageing of a call at `now` leaves exactly the windows. -/
def AgedExactly (h : DeltaHistory) (now : Time) : Prop :=
  ExactWindows now h.deltas h.tokens (h.delay.clearAged now)

theorem Inv.agedExactly_iff {h : DeltaHistory} (hinv : h.Inv) {now : Time} (hnow : h.now ≤ now) :
    h.AgedExactly now ↔ h.SweptInOrder now :=
  hinv.windows.exact_iff hnow hinv.deltas hinv.tokens

/-- All along a run the queues are exact age windows if and only if every call finds the
entries to be swept before the others. -/
theorem agedExactly_iff_sweptInOrder (mulTime : Binary64 → Time → Time) (start : Time)
    (es : List (Time × Call)) :
    Run.Each (step mulTime) (fun h e => h.now ≤ e.1 → h.AgedExactly e.1) { now := start } es
      ↔ Run.Each (step mulTime) (fun h e => h.now ≤ e.1 → h.SweptInOrder e.1)
        { now := start } es := by
  refine Run.each_iff (I := Inv) (fun _ _ _ => Inv.step) (fun h e hinv => ?_) (.start start) es
  exact forall_congr' fun hnow => hinv.agedExactly_iff hnow

/-- A token, a delta 10 ms later, and two calls: the delta moves to `m_lastwndPkt` first. -/
def overtaking : List (Time × Call) :=
  [(0, .addDeltaDelay (Time.milliSeconds (-5))),
    (Time.milliSeconds 10, .addDeltaDelay (Time.milliSeconds 5)),
    (Time.milliSeconds 55, .addDeltaDelay (Time.milliSeconds 5)),
    (Time.milliSeconds 85, .addDeltaDelay (Time.milliSeconds 5))]

/-- The token stays behind the delta when it is 85 ms old. -/
theorem overtaking_not_exact : ¬ ∀ es : List (Time × Call),
    Run.Each (step floorMul) (fun h e => h.now ≤ e.1 → h.AgedExactly e.1) { now := 0 } es := by
  intro hall
  obtain ⟨-, hrest⟩ := hall overtaking
  obtain ⟨-, hrest⟩ := hrest _ rfl
  obtain ⟨-, hrest⟩ := hrest _ rfl
  obtain ⟨hexact, -⟩ := hrest _ rfl
  exact absurd (hexact (by decide)).last.length_eq (by decide)

end DeltaHistory

end Zhuge
