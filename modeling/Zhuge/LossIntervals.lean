-- SUMMARY: The loss intervals of a controller are the last runs of acknowledged sequences.
import Zhuge.Lib.Floating
import Zhuge.Lib.MaximalRuns
import Zhuge.Lib.Means
import Zhuge.RecordedFeedback

/-!
# Loss intervals

Each recorded feedback lengthens the current interval by one, or starts a new one if sequences
were skipped; the last nine intervals are kept. The record starts over when a packet was sent too
long after the ones in the history.
-/

namespace Zhuge

namespace SenderBasedController

open Floating

/-! ## The average interval -/

section

variable (F : Type) [Floating F]

/-- The `weights` of `getLossIntervalInfo`. -/
def lossWeights : List F :=
  (List.range 8).map fun i =>
    if i < 8 / 2 then 1.0 else 2.0 * ofInt (8 - i : ℕ) / ofInt (8 + 2)

/-- `std::inner_product`. -/
def innerProduct {F : Type} [Floating F] (xs ys : List F) : F :=
  (xs.zip ys).foldl (fun sum p => sum + p.1 * p.2) 0.0

/-- The average interval and the current one. The outer `none` is the failing assertion, the inner
one that there was no loss yet. -/
def getLossIntervalInfo (c : SenderBasedController) : Option (Option (F × UInt16)) :=
  if ¬ c.ilState.initialized then some none
  else
    let intervals : List F := c.ilState.intervals.map fun i => ofInt i.toNat
    let k := intervals.length
    if ¬ (2 ≤ k ∧ k ≤ 9) then none
    else
      let iSum0 := innerProduct intervals.dropLast (lossWeights F)
      let iSum1 := innerProduct intervals.tail (lossWeights F)
      let wSum := ((lossWeights F).take (k - 1)).foldl (fun sum w => sum + w) 0.0
      let iMax := if iSum0 < iSum1 then iSum1 else iSum0
      c.ilState.intervals.head?.map fun current => some (iMax / wSum, current)

end

end SenderBasedController

/-! ## The record of acknowledged sequences -/

/-- A controller with the sequences of the packets that its loss intervals are about, the last one
first. -/
structure LossRecord where
  controller : SenderBasedController := {}
  acks : List UInt16 := []

namespace LossRecord

open SenderBasedController (lossWeights innerProduct)

/-- Nothing was recorded yet, or the last packet on record was sent too long ago. -/
def StartsOver (txTimestampUs : UInt64) (c : SenderBasedController) : Prop :=
  ∀ last ∈ c.packetHistory.getLast?,
    lessThan (last.txTimestampUs + maxInterPacketTimeUs) txTimestampUs

instance (txTimestampUs : UInt64) (c : SenderBasedController) :
    Decidable (StartsOver txTimestampUs c) :=
  inferInstanceAs (Decidable (∀ _ ∈ _, _))

/-- The sequences on record after a feedback that took the controller from `c` to `c'`. -/
def acksAfter (c c' : SenderBasedController) (acks : List UInt16) : List UInt16 :=
  if c'.recvHistory.length = c.recvHistory.length then acks
  else
    match c'.packetHistory.getLast? with
    | none => acks
    | some r => if StartsOver r.txTimestampUs c then [r.sequence] else r.sequence :: acks

def step (s : LossRecord) (e : SenderBasedController.Event) : Option LossRecord :=
  (s.controller.step e).map fun c =>
    { controller := c
      acks :=
        match e with
        | .call (.processFeedback ..) => acksAfter s.controller c s.acks
        | _ => s.acks }

/-- The packet `b` was acknowledged right before its successor `a`. -/
def consecutive (a b : UInt16) : Bool := a == b + 1

/-- The lengths of the runs of consecutive sequences. -/
def runs (acks : List UInt16) : List ℕ := MaximalRuns.lengths consecutive acks

/-- The lengths of the last nine runs, as 16-bit counters have them. -/
def intervals (acks : List UInt16) : List ℕ := ((runs acks).take 9).map (· % 65536)

/-- The weighted mean of the intervals, with the current one or without it, whichever is more. -/
def average (intervals : List ℚ) : ℚ :=
  let ws := (lossWeights ℚ).take (intervals.length - 1)
  max (Means.weighted ws intervals.dropLast) (Means.weighted ws intervals.tail)

/-! ## Intervals are runs -/

/-- The state that the record describes. -/
def ilStateOf (acks : List UInt16) : InterLossState where
  intervals := ((runs acks).take 9).map .ofNat
  expectedSeq := acks.head?.elim 0 (· + 1)
  initialized := 1 < (runs acks).length

theorem updateIntervals_fresh (sequence : UInt16) :
    SenderBasedController.updateIntervals sequence { expectedSeq := sequence } =
      some (ilStateOf [sequence]) := by
  simp [SenderBasedController.updateIntervals, ilStateOf, runs]

/-- A new interval in front of nine pushes out the last one. -/
theorem push_front (i : UInt16) (l : List UInt16) :
    (if 9 < (i :: l.take 9).length then (i :: l.take 9).dropLast else i :: l.take 9) =
      (i :: l).take 9 := by
  change (if 9 < ((i :: l).take 10).length then ((i :: l).take 10).dropLast
    else (i :: l).take 10) = _
  rw [List.length_take]
  split
  case isTrue hlong =>
    rw [List.dropLast_eq_take, List.length_take, List.take_take]
    congr 1
    omega
  case isFalse hshort =>
    rw [List.take_of_length_le (by omega), List.take_of_length_le (by omega)]

/-- A feedback in sequence lengthens the first run, any other one starts a run. -/
theorem updateIntervals_ilStateOf {sequence last : UInt16} {acks : List UInt16}
    {il : InterLossState}
    (h : SenderBasedController.updateIntervals sequence (ilStateOf (last :: acks)) = some il) :
    il = ilStateOf (sequence :: last :: acks) := by
  simp only [SenderBasedController.updateIntervals] at h
  have hexpected : (ilStateOf (last :: acks)).expectedSeq = last + 1 := rfl
  rw [hexpected] at h
  split at h
  case isTrue hseq =>
    have hrel : consecutive sequence last := beq_iff_eq.mpr hseq
    obtain ⟨n, ns, hruns, hruns'⟩ := MaximalRuns.lengths_cons_of_rel hrel acks
    simp only [ilStateOf, runs, hruns, hruns', List.take_succ_cons, List.map_cons] at h ⊢
    cases h
    simp [hseq]
  case isFalse hseq =>
    have hrel : consecutive sequence last = false := beq_eq_false_iff_ne.mpr hseq
    have hruns := MaximalRuns.lengths_cons_of_not hrel acks
    have hne : 0 < (MaximalRuns.lengths consecutive (last :: acks)).length :=
      List.length_pos_iff.mpr (mt (MaximalRuns.lengths_eq_nil _).mp (List.cons_ne_nil _ _))
    split at h
    case isFalse => cases h
    case isTrue =>
      have hpush : (if 9 < (1 :: (ilStateOf (last :: acks)).intervals).length then
          (1 :: (ilStateOf (last :: acks)).intervals).dropLast
          else 1 :: (ilStateOf (last :: acks)).intervals) =
            (ilStateOf (sequence :: last :: acks)).intervals := by
        simp only [ilStateOf, runs, hruns, List.map_take, List.map_cons]
        exact push_front 1 _
      have hinitialized : true = (ilStateOf (sequence :: last :: acks)).initialized := by
        simp [ilStateOf, runs, hruns, hne]
      cases h
      exact congrArg₂ (fun intervals initialized =>
        (⟨intervals, sequence + 1, initialized⟩ : InterLossState)) hpush hinitialized

/-! ## What a feedback does to the intervals -/

section Feedback

variable {nowUs rxTimestampUs : UInt64} {sequence : UInt16} {ok : Bool}
  {c c' : SenderBasedController}

/-- What a feedback that records `r` does to the intervals. -/
structure Records (r : PacketRecord) (c c' : SenderBasedController) : Prop where
  recorded : c'.packetHistory.getLast? = some r
  recvHistory : c'.recvHistory.length ≠ c.recvHistory.length
  ilState : SenderBasedController.updateIntervals r.sequence
    (if StartsOver r.txTimestampUs c then { expectedSeq := r.sequence } else c.ilState) =
      some c'.ilState

/-- The feedback leaves the intervals and the histories alone. -/
structure Passes (c c' : SenderBasedController) : Prop where
  packetHistory : c'.packetHistory = c.packetHistory
  recvHistory : c'.recvHistory = c.recvHistory
  ilState : c'.ilState = c.ilState

/-- Clearing empties the history of a packet that starts over. -/
theorem isEmpty_clearObsolete {packet : PacketRecord} {d : SenderBasedController}
    (h : c.clearObsolete packet = some d) :
    d.packetHistory.isEmpty ↔ StartsOver packet.txTimestampUs c := by
  simp only [SenderBasedController.clearObsolete] at h
  unfold StartsOver
  cases hlast : c.packetHistory.getLast? with
  | none =>
      rw [hlast] at h
      cases h
      rw [List.getLast?_eq_none_iff.mp hlast]
      simp
  | some last =>
      have hne : c.packetHistory ≠ [] := by
        rintro hnil
        rw [hnil] at hlast
        cases hlast
      rw [hlast] at h
      simp only [Option.mem_some_iff, forall_eq'] at h ⊢
      split_ifs at h with hless hold
      · cases h
        exact iff_of_true rfl hold
      · cases h
        exact iff_of_false (mt List.isEmpty_iff.mp hne) hold

theorem acknowledge_records {packet : PacketRecord}
    (h : c.acknowledge nowUs rxTimestampUs packet = some (ok, c')) :
    Passes c c' ∨ ∃ r, Records r c c' := by
  rcases SenderBasedController.acknowledge_cases h with rfl | ⟨-, -, -, hlast, hrecv, -⟩
  · exact .inl ⟨rfl, rfl, rfl⟩
  simp only [SenderBasedController.acknowledge] at h
  cases hclear : c.clearObsolete packet with
  | none =>
      rw [hclear] at h
      cases h
      exact .inl ⟨rfl, rfl, rfl⟩
  | some d =>
      have hempty := isEmpty_clearObsolete hclear
      obtain ⟨packetHistory, pktSizeSum, rfl⟩ := SenderBasedController.clearObsolete_frame hclear
      simp only [hclear] at h
      split at h
      case isTrue => cases h
      case isFalse =>
        obtain ⟨e, hbind, heq⟩ := Option.map_eq_some_iff.mp h
        obtain ⟨f, hloss, hrecord⟩ := Option.bind_eq_some_iff.mp hbind
        obtain ⟨il, hil, rfl⟩ := Option.map_eq_some_iff.mp hloss
        obtain ⟨⟨collected, sum⟩, -, rfl⟩ := Option.map_eq_some_iff.mp hrecord
        cases heq
        refine .inr ⟨_, hlast, ?_, ?_⟩
        · rw [hrecv, List.length_append]
          exact Nat.succ_ne_self _
        · change SenderBasedController.updateIntervals packet.sequence
            (if packetHistory.isEmpty then { expectedSeq := packet.sequence } else c.ilState) =
              some il at hil
          change packetHistory.isEmpty ↔ _ at hempty
          simp only [hempty] at hil
          exact hil

theorem processFeedback_records
    (h : c.processFeedback nowUs sequence rxTimestampUs = some (ok, c')) :
    Passes c c' ∨ ∃ r, Records r c c' := by
  simp only [SenderBasedController.processFeedback] at h
  split at h
  case isTrue =>
    cases h
    exact .inl ⟨rfl, rfl, rfl⟩
  case isFalse =>
    split at h
    case h_1 =>
      cases h
      exact .inl ⟨rfl, rfl, rfl⟩
    case h_2 =>
      split at h
      case isTrue => cases h
      case isFalse =>
        split at h
        case h_1 => cases h
        case h_2 packet rest _ =>
          split at h
          case isTrue =>
            cases h
            exact .inl ⟨rfl, rfl, rfl⟩
          case isFalse =>
            split at h
            case isTrue => cases h
            case isFalse =>
              -- the drop of stale packets touches neither the histories nor the intervals
              rcases acknowledge_records h with hpasses | ⟨r, hrecords⟩
              · exact .inl ⟨hpasses.packetHistory, hpasses.recvHistory, hpasses.ilState⟩
              · exact .inr ⟨r, hrecords.recorded, hrecords.recvHistory, hrecords.ilState⟩

end Feedback

/-! ## Runs -/

/-- The intervals are those of the sequences on record. -/
structure Kept (s : LossRecord) : Prop where
  fresh : s.acks = [] → s.controller.ilState = {} ∧ s.controller.packetHistory = []
  ilState : s.acks ≠ [] → s.controller.ilState = ilStateOf s.acks

theorem Kept.new : Kept {} where
  fresh _ := ⟨rfl, rfl⟩
  ilState h := absurd rfl h

theorem Kept.feedback {s : LossRecord} (h : s.Kept) {nowUs rxTimestampUs : UInt64}
    {sequence : UInt16} {ok : Bool} {c : SenderBasedController}
    (hstep : s.controller.processFeedback nowUs sequence rxTimestampUs = some (ok, c)) :
    Kept { controller := c, acks := acksAfter s.controller c s.acks } := by
  rcases processFeedback_records hstep with hpasses | ⟨r, hrecords⟩
  · have hacks : acksAfter s.controller c s.acks = s.acks := by
      rw [acksAfter, if_pos (congrArg List.length hpasses.recvHistory)]
    rw [hacks]
    refine ⟨fun hnil => ?_, fun hne => hpasses.ilState.trans (h.ilState hne)⟩
    obtain ⟨hstate, hhistory⟩ := h.fresh hnil
    exact ⟨hpasses.ilState.trans hstate, hpasses.packetHistory.trans hhistory⟩
  · have hacks : acksAfter s.controller c s.acks =
        if StartsOver r.txTimestampUs s.controller then [r.sequence] else r.sequence :: s.acks := by
      rw [acksAfter, if_neg hrecords.recvHistory, hrecords.recorded]
    have hstate := hrecords.ilState
    rw [hacks]
    split
    case isTrue hover =>
      rw [if_pos hover, updateIntervals_fresh] at hstate
      exact ⟨fun hnil => absurd hnil (List.cons_ne_nil _ _), fun _ => (Option.some.inj hstate).symm⟩
    case isFalse hgoes =>
      rw [if_neg hgoes] at hstate
      refine ⟨fun hnil => absurd hnil (List.cons_ne_nil _ _), fun _ => ?_⟩
      cases hold : s.acks with
      | nil =>
          -- without a record there is nothing in the history either
          have hempty := (h.fresh hold).2
          refine absurd (fun last hlast => ?_) hgoes
          rw [hempty] at hlast
          cases hlast
      | cons last acks =>
          rw [h.ilState (hold ▸ List.cons_ne_nil _ _), hold] at hstate
          exact updateIntervals_ilStateOf hstate

/-- What is not a feedback leaves the intervals and the history alone. -/
theorem Kept.other {s : LossRecord} (h : s.Kept) {c : SenderBasedController}
    (hil : c.ilState = s.controller.ilState)
    (hhistory : c.packetHistory = s.controller.packetHistory) :
    Kept { s with controller := c } where
  fresh hnil := ⟨hil.trans (h.fresh hnil).1, hhistory.trans (h.fresh hnil).2⟩
  ilState hne := hil.trans (h.ilState hne)

theorem Kept.step {s s' : LossRecord} (h : s.Kept) {e : SenderBasedController.Event}
    (he : e ≠ .reset) (hstep : s.step e = some s') : s'.Kept := by
  obtain ⟨c, hc, rfl⟩ := Option.map_eq_some_iff.mp hstep
  cases e with
  | call call =>
      obtain ⟨⟨answer, _⟩, hcall, rfl⟩ := Option.map_eq_some_iff.mp hc
      cases call with
      | processSendPacket txTimestampUs sequence size =>
          obtain ⟨⟨ok, _⟩, hsend, heq⟩ := Option.map_eq_some_iff.mp hcall
          cases heq
          simp only [SenderBasedController.processSendPacket] at hsend
          split at hsend
          · cases hsend
            exact h.other rfl rfl
          · obtain ⟨history, -, heq⟩ := Option.map_eq_some_iff.mp hsend
            cases heq
            exact h.other rfl rfl
      | processFeedback nowUs sequence rxTimestampUs =>
          obtain ⟨⟨ok, _⟩, hfeedback, heq⟩ := Option.map_eq_some_iff.mp hcall
          cases heq
          exact h.feedback hfeedback
      | getPacketTxTimestamp sequence =>
          cases hcall
          exact h.other rfl rfl
      | getPacketSize sequence =>
          cases hcall
          exact h.other rfl rfl
      | getCurrentQdelay =>
          cases hcall
          exact h.other rfl rfl
      | getPktLossInfo =>
          obtain ⟨info, -, heq⟩ := Option.map_eq_some_iff.mp hcall
          cases heq
          exact h.other rfl rfl
      | getCurrentRecvRate =>
          obtain ⟨⟨rate, _⟩, hrate, heq⟩ := Option.map_eq_some_iff.mp hcall
          cases heq
          obtain ⟨⟨rate, popped⟩, -, heq⟩ := Option.map_eq_some_iff.mp hrate
          cases heq
          exact h.other rfl rfl
  | updateLossRate lossQ8 =>
      cases hc
      exact h.other rfl rfl
  | prunTransitHistory tarSeq =>
      simp only [SenderBasedController.step, SenderBasedController.prunTransitHistory] at hc
      split at hc
      · cases hc
      · cases hc
        exact h.other rfl rfl
  | setHistoryLength lenUs =>
      cases hc
      exact h.other rfl rfl
  | reset => exact absurd rfl he

/-! ## The average, exactly -/

theorem lossWeights_rat : lossWeights ℚ = [1, 1, 1, 1, 4 / 5, 3 / 5, 2 / 5, 1 / 5] := by
  simp only [lossWeights, List.range, List.range.loop, List.map_cons, List.map_nil]
  norm_num [Floating.ofInt]

theorem pos_of_mem_lossWeights : ∀ w ∈ lossWeights ℚ, 0 < w := by
  simp only [lossWeights_rat, List.forall_mem_cons]
  norm_num

theorem innerProduct_eq (xs : List ℚ) {ws : List ℚ} (h : xs.length ≤ ws.length) :
    innerProduct xs ws = (List.zipWith (· * ·) (ws.take xs.length) xs).sum := by
  have hsum : ((xs.zip ws).map fun p => p.1 * p.2).sum =
      (List.zipWith (· * ·) (ws.take xs.length) xs).sum := by
    induction xs generalizing ws with
    | nil => simp
    | cons x xs ih =>
        cases ws with
        | nil => simp at h
        | cons w ws =>
            rw [List.zip_cons_cons, List.map_cons, List.sum_cons, List.length_cons,
              List.take_succ_cons, List.zipWith_cons_cons, List.sum_cons, mul_comm,
              ih (Nat.le_of_succ_le_succ h)]
  rw [innerProduct, Means.foldl_add_eq, hsum]
  norm_num

/-- The weights of two to nine intervals. -/
theorem weights_of_length {n : ℕ} (h : 2 ≤ n) (h' : n ≤ 9) :
    ((lossWeights ℚ).take (n - 1)).length = n - 1 ∧
      (∀ w ∈ (lossWeights ℚ).take (n - 1), 0 ≤ w) ∧ 0 < ((lossWeights ℚ).take (n - 1)).sum := by
  have hlength : (lossWeights ℚ).length = 8 := by rw [lossWeights_rat]; rfl
  have hpos : ∀ w ∈ (lossWeights ℚ).take (n - 1), 0 < w := fun w hw =>
    pos_of_mem_lossWeights w (List.mem_of_mem_take hw)
  have htake : ((lossWeights ℚ).take (n - 1)).length = n - 1 := by
    rw [List.length_take, hlength]
    omega
  refine ⟨htake, fun w hw => (hpos w hw).le, List.sum_pos _ hpos ?_⟩
  rintro hnil
  rw [hnil, List.length_nil] at htake
  omega

/-- The average as the function computes it. -/
theorem average_eq {xs : List ℚ} (h : 2 ≤ xs.length) (h' : xs.length ≤ 9) :
    (if innerProduct xs.dropLast (lossWeights ℚ) < innerProduct xs.tail (lossWeights ℚ) then
        innerProduct xs.tail (lossWeights ℚ) else innerProduct xs.dropLast (lossWeights ℚ)) /
      ((lossWeights ℚ).take (xs.length - 1)).foldl (fun sum w => sum + w) 0.0 = average xs := by
  obtain ⟨-, -, hpos⟩ := weights_of_length h h'
  have hlength : (lossWeights ℚ).length = 8 := by rw [lossWeights_rat]; rfl
  have hsum : ((lossWeights ℚ).take (xs.length - 1)).foldl (fun sum w => sum + w) 0.0 =
      ((lossWeights ℚ).take (xs.length - 1)).sum := by
    rw [Means.foldl_add_eq fun w : ℚ => w, List.map_id']
    norm_num
  rw [hsum, innerProduct_eq _ (by rw [List.length_dropLast]; omega),
    innerProduct_eq _ (by rw [List.length_tail]; omega), List.length_dropLast, List.length_tail,
    average, Means.weighted, Means.weighted, max_div_div_right hpos.le, max_def_lt]

theorem average_mem {xs : List ℚ} (h : 2 ≤ xs.length) (h' : xs.length ≤ 9) {lo hi : ℚ}
    (hxs : ∀ x ∈ xs, lo ≤ x ∧ x ≤ hi) : lo ≤ average xs ∧ average xs ≤ hi := by
  obtain ⟨hlength, hnonneg, hpos⟩ := weights_of_length h h'
  have hinit : ((lossWeights ℚ).take (xs.length - 1)).length = xs.dropLast.length := by
    rw [hlength, List.length_dropLast]
  have htail : ((lossWeights ℚ).take (xs.length - 1)).length = xs.tail.length := by
    rw [hlength, List.length_tail]
  constructor
  · exact (Means.le_weighted hinit hnonneg hpos fun x hx =>
      (hxs x (List.mem_of_mem_dropLast hx)).1).trans (le_max_left _ _)
  · exact max_le
      (Means.weighted_le hinit hnonneg hpos fun x hx => (hxs x (List.mem_of_mem_dropLast hx)).2)
      (Means.weighted_le htail hnonneg hpos fun x hx => (hxs x (List.mem_of_mem_tail hx)).2)

/-- A longer current interval does not lower the average. -/
theorem average_mono {x y : ℚ} (xs : List ℚ) (hxy : x ≤ y) :
    average (x :: xs) ≤ average (y :: xs) := by
  cases xs with
  | nil => exact le_rfl
  | cons z zs =>
      have hnonneg : ∀ w ∈ (lossWeights ℚ).take ((x :: z :: zs).length - 1), 0 ≤ w := fun w hw =>
        (pos_of_mem_lossWeights w (List.mem_of_mem_take hw)).le
      refine max_le_max (Means.weighted_mono hnonneg ?_) le_rfl
      exact .cons hxy (List.forall₂_same.mpr fun _ _ => le_rfl)

theorem length_intervals (acks : List UInt16) :
    (intervals acks).length = min 9 (runs acks).length := by
  rw [intervals, List.length_map, List.length_take]

theorem Kept.info {s : LossRecord} (h : s.Kept) :
    s.controller.getLossIntervalInfo ℚ =
      some (if (intervals s.acks).length ≤ 1 then none
        else some (average ((intervals s.acks).map (↑)), .ofNat ((intervals s.acks).headD 0))) := by
  have hlength := length_intervals s.acks
  by_cases hacks : s.acks = []
  · rw [hacks]
    rw [SenderBasedController.getLossIntervalInfo, (h.fresh hacks).1]
    rfl
  · have hstate := h.ilState hacks
    by_cases hfew : (runs s.acks).length ≤ 1
    · rw [if_pos (by omega), SenderBasedController.getLossIntervalInfo, hstate]
      simp [ilStateOf, hfew]
    · have hvalues : (s.controller.ilState.intervals.map fun i => (Floating.ofInt i.toNat : ℚ)) =
          (intervals s.acks).map (↑) := by
        rw [hstate, ilStateOf, intervals, List.map_map, List.map_map]
        refine List.map_congr_left fun n _ => ?_
        simp [Floating.ofInt]
      have hcurrent : s.controller.ilState.intervals.head? =
          some (.ofNat ((intervals s.acks).headD 0)) := by
        obtain ⟨n, ns, hruns⟩ := List.exists_cons_of_length_pos (l := runs s.acks) (by omega)
        simp only [hstate, ilStateOf, intervals, hruns, List.take_succ_cons, List.map_cons,
          List.head?_cons, List.headD_cons]
        exact congrArg some UInt16.ofNat_mod_size.symm
      have hlong : ¬ (intervals s.acks).length ≤ 1 := by omega
      have hinitialized : s.controller.ilState.initialized := by
        rw [hstate, ilStateOf, decide_eq_true_eq]
        omega
      have haverage : _ = average ((intervals s.acks).map (↑)) :=
        average_eq (by rw [List.length_map]; omega) (by rw [List.length_map]; omega)
      rw [List.length_map] at haverage
      rw [if_neg hlong]
      simp only [SenderBasedController.getLossIntervalInfo, hvalues, hinitialized, hcurrent,
        List.length_map, not_true, if_false, Option.map_some, haverage]
      rw [if_neg (by omega)]

/-- As long as the current interval goes on, and is not too long to be counted, the average does
not fall. -/
theorem average_le_of_append {acks : List UInt16} (more : List UInt16)
    (hloss : 1 < (runs acks).length)
    (hsame : (runs (more ++ acks)).length = (runs acks).length)
    (hcounted : (runs (more ++ acks)).headD 0 < 65536) :
    average ((intervals acks).map (↑)) ≤ average ((intervals (more ++ acks)).map (↑)) := by
  obtain ⟨n, ns, hruns⟩ := List.exists_cons_of_length_pos (l := runs acks) (by omega)
  obtain ⟨m, hgrown, hle⟩ := MaximalRuns.lengths_append more hruns
    (hsame.trans (congrArg List.length hruns))
  change runs (more ++ acks) = m :: ns at hgrown
  rw [hgrown, List.headD_cons] at hcounted
  simp only [intervals, hruns, hgrown, List.take_succ_cons, List.map_cons]
  rw [Nat.mod_eq_of_lt hcounted, Nat.mod_eq_of_lt (by omega)]
  exact average_mono _ (Nat.cast_le.mpr hle)

/-- Three packets of which the second is never acknowledged. -/
def oneLoss : List SenderBasedController.Event :=
  [.call (.processSendPacket 1000 7 100), .call (.processSendPacket 2000 8 100),
    .call (.processSendPacket 3000 9 100), .call (.processFeedback 41000 7 21000),
    .call (.processFeedback 43000 9 23000)]

end LossRecord

end Zhuge
