-- SUMMARY: When Copa detects competing flows, from the round-trip times it has recorded, and where its arithmetic wraps.
import Zhuge.Lib.Extremes
import Zhuge.TcpCopa

/-!
# Detecting competing flows

`new_rtt_sample` keeps the round-trip times of the last ten seconds. `tcp_detected` compares the
smallest of the recent ones with a threshold between the minimum and the largest of them. Times
are whole microseconds here, as the code keeps them.
-/

namespace Zhuge

/-- What `new_rtt_sample` is told. -/
structure RttSample where
  rtt : Time
  rttMin : Time
  now : Time

/-- A time that is not negative. -/
def Time.Elapsed (t : Time) : Prop := 0 ≤ t ∧ t < 2 ^ 63

instance (t : Time) : Decidable t.Elapsed := inferInstanceAs (Decidable (_ ∧ _))

/-- An elapsed time in whole microseconds. -/
def Time.us (t : Time) : ℕ := t.getMicroSeconds.toNat

namespace Time

theorem us_le {t : Time} (h : t.Elapsed) : t.us ≤ 9223372036854775 := by
  obtain ⟨hnonneg, hlt⟩ := h
  rw [Time.us, Time.getMicroSeconds, Int.tdiv_eq_ediv_of_nonneg hnonneg, Int.toNat_le]
  apply Int.le_of_lt_add_one
  rw [Int.ediv_lt_iff_lt_mul (by decide)]
  exact hlt.trans_le (by norm_num)

theorem us_mono {t t' : Time} (h : t.Elapsed) (hle : t ≤ t') : t.us ≤ t'.us := by
  have hnonneg : 0 ≤ t := h.1
  have hnonneg' : 0 ≤ t' := hnonneg.trans hle
  rw [Time.us, Time.us, Time.getMicroSeconds, Time.getMicroSeconds,
    Int.tdiv_eq_ediv_of_nonneg hnonneg, Int.tdiv_eq_ediv_of_nonneg hnonneg']
  exact Int.toNat_le_toNat (Int.ediv_le_ediv (by decide) hle)

end Time

namespace RttSample

/-- Samples that are recorded one after the other. -/
structure Recordable (samples : List RttSample) : Prop where
  elapsed : ∀ x ∈ samples, x.now.Elapsed ∧ x.rtt.Elapsed
  sorted : samples.Pairwise fun x y => x.now ≤ y.now

/-! ## The rule -/

/-- The times and round-trip times that are recorded: those at most 10 s older than the
newest. -/
def history (samples : List RttSample) : List (ℕ × ℕ) :=
  (samples.map fun x => (x.now.us, x.rtt.us)).filter fun p =>
    ∀ newest ∈ samples.getLast?, newest.now.us ≤ p.1 + 10000000

/-- The round-trip times taken less than 10 `srtt` before the newest, and the newest itself. -/
def recent (srtt : Time) (samples : List RttSample) : Set ℕ :=
  {rtt | ∃ newest ∈ samples.getLast?, rtt = newest.rtt.us ∨
    ∃ time, (time, rtt) ∈ history samples ∧ newest.now.us < time + 10 * srtt.us}

/-- The smallest recent round-trip time is more than a tenth of the way to the largest, and
100 us, above the minimum. -/
def Competing (srtt rttMin : Time) (samples : List RttSample) : Prop :=
  ∃ least greatest, IsLeast (recent srtt samples) least ∧
    IsGreatest (recent srtt samples) greatest ∧
    rttMin.us + (greatest - rttMin.us) / 10 + 100 < least

theorem Recordable.times_sorted {samples : List RttSample} (h : Recordable samples) :
    (samples.map fun x => (x.now.us, x.rtt.us)).Pairwise fun p q => p.1 ≤ q.1 := by
  rw [List.pairwise_map]
  exact h.sorted.imp_of_mem fun hx _ hle => Time.us_mono (h.elapsed _ hx).1 hle

/-- The history gets a sample and loses what has become old. -/
theorem history_append {samples : List RttSample} {x : RttSample}
    (h : Recordable (samples ++ [x])) : history (samples ++ [x]) =
      (history samples ++ [(x.now.us, x.rtt.us)]).filter
        fun p => x.now.us ≤ p.1 + 10000000 := by
  have hnewest : ∀ newest ∈ samples.getLast?, newest.now.us ≤ x.now.us := by
    intro newest hmem
    have hin := List.mem_of_getLast? hmem
    refine Time.us_mono (h.elapsed newest (List.mem_append_left _ hin)).1 ?_
    exact (List.pairwise_append.mp h.sorted).2.2 newest hin x (List.mem_singleton_self x)
  simp only [history, List.getLast?_concat, Option.mem_some_iff, forall_eq', List.map_append,
    List.map_singleton, List.filter_append, List.filter_filter]
  congr 1
  refine List.filter_congr fun p hp => ?_
  rw [← Bool.decide_and, decide_eq_decide]
  exact ⟨fun hle => ⟨hle, fun newest hmem => (hnewest newest hmem).trans hle⟩, And.left⟩

end RttSample

namespace TcpCopa

open RttSample

variable {F : Type} {s : TcpCopa F}

/-- `new_rtt_sample` for one sample after the other. -/
def record (samples : List RttSample) (s : TcpCopa F) : TcpCopa F :=
  samples.foldl (fun s x => s.newRttSample x.rtt x.rttMin x.now) s

/-- The samples that `tcp_detected` looks at, when the newest is `back`. -/
def recentSamples (srtt : Time) (back : UInt64 × UInt64) (s : TcpCopa F) :
    List (UInt64 × UInt64) :=
  s.copaSamples.filter fun sample => sample.1 > back.1 - toUs srtt * 10

/-- `min1`. -/
def shortMin (srtt : Time) (back : UInt64 × UInt64) (s : TcpCopa F) : UInt64 :=
  (s.recentSamples srtt back).foldl (fun least sample => min least sample.2) 0xffffffffffffffff

/-- `max1`. -/
def shortMax (srtt : Time) (back : UInt64 × UInt64) (s : TcpCopa F) : UInt64 :=
  (s.recentSamples srtt back).foldl (fun most sample => max most sample.2) 0

/-- None of the subtractions in `tcp_detected` wraps. -/
def SubtractsExactly (srtt rttMin : Time) (s : TcpCopa F) : Prop :=
  ∀ back ∈ s.copaSamples.getLast?,
    toUs srtt * 10 ≤ back.1 ∧ toUs rttMin ≤ s.shortMax srtt back

theorem tcpDetected_eq {srtt rttMin : Time} {back : UInt64 × UInt64}
    (h : s.copaSamples.getLast? = some back) : s.tcpDetected srtt rttMin =
      decide (s.shortMin srtt back > toUs rttMin + (s.shortMax srtt back - toUs rttMin) / 10 +
        toUs (Time.microSeconds 100)) := by
  rw [tcpDetected, h]
  rfl

theorem toNat_toUs {t : Time} (h : t.Elapsed) : (toUs t).toNat = t.us := by
  have hle := Time.us_le h
  have hnonneg : 0 ≤ t.getMicroSeconds := by
    rw [Time.getMicroSeconds]
    exact Int.tdiv_nonneg h.1 (by decide)
  rw [Time.us] at hle ⊢
  rw [toUs, UInt64.ofInt, UInt64.toNat_ofNat']
  omega

/-! ## What is recorded -/

/-- A sample in microseconds. -/
def inUs (sample : UInt64 × UInt64) : ℕ × ℕ := (sample.1.toNat, sample.2.toNat)

theorem old_iff (nowUs time : UInt64) :
    (nowUs > copaMaxTime ∧ time < nowUs - copaMaxTime) ↔
      ¬ nowUs.toNat ≤ time.toNat + 10000000 := by
  have hmax : copaMaxTime.toNat = 10000000 := rfl
  rw [gt_iff_lt, UInt64.lt_iff_toNat_lt, hmax]
  constructor
  · rintro ⟨hlt, hold⟩
    have hle : copaMaxTime ≤ nowUs := by
      rw [UInt64.le_iff_toNat_le, hmax]
      exact hlt.le
    rw [UInt64.lt_iff_toNat_lt, UInt64.toNat_sub_of_le _ _ hle, hmax] at hold
    omega
  · intro h
    have hle : copaMaxTime ≤ nowUs := by
      rw [UInt64.le_iff_toNat_le, hmax]
      omega
    rw [UInt64.lt_iff_toNat_lt, UInt64.toNat_sub_of_le _ _ hle, hmax]
    omega

/-- The loop drops all old samples of a list that is sorted and ends with a new one. -/
theorem dropOld_eq_filter {nowUs : UInt64} {samples : List (UInt64 × UInt64)}
    (hsorted : samples.Pairwise fun x y => x.1.toNat ≤ y.1.toNat)
    (hlast : ∀ back ∈ samples.getLast?, nowUs.toNat ≤ back.1.toNat + 10000000) :
    dropOld nowUs samples = samples.filter fun x => nowUs.toNat ≤ x.1.toNat + 10000000 := by
  fun_induction dropOld nowUs samples with
  | case1 sample next samples hold ih =>
    rw [ih hsorted.of_cons hlast, eq_comm]
    exact List.filter_cons_of_neg (by simpa using (old_iff _ _).mp hold)
  | case2 sample next samples hnew =>
    have hfirst : nowUs.toNat ≤ sample.1.toNat + 10000000 := by
      simpa only [old_iff, not_not] using hnew
    rw [eq_comm, List.filter_eq_self]
    intro x hx
    rw [decide_eq_true_eq]
    rcases List.mem_cons.mp hx with rfl | hx
    · exact hfirst
    · exact hfirst.trans (Nat.add_le_add_right ((List.pairwise_cons.mp hsorted).1 x hx) _)
  | case3 samples hshort =>
    rcases samples with _ | ⟨sample, _ | ⟨next, samples⟩⟩
    · rfl
    · rw [List.filter_cons_of_pos (by simpa using hlast sample rfl), List.filter_nil]
    · exact absurd rfl (hshort sample next samples)

theorem copaSamples_newRttSample (rtt rttMin now : Time) (s : TcpCopa F) :
    (s.newRttSample rtt rttMin now).copaSamples =
      dropOld (toUs now) (s.copaSamples ++ [(toUs now, toUs rtt)]) := by
  simp only [newRttSample, clearOldHist, apply_ite TcpCopa.copaSamples, ite_self]

theorem record_append (samples : List RttSample) (x : RttSample) (s : TcpCopa F) :
    record (samples ++ [x]) s = (record samples s).newRttSample x.rtt x.rttMin x.now := by
  rw [record, List.foldl_append]
  rfl

/-- What is kept are the samples of the last ten seconds. -/
theorem map_copaSamples_record {samples : List RttSample} (h : Recordable samples)
    (hs : s.copaSamples = []) : ((record samples s).copaSamples).map inUs = history samples := by
  induction samples using List.reverseRecOn with
  | nil => rw [record, List.foldl_nil, hs, history, List.map_nil, List.map_nil, List.filter_nil]
  | append_singleton samples x ih =>
    have hheld := ih {
      elapsed := fun y hy => h.elapsed y (List.mem_append_left _ hy)
      sorted := (List.pairwise_append.mp h.sorted).1 }
    obtain ⟨hnow, hrtt⟩ := h.elapsed x (List.mem_append_right _ (List.mem_singleton_self x))
    have hnew : inUs (toUs x.now, toUs x.rtt) = (x.now.us, x.rtt.us) := by
      rw [inUs, toNat_toUs hnow, toNat_toUs hrtt]
    have hmap : ((record samples s).copaSamples ++ [(toUs x.now, toUs x.rtt)]).map inUs =
        history samples ++ [(x.now.us, x.rtt.us)] := by
      rw [List.map_append, hheld, List.map_singleton, hnew]
    have hsorted : ((record samples s).copaSamples ++ [(toUs x.now, toUs x.rtt)]).Pairwise
        fun x y => x.1.toNat ≤ y.1.toNat := by
      have htimes := h.times_sorted
      rw [List.map_append, List.map_singleton] at htimes
      have hsub : (history samples ++ [(x.now.us, x.rtt.us)]).Sublist
          ((samples.map fun x => (x.now.us, x.rtt.us)) ++ [(x.now.us, x.rtt.us)]) :=
        List.filter_sublist.append_right _
      have hheld' := htimes.sublist hsub
      rw [← hmap, List.pairwise_map] at hheld'
      exact hheld'
    rw [record_append, copaSamples_newRttSample, dropOld_eq_filter hsorted, history_append h,
      ← hmap, List.filter_map]
    · congr 2
      funext p
      simp only [Function.comp_apply, inUs, toNat_toUs hnow]
      rfl
    · intro back hback
      rw [List.getLast?_concat, Option.mem_some_iff] at hback
      rw [← hback]
      exact Nat.le_add_right _ _

theorem getLast?_dropOld (nowUs : UInt64) (samples : List (UInt64 × UInt64)) :
    (dropOld nowUs samples).getLast? = samples.getLast? := by
  fun_induction dropOld nowUs samples with
  | case1 sample next samples hold ih => rw [ih, List.getLast?_cons_cons]
  | case2 sample next samples hnew => rfl
  | case3 samples hshort => rfl

theorem getLast?_record {samples : List RttSample} {x : RttSample}
    (h : samples.getLast? = some x) :
    (record samples s).copaSamples.getLast? = some (toUs x.now, toUs x.rtt) := by
  obtain ⟨init, rfl⟩ := List.getLast?_eq_some_iff.mp h
  rw [record_append, copaSamples_newRttSample, getLast?_dropOld, List.getLast?_concat]

/-! ## What is looked at -/

theorem toNat_min (a b : UInt64) : (min a b).toNat = min a.toNat b.toNat := by
  change (if a ≤ b then a else b).toNat = _
  split
  case isTrue h => exact (min_eq_left (UInt64.le_iff_toNat_le.mp h)).symm
  case isFalse h => exact (min_eq_right (le_of_not_ge (mt UInt64.le_iff_toNat_le.mpr h))).symm

theorem toNat_max (a b : UInt64) : (max a b).toNat = max a.toNat b.toNat := by
  change (if a ≤ b then b else a).toNat = _
  split
  case isTrue h => exact (max_eq_right (UInt64.le_iff_toNat_le.mp h)).symm
  case isFalse h => exact (max_eq_left (le_of_not_ge (mt UInt64.le_iff_toNat_le.mpr h))).symm

theorem toNat_shortMin (srtt : Time) (back : UInt64 × UInt64) (s : TcpCopa F) :
    (s.shortMin srtt back).toNat =
      ((s.recentSamples srtt back).map (·.2.toNat)).foldl min (2 ^ 64 - 1) := by
  rw [List.foldl_map]
  exact (List.foldl_hom UInt64.toNat fun least sample => (toNat_min least sample.2).symm).symm

theorem toNat_shortMax (srtt : Time) (back : UInt64 × UInt64) (s : TcpCopa F) :
    (s.shortMax srtt back).toNat =
      ((s.recentSamples srtt back).map (·.2.toNat)).foldl max 0 := by
  rw [List.foldl_map]
  exact (List.foldl_hom UInt64.toNat fun most sample => (toNat_max most sample.2).symm).symm

theorem toNat_toUs_mul_ten {t : Time} (h : t.Elapsed) : (toUs t * 10).toNat = 10 * t.us := by
  have hle := Time.us_le h
  rw [UInt64.toNat_mul, toNat_toUs h, mul_comm]
  exact Nat.mod_eq_of_lt (by
    change 10 * t.us < 2 ^ 64
    omega)

/-- While the window does not reach before time zero, a sample is looked at exactly if it was
taken within the window. -/
theorem inWindow_iff {srtt now : Time} {time : UInt64} (hsrtt : srtt.Elapsed)
    (hnow : now.Elapsed) (hle : 10 * srtt.us ≤ now.us) :
    time > toUs now - toUs srtt * 10 ↔ now.us < time.toNat + 10 * srtt.us := by
  have hsub : toUs srtt * 10 ≤ toUs now := by
    rw [UInt64.le_iff_toNat_le, toNat_toUs_mul_ten hsrtt, toNat_toUs hnow]
    exact hle
  rw [gt_iff_lt, UInt64.lt_iff_toNat_lt, UInt64.toNat_sub_of_le _ _ hsub,
    toNat_toUs_mul_ten hsrtt, toNat_toUs hnow]
  omega

section

variable {samples : List RttSample} {x : RttSample} {srtt rttMin : Time}

/-- The newest sample is recorded. -/
theorem newest_mem_history (hx : samples.getLast? = some x) :
    (x.now.us, x.rtt.us) ∈ history samples := by
  refine List.mem_filter.mpr ⟨List.mem_map_of_mem (List.mem_of_getLast? hx), ?_⟩
  simp [hx]

theorem mem_recentSamples_iff (h : Recordable samples) (hs : s.copaSamples = [])
    (hx : samples.getLast? = some x) (hsrtt : srtt.Elapsed) (hle : 10 * srtt.us ≤ x.now.us)
    (rtt : ℕ) :
    rtt ∈ ((record samples s).recentSamples srtt (toUs x.now, toUs x.rtt)).map (·.2.toNat) ↔
      ∃ time, (time, rtt) ∈ history samples ∧ x.now.us < time + 10 * srtt.us := by
  have hnow := (h.elapsed x (List.mem_of_getLast? hx)).1
  rw [← map_copaSamples_record h hs]
  simp only [recentSamples, List.mem_map, List.mem_filter, decide_eq_true_eq,
    inWindow_iff hsrtt hnow hle]
  constructor
  · rintro ⟨sample, ⟨hmem, hwindow⟩, rfl⟩
    exact ⟨sample.1.toNat, ⟨sample, hmem, rfl⟩, hwindow⟩
  · rintro ⟨time, ⟨sample, hmem, heq⟩, hwindow⟩
    cases heq
    exact ⟨sample, ⟨hmem, hwindow⟩, rfl⟩

/-- While the window begins after time zero and is not empty, the recent samples are looked
at. -/
theorem recentSamples_eq_recent (h : Recordable samples) (hs : s.copaSamples = [])
    (hx : samples.getLast? = some x) (hsrtt : srtt.Elapsed) (hle : 10 * srtt.us ≤ x.now.us)
    (hpos : 0 < srtt.us) :
    {rtt | rtt ∈ ((record samples s).recentSamples srtt
      (toUs x.now, toUs x.rtt)).map (·.2.toNat)} = recent srtt samples := by
  ext rtt
  rw [Set.mem_ofPred_eq, mem_recentSamples_iff h hs hx hsrtt hle]
  simp only [recent, hx, Option.mem_some_iff, exists_eq_left', Set.mem_ofPred_eq]
  constructor
  · exact .inr
  · rintro (rfl | hwindow)
    · exact ⟨x.now.us, newest_mem_history hx, by omega⟩
    · exact hwindow

theorem time_le_newest (h : Recordable samples) (hx : samples.getLast? = some x) {p : ℕ × ℕ}
    (hp : p ∈ history samples) : p.1 ≤ x.now.us := by
  obtain ⟨y, hy, rfl⟩ := List.mem_map.mp (List.mem_filter.mp hp).1
  obtain ⟨init, rfl⟩ := List.getLast?_eq_some_iff.mp hx
  rcases List.mem_append.mp hy with hold | hnew
  · refine Time.us_mono (h.elapsed y hy).1 ?_
    exact (List.pairwise_append.mp h.sorted).2.2 y hold x (List.mem_singleton_self x)
  · rw [List.mem_singleton.mp hnew]

/-- Nothing is looked at in a window of length zero. -/
theorem recentSamples_eq_nil (h : Recordable samples) (hs : s.copaSamples = [])
    (hx : samples.getLast? = some x) (hsrtt : srtt.Elapsed) (hzero : srtt.us = 0) :
    (record samples s).recentSamples srtt (toUs x.now, toUs x.rtt) = [] := by
  rw [← List.map_eq_nil_iff (f := fun p : UInt64 × UInt64 => p.2.toNat),
    List.eq_nil_iff_forall_not_mem]
  intro rtt hrtt
  rw [mem_recentSamples_iff h hs hx hsrtt (by omega)] at hrtt
  obtain ⟨time, hmem, hwindow⟩ := hrtt
  have hle := time_le_newest h hx hmem
  omega

/-- `thresh`, where it is computed without wrapping. -/
theorem toNat_threshold {least greatest : UInt64} (hle : least ≤ greatest)
    (hgreatest : greatest.toNat ≤ 9223372036854775) :
    (least + (greatest - least) / 10 + toUs (Time.microSeconds 100)).toNat =
      least.toNat + (greatest.toNat - least.toNat) / 10 + 100 := by
  have hle' := UInt64.le_iff_toNat_le.mp hle
  have hten : (10 : UInt64).toNat = 10 := rfl
  have hhundred : (toUs (Time.microSeconds 100)).toNat = 100 := rfl
  rw [UInt64.toNat_add, UInt64.toNat_add, UInt64.toNat_div, UInt64.toNat_sub_of_le _ _ hle, hten,
    hhundred]
  omega

/-- The rule, from the extremes of what counts. -/
theorem competing_iff {least greatest : ℕ} (hleast : IsLeast (recent srtt samples) least)
    (hgreatest : IsGreatest (recent srtt samples) greatest) :
    Competing srtt rttMin samples ↔
      rttMin.us + (greatest - rttMin.us) / 10 + 100 < least := by
  constructor
  · rintro ⟨least', greatest', hleast', hgreatest', hlt⟩
    rwa [hleast.unique hleast', hgreatest.unique hgreatest']
  · exact fun hlt => ⟨least, greatest, hleast, hgreatest, hlt⟩

theorem exists_of_mem_recent {rtt : ℕ} (hmem : rtt ∈ recent srtt samples) :
    ∃ y ∈ samples, rtt = y.rtt.us := by
  obtain ⟨newest, hnewest, rfl | ⟨time, hmem, -⟩⟩ := hmem
  · exact ⟨newest, List.mem_of_getLast? hnewest, rfl⟩
  · obtain ⟨y, hy, heq⟩ := List.mem_map.mp (List.mem_filter.mp hmem).1
    exact ⟨y, hy, (congrArg Prod.snd heq).symm⟩

/-- The rule is followed while the window begins after time zero and is not empty. -/
theorem tcpDetected_of_window (h : Recordable samples) (hs : s.copaSamples = [])
    (hx : samples.getLast? = some x) (hsrtt : srtt.Elapsed) (hrttMin : rttMin.Elapsed)
    (hmin : ∀ p ∈ history samples, rttMin.us ≤ p.2) (hle : 10 * srtt.us ≤ x.now.us)
    (hpos : 0 < srtt.us) :
    ((record samples s).tcpDetected srtt rttMin = true ↔ Competing srtt rttMin samples) ∧
      (record samples s).SubtractsExactly srtt rttMin := by
  obtain ⟨hnow, hrtt⟩ := h.elapsed x (List.mem_of_getLast? hx)
  have hback := getLast?_record (s := s) hx
  have hset := recentSamples_eq_recent h hs hx hsrtt hle hpos
  have hnewest : x.rtt.us ∈ ((record samples s).recentSamples srtt
      (toUs x.now, toUs x.rtt)).map (·.2.toNat) := by
    rw [mem_recentSamples_iff h hs hx hsrtt hle]
    exact ⟨x.now.us, newest_mem_history hx, by omega⟩
  have hrttle := Time.us_le hrtt
  have hleast : IsLeast (recent srtt samples)
      ((record samples s).shortMin srtt (toUs x.now, toUs x.rtt)).toNat := by
    rw [toNat_shortMin, ← hset]
    exact Extremes.isLeast_foldl_min ⟨x.rtt.us, hnewest, by omega⟩
  have hgreatest : IsGreatest (recent srtt samples)
      ((record samples s).shortMax srtt (toUs x.now, toUs x.rtt)).toNat := by
    rw [toNat_shortMax, ← hset]
    exact Extremes.isGreatest_foldl_max ⟨x.rtt.us, hnewest, Nat.zero_le _⟩
  have hmax : ((record samples s).shortMax srtt (toUs x.now, toUs x.rtt)).toNat ≤
      9223372036854775 := by
    obtain ⟨y, hy, heq⟩ := exists_of_mem_recent hgreatest.1
    rw [heq]
    exact Time.us_le (h.elapsed y hy).2
  have hminle : toUs rttMin ≤ (record samples s).shortMax srtt (toUs x.now, toUs x.rtt) := by
    rw [UInt64.le_iff_toNat_le, toNat_toUs hrttMin]
    refine (hmin _ (newest_mem_history hx)).trans (hgreatest.2 ?_)
    exact ⟨x, hx, .inl rfl⟩
  constructor
  · rw [tcpDetected_eq hback, decide_eq_true_eq, gt_iff_lt, UInt64.lt_iff_toNat_lt,
      toNat_threshold hminle hmax, toNat_toUs hrttMin, competing_iff hleast hgreatest]
  · intro back hmem
    rw [hback, Option.mem_some_iff] at hmem
    rw [← hmem]
    refine ⟨?_, hminle⟩
    rw [UInt64.le_iff_toNat_le, toNat_toUs_mul_ten hsrtt, toNat_toUs hnow]
    exact hle

/-- In a window of length zero the newest sample counts but is not looked at: the threshold is
100 us, and what is compared with it the largest number of 64 bits. -/
theorem tcpDetected_of_zero (h : Recordable samples) (hs : s.copaSamples = [])
    (hx : samples.getLast? = some x) (hsrtt : srtt.Elapsed) (hrttMin : rttMin.Elapsed)
    (hzero : srtt.us = 0) :
    ((record samples s).tcpDetected srtt rttMin = true ↔ Competing srtt rttMin samples) ∧
      (record samples s).SubtractsExactly srtt rttMin ↔ rttMin.us = 0 ∧ 111 < x.rtt.us := by
  have hback := getLast?_record (s := s) hx
  have hnil := recentSamples_eq_nil h hs hx hsrtt hzero
  have hmin : (record samples s).shortMin srtt (toUs x.now, toUs x.rtt) = 0xffffffffffffffff := by
    rw [shortMin, hnil, List.foldl_nil]
  have hmax : (record samples s).shortMax srtt (toUs x.now, toUs x.rtt) = 0 := by
    rw [shortMax, hnil, List.foldl_nil]
  have hsub : (record samples s).SubtractsExactly srtt rttMin ↔ rttMin.us = 0 := by
    rw [SubtractsExactly, hback]
    simp only [Option.mem_some_iff, forall_eq', hmax, UInt64.le_iff_toNat_le,
      toNat_toUs_mul_ten hsrtt, toNat_toUs hrttMin, hzero, UInt64.toNat_zero]
    omega
  have hset : recent srtt samples = {x.rtt.us} := by
    ext rtt
    simp only [recent, hx, Option.mem_some_iff, exists_eq_left', Set.mem_ofPred_eq,
      Set.mem_singleton_iff]
    refine or_iff_left ?_
    rintro ⟨time, hmem, hwindow⟩
    have hle := time_le_newest h hx hmem
    omega
  have hcompeting : Competing srtt rttMin samples ↔
      rttMin.us + (x.rtt.us - rttMin.us) / 10 + 100 < x.rtt.us :=
    competing_iff (by rw [hset]; exact isLeast_singleton) (by rw [hset]; exact isGreatest_singleton)
  rw [hsub, and_comm, and_congr_right_iff]
  intro hrtt
  have hdetected : (record samples s).tcpDetected srtt rttMin = true := by
    have hus : toUs rttMin = 0 := UInt64.toNat_inj.mp ((toNat_toUs hrttMin).trans hrtt)
    rw [tcpDetected_eq hback, hmin, hmax, hus]
    decide
  rw [hcompeting, hrtt, iff_true_left hdetected]
  omega

/-- Ten `srtt` before the newest sample is not before time zero, and `srtt` is at least a
microsecond. With less than that the answer is right by chance only: when the minimum is 0 and the
newest round-trip time more than 111 us. -/
def ReachesBack (srtt rttMin : Time) (samples : List RttSample) : Prop :=
  ∀ newest ∈ samples.getLast?, 10 * srtt.us ≤ newest.now.us ∧
    (0 < srtt.us ∨ rttMin.us = 0 ∧ 111 < newest.rtt.us)

/-- Competing flows are detected by the rule, without wrapping, exactly if the window begins after
time zero and is not empty. -/
theorem tcpDetected_by_rule_iff (c : Config F) (h : Recordable samples) (hsrtt : srtt.Elapsed)
    (hrttMin : rttMin.Elapsed) (hmin : ∀ p ∈ history samples, rttMin.us ≤ p.2) :
    ((record samples (init c)).tcpDetected srtt rttMin = true ↔
        Competing srtt rttMin samples) ∧
      (record samples (init c)).SubtractsExactly srtt rttMin ↔
    ReachesBack srtt rttMin samples := by
  cases hx : samples.getLast? with
  | none =>
    cases List.getLast?_eq_none_iff.mp hx
    refine iff_of_true ⟨iff_of_false ?_ ?_, ?_⟩ ?_
    · exact Bool.false_ne_true
    · rintro ⟨least, greatest, ⟨hleast, -⟩, -⟩
      obtain ⟨y, hy, -⟩ := exists_of_mem_recent hleast
      exact absurd hy List.not_mem_nil
    · intro back hback
      cases hback
    · intro newest hnewest
      cases hnewest
  | some x =>
    have hnow := (h.elapsed x (List.mem_of_getLast? hx)).1
    simp only [ReachesBack, hx, Option.mem_some_iff, forall_eq']
    by_cases hle : 10 * srtt.us ≤ x.now.us
    · rw [and_iff_right hle]
      rcases Nat.eq_zero_or_pos srtt.us with hzero | hpos
      · rw [tcpDetected_of_zero h rfl hx hsrtt hrttMin hzero, hzero]
        exact (or_iff_right (lt_irrefl 0)).symm
      · exact iff_of_true (tcpDetected_of_window h rfl hx hsrtt hrttMin hmin hle hpos) (.inl hpos)
    · refine iff_of_false (fun hright => hle ?_) fun hright => hle hright.1
      have hexact := (hright.2 _ (getLast?_record hx)).1
      rwa [UInt64.le_iff_toNat_le, toNat_toUs_mul_ten hsrtt, toNat_toUs hnow] at hexact

end

/-- A path without queueing: a round trip of 50 ms, acknowledged at `now`. -/
def steadySample (now : Time) : RttSample := ⟨.milliSeconds 50, .milliSeconds 50, now⟩

/-- After a second the window of half a second has its samples. -/
theorem tcpDetected_by_rule_steady :
    ((record [steadySample (.milliSeconds 950), steadySample (.milliSeconds 1000)]
        (init .byDefault)).tcpDetected (.milliSeconds 50) (.milliSeconds 50) = true ↔
      Competing (.milliSeconds 50) (.milliSeconds 50)
        [steadySample (.milliSeconds 950), steadySample (.milliSeconds 1000)]) ∧
    (record [steadySample (.milliSeconds 950), steadySample (.milliSeconds 1000)]
      (init .byDefault)).SubtractsExactly (.milliSeconds 50) (.milliSeconds 50) := by
  refine (tcpDetected_by_rule_iff .byDefault ⟨?_, ?_⟩ (by decide) (by decide) ?_).mpr ?_
  · decide
  · decide
  · decide
  · exact fun newest hnewest => by cases hnewest; exact ⟨by decide, .inl (by decide)⟩

/-- At 50 ms the window would begin before time zero: nothing is looked at, and competing flows
are detected on a path that has no queue. -/
theorem tcpDetected_steady_early :
    Recordable [steadySample (.milliSeconds 50)] ∧
    (∀ p ∈ history [steadySample (.milliSeconds 50)], (Time.milliSeconds 50).us ≤ p.2) ∧
    (record [steadySample (.milliSeconds 50)] (init .byDefault)).tcpDetected
      (.milliSeconds 50) (.milliSeconds 50) = true ∧
    ¬ Competing (.milliSeconds 50) (.milliSeconds 50) [steadySample (.milliSeconds 50)] := by
  refine ⟨⟨by decide, List.pairwise_singleton _ _⟩, by decide, by decide, ?_⟩
  rintro ⟨least, greatest, ⟨hleast, -⟩, -, hlt⟩
  obtain ⟨y, hy, rfl⟩ := exists_of_mem_recent hleast
  rw [List.mem_singleton.mp hy] at hlt
  exact absurd hlt (not_lt.mpr ((Nat.le_add_right _ _).trans (Nat.le_add_right _ _)))

end TcpCopa

end Zhuge
