-- SUMMARY: When the loss sequence in a feedback spells which packets have arrived: the record ends in a run of two, and no gap in it crosses the wrap of the ids.
import Zhuge.ArrivalOrder
import Zhuge.Lib.RunLength

/-!
# The loss sequence

`Feedback_NetState` writes the record as runs of received and lost packets. A run of received
packets is entered when a gap ends it, or at the end of the record if the last packet continues
it: a last packet behind a gap is not entered. The losses are counted with the ids as numbers, so
that a gap over the wrap is counted 65536 off.
-/

namespace Zhuge.ReceiveWindow

open RunLength (expand Alternating patternFrom missingFrom)

/-! ## What the loop enters -/

/-- The runs that the loop enters over packets behind a run of `c` packets that ends at `p`. -/
def runs (p : UInt16) (c : ℕ) : List UInt16 → List ℤ
  | [] => []
  | i :: is =>
    if i = p + 1 then if is.isEmpty then [(c + 1 : ℕ)] else runs i (c + 1) is
    else (c : ℤ) :: -(((i - p).toNat - 1 : ℕ) : ℤ) :: runs i 1 is

/-- The losses that the loop counts, from ids as numbers. -/
def losses (p : UInt16) : List UInt16 → UInt32
  | [] => 0
  | i :: is => (if i = p + 1 then 0 else i.toUInt32 - p.toUInt32 - 1) + losses i is

/-- The length of a gap, as it is entered. -/
theorem toInt_one_sub {gap : UInt32} (hpos : 1 ≤ gap.toNat) (hgap : gap.toNat < 2 ^ 31) :
    (1 - gap).toInt32.toInt = -((gap.toNat - 1 : ℕ) : ℤ) := by
  rw [← Int32.toInt_toBitVec, UInt32.toBitVec_toInt32, BitVec.toInt_eq_toNat_bmod]
  simp only [UInt32.toNat_toBitVec, UInt32.toNat_sub, UInt32.reduceToNat, Int.bmod_def]
  omega

theorem toInt_add_one {consecutiveRecv : Int32} {c : ℕ} (h : consecutiveRecv.toInt = c)
    (hc : c + 1 < 2 ^ 31) : (consecutiveRecv + 1).toInt = ((c + 1 : ℕ) : ℤ) := by
  rw [Int32.toInt_add, h, Int32.toInt_one, Int.bmod_def]
  omega

/-- The distance of two ids as the loop computes it. -/
theorem gap_eq (p i : UInt16) :
    (i.toUInt32 - p.toUInt32 + 65536) % 65536 = (i - p).toUInt32 := by
  have hi := i.toNat_lt
  have hp := p.toNat_lt
  rw [← UInt32.toNat_inj]
  simp only [UInt32.toNat_mod, UInt32.toNat_add, UInt32.toNat_sub, UInt16.toNat_toUInt32,
    UInt16.toNat_sub, UInt32.reduceToNat]
  omega

theorem gap_eq_one_iff {p i : UInt16} : (i - p).toUInt32 = 1 ↔ i = p + 1 := by
  rw [← UInt32.toNat_inj, ← UInt16.toNat_inj, UInt16.toNat_toUInt32, UInt16.toNat_sub,
    UInt16.toNat_add]
  have hi := i.toNat_lt
  have hp := p.toNat_lt
  simp only [UInt32.reduceToNat, UInt16.reduceToNat]
  omega

/-- Reporting an arrival leaves the counts alone. -/
theorem Scan.sample_counts (rt : RcvTime) (scan : Scan) :
    (scan.sample rt).consecutiveRecv = scan.consecutiveRecv ∧
      (scan.sample rt).lossSeq = scan.lossSeq ∧
      (scan.sample rt).lossesInWnd = scan.lossesInWnd := by
  simp only [sample]
  split <;> exact ⟨rfl, rfl, rfl⟩

/-- The counts of a round, by the distance from the previous packet. -/
theorem Scan.round_counts {scan : Scan} {rt : RcvTime} (isLast : Bool) {p : UInt16}
    (hprev : scan.prevId = p.toUInt32) (hid : rt.pktId = rt.id.toUInt32) :
    (scan.round rt isLast).consecutiveRecv =
        (if rt.id = p + 1 then scan.consecutiveRecv + 1 else 1) ∧
      (scan.round rt isLast).lossSeq = scan.lossSeq ++
        (if rt.id = p + 1 then if isLast then [scan.consecutiveRecv + 1] else []
          else [scan.consecutiveRecv, (1 - (rt.id - p).toUInt32).toInt32]) ∧
      (scan.round rt isLast).lossesInWnd = scan.lossesInWnd +
        (if rt.id = p + 1 then 0 else rt.id.toUInt32 - p.toUInt32 - 1) := by
  simp only [round, setPrevId, sample_counts, countLosses, setFirst, hid, hprev, gap_eq,
    gap_eq_one_iff]
  split
  · cases isLast <;> simp
  · exact ⟨rfl, rfl, rfl⟩

/-- The loop over packets in order, behind a run of `c` packets that ends at `p`. -/
theorem Scan.loop_runs (scan : Scan) {p : UInt16} {c : ℕ} {record : List RcvTime}
    (hprev : scan.prevId = p.toUInt32) (hrun : scan.consecutiveRecv.toInt = c)
    (hids : ∀ rt ∈ record, rt.pktId = rt.id.toUInt32)
    (hordered : (p :: ids record).IsChain lessThanSimple) (hlength : c + record.length < 2 ^ 31) :
    ∃ scan' : Scan, scan.loop record = some scan' ∧
      scan'.lossSeq.map Int32.toInt = scan.lossSeq.map Int32.toInt ++ runs p c (ids record) ∧
      scan'.lossesInWnd = scan.lossesInWnd + losses p (ids record) := by
  induction record generalizing scan p c with
  | nil => exact ⟨scan, rfl, by simp [ids, runs], by simp [ids, losses]⟩
  | cons rt record ih =>
      obtain ⟨hid, hids'⟩ := List.forall_mem_cons.mp hids
      obtain ⟨hlt, hrest⟩ := List.isChain_cons_cons.mp hordered
      rw [List.length_cons] at hlength
      have hloop := loop_cons scan rt record fun _ => by
        rw [hprev, UInt16.toUInt16_toUInt32]
        exact hlt
      have hprev' : (scan.round rt record.isEmpty).prevId = rt.id.toUInt32 := by
        rw [(round_spec rt record.isEmpty scan).2.1, hid]
      obtain ⟨hcons, hseq, hlosses⟩ := round_counts record.isEmpty hprev hid
      by_cases hnext : rt.id = p + 1
      · -- the run goes on; it is pushed only if this is the last packet
        simp only [hnext, if_true] at hcons hseq hlosses
        have hrun' := toInt_add_one hrun (by omega)
        rw [← hcons] at hrun'
        obtain ⟨scan', hscan', hseq', hlosses'⟩ := ih (scan.round rt record.isEmpty) hprev'
          hrun' hids' hrest (by omega)
        refine ⟨scan', hloop.trans hscan', ?_, ?_⟩
        · rw [hcons] at hrun'
          rw [hseq', hseq]
          cases record with
          | nil => simp [ids, runs, hnext, hrun']
          | cons next record => simp [ids, runs, hnext]
        · simp only [hlosses', hlosses, ids, List.map_cons, losses, hnext, if_true,
            UInt32.zero_add, UInt32.add_zero]
      · -- a gap: the run and the gap are pushed, and a run of one packet starts
        simp only [hnext, if_false] at hcons hseq hlosses
        have hone : (scan.round rt record.isEmpty).consecutiveRecv.toInt = (1 : ℕ) :=
          hcons ▸ Int32.toInt_one
        obtain ⟨scan', hscan', hseq', hlosses'⟩ := ih (scan.round rt record.isEmpty) hprev'
          hone hids' hrest (by omega)
        have hgap : (1 - (rt.id - p).toUInt32).toInt32.toInt
            = -(((rt.id - p).toNat - 1 : ℕ) : ℤ) := by
          have hpos : 0 < (rt.id - p).toNat := (lessThan_iff_sequence.mp hlt).1
          have hsmall := (rt.id - p).toNat_lt
          rw [← UInt16.toNat_toUInt32] at hpos hsmall ⊢
          exact toInt_one_sub hpos (by omega)
        refine ⟨scan', hloop.trans hscan', ?_, ?_⟩
        · simp only [hseq', hseq, List.map_append, List.map_cons, List.map_nil, hrun, hgap, ids,
            runs, hnext, if_false, List.append_assoc, List.cons_append, List.nil_append]
        · simp only [hlosses', hlosses, ids, List.map_cons, losses, hnext, if_false,
            UInt32.add_assoc]

/-! ## What the runs spell -/

/-- The places of ids on the half of the circle from `base` on. -/
def places (base : UInt16) (is : List UInt16) : List ℕ := is.map fun i => (i - base).toNat

/-- The last two packets are consecutive. -/
def EndsInRun (is : List UInt16) : Prop :=
  ∀ last ∈ is.getLast?, ∀ before ∈ is.dropLast.getLast?, last = before + 1

/-- Where packets are missing, the ids go up as numbers. -/
def NoGapWraps (is : List UInt16) : Prop := is.IsChain fun a b => b = a + 1 ∨ a < b

instance (is : List UInt16) : Decidable (EndsInRun is) :=
  inferInstanceAs (Decidable (∀ _ ∈ is.getLast?, ∀ _ ∈ is.dropLast.getLast?, _))

instance (is : List UInt16) : Decidable (NoGapWraps is) :=
  inferInstanceAs (Decidable (is.IsChain _))

/-- The gaps that cross the wrap. -/
def wraps (p : UInt16) : List UInt16 → ℕ
  | [] => 0
  | i :: is => (if i = p + 1 ∨ p < i then 0 else 1) + wraps i is

theorem wraps_eq_zero_iff {p : UInt16} {is : List UInt16} :
    wraps p is = 0 ↔ NoGapWraps (p :: is) := by
  induction is generalizing p with
  | nil => simp [wraps, NoGapWraps]
  | cons i is ih =>
      rw [NoGapWraps, List.isChain_cons_cons, wraps, Nat.add_eq_zero_iff, ih, NoGapWraps]
      split <;> simp_all

section Half

variable {base p : UInt16} {is : List UInt16}

/-- The distance between two packets in order is that between their places. -/
theorem toNat_sub_eq_places {i : UInt16} (h : (p - base).toNat < (i - base).toNat) :
    (i - p).toNat = (i - base).toNat - (p - base).toNat := by
  simp only [UInt16.toNat_sub] at h ⊢
  have hi := i.toNat_lt
  have hp := p.toNat_lt
  have hbase := base.toNat_lt
  omega

theorem eq_add_one_iff_places {i : UInt16} (h : (p - base).toNat < (i - base).toNat) :
    i = p + 1 ↔ (i - base).toNat = (p - base).toNat + 1 := by
  rw [← gap_eq_one_iff, ← UInt32.toNat_inj, UInt16.toNat_toUInt32, toNat_sub_eq_places h]
  simp only [UInt32.reduceToNat]
  omega

/-- The signs alternate, whatever the gaps are. -/
theorem alternating_runs {c : ℕ} (hc : 0 < c)
    (hordered : (places base (p :: is)).Pairwise (· < ·)) : Alternating true (runs p c is) := by
  induction is generalizing p c with
  | nil => trivial
  | cons i is ih =>
      obtain ⟨hp, hrest⟩ := List.pairwise_cons.mp hordered
      have hlt : (p - base).toNat < (i - base).toNat := hp _ List.mem_cons_self
      rw [runs]
      split
      case isTrue =>
        split
        · exact ⟨by simp only [if_true]; omega, trivial⟩
        · exact ih (Nat.succ_pos c) hrest
      case isFalse hnext =>
        rw [eq_add_one_iff_places hlt] at hnext
        have hgap := toNat_sub_eq_places hlt
        refine ⟨by simp only [if_true]; omega, ?_, ih Nat.one_pos hrest⟩
        simp only [Bool.not_true, Bool.false_eq_true, if_false]
        omega

theorem endsInRun_pair {i : UInt16} : EndsInRun [p, i] ↔ i = p + 1 := by
  simp [EndsInRun]

theorem endsInRun_cons {i j : UInt16} :
    EndsInRun (p :: i :: j :: is) ↔ EndsInRun (i :: j :: is) := by
  simp [EndsInRun]

/-- The runs spell the pattern, up to a last packet that stands behind a gap. -/
theorem expand_runs {c : ℕ} (hc : 0 < c) (hne : is ≠ [])
    (hordered : (places base (p :: is)).Pairwise (· < ·)) :
    expand (runs p c is) ++ (if EndsInRun (p :: is) then [] else [true])
      = List.replicate c true ++ patternFrom (p - base).toNat (places base is) := by
  induction is generalizing p c with
  | nil => exact absurd rfl hne
  | cons i is ih =>
      obtain ⟨hp, hrest⟩ := List.pairwise_cons.mp hordered
      have hlt : (p - base).toNat < (i - base).toNat := hp _ List.mem_cons_self
      have hplaces : places base (i :: is) = (i - base).toNat :: places base is := rfl
      rw [hplaces, patternFrom]
      by_cases hnext : i = p + 1
      · -- no packet is missing, and the run grows by one
        have hgap : (i - base).toNat - (p - base).toNat - 1 = 0 := by
          rw [eq_add_one_iff_places hlt] at hnext
          omega
        rw [hgap, List.replicate_zero, List.nil_append, runs, if_pos hnext]
        cases is with
        | nil =>
            rw [if_pos (endsInRun_pair.mpr hnext), List.isEmpty_nil, if_pos rfl, List.append_nil,
              RunLength.expand_cons, RunLength.bits_natCast (Nat.succ_pos c),
              List.replicate_succ', List.append_assoc]
            rfl
        | cons j is =>
            have hspelled := ih (Nat.succ_pos c) (List.cons_ne_nil j is) hrest
            rw [List.replicate_succ', List.append_assoc] at hspelled
            simp only [endsInRun_cons]
            exact hspelled
      · -- the run and the gap are spelled out; the rest starts over with a run of one
        rw [runs, if_neg hnext, RunLength.expand_cons, RunLength.expand_cons,
          RunLength.bits_natCast hc, RunLength.bits_neg_natCast, toNat_sub_eq_places hlt,
          List.append_assoc, List.append_assoc]
        congr 2
        cases is with
        | nil => simp [runs, endsInRun_pair, hnext, places, patternFrom]
        | cons j is =>
            simp only [endsInRun_cons]
            exact ih Nat.one_pos (List.cons_ne_nil j is) hrest

/-- A gap is counted right if it goes up as numbers, and else 65536 too low. -/
theorem toNat_toUInt32_sub {i : UInt16} (hne : i ≠ p) :
    i.toUInt32 - p.toUInt32 - 1 + 65536 * .ofNat (if p < i then 0 else 1)
      = .ofNat ((i - p).toNat - 1) := by
  have hi := i.toNat_lt
  have hp := p.toNat_lt
  rw [ne_eq, ← UInt16.toNat_inj] at hne
  rw [← UInt32.toNat_inj]
  simp only [UInt16.lt_iff_toNat_lt]
  split <;>
    simp only [UInt32.toNat_add, UInt32.toNat_sub, UInt32.toNat_mul, UInt16.toNat_toUInt32,
      UInt32.toNat_ofNat', UInt16.toNat_sub, UInt32.reduceToNat] <;> omega

/-- The losses counted are those of the pattern, and 65536 less for each gap that wraps. -/
theorem losses_add_wraps (hordered : (places base (p :: is)).Pairwise (· < ·)) :
    losses p is + 65536 * .ofNat (wraps p is)
      = .ofNat (missingFrom (p - base).toNat (places base is)) := by
  induction is generalizing p with
  | nil => rfl
  | cons i is ih =>
      obtain ⟨hp, hrest⟩ := List.pairwise_cons.mp hordered
      have hlt : (p - base).toNat < (i - base).toNat := hp _ List.mem_cons_self
      have hplaces : places base (i :: is) = (i - base).toNat :: places base is := rfl
      rw [hplaces, missingFrom, losses, wraps, UInt32.ofNat_add, UInt32.ofNat_add, ← ih hrest,
        ← toNat_sub_eq_places hlt]
      have hstep : (if i = p + 1 then 0 else i.toUInt32 - p.toUInt32 - 1)
          + 65536 * .ofNat (if i = p + 1 ∨ p < i then 0 else 1) = .ofNat ((i - p).toNat - 1) := by
        by_cases hnext : i = p + 1
        · have hgap : (i - p).toNat - 1 = 0 := by
            rw [eq_add_one_iff_places hlt] at hnext
            rw [toNat_sub_eq_places hlt]
            omega
          rw [if_pos hnext, if_pos (.inl hnext), hgap]
          rfl
        · have hne : i ≠ p := by
            rintro rfl
            exact lt_irrefl _ hlt
          simp only [hnext, if_false, false_or]
          exact toNat_toUInt32_sub hne
      rw [← hstep, UInt32.mul_add]
      ac_rfl

theorem wraps_le_missing (hordered : (places base (p :: is)).Pairwise (· < ·)) :
    wraps p is ≤ missingFrom (p - base).toNat (places base is) := by
  induction is generalizing p with
  | nil => exact Nat.zero_le _
  | cons i is ih =>
      obtain ⟨hp, hrest⟩ := List.pairwise_cons.mp hordered
      have hlt : (p - base).toNat < (i - base).toNat := hp _ List.mem_cons_self
      have hplaces : places base (i :: is) = (i - base).toNat :: places base is := rfl
      have hle := ih hrest
      rw [hplaces, missingFrom, wraps]
      simp only [eq_add_one_iff_places hlt]
      split <;> omega

end Half

/-! ## The feedback -/

/-- Which of the packets from the first id to the last have arrived. -/
def received (is : List UInt16) : List Bool :=
  let first := is.headD 0
  let last := is.getLastD 0
  (List.range ((last - first).toNat + 1)).map fun k => decide (first + .ofNat k ∈ is)

/-- The loss sequence spells which packets have arrived, and its sums are those of the window. -/
structure Faithful (s : ReceiveWindow) (feedback : NetFeedback) : Prop where
  alternating : Alternating true (feedback.lossSeq.map Int32.toInt)
  spells : expand (feedback.lossSeq.map Int32.toInt) = received (ids s.record)
  total : ((feedback.lossSeq.map Int32.toInt).map Int.natAbs).sum = s.pktsInWnd.toNat
  positive : ((feedback.lossSeq.map Int32.toInt).filter (0 < ·)).sum = s.record.length
  negative : ((feedback.lossSeq.map Int32.toInt).filter (· < 0)).sum = -s.lossesInWnd.toNat
  rate : feedback.lossRate = (s.lossesInWnd, s.pktsInWnd) ∧
    s.lossesInWnd.toNat < s.pktsInWnd.toNat

/-- Ids in order lie on the half of the circle from the first one on. -/
theorem pairwise_places {p : UInt16} {is : List UInt16} (h : (p :: is).Pairwise lessThanSimple) :
    (places p (p :: is)).Pairwise (· < ·) ∧ ∀ i ∈ p :: is, (i - p).toNat < 32768 := by
  obtain ⟨hp, hrest⟩ := List.pairwise_cons.mp h
  have hhalf : ∀ i ∈ p :: is, (i - p).toNat < 32768 := by
    refine List.forall_mem_cons.mpr ⟨by simp, fun i hi => ?_⟩
    exact (lessThan_iff_sequence.mp (hp i hi)).2
  refine ⟨List.pairwise_map.mpr ?_, hhalf⟩
  exact h.imp_of_mem fun ha hb hlt => (lessThanSimple_iff_sub (hhalf _ ha) (hhalf _ hb)).mp hlt

theorem places_self (p : UInt16) (is : List UInt16) : places p (p :: is) = 0 :: places p is := by
  simp [places]

/-- From the first id to the last, packets are missing or have arrived. -/
theorem missing_add_length {p : UInt16} {is : List UInt16} (h : (p :: is).Pairwise lessThanSimple) :
    missingFrom 0 (places p is) + is.length = (is.getLastD p - p).toNat := by
  have hplaces := (pairwise_places h).1
  rw [places_self] at hplaces
  have hlast : (places p is).getLastD (p - p).toNat = (is.getLastD p - p).toNat :=
    List.getLastD_map
  rw [UInt16.sub_self] at hlast
  have hcount := RunLength.missingFrom_add_length hplaces
  rw [Nat.zero_add, places, List.length_map] at hcount
  exact hcount.trans hlast

theorem toNat_add_ofNat_sub (p : UInt16) {k : ℕ} (hk : k < 32768) :
    (p + .ofNat k - p).toNat = k := by
  rw [UInt16.add_comm, UInt16.add_sub_cancel]
  exact UInt16.toNat_ofNat_of_lt' (hk.trans (by decide))

/-- A place on the half is that of one packet. -/
theorem mem_places_iff {p : UInt16} {is : List UInt16} {k : ℕ} (hk : k < 32768) :
    k ∈ places p is ↔ p + .ofNat k ∈ is := by
  rw [places, List.mem_map]
  constructor
  · rintro ⟨i, hi, rfl⟩
    rwa [UInt16.ofNat_toNat, UInt16.add_comm, UInt16.sub_add_cancel]
  · intro hmem
    exact ⟨_, hmem, toNat_add_ofNat_sub p hk⟩

/-- The pattern by places. -/
theorem received_eq {p : UInt16} {is : List UInt16} (h : (p :: is).Pairwise lessThanSimple) :
    received (p :: is) = true :: patternFrom 0 (places p is) := by
  obtain ⟨hplaces, hhalf⟩ := pairwise_places h
  rw [places_self] at hplaces
  have hcount := missing_add_length h
  have hlast := hhalf _ (List.getLastD_mem_cons (l := is) (a := p))
  have hlength : missingFrom 0 (places p is) + (places p is).length
      = (is.getLastD p - p).toNat := by
    rw [places, List.length_map]
    exact hcount
  have hrange : List.range ((is.getLastD p - p).toNat + 1)
      = 0 :: List.range' 1 (is.getLastD p - p).toNat := by
    rw [List.range_eq_range', List.range'_succ]
  rw [received, List.headD_cons, List.getLastD_cons, RunLength.patternFrom_eq hplaces, hlength,
    hrange, List.map_cons]
  congr 1
  · simp
  · refine List.map_congr_left fun k hk => decide_eq_decide.mpr ?_
    obtain ⟨hpos, hle⟩ := List.mem_range'_1.mp hk
    have hne : p + .ofNat k ≠ p := by
      intro heq
      have hplace := toNat_add_ofNat_sub p (k := k) (by omega)
      rw [heq, UInt16.sub_self, UInt16.toNat_zero] at hplace
      omega
    rw [mem_places_iff (by omega), List.mem_cons, or_iff_right hne]

/-- The losses are counted right if and only if no gap wraps. -/
theorem toNat_losses_eq_iff {p : UInt16} {is : List UInt16}
    (h : (p :: is).Pairwise lessThanSimple) :
    (losses p is).toNat = missingFrom 0 (places p is) ↔ NoGapWraps (p :: is) := by
  have hplaces := (pairwise_places h).1
  have hle := wraps_le_missing hplaces
  have hsum := congrArg UInt32.toNat (losses_add_wraps hplaces)
  rw [UInt16.sub_self] at hle hsum
  have hcount := missing_add_length h
  have hlast := (is.getLastD p - p).toNat_lt
  simp only [UInt32.toNat_add, UInt32.toNat_mul, UInt32.toNat_ofNat', UInt32.reduceToNat] at hsum
  have hlosses := (losses p is).toNat_lt
  rw [← wraps_eq_zero_iff]
  simp only [UInt16.toNat_zero] at hle hsum
  omega

/-- The first round enters nothing. -/
theorem Scan.round_first (front : RcvTime) (lastFeedback : UInt16) (record : List RcvTime) :
    let scan := (start lastFeedback (front :: record)).round front false
    scan.consecutiveRecv = 1 ∧ scan.lossSeq = [] ∧ scan.lossesInWnd = 0 := by
  have hgap : (front.pktId - (front.pktId - 1) + 65536) % 65536 = 1 := by
    have hid := front.pktId.toNat_lt
    rw [← UInt32.toNat_inj]
    simp only [UInt32.toNat_mod, UInt32.toNat_add, UInt32.toNat_sub, UInt32.reduceToNat]
    omega
  simp only [round, setPrevId, sample_counts, countLosses, setFirst, start, List.head?_cons,
    Option.elim_some, hgap, if_true]
  exact ⟨rfl, rfl, trivial⟩

theorem ids_cons (rt : RcvTime) (record : List RcvTime) :
    ids (rt :: record) = rt.id :: ids record :=
  rfl

section Feedback

variable {front : RcvTime} {record : List RcvTime}

/-- The whole loop. -/
theorem Scan.loop_start (lastFeedback : UInt16) (hne : record ≠ [])
    (hids : ∀ rt ∈ front :: record, rt.pktId = rt.id.toUInt32)
    (hordered : (front.id :: ids record).Pairwise lessThanSimple) :
    ∃ scan', (start lastFeedback (front :: record)).loop (front :: record) = some scan' ∧
      scan'.lossSeq.map Int32.toInt = runs front.id 1 (ids record) ∧
      scan'.lossesInWnd = losses front.id (ids record) := by
  obtain ⟨hfront, hids'⟩ := List.forall_mem_cons.mp hids
  have hcount : missingFrom 0 (places front.id (ids record)) + (ids record).length
      = ((ids record).getLastD front.id - front.id).toNat := missing_add_length hordered
  have hids_length : (ids record).length = record.length := List.length_map _
  have hlast := ((ids record).getLastD front.id - front.id).toNat_lt
  have hloop := loop_cons (start lastFeedback (front :: record)) front record nofun
  obtain ⟨hcons, hseq, hlosses⟩ := round_first front lastFeedback record
  have hprev := (round_spec front false (start lastFeedback (front :: record))).2.1
  rw [List.isEmpty_eq_false_iff.mpr hne] at hloop
  have hone : ((start lastFeedback (front :: record)).round front false).consecutiveRecv.toInt
      = (1 : ℕ) := by
    rw [hcons]
    exact Int32.toInt_one
  obtain ⟨scan', hscan', hseq', hlosses'⟩ := loop_runs _ (hprev.trans hfront) hone hids'
    hordered.isChain (by omega)
  refine ⟨scan', hloop.trans hscan', ?_, ?_⟩
  · rw [hseq', hseq, List.map_nil, List.nil_append]
  · rw [hlosses', hlosses, UInt32.zero_add]

/-- The number of ids from the first to the last. -/
theorem toNat_countPkts (hne : record ≠ [])
    (hids : ∀ rt ∈ front :: record, rt.pktId = rt.id.toUInt32)
    (hordered : (front.id :: ids record).Pairwise lessThanSimple) :
    (countPkts (front :: record)).toNat = (received (front.id :: ids record)).length := by
  have hback := hids _ (List.getLastD_mem_cons (l := record) (a := front))
  have hfront := hids front List.mem_cons_self
  have hhalf := (pairwise_places hordered).2 _
    (List.getLastD_mem_cons (l := ids record) (a := front.id))
  have hlast : (ids record).getLastD front.id = (record.getLastD front).id := List.getLastD_map
  have hlength : 1 < (front :: record).length :=
    Nat.lt_add_of_pos_left (List.length_pos_iff.mpr hne)
  have hspan : (received (front.id :: ids record)).length
      = ((record.getLastD front).id - front.id).toNat + 1 := by
    rw [← hlast, received, List.length_map, List.length_range, List.headD_cons,
      List.getLastD_cons]
  have hgetLast : (front :: record).getLast? = some (record.getLastD front) := by
    rw [List.getLast?_cons, List.getLastD_eq_getLast?]
  rw [hlast] at hhalf
  rw [hspan, countPkts, hgetLast]
  simp only [List.head?_cons, hlength, if_true, hback, hfront]
  have hb := (record.getLastD front).id.toNat_lt
  have hf := front.id.toNat_lt
  rw [UInt16.toNat_sub] at hhalf ⊢
  simp only [UInt32.toNat_toUInt16, UInt32.toNat_mod, UInt32.toNat_add, UInt32.toNat_sub,
    UInt16.toNat_toUInt32, UInt32.reduceToNat]
  omega

/-- The runs and the counts of the loop are right under the condition, and only then. -/
theorem faithful_iff_of_runs {s : ReceiveWindow} {feedback : NetFeedback} (hne : record ≠ [])
    (hordered : (front.id :: ids record).Pairwise lessThanSimple)
    (hrecord : s.record = front :: record)
    (hruns : feedback.lossSeq.map Int32.toInt = runs front.id 1 (ids record))
    (hlosses : s.lossesInWnd = losses front.id (ids record))
    (hcount : s.pktsInWnd.toNat = (received (front.id :: ids record)).length)
    (hrate : feedback.lossRate = (s.lossesInWnd, s.pktsInWnd)) :
    Faithful s feedback ↔
      EndsInRun (front.id :: ids record) ∧ NoGapWraps (front.id :: ids record) := by
  have hids : ids record ≠ [] := fun h => hne (List.map_eq_nil_iff.mp h)
  have hplaces := (pairwise_places hordered).1
  have hspelled := expand_runs Nat.one_pos hids hplaces
  have hreceived := received_eq hordered
  have hlost := toNat_losses_eq_iff hordered
  rw [← hlosses] at hlost
  rw [UInt16.sub_self] at hspelled
  have hfalse : (received (front.id :: ids record)).count false
      = missingFrom 0 (places front.id (ids record)) := by
    rw [hreceived, List.count_cons_of_ne (by decide)]
    exact RunLength.count_false_patternFrom _ _
  constructor
  · intro h
    have hspells := h.spells
    have hnegative := h.negative
    rw [hrecord, ids_cons] at hspells
    have hcountFalse := RunLength.count_false_expand (feedback.lossSeq.map Int32.toInt)
    rw [hspells, hfalse, hnegative, neg_neg] at hcountFalse
    refine ⟨?_, hlost.mp (by exact_mod_cast hcountFalse.symm)⟩
    -- without the last packet the runs would spell a shorter pattern
    by_contra hends
    rw [if_neg hends, ← hruns, hspells, hreceived] at hspelled
    exact List.cons_ne_nil _ _ (List.append_right_eq_self.mp hspelled)
  · rintro ⟨hends, hnowrap⟩
    rw [if_pos hends, List.append_nil, ← hruns] at hspelled
    have hspells : expand (feedback.lossSeq.map Int32.toInt) = received (front.id :: ids record) :=
      hspelled.trans hreceived.symm
    have hmissing := hlost.mpr hnowrap
    refine ⟨?_, ?_, ?_, ?_, ?_, hrate, ?_⟩
    · rw [hruns]
      exact alternating_runs Nat.one_pos hplaces
    · rw [hrecord, ids_cons]
      exact hspells
    · rw [← RunLength.length_expand, hspells, hcount]
    · rw [← RunLength.count_true_expand, hspells, hreceived, List.count_cons_self,
        RunLength.count_true_patternFrom, hrecord]
      simp [places, ids]
    · rw [← neg_eq_iff_eq_neg, ← RunLength.count_false_expand, hspells, hfalse, hmissing]
    · have hlength := congrArg List.length hreceived
      have htrue := RunLength.count_false_patternFrom 0 (places front.id (ids record))
      have hle := List.count_le_length (a := false)
        (l := patternFrom 0 (places front.id (ids record)))
      rw [List.length_cons] at hlength
      rw [hmissing, hcount]
      omega

/-- A feedback over an ordered record of at least two packets spells which packets have arrived,
and counts them and the lost ones, if and only if the last packet follows the one before it and no
gap wraps. -/
theorem faithful_iff (now : Time) {s : ReceiveWindow}
    (hids : ∀ rt ∈ s.record, rt.pktId < 65536) (hlength : 2 ≤ s.record.length)
    (hordered : (ids s.record).Pairwise lessThanSimple) :
    ∃ s' feedback, s.feedbackNetState now = some (s', feedback) ∧ s'.record = s.record ∧
      (Faithful s' feedback ↔ EndsInRun (ids s.record) ∧ NoGapWraps (ids s.record)) := by
  obtain ⟨front, record, hrecord⟩ := List.exists_cons_of_length_pos (by omega : 0 < s.record.length)
  have hne : record ≠ [] := by
    rintro rfl
    rw [hrecord, List.length_singleton] at hlength
    omega
  have hids' : ∀ rt ∈ front :: record, rt.pktId = rt.id.toUInt32 := by
    intro rt hrt
    have hid := hids rt (hrecord ▸ hrt)
    rw [← UInt32.toNat_inj]
    rw [UInt32.lt_iff_toNat_lt] at hid
    simp only [RcvTime.id, UInt16.toNat_toUInt32, UInt32.toNat_toUInt16, UInt32.reduceToNat]
      at hid ⊢
    omega
  rw [hrecord, ids_cons] at hordered
  obtain ⟨scan, hscan, hruns, hlosses⟩ := Scan.loop_start s.lastFeedback hne hids' hordered
  have hcount := toNat_countPkts hne hids' hordered
  rw [← hrecord] at hscan
  simp only [feedbackNetState, hscan]
  refine ⟨_, _, rfl, rfl, ?_⟩
  rw [hrecord, ids_cons]
  refine faithful_iff_of_runs hne hordered rfl hruns hlosses hcount (if_pos ?_)
  have hlength := congrArg List.length (received_eq hordered)
  rw [← hcount, List.length_cons] at hlength
  rw [ge_iff_le, UInt16.le_iff_toNat_le, hlength]
  exact Nat.le_add_left 1 _

end Feedback

/-- Packets with these ids, at one time. -/
def arrivals (is : List UInt16) : List Event :=
  is.map fun i => .arrive 2010000000 i 1200 fun _ => true

/-- Packets 65535, 0, 3 and 4. -/
theorem faithful_iff_fourPackets :
    ∃ s s' feedback, Run.exec step (init 34000 25) (arrivals [65535, 0, 3, 4]) = some s ∧
      s.feedbackNetState 2020000000 = some (s', feedback) ∧ s'.record = s.record ∧
      (Faithful s' feedback ↔ EndsInRun (ids s.record) ∧ NoGapWraps (ids s.record)) ∧
      feedback.lossSeq = [2, -2, 2] := by
  obtain ⟨s, hrun, hids, hlength, hordered, hseq⟩ : ∃ s,
      Run.exec step (init 34000 25) (arrivals [65535, 0, 3, 4]) = some s ∧
        (∀ rt ∈ s.record, rt.pktId < 65536) ∧ 2 ≤ s.record.length ∧
        (ids s.record).Pairwise lessThanSimple ∧
        (s.feedbackNetState 2020000000).map (·.2.lossSeq) = some [2, -2, 2] :=
    ⟨_, rfl, by decide +kernel⟩
  obtain ⟨s', feedback, hreturns, hrecord, hiff⟩ := faithful_iff 2020000000 hids hlength hordered
  rw [hreturns] at hseq
  exact ⟨s, s', feedback, hrun, hreturns, hrecord, hiff, Option.some_inj.mp hseq⟩

/-- The last one of packets 0 and 2 is left out. Between packets 65534 and 1, 4294901762 losses are
counted. -/
theorem not_faithful_of_gaps :
    (∃ s s' feedback, Run.exec step (init 34000 25) (arrivals [0, 2]) = some s ∧
      s.feedbackNetState 2020000000 = some (s', feedback) ∧
      (ids s.record).Pairwise lessThanSimple ∧ feedback.lossSeq = [1, -1] ∧
      ¬ Faithful s' feedback) ∧
    ∃ s s' feedback, Run.exec step (init 34000 25) (arrivals [65534, 1, 2]) = some s ∧
      s.feedbackNetState 2020000000 = some (s', feedback) ∧
      (ids s.record).Pairwise lessThanSimple ∧ feedback.lossRate = (4294901762, 5) ∧
      ¬ Faithful s' feedback := by
  refine ⟨⟨_, _, _, rfl, rfl, by decide +kernel, rfl, fun h => ?_⟩,
    ⟨_, _, _, rfl, rfl, by decide +kernel, rfl, fun h => ?_⟩⟩
  · exact absurd h.total (by decide +kernel)
  · exact absurd h.rate.2 (by decide +kernel)

end Zhuge.ReceiveWindow
