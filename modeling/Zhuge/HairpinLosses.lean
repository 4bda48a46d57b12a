-- SUMMARY: The distribution of lost data packets that the Hairpin policy reads off a loss sequence.
import Zhuge.HairpinMarkov
import Zhuge.Lib.Binary64
import Zhuge.Lib.RunLength

/-!
# Lost packets of a group

`GetAverageLostPackets` cuts the packets of a loss sequence into groups, the newest first, and
counts how many data packets each group lost for good. It reads the sequence run by run, and
begins no group once it has taken up the last run.
-/

namespace Zhuge.HairpinPolicy

/-! ## Reading the sequence -/

/-- What is left of the sequence: the runs, the last first, and the rest of the run at hand. -/
structure Reading where
  lossSeq : List ℤ
  nextSeq : ℤ

/-- The next packet, and whether it was received. A run of length 0 has none. -/
def nextPacket (lossSeq : List ℤ) (nextSeq : ℤ) : Option (Bool × Reading) :=
  if 0 < nextSeq then some (true, ⟨lossSeq, nextSeq - 1⟩)
  else if nextSeq < 0 then some (false, ⟨lossSeq, nextSeq + 1⟩)
  else
    match lossSeq with
    | [] => none
    | next :: lossSeq => nextPacket lossSeq next

/-- The counters of a group. -/
structure Filling where
  pktCount : ℕ
  dataPktLoss : ℕ
  fecPktLoss : ℕ

/-- One packet more in the group. -/
def put (groupSize : ℕ) (g : Filling) (received : Bool) : Filling :=
  if received then { g with pktCount := g.pktCount + 1 }
  else if g.pktCount < groupSize then
    { g with pktCount := g.pktCount + 1, dataPktLoss := g.dataPktLoss + 1 }
  else { g with pktCount := g.pktCount + 1, fecPktLoss := g.fecPktLoss + 1 }

/-- The inner loop, for a group that wants more packets. -/
def fill (groupSize : ℕ) : ℕ → Reading → Filling → Reading × Filling
  | 0, r, g => (r, g)
  | wanted + 1, r, g =>
    match nextPacket r.lossSeq r.nextSeq with
    | none => (⟨[], 0⟩, g)
    | some (received, r) => fill groupSize wanted r (put groupSize g received)

/-- The variables of the outer loop. -/
structure Measuring where
  reading : Reading
  lossDis : List ℚ
  groupCount : UInt16

/-- The outer loop. `none`: the assertion on an incomplete group fails, or the loop goes on for
more rounds than these. -/
def measure (groupSize fecCount totalGroupSize : ℕ) : ℕ → Measuring → Option Measuring
  | 0, _ => none
  | rounds + 1, m =>
    if m.reading.lossSeq = [] then some m
    else
      let (reading, g) := fill groupSize totalGroupSize m.reading ⟨0, 0, 0⟩
      if g.pktCount < totalGroupSize then
        if reading.lossSeq = [] then some { m with reading } else none
      else
        let lost := if fecCount < g.dataPktLoss + g.fecPktLoss then g.dataPktLoss else 0
        measure groupSize fecCount totalGroupSize rounds {
          reading
          lossDis := m.lossDis.modify lost (· + 1)
          groupCount := m.groupCount + 1 }

/-- The division by the number of groups. `none`: the 16-bit counter of the loop does not get to
the end. -/
def average (groupSize : UInt16) (m : Measuring) : Option (List ℚ) :=
  if m.groupCount ≠ 0 then
    if groupSize = 65535 then none else some (m.lossDis.map (· / m.groupCount.toNat))
  else some (m.lossDis.set 0 1)

/-- `round(group_size * beta_0)`. -/
def fecPackets (groupSize : UInt16) (beta0 : ℚ) : ℤ :=
  Binary64.roundHalfAway (groupSize.toNat * beta0)

/-- `GetAverageLostPackets`. There are no more rounds than packets, unless groups are empty. -/
def getAverageLostPackets (lossSeq : List ℤ) (groupSize : UInt16) (beta0 : ℚ) :
    Option (List ℚ) :=
  let fecCount := fecPackets groupSize beta0
  -- the conversion to an 8-bit number is not defined
  if fecCount < 0 ∨ 255 < fecCount then none
  else
    let totalGroupSize := groupSize + .ofNat fecCount.toNat
    (measure groupSize.toNat fecCount.toNat totalGroupSize.toNat
      ((lossSeq.map Int.natAbs).sum + 1)
      ⟨⟨lossSeq.reverse, 0⟩, List.replicate (groupSize.toNat + 1) 0, 0⟩).bind (average groupSize)

/-! ## Packets -/

/-- The packets that are left, and whether they were received. -/
def Reading.packets (r : Reading) : List Bool :=
  RunLength.bits r.nextSeq ++ RunLength.expand r.lossSeq

/-- `oldest` is the length of the last run to come or, when that run is at hand, of what was left
of it before the next packet. -/
def Reading.Reaches (oldest : ℕ) (r : Reading) : Prop :=
  match r.lossSeq.getLast? with
  | none => r.nextSeq.natAbs ≤ oldest
  | some run => run.natAbs = oldest

/-- Of the last run at least one packet was read, when that run is at hand. -/
def Reading.Tracks (oldest : ℕ) (r : Reading) : Prop :=
  match r.lossSeq.getLast? with
  | none => r.nextSeq.natAbs < oldest
  | some run => run.natAbs = oldest

theorem Reading.Tracks.reaches {oldest : ℕ} {r : Reading} (h : r.Tracks oldest) :
    r.Reaches oldest := by
  unfold Tracks at h
  unfold Reaches
  split at h
  case h_1 => exact h.le
  case h_2 => exact h

theorem Reading.Tracks.lossSeq_ne_nil_iff {oldest : ℕ} {r : Reading} (h : r.Tracks oldest) :
    r.lossSeq ≠ [] ↔ oldest ≤ r.packets.length := by
  have hbits : (RunLength.bits r.nextSeq).length = r.nextSeq.natAbs := List.length_replicate
  unfold Tracks at h
  cases hlast : r.lossSeq.getLast? with
  | none =>
      rw [hlast] at h
      rw [List.getLast?_eq_none_iff] at hlast
      simp only [packets, hlast, RunLength.expand_nil, List.append_nil, hbits, ne_eq, not_true,
        false_iff, not_le]
      exact h
  | some run =>
      rw [hlast] at h
      obtain ⟨runs, heq⟩ := List.getLast?_eq_some_iff.mp hlast
      have hlen : (RunLength.bits run).length = run.natAbs := List.length_replicate
      simp only [packets, heq, RunLength.expand, List.flatMap_append, List.flatMap_singleton,
        List.length_append, hlen, h]
      refine ⟨fun _ => by omega, fun _ => ?_⟩
      exact List.concat_ne_nil _ _

theorem bits_of_pos {n : ℤ} (h : 0 < n) : RunLength.bits n = true :: RunLength.bits (n - 1) := by
  obtain ⟨k, rfl⟩ : ∃ k : ℕ, n = k + 1 := ⟨(n - 1).toNat, by omega⟩
  rw [add_sub_cancel_right, ← Nat.cast_succ, RunLength.bits_natCast k.succ_pos,
    List.replicate_succ]
  rcases k.eq_zero_or_pos with rfl | hk
  · rfl
  · rw [RunLength.bits_natCast hk]

theorem bits_of_neg {n : ℤ} (h : n < 0) : RunLength.bits n = false :: RunLength.bits (n + 1) := by
  obtain ⟨k, rfl⟩ : ∃ k : ℕ, n = -(k + 1) := ⟨(-n - 1).toNat, by omega⟩
  rw [show -((k : ℤ) + 1) + 1 = -k by ring, ← Nat.cast_succ, RunLength.bits_neg_natCast,
    RunLength.bits_neg_natCast, List.replicate_succ]

/-- Of the run at hand one packet goes. -/
theorem nextPacket_of_ne_zero (lossSeq : List ℤ) {nextSeq : ℤ} (h : nextSeq ≠ 0) :
    ∃ received next, nextPacket lossSeq nextSeq = some (received, ⟨lossSeq, next⟩) ∧
      RunLength.bits nextSeq = received :: RunLength.bits next ∧
      next.natAbs < nextSeq.natAbs := by
  unfold nextPacket
  rcases lt_or_gt_of_ne h with hneg | hpos
  · rw [if_neg (by omega), if_pos hneg]
    exact ⟨false, nextSeq + 1, rfl, bits_of_neg hneg, by omega⟩
  · rw [if_pos hpos]
    exact ⟨true, nextSeq - 1, rfl, bits_of_pos hpos, by omega⟩

/-- The next packet is taken from the packets that are left. -/
theorem nextPacket_eq (lossSeq : List ℤ) (nextSeq : ℤ) :
    (nextPacket lossSeq nextSeq = none ∧ (Reading.mk lossSeq nextSeq).packets = []) ∨
      ∃ received r, nextPacket lossSeq nextSeq = some (received, r) ∧
        (Reading.mk lossSeq nextSeq).packets = received :: r.packets ∧
        ∀ oldest, (Reading.mk lossSeq nextSeq).Reaches oldest → r.Tracks oldest := by
  induction lossSeq generalizing nextSeq with
  | nil =>
      by_cases hzero : nextSeq = 0
      · subst hzero
        exact .inl ⟨by rw [nextPacket]; rfl, rfl⟩
      · obtain ⟨received, next, heq, hbits, hlt⟩ := nextPacket_of_ne_zero [] hzero
        refine .inr ⟨received, _, heq, ?_, fun oldest h => hlt.trans_le h⟩
        rw [Reading.packets, hbits, List.cons_append, Reading.packets]
  | cons run lossSeq ih =>
      by_cases hzero : nextSeq = 0
      · subst hzero
        have hskip : nextPacket (run :: lossSeq) 0 = nextPacket lossSeq run := by
          rw [nextPacket]
          rfl
        have hpackets : (Reading.mk (run :: lossSeq) 0).packets =
            (Reading.mk lossSeq run).packets := rfl
        rw [hskip, hpackets]
        refine (ih run).imp id fun ⟨received, r, heq, hcons, htracks⟩ =>
          ⟨received, r, heq, hcons, fun oldest h => htracks oldest ?_⟩
        unfold Reading.Reaches at h ⊢
        cases lossSeq with
        | nil => exact le_of_eq h
        | cons run' lossSeq => exact h
      · obtain ⟨received, next, heq, hbits, -⟩ := nextPacket_of_ne_zero (run :: lossSeq) hzero
        refine .inr ⟨received, _, heq, ?_, fun oldest h => h⟩
        rw [Reading.packets, hbits, List.cons_append, Reading.packets]

/-! ## A group -/

theorem foldl_put (groupSize : ℕ) (taken : List Bool) (g : Filling) :
    taken.foldl (put groupSize) g =
      ⟨g.pktCount + taken.length,
        g.dataPktLoss + (taken.take (groupSize - g.pktCount)).count false,
        g.fecPktLoss + (taken.drop (groupSize - g.pktCount)).count false⟩ := by
  induction taken generalizing g with
  | nil => simp
  | cons received taken ih =>
      rw [List.foldl_cons, ih, put]
      by_cases hdata : g.pktCount < groupSize
      · have hsub : groupSize - g.pktCount = (groupSize - (g.pktCount + 1)) + 1 := by omega
        rw [hsub, List.take_succ_cons, List.drop_succ_cons]
        cases received <;> simp [hdata] <;> omega
      · have hsub : groupSize - g.pktCount = 0 := by omega
        have hsub' : groupSize - (g.pktCount + 1) = 0 := by omega
        rw [hsub]
        cases received <;> simp [hdata, hsub'] <;> omega

theorem fill_eq (groupSize wanted : ℕ) (r : Reading) (g : Filling) :
    (fill groupSize wanted r g).1.packets = r.packets.drop wanted ∧
      (fill groupSize wanted r g).2 = (r.packets.take wanted).foldl (put groupSize) g ∧
      (r.packets.length < wanted → (fill groupSize wanted r g).1.lossSeq = []) ∧
      ∀ oldest, r.Tracks oldest → wanted ≤ r.packets.length →
        (fill groupSize wanted r g).1.Tracks oldest := by
  induction wanted generalizing r g with
  | zero => exact ⟨rfl, rfl, fun h => absurd h (Nat.not_lt_zero _), fun _ h _ => h⟩
  | succ wanted ih =>
      rcases nextPacket_eq r.lossSeq r.nextSeq with
        ⟨hnone, hempty⟩ | ⟨received, r', heq, hcons, htracks⟩
      · change r.packets = [] at hempty
        simp only [fill, hnone, hempty]
        exact ⟨rfl, rfl, fun _ => trivial, fun _ _ h => absurd h (Nat.not_succ_le_zero _)⟩
      · change r.packets = received :: r'.packets at hcons
        obtain ⟨hpackets, hg, hshort, hrest⟩ := ih r' (put groupSize g received)
        simp only [fill, heq, hcons, List.drop_succ_cons, List.take_succ_cons, List.foldl_cons,
          List.length_cons, Nat.succ_lt_succ_iff, Nat.succ_le_succ_iff]
        exact ⟨hpackets, hg, hshort, fun oldest h => hrest oldest (htracks oldest h.reaches)⟩

/-- How many data packets of a group stay lost: the FEC packets make up for all losses or none. -/
def stayLost (groupSize fecCount : ℕ) (group : List Bool) : ℕ :=
  if fecCount < group.count false then (group.take groupSize).count false else 0

/-- The verdict on a group that is full. -/
theorem verdict_eq (groupSize fecCount : ℕ) (group : List Bool) :
    let g := group.foldl (put groupSize) ⟨0, 0, 0⟩
    (if fecCount < g.dataPktLoss + g.fecPktLoss then g.dataPktLoss else 0) =
      stayLost groupSize fecCount group := by
  intro g
  have hg : g = _ := foldl_put groupSize group ⟨0, 0, 0⟩
  have hcount : (group.take groupSize).count false + (group.drop groupSize).count false =
      group.count false := by
    rw [← List.count_append, List.take_append_drop]
  simp only [hg, Nat.zero_add, Nat.sub_zero, hcount]
  rfl

/-! ## All groups -/

/-- The number of groups: no group begins in the last run. -/
def groupsRead (total oldest packets : ℕ) : ℕ :=
  if oldest ≤ packets then min (packets / total) ((packets - oldest) / total + 1) else 0

theorem groupsRead_eq {total : ℕ} (htotal : 0 < total) (oldest packets : ℕ) :
    groupsRead total oldest packets =
      if oldest ≤ packets ∧ total ≤ packets then groupsRead total oldest (packets - total) + 1
      else 0 := by
  unfold groupsRead
  by_cases hold : oldest ≤ packets
  · by_cases hfull : total ≤ packets
    · have hdiv := Nat.div_eq_sub_div htotal hfull
      rw [if_pos hold, if_pos ⟨hold, hfull⟩, hdiv]
      by_cases hmore : oldest ≤ packets - total
      · have hdiv' := Nat.div_eq_sub_div htotal (show total ≤ packets - oldest by omega)
        rw [if_pos hmore, hdiv', show packets - oldest - total = packets - total - oldest by omega]
        omega
      · rw [if_neg hmore, Nat.div_eq_of_lt (show packets - oldest < total by omega)]
        exact Nat.min_eq_right (Nat.succ_le_succ (Nat.zero_le _))
    · rw [if_pos hold, if_neg fun h => hfull h.2, Nat.div_eq_of_lt (by omega), Nat.zero_min]
  · rw [if_neg hold, if_neg fun h => hold h.1]

/-- The first groups of these packets. -/
def groups (total : ℕ) : ℕ → List Bool → List (List Bool)
  | 0, _ => []
  | k + 1, packets => packets.take total :: groups total k (packets.drop total)

/-- The outer loop counts the verdicts, and it returns. -/
theorem measure_eq {groupSize fecCount total oldest : ℕ} (htotal : 0 < total) {rounds : ℕ}
    {m : Measuring} (hrounds : m.reading.packets.length < rounds)
    (htracks : m.reading.Tracks oldest) :
    let k := groupsRead total oldest m.reading.packets.length
    ∃ reading, measure groupSize fecCount total rounds m = some ⟨reading,
      ((groups total k m.reading.packets).map (stayLost groupSize fecCount)).foldl
        (fun dis lost => dis.modify lost (· + 1)) m.lossDis,
      m.groupCount + .ofNat k⟩ := by
  induction rounds generalizing m with
  | zero => exact absurd hrounds (Nat.not_lt_zero _)
  | succ rounds ih =>
      intro k
      have hk : k = _ := groupsRead_eq htotal oldest m.reading.packets.length
      unfold measure
      by_cases hnil : m.reading.lossSeq = []
      · have hold : ¬ oldest ≤ m.reading.packets.length := fun h =>
          htracks.lossSeq_ne_nil_iff.mpr h hnil
        rw [if_pos hnil, hk, if_neg fun h => hold h.1]
        exact ⟨m.reading, by simp [groups]⟩
      · have hold : oldest ≤ m.reading.packets.length := htracks.lossSeq_ne_nil_iff.mp hnil
        obtain ⟨hpackets, hg, hshort, hrest⟩ := fill_eq groupSize total m.reading ⟨0, 0, 0⟩
        have hcount : (fill groupSize total m.reading ⟨0, 0, 0⟩).2.pktCount =
            min total m.reading.packets.length := by
          rw [hg, foldl_put, Nat.zero_add, List.length_take]
        rw [if_neg hnil]
        simp only [hcount]
        by_cases hfull : total ≤ m.reading.packets.length
        · rw [Nat.min_eq_left hfull, if_neg (Nat.lt_irrefl _), hg, verdict_eq]
          rw [if_pos ⟨hold, hfull⟩] at hk
          have hlen := congrArg List.length hpackets
          rw [List.length_drop] at hlen
          obtain ⟨reading, hloop⟩ := @ih ⟨(fill groupSize total m.reading ⟨0, 0, 0⟩).1,
            m.lossDis.modify (stayLost groupSize fecCount (m.reading.packets.take total)) (· + 1),
            m.groupCount + 1⟩ (by simp only [hlen]; omega) (hrest oldest htracks hfull)
          refine ⟨reading, ?_⟩
          rw [hloop]
          simp only [hpackets, hk, groups, List.length_drop, List.map_cons, List.foldl_cons,
            UInt16.ofNat_add]
          rw [add_assoc, add_comm (1 : UInt16)]
          rfl
        · rw [if_neg fun h => hfull h.2] at hk
          rw [Nat.min_eq_right (by omega), if_pos (by omega), if_pos (hshort (by omega)), hk]
          exact ⟨_, by simp [groups]; rfl⟩

theorem length_groups (total k : ℕ) (packets : List Bool) :
    (groups total k packets).length = k := by
  induction k generalizing packets with
  | zero => rfl
  | succ k ih => rw [groups, List.length_cons, ih]

theorem stayLost_le (groupSize fecCount : ℕ) (group : List Bool) :
    stayLost groupSize fecCount group ≤ groupSize := by
  unfold stayLost
  split
  · exact List.count_le_length.trans (List.length_take_le _ _)
  · exact Nat.zero_le _

/-! ## The distribution -/

theorem sum_modify {dis : List ℚ} {lost : ℕ} (h : lost < dis.length) :
    (dis.modify lost (· + 1)).sum = dis.sum + 1 := by
  induction dis generalizing lost with
  | nil => cases h
  | cons p dis ih =>
      cases lost with
      | zero =>
          simp only [List.modify_zero_cons, List.sum_cons]
          ring
      | succ lost =>
          rw [List.modify_succ_cons, List.sum_cons, ih (Nat.lt_of_succ_lt_succ h), List.sum_cons,
            add_assoc]

/-- What the outer loop does to the distribution. -/
theorem foldl_modify {dis : List ℚ} {lost : List ℕ} (h : ∀ l ∈ lost, l < dis.length) :
    (lost.foldl (fun dis lost => dis.modify lost (· + 1)) dis).length = dis.length ∧
      (lost.foldl (fun dis lost => dis.modify lost (· + 1)) dis).sum = dis.sum + lost.length ∧
      ∀ j, (lost.foldl (fun dis lost => dis.modify lost (· + 1)) dis).getD j 0 =
        dis.getD j 0 + lost.count j := by
  induction lost generalizing dis with
  | nil => simp
  | cons l lost ih =>
      rw [List.forall_mem_cons] at h
      have hlen : (dis.modify l (· + 1)).length = dis.length := List.length_modify ..
      obtain ⟨hlength, hsum, hcount⟩ := @ih (dis.modify l (· + 1)) fun l' hl' => by
        rw [hlen]
        exact h.2 l' hl'
      refine ⟨hlength.trans hlen, ?_, fun j => ?_⟩
      · rw [List.foldl_cons, hsum, sum_modify h.1, List.length_cons]
        push_cast
        ring
      · rw [List.foldl_cons, hcount, List.count_cons]
        have hget : (dis.modify l (· + 1)).getD j 0 = dis.getD j 0 + if l = j then 1 else 0 := by
          simp only [List.getD_eq_getElem?_getD, List.getElem?_modify]
          split
          case isTrue heq =>
            subst heq
            rw [List.getElem?_eq_getElem h.1]
            rfl
          case isFalse => simp
        rw [hget]
        by_cases heq : l = j
        · simp [heq]
          ring
        · simp [heq]

/-- A distribution of the losses of a group. -/
structure Distribution (groupSize : ℕ) (dis : List ℚ) : Prop where
  length : dis.length = groupSize + 1
  nonneg : ∀ p ∈ dis, 0 ≤ p
  sum : dis.sum = 1

/-- `GetResult` takes it. -/
theorem Distribution.getResult_isSome {groupSize beta1 : UInt8} {dis : List ℚ}
    {lossRate rtt ddl : ℚ} (h : Distribution groupSize.toNat dis) (hgroup : groupSize.toNat ≤ 29)
    (hbeta : beta1 ≠ 1) (hrtt : 0 < rtt) (hddl : 0 ≤ ddl) (hfit : ddl < 254 * rtt) :
    ∃ result, getResult groupSize beta1 dis lossRate rtt ddl = some result :=
  ⟨_, getResult_eq h.length hgroup hbeta h.sum (toNat_layers_pos hrtt hddl hfit)⟩

theorem getD_replicate_zero (n j : ℕ) : (List.replicate n (0 : ℚ)).getD j 0 = 0 := by
  rw [List.getD_eq_getElem?_getD, List.getElem?_replicate]
  split <;> rfl

theorem getD_nonneg {dis : List ℚ} (h : ∀ j, 0 ≤ dis.getD j 0) : ∀ p ∈ dis, 0 ≤ p := by
  intro p hp
  obtain ⟨j, hj, rfl⟩ := List.getElem_of_mem hp
  rw [← List.getD_eq_getElem dis 0 hj]
  exact h j

/-- What is averaged when no group was read. -/
theorem distribution_none (groupSize : ℕ) :
    Distribution groupSize (1 :: List.replicate groupSize 0) where
  length := by rw [List.length_cons, List.length_replicate]
  nonneg := by
    rw [List.forall_mem_cons]
    exact ⟨zero_le_one, fun p hp => (List.eq_of_mem_replicate hp).ge⟩
  sum := by simp

/-- The average of the counts. -/
theorem average_eq {groupSize : UInt16} (hgroup : groupSize.toNat < 65535) {lost : List ℕ}
    (hlost : ∀ l ∈ lost, l ≤ groupSize.toNat) (hfew : lost.length < 65536) (reading : Reading) :
    ∃ dis, average groupSize ⟨reading,
        lost.foldl (fun dis lost => dis.modify lost (· + 1))
          (List.replicate (groupSize.toNat + 1) 0), 0 + .ofNat lost.length⟩ = some dis ∧
      Distribution groupSize.toNat dis ∧
      ∀ j, dis.getD j 0 =
        if lost = [] then if j = 0 then 1 else 0 else (lost.count j / lost.length : ℚ) := by
  by_cases hnil : lost = []
  · subst hnil
    refine ⟨_, rfl, distribution_none groupSize.toNat, fun j => ?_⟩
    rw [if_pos rfl]
    cases j with
    | zero => rfl
    | succ j => exact getD_replicate_zero groupSize.toNat j
  · obtain ⟨hlength, hsum, hcount⟩ := @foldl_modify (List.replicate (groupSize.toNat + 1) 0) lost
      fun l hl => by
        rw [List.length_replicate]
        exact Nat.lt_succ_of_le (hlost l hl)
    rw [List.length_replicate] at hlength
    rw [List.sum_replicate, smul_zero, zero_add] at hsum
    have hnat : (0 + UInt16.ofNat lost.length).toNat = lost.length := by
      rw [zero_add]
      exact UInt16.toNat_ofNat_of_lt' hfew
    generalize lost.foldl (fun dis lost => dis.modify lost (· + 1))
      (List.replicate (groupSize.toNat + 1) (0 : ℚ)) = counts at *
    generalize 0 + UInt16.ofNat lost.length = groupCount at *
    have hpos : (0 : ℚ) < lost.length := Nat.cast_pos.mpr (List.length_pos_iff.mpr hnil)
    have hne : groupCount ≠ 0 := fun h => by
      rw [h] at hnat
      exact hnil (List.length_eq_zero_iff.mp hnat.symm)
    have hsize : groupSize ≠ 65535 := fun h => by
      rw [h] at hgroup
      exact absurd hgroup (lt_irrefl _)
    have hget : ∀ j, (counts.map (· / (lost.length : ℚ))).getD j 0 =
        lost.count j / lost.length := by
      intro j
      have hmap := List.getD_map (l := counts) (d := 0) (n := j) (· / (lost.length : ℚ))
      rw [zero_div] at hmap
      rw [hmap, hcount, getD_replicate_zero, zero_add]
    rw [average, if_pos hne, if_neg hsize, hnat]
    refine ⟨_, rfl, ⟨by rw [List.length_map, hlength], getD_nonneg fun j => ?_, ?_⟩, fun j => ?_⟩
    · rw [hget]
      positivity
    · simp only [div_eq_mul_inv]
      rw [List.sum_map_mul_right, List.map_id', hsum, mul_inv_cancel₀ hpos.ne']
    · rw [if_neg hnil, hget]

end Zhuge.HairpinPolicy
