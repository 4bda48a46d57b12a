-- SUMMARY: The receiver's record stays ordered, and its byte count exact, as long as the ids in it span less than half the circle.
import Zhuge.FeedbackReports

/-!
# The order of the record

A packet is entered behind the last entry that is before it on the circle of ids, or at the
front if it is before the first. This keeps the record ordered when all its ids and the new one
lie on half the circle, whatever entries have expired.
-/

namespace Zhuge.ReceiveWindow

inductive Event where
  | arrive (now : Time) (id : UInt16) (size : UInt32) (removed : ℕ → Bool)
  | feedback (now : Time)

/-- One handler. `none`: the assertion in the feedback fails. -/
def step (s : ReceiveWindow) : Event → Option ReceiveWindow
  | .arrive now id size removed => some (s.onSocketRecv now id size removed)
  | .feedback now => (s.feedbackNetState now).map Prod.fst

/-- The ids lie on half the circle, from one of them on. -/
def OnHalf (is : List UInt16) : Prop := ∃ base ∈ is, ∀ i ∈ is, (i - base).toNat < 32768

instance (is : List UInt16) : Decidable (OnHalf is) :=
  have : DecidablePred fun base => ∀ i ∈ is, (i - base).toNat < 32768 :=
    fun _ => List.decidableBAll _ is
  List.decidableBEx _ is

/-- A packet whose id is new to the record, and on one half of the circle with the ids in it. -/
def Admissible (s : ReceiveWindow) : Event → Prop
  | .arrive _ id _ _ => id ∉ ids s.record ∧ OnHalf (id :: ids s.record)
  | .feedback _ => True

instance (s : ReceiveWindow) : DecidablePred s.Admissible
  | .arrive _ _ _ _ => inferInstanceAs (Decidable (_ ∧ _))
  | .feedback _ => .isTrue trivial

/-- The bytes of the entries, in 32 bits. -/
def recordBytes (record : List RcvTime) : UInt32 := (record.map (·.pktSize)).sum

/-- The record is ordered, and its bytes are counted. -/
structure Ordered (s : ReceiveWindow) : Prop where
  increasing : (ids s.record).Pairwise lessThanSimple
  bytes : s.bytesInWnd = recordBytes s.record

/-! ## Half the circle -/

/-- Seen from the start of the half, ids are ordered as numbers. -/
theorem lessThanSimple_iff_sub {base a b : UInt16} (ha : (a - base).toNat < 32768)
    (hb : (b - base).toNat < 32768) :
    lessThanSimple a b ↔ (a - base).toNat < (b - base).toNat := by
  have hiff : lessThanSimple a b ↔ 0 < (b - a).toNat ∧ (b - a).toNat < 32768 :=
    lessThan_iff_sequence
  rw [hiff]
  rw [UInt16.toNat_sub] at ha hb ⊢
  rw [UInt16.toNat_sub, UInt16.toNat_sub]
  have h₁ := a.toNat_lt
  have h₂ := b.toNat_lt
  have h₃ := base.toNat_lt
  omega

/-- The list with `rt` between two parts of the record. -/
structure Between (rt : RcvTime) (record record' : List RcvTime) : Prop where
  splits : ∃ older newer, record = older ++ newer ∧ record' = older ++ rt :: newer ∧
    (∀ r ∈ older, lessThanSimple r.id rt.id) ∧ ∀ r ∈ newer, lessThanSimple rt.id r.id

section Insert

variable {rt : RcvTime} {base : UInt16} {record : List RcvTime}

theorem lessThanSimple_trans {a b c : UInt16} (ha : (a - base).toNat < 32768)
    (hb : (b - base).toNat < 32768) (hc : (c - base).toNat < 32768) (hab : lessThanSimple a b)
    (hbc : lessThanSimple b c) : lessThanSimple a c := by
  rw [lessThanSimple_iff_sub ha hb] at hab
  rw [lessThanSimple_iff_sub hb hc] at hbc
  exact (lessThanSimple_iff_sub ha hc).mpr (hab.trans hbc)

/-- Two ids on the half are ordered one way or the other. -/
theorem lessThanSimple_of_not {a b : UInt16} (ha : (a - base).toNat < 32768)
    (hb : (b - base).toNat < 32768) (hne : a ≠ b) (hnot : ¬ lessThanSimple a b) :
    lessThanSimple b a := by
  rw [lessThanSimple_iff_sub ha hb] at hnot
  rw [lessThanSimple_iff_sub hb ha]
  have hkeys : (a - base).toNat ≠ (b - base).toNat := by
    rw [ne_eq, UInt16.toNat_inj, UInt16.sub_left_inj]
    exact hne
  omega

/-- The search from the end gives up at entries that are all after `rt`, and else finds the
place. -/
theorem insertBehind_cases (hrt : (rt.id - base).toNat < 32768)
    (hhalf : ∀ r ∈ record, (r.id - base).toNat < 32768) (hnew : ∀ r ∈ record, r.id ≠ rt.id)
    (hsorted : (ids record).Pairwise lessThanSimple) :
    (insertBehind rt record = none ∧ ∀ r ∈ record, lessThanSimple rt.id r.id) ∨
      ∃ record', insertBehind rt record = some record' ∧ Between rt record record' ∧
        ∃ r ∈ record, lessThanSimple r.id rt.id := by
  induction record with
  | nil => exact .inl ⟨rfl, nofun⟩
  | cons entry record ih =>
      obtain ⟨hentry, hrest⟩ := List.forall_mem_cons.mp hhalf
      obtain ⟨hne, hnew'⟩ := List.forall_mem_cons.mp hnew
      obtain ⟨hfront, hsorted'⟩ := List.pairwise_cons.mp hsorted
      rcases ih hrest hnew' hsorted' with ⟨hnone, hafter⟩ | ⟨record', hsome, hbetween, r, hr, hlt⟩
      · -- the entries behind are all after `rt`, so it goes between them and `entry`, or the
        -- search goes on
        rw [insertBehind, hnone]
        by_cases hlt : lessThanSimple entry.id rt.id
        · refine .inr ⟨_, if_pos hlt, ⟨[entry], record, rfl, rfl, ?_, hafter⟩, entry,
            List.mem_cons_self, hlt⟩
          exact fun r hr => List.mem_singleton.mp hr ▸ hlt
        · exact .inl ⟨if_neg hlt, List.forall_mem_cons.mpr
            ⟨lessThanSimple_of_not hentry hrt hne hlt, hafter⟩⟩
      · -- the place is further back, and `entry` stays in front of it
        have hentry' : lessThanSimple entry.id rt.id :=
          lessThanSimple_trans hentry (hrest r hr) hrt (hfront r.id (List.mem_map_of_mem hr)) hlt
        obtain ⟨older, newer, hsplit, hsplit', holder, hnewer⟩ := hbetween.splits
        refine .inr ⟨entry :: record', by rw [insertBehind, hsome], ⟨entry :: older, newer, ?_, ?_,
          List.forall_mem_cons.mpr ⟨hentry', holder⟩, hnewer⟩, entry, List.mem_cons_self, hentry'⟩
        · rw [hsplit, List.cons_append]
        · rw [hsplit', List.cons_append]

/-- An entry in its place keeps the order. -/
theorem pairwise_ids_insert {older newer : List RcvTime}
    (hsorted : (ids (older ++ newer)).Pairwise lessThanSimple)
    (holder : ∀ r ∈ older, lessThanSimple r.id rt.id)
    (hnewer : ∀ r ∈ newer, lessThanSimple rt.id r.id) :
    (ids (older ++ rt :: newer)).Pairwise lessThanSimple := by
  rw [ids, List.pairwise_map] at hsorted ⊢
  obtain ⟨hold, hnew, hacross⟩ := List.pairwise_append.mp hsorted
  refine List.pairwise_append.mpr ⟨hold, List.pairwise_cons.mpr ⟨hnewer, hnew⟩, ?_⟩
  intro r hr t ht
  rcases List.mem_cons.mp ht with rfl | ht
  · exact holder r hr
  · exact hacross r hr t ht

/-- The new packet is entered in its place. -/
theorem insert_between (hrt : (rt.id - base).toNat < 32768)
    (hhalf : ∀ r ∈ record, (r.id - base).toNat < 32768) (hnew : ∀ r ∈ record, r.id ≠ rt.id)
    (hsorted : (ids record).Pairwise lessThanSimple) : Between rt record (insert rt record) := by
  cases record with
  | nil => exact ⟨[], [], rfl, rfl, nofun, nofun⟩
  | cons front record =>
      obtain ⟨hfront, hrest⟩ := List.forall_mem_cons.mp hhalf
      obtain ⟨hbehind, -⟩ := List.pairwise_cons.mp hsorted
      rw [insert]
      split
      case isTrue hlt =>
        refine ⟨[], front :: record, rfl, rfl, nofun, List.forall_mem_cons.mpr ⟨hlt, ?_⟩⟩
        exact fun r hr => lessThanSimple_trans hrt hfront (hrest r hr) hlt
          (hbehind r.id (List.mem_map_of_mem hr))
      case isFalse hge =>
        rcases insertBehind_cases hrt hhalf hnew hsorted with
          ⟨-, hafter⟩ | ⟨record', hsome, hbetween, -⟩
        · exact absurd (hafter front List.mem_cons_self) hge
        · rwa [hsome]

end Insert

/-! ## Counting bytes -/

theorem recordBytes_append (older newer : List RcvTime) :
    recordBytes (older ++ newer) = recordBytes older + recordBytes newer := by
  simp [recordBytes, List.sum_append]

theorem recordBytes_cons (rt : RcvTime) (record : List RcvTime) :
    recordBytes (rt :: record) = rt.pktSize + recordBytes record := by
  simp [recordBytes]

/-- Taking off the sizes of the entries that go leaves those of the entries that stay. -/
theorem foldl_sub_filter (goes : RcvTime × ℕ → Bool) (entries : List (RcvTime × ℕ))
    (bytes : UInt32) :
    (entries.filter goes).foldl (fun bytes entry => bytes - entry.1.pktSize)
        (bytes + recordBytes (entries.map Prod.fst))
      = bytes + recordBytes ((entries.filter fun entry => !goes entry).map Prod.fst) := by
  induction entries generalizing bytes with
  | nil => rfl
  | cons entry entries ih =>
      cases hgoes : goes entry with
      | true =>
          rw [List.filter_cons_of_pos hgoes, List.filter_cons_of_neg (by simp [hgoes]),
            List.foldl_cons, List.map_cons, recordBytes_cons]
          have hoff : bytes + (entry.1.pktSize + recordBytes (entries.map Prod.fst))
              - entry.1.pktSize = bytes + recordBytes (entries.map Prod.fst) := by
            rw [UInt32.add_comm entry.1.pktSize, ← UInt32.add_assoc, UInt32.add_sub_cancel]
          rw [hoff, ih]
      | false =>
          rw [List.filter_cons_of_neg (by simp [hgoes]), List.filter_cons_of_pos (by simp [hgoes]),
            List.map_cons, List.map_cons, recordBytes_cons, recordBytes_cons,
            ← UInt32.add_assoc, ih, UInt32.add_assoc]

theorem bytes_slide (rxTime : UInt32) (removed : ℕ → Bool) {s : ReceiveWindow}
    (h : s.bytesInWnd = recordBytes s.record) :
    (s.slide rxTime removed).bytesInWnd = recordBytes (s.kept rxTime removed) := by
  have hfold := foldl_sub_filter (erased s.timeWndSize rxTime removed) s.record.zipIdx 0
  rw [List.zipIdx_map_fst, UInt32.zero_add, UInt32.zero_add] at hfold
  rw [slide, h]
  exact hfold

/-! ## One arrival -/

/-- The loop over the expired entries and the insertion. -/
theorem Ordered.arrive {s : ReceiveWindow} (h : s.Ordered) (now : Time) {id : UInt16}
    (size : UInt32) (removed : ℕ → Bool) (hnew : id ∉ ids s.record)
    (hhalf : OnHalf (id :: ids s.record)) :
    (s.onSocketRecv now id size removed).Ordered ∧
      arrival now id size ∈ (s.onSocketRecv now id size removed).record := by
  have hid := id_arrival now id size
  by_cases hempty : s.record = []
  · have hbytes : s.bytesInWnd = 0 := by rw [h.bytes, hempty]; rfl
    refine ⟨⟨?_, ?_⟩, ?_⟩ <;> simp [onSocketRecv, hempty, hbytes, ids, recordBytes, arrival]
  · have hkept := kept_sublist (rxTimeOf now) removed s
    obtain ⟨base, -, hbase⟩ := hhalf
    have hmem : ∀ r ∈ s.kept (rxTimeOf now) removed, r.id ∈ ids s.record := fun r hr =>
      List.mem_map_of_mem (hkept.subset hr)
    -- the entries that are kept and the new one lie on one half of the circle
    have hbetween : Between (arrival now id size) (s.kept (rxTimeOf now) removed)
        (insert (arrival now id size) (s.kept (rxTimeOf now) removed)) := by
      have hrt : ((arrival now id size).id - base).toNat < 32768 := by
        rw [hid]
        exact hbase id List.mem_cons_self
      refine insert_between hrt ?_ ?_ (h.increasing.sublist (hkept.map _))
      · exact fun r hr => hbase r.id (List.mem_cons_of_mem _ (hmem r hr))
      · rintro r hr heq
        exact hnew (hid ▸ heq ▸ hmem r hr)
    have hrecord : (s.onSocketRecv now id size removed).record
        = insert (arrival now id size) (s.kept (rxTimeOf now) removed) := by
      simp [onSocketRecv, hempty, slide]
    have hbytes : (s.onSocketRecv now id size removed).bytesInWnd
        = recordBytes (s.kept (rxTimeOf now) removed) + size := by
      rw [← bytes_slide (rxTimeOf now) removed h.bytes]
      simp [onSocketRecv, hempty]
    obtain ⟨older, newer, hsplit, hinsert, holder, hnewer⟩ := hbetween.splits
    have hsorted : (ids (s.kept (rxTimeOf now) removed)).Pairwise lessThanSimple :=
      h.increasing.sublist (hkept.map _)
    rw [hsplit] at hsorted
    refine ⟨⟨?_, ?_⟩, ?_⟩
    · rw [hrecord, hinsert]
      exact pairwise_ids_insert hsorted holder hnewer
    · rw [hbytes, hrecord, hinsert, hsplit, recordBytes_append, recordBytes_append,
        recordBytes_cons, UInt32.add_assoc, UInt32.add_comm _ size]
      rfl
    · rw [hrecord, hinsert]
      exact List.mem_append_right _ List.mem_cons_self

/-! ## Feedback -/

/-- Over entries in order the assertion holds. -/
theorem Scan.loop_isSome (scan : Scan) {record : List RcvTime}
    (hordered : (ids record).IsChain lessThanSimple)
    (hfirst : scan.first = false → ∀ rt ∈ record.head?,
      lessThanSimple scan.prevId.toUInt16 rt.id) : ∃ scan', scan.loop record = some scan' := by
  induction record generalizing scan with
  | nil => exact ⟨scan, rfl⟩
  | cons rt record ih =>
      rw [loop_cons scan rt record fun h => hfirst h rt rfl]
      apply ih _ hordered.tail
      intro _
      rw [(round_spec rt record.isEmpty scan).2.1]
      exact lessThanSimple_head hordered

/-- A feedback returns, and leaves the record and the byte count alone. -/
theorem Ordered.feedback {s : ReceiveWindow} (h : s.Ordered) (now : Time) :
    ∃ s' feedback, s.feedbackNetState now = some (s', feedback) ∧ s'.Ordered := by
  obtain ⟨scan, hscan⟩ :=
    (Scan.start s.lastFeedback s.record).loop_isSome h.increasing.isChain nofun
  simp only [feedbackNetState, hscan]
  exact ⟨_, _, rfl, h.increasing, h.bytes⟩

/-! ## Runs -/

theorem ordered_init (wndsize : UInt32) (interval : UInt16) : (init wndsize interval).Ordered where
  increasing := .nil
  bytes := rfl

theorem Ordered.step {s : ReceiveWindow} (h : s.Ordered) {e : Event} (he : s.Admissible e) :
    ∃ s', s.step e = some s' ∧ s'.Ordered := by
  cases e with
  | arrive now id size removed => exact ⟨_, rfl, (h.arrive now size removed he.1 he.2).1⟩
  | feedback now =>
      obtain ⟨s', feedback, hreturns, h'⟩ := h.feedback now
      refine ⟨s', ?_, h'⟩
      simp only [ReceiveWindow.step, hreturns, Option.map_some]

/-- After every packet of a run whose ids span less than half the circle, the record is ordered
and contains the packet, its bytes are counted, and the next feedback returns. -/
theorem ordered_after_arrival (wndsize : UInt32) (interval : UInt16) {events : List Event}
    {now : Time} {id : UInt16} {size : UInt32} {removed : ℕ → Bool}
    (h : Run.Each step Admissible (init wndsize interval)
      (events ++ [.arrive now id size removed])) :
    ∃ s, Run.exec step (init wndsize interval) (events ++ [.arrive now id size removed]) = some s ∧
      (ids s.record).Pairwise lessThanSimple ∧ arrival now id size ∈ s.record ∧
      s.bytesInWnd = recordBytes s.record ∧ ∀ later, (s.feedbackNetState later).isSome := by
  obtain ⟨t, ht, hordered⟩ := h.of_append.exec (fun _ _ hs he => hs.step he)
    (ordered_init wndsize interval)
  have hlast : t.Admissible (.arrive now id size removed) := (h.of_append_right ht).1
  obtain ⟨hafter, hmem⟩ := hordered.arrive now size removed hlast.1 hlast.2
  refine ⟨_, Run.exec_append_eq_some.mpr ⟨t, ht, rfl⟩, hafter.increasing, hmem, hafter.bytes, ?_⟩
  intro later
  obtain ⟨s', feedback, hreturns, -⟩ := hafter.feedback later
  rw [hreturns]
  rfl

/-- Packet 0 behind packet 65535, which has expired. -/
theorem ordered_after_arrival_wrap :
    ∃ s, Run.exec step (init 34000 25)
        ([.arrive (2000000000) 65535 1200 fun _ => true,
          .arrive (2010000000) 1 1200 fun _ => true]
          ++ [.arrive (2040000000) 0 1300 fun _ => true]) = some s ∧
      (ids s.record).Pairwise lessThanSimple ∧
      arrival (2040000000) 0 1300 ∈ s.record ∧
      s.bytesInWnd = recordBytes s.record ∧ ∀ later, (s.feedbackNetState later).isSome :=
  ordered_after_arrival 34000 25 (by decide +kernel)

/-! ## Ids around the whole circle -/

/-- A packet whose id is new to the record, and less than half the circle from each id in it. -/
def NearEach (s : ReceiveWindow) : Event → Prop
  | .arrive _ id _ _ => ∀ i ∈ ids s.record, i ≠ id ∧ (lessThanSimple i id ∨ lessThanSimple id i)
  | .feedback _ => True

instance (s : ReceiveWindow) : DecidablePred s.NearEach
  | .arrive _ _ _ _ => List.decidableBAll _ _
  | .feedback _ => .isTrue trivial

/-- Packets 0, 20000 and 40000 are a third of the circle apart, so that 40000 is entered in front
of packet 0. When packet 0 has expired, 20000 stands behind 40000. -/
def aroundTheCircle : List Event :=
  [.arrive (2000000000) 0 1200 fun _ => true,
    .arrive (2020000000) 20000 1200 fun _ => true,
    .arrive (2030000000) 40000 1200 fun _ => true,
    .arrive (2040000000) 10000 1200 fun _ => true]

/-- Ids less than half the circle from each id in the record are not enough. -/
theorem not_ordered_of_nearEach :
    ¬ ∀ events : List Event, Run.Each step NearEach (init 34000 25) events →
      ∀ s ∈ Run.exec step (init 34000 25) events,
        (ids s.record).Pairwise lessThanSimple ∧
          ∀ later, (s.feedbackNetState later).isSome := by
  intro hall
  have hnear : Run.Each step NearEach (init 34000 25) aroundTheCircle := by decide +kernel
  have hrun : ∃ s ∈ Run.exec step (init 34000 25) aroundTheCircle,
      ¬ (ids s.record).Pairwise lessThanSimple := by decide +kernel
  obtain ⟨s, hs, hunordered⟩ := hrun
  exact hunordered (hall aroundTheCircle hnear s hs).1

end Zhuge.ReceiveWindow
