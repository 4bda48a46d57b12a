-- SUMMARY: The statistics of a packet group start again with every packet that comes before the first data packet.
import Zhuge.GroupFec

/-!
# Group statistics

`AddPacket` initialises the statistics when nothing is decoded yet. That is so for the first
packet, but also for every later one as long as only FEC packets have come.
-/

namespace Zhuge

/-- A group and the packets added to it. -/
structure GroupLog where
  group : PacketGroup
  seen : List VideoPacket

namespace PacketGroup

variable {g g' : PacketGroup} {pkt : VideoPacket} {now : Time} {pick : ℕ} {out : List DataPacket}

/-- The statistics of a packet that arrives before anything is decoded are its own. -/
theorem recordPacket_of_init (pkt : VideoPacket)
    (h : g.decodedPkts.card + g.undecodedPkts.length = 0) :
    (g.recordPacket pkt).maxTxCount = pkt.header.txCount ∧
    (g.recordPacket pkt).firstRcvTime = pkt.info.rcvTime ∧
    (g.recordPacket pkt).lastRcvTimeTx0 = pkt.info.rcvTime := by
  obtain ⟨a, b, c, d, heq⟩ := countPacket_eq pkt (g.initGroup pkt)
  simp only [recordPacket, if_pos h, heq]
  refine ⟨?_, rfl, ?_⟩
  · simp [initGroup]
  · simp [initGroup]

/-- Those of a later packet join the others. -/
theorem recordPacket_of_not_init (pkt : VideoPacket)
    (h : g.decodedPkts.card + g.undecodedPkts.length ≠ 0) :
    (g.recordPacket pkt).maxTxCount =
      (if pkt.header.txCount > g.maxTxCount then pkt.header.txCount else g.maxTxCount) ∧
    (g.recordPacket pkt).firstRcvTime = g.firstRcvTime ∧
    (g.recordPacket pkt).lastRcvTimeTx0 =
      (if pkt.info.rcvTime > g.lastRcvTimeTx0 ∧ pkt.header.txCount = 0 then pkt.info.rcvTime
        else g.lastRcvTimeTx0) := by
  obtain ⟨a, b, c, d, heq⟩ := countPacket_eq pkt g
  simp only [recordPacket, if_neg h, heq, and_self]

/-- Nothing behind the statistics changes them. -/
theorem receive_statistics (h : g.receive now pick pkt = some (out, g')) :
    g'.maxTxCount = (g.recordPacket pkt).maxTxCount ∧
    g'.firstRcvTime = (g.recordPacket pkt).firstRcvTime ∧
    g'.lastRcvTimeTx0 = (g.recordPacket pkt).lastRcvTimeTx0 ∧ g'.undecodedPkts = [] := by
  simp only [receive, addPacket, Option.bind_eq_bind, Option.map_eq_some_iff] at h
  obtain ⟨g₁, hadd, hout⟩ := h
  rw [← (Prod.mk.inj hout).2]
  split at hadd
  · cases hadd
    exact ⟨rfl, rfl, rfl, rfl⟩
  · obtain ⟨b, -, hadd⟩ := Option.bind_eq_some_iff.mp hadd
    obtain ⟨⟨complete, b'⟩, -, hadd⟩ := Option.bind_eq_some_iff.mp hadd
    cases hadd
    cases complete <;> exact ⟨rfl, rfl, rfl, rfl⟩

end PacketGroup

namespace GroupLog

/-- A group as the receiver makes it. -/
def start (groupId : UInt32) (dataNum : UInt16) (encodeTime : Time) : GroupLog where
  group := .new groupId dataNum encodeTime
  seen := []

/-- `AddPacket` and `GetUndecodedPackets`. `none`: an assertion fails, or the clock went back. -/
def step (s : GroupLog) (a : Arrival) : Option GroupLog :=
  if ∀ p ∈ s.seen, p.info.rcvTime ≤ a.pkt.info.rcvTime then
    (s.group.receive a.now a.pick a.pkt).map fun r => ⟨r.2, s.seen ++ [a.pkt]⟩
  else none

/-- The receive time of the last packet of the first transmission, or of the first packet
where there is none. -/
def IsLastRcvTimeTx0 (seen : List VideoPacket) (first : VideoPacket) (time : Time) : Prop :=
  (∀ p ∈ seen, p.header.txCount = 0 → p.info.rcvTime ≤ time) ∧
    ((∃ p ∈ seen, p.header.txCount = 0 ∧ p.info.rcvTime = time) ∨
      (∀ p ∈ seen, p.header.txCount ≠ 0) ∧ first.info.rcvTime = time)

/-- The statistics are those of all the packets. -/
structure Statistics (seen : List VideoPacket) (first : VideoPacket) (g : PacketGroup) :
    Prop where
  maxTxCount : (∃ p ∈ seen, p.header.txCount = g.maxTxCount) ∧
    ∀ p ∈ seen, p.header.txCount ≤ g.maxTxCount
  firstRcvTime : g.firstRcvTime = first.info.rcvTime
  lastRcvTimeTx0 : IsLastRcvTimeTx0 seen first g.lastRcvTimeTx0
  avgPktInterval : ∀ last, IsLastRcvTimeTx0 seen first last → g.avgPktInterval =
    if g.lastPktIdTx0 = 0 then Time.microSeconds 0
    else (last - first.info.rcvTime).tdiv (g.dataNum.toNat + g.fecNum.toNat)

/-- The statistics are right, if there are packets. -/
def StatisticsRight (s : GroupLog) : Prop :=
  ∀ first ∈ s.seen.head?, Statistics s.seen first s.group

/-- Something is decoded already, or the packet can take the place of the others: all came at
one time, and none has a higher count. -/
def StartsOnce (s : GroupLog) (a : Arrival) : Prop :=
  s.group.decodedPkts ≠ ∅ ∨ ∀ p ∈ s.seen, p.info.rcvTime = a.pkt.info.rcvTime ∧
    p.header.txCount ≤ a.pkt.header.txCount

variable {s s' : GroupLog} {a : Arrival} {seen : List VideoPacket} {first : VideoPacket}
  {g g' : PacketGroup}

theorem IsLastRcvTimeTx0.unique {t u : Time} (ht : IsLastRcvTimeTx0 seen first t)
    (hu : IsLastRcvTimeTx0 seen first u) : t = u := by
  obtain ⟨htmax, ⟨p, hp, hp0, rfl⟩ | ⟨hnone, rfl⟩⟩ := ht
  · obtain ⟨humax, ⟨q, hq, hq0, rfl⟩ | ⟨hnone, -⟩⟩ := hu
    · exact le_antisymm (humax p hp hp0) (htmax q hq hq0)
    · exact absurd hp0 (hnone p hp)
  · obtain ⟨-, ⟨q, hq, hq0, -⟩ | ⟨-, hu⟩⟩ := hu
    · exact absurd hq0 (hnone q hq)
    · exact hu

/-- The mean interval is computed from the others. -/
theorem Statistics.of_times
    (hmax : (∃ p ∈ seen, p.header.txCount = g.maxTxCount) ∧
      ∀ p ∈ seen, p.header.txCount ≤ g.maxTxCount)
    (hfirst : g.firstRcvTime = first.info.rcvTime)
    (hlast : IsLastRcvTimeTx0 seen first g.lastRcvTimeTx0) : Statistics seen first g where
  maxTxCount := hmax
  firstRcvTime := hfirst
  lastRcvTimeTx0 := hlast
  avgPktInterval last h := by rw [PacketGroup.avgPktInterval, hlast.unique h, hfirst]

/-- The first packet. -/
theorem statistics_singleton {pkt : VideoPacket} (hmax : g'.maxTxCount = pkt.header.txCount)
    (hfirst : g'.firstRcvTime = pkt.info.rcvTime) (hlast : g'.lastRcvTimeTx0 = pkt.info.rcvTime) :
    Statistics [pkt] pkt g' := by
  apply Statistics.of_times
  · simp [hmax]
  · exact hfirst
  · rw [hlast]
    refine ⟨by simp, ?_⟩
    by_cases h0 : pkt.header.txCount = 0
    · exact .inl ⟨pkt, by simp, h0, rfl⟩
    · exact .inr ⟨by simpa using h0, rfl⟩

theorem maxTxCount_append {pkt : VideoPacket}
    (h : (∃ p ∈ seen, p.header.txCount = g.maxTxCount) ∧
      ∀ p ∈ seen, p.header.txCount ≤ g.maxTxCount)
    (hmax : g'.maxTxCount =
      if pkt.header.txCount > g.maxTxCount then pkt.header.txCount else g.maxTxCount) :
    (∃ p ∈ seen ++ [pkt], p.header.txCount = g'.maxTxCount) ∧
      ∀ p ∈ seen ++ [pkt], p.header.txCount ≤ g'.maxTxCount := by
  obtain ⟨⟨most, hmost, heq⟩, hle⟩ := h
  rw [hmax]
  split
  case isTrue hgt =>
    refine ⟨⟨pkt, by simp, rfl⟩, fun p hp => ?_⟩
    rcases List.mem_append.mp hp with hp | hp
    · exact UInt8.le_trans (hle p hp) (UInt8.le_of_lt hgt)
    · rw [List.mem_singleton.mp hp]
      exact UInt8.le_refl _
  case isFalse hgt =>
    refine ⟨⟨most, List.mem_append_left _ hmost, heq⟩, fun p hp => ?_⟩
    rcases List.mem_append.mp hp with hp | hp
    · exact hle p hp
    · rw [List.mem_singleton.mp hp]
      exact UInt8.not_lt.mp hgt

theorem IsLastRcvTimeTx0.append {pkt : VideoPacket} {t : Time}
    (h : IsLastRcvTimeTx0 seen first t) (hmem : first ∈ seen)
    (hclock : ∀ p ∈ seen, p.info.rcvTime ≤ pkt.info.rcvTime) :
    IsLastRcvTimeTx0 (seen ++ [pkt]) first
      (if pkt.info.rcvTime > t ∧ pkt.header.txCount = 0 then pkt.info.rcvTime else t) := by
  obtain ⟨hle, hlast⟩ := h
  split
  case isTrue hnew =>
    refine ⟨fun p hp _ => ?_, .inl ⟨pkt, by simp, hnew.2, rfl⟩⟩
    rcases List.mem_append.mp hp with hp | hp
    · exact hclock p hp
    · rw [List.mem_singleton.mp hp]
  case isFalse hold =>
    constructor
    · intro p hp hp0
      rcases List.mem_append.mp hp with hp | hp
      · exact hle p hp hp0
      · rw [List.mem_singleton.mp hp] at hp0 ⊢
        exact not_lt.mp fun hgt => hold ⟨hgt, hp0⟩
    · rcases hlast with ⟨p, hp, hp0, heq⟩ | ⟨hnone, heq⟩
      · exact .inl ⟨p, List.mem_append_left _ hp, hp0, heq⟩
      · by_cases hpkt : pkt.header.txCount = 0
        · -- the packet came together with the first one
          have hge : t ≤ pkt.info.rcvTime := heq ▸ hclock first hmem
          have hle' : pkt.info.rcvTime ≤ t := not_lt.mp fun hgt => hold ⟨hgt, hpkt⟩
          exact .inl ⟨pkt, by simp, hpkt, le_antisymm hle' hge⟩
        · refine .inr ⟨fun p hp => ?_, heq⟩
          rcases List.mem_append.mp hp with hp | hp
          · exact hnone p hp
          · rwa [List.mem_singleton.mp hp]

/-- A packet that starts the statistics again. -/
theorem statistics_restart_iff {pkt : VideoPacket} (hmem : first ∈ seen)
    (hfrom : ∀ p ∈ seen, first.info.rcvTime ≤ p.info.rcvTime)
    (hclock : ∀ p ∈ seen, p.info.rcvTime ≤ pkt.info.rcvTime)
    (hmax : g'.maxTxCount = pkt.header.txCount) (hfirst : g'.firstRcvTime = pkt.info.rcvTime)
    (hlast : g'.lastRcvTimeTx0 = pkt.info.rcvTime) :
    Statistics (seen ++ [pkt]) first g' ↔ ∀ p ∈ seen,
      p.info.rcvTime = pkt.info.rcvTime ∧ p.header.txCount ≤ pkt.header.txCount := by
  constructor
  · intro h' p hp
    have htime : pkt.info.rcvTime = first.info.rcvTime := hfirst.symm.trans h'.firstRcvTime
    constructor
    · exact le_antisymm (hclock p hp) (htime ▸ hfrom p hp)
    · rw [← hmax]
      exact h'.maxTxCount.2 p (List.mem_append_left _ hp)
  · intro hall
    have hsame : ∀ p ∈ seen ++ [pkt], p.info.rcvTime = pkt.info.rcvTime := by
      intro p hp
      rcases List.mem_append.mp hp with hp | hp
      · exact (hall p hp).1
      · rw [List.mem_singleton.mp hp]
    have htime : pkt.info.rcvTime = first.info.rcvTime :=
      (hsame first (List.mem_append_left _ hmem)).symm
    apply Statistics.of_times
    · rw [hmax]
      refine ⟨⟨pkt, by simp, rfl⟩, fun p hp => ?_⟩
      rcases List.mem_append.mp hp with hp | hp
      · exact (hall p hp).2
      · rw [List.mem_singleton.mp hp]
        exact UInt8.le_refl _
    · rw [hfirst, htime]
    · rw [hlast]
      refine ⟨fun p hp _ => (hsame p hp).le, ?_⟩
      by_cases hsome : ∃ p ∈ seen ++ [pkt], p.header.txCount = 0
      · obtain ⟨p, hp, hp0⟩ := hsome
        exact .inl ⟨p, hp, hp0, hsame p hp⟩
      · exact .inr ⟨fun p hp hp0 => hsome ⟨p, hp, hp0⟩, htime.symm⟩

/-! ## Runs -/

/-- What every step keeps. -/
structure Kept (s : GroupLog) : Prop where
  undecoded : s.group.undecodedPkts = []
  unstarted : s.seen = [] → s.group.decodedPkts = ∅
  fromFirst : ∀ first ∈ s.seen.head?, ∀ p ∈ s.seen, first.info.rcvTime ≤ p.info.rcvTime

theorem Kept.start (groupId : UInt32) (dataNum : UInt16) (encodeTime : Time) :
    Kept (.start groupId dataNum encodeTime) where
  undecoded := rfl
  unstarted _ := rfl
  fromFirst _ h := by cases h

theorem step_eq_some (h : s.step a = some s') :
    (∀ p ∈ s.seen, p.info.rcvTime ≤ a.pkt.info.rcvTime) ∧ s'.seen = s.seen ++ [a.pkt] ∧
      ∃ out, s.group.receive a.now a.pick a.pkt = some (out, s'.group) := by
  unfold step at h
  split at h
  case isTrue hclock =>
    obtain ⟨r, hreceive, rfl⟩ := Option.map_eq_some_iff.mp h
    exact ⟨hclock, rfl, r.1, hreceive⟩
  case isFalse => cases h

theorem Kept.step (hs : Kept s) (h : s.step a = some s') : Kept s' := by
  obtain ⟨hclock, hseen, out, hreceive⟩ := step_eq_some h
  refine ⟨(PacketGroup.receive_statistics hreceive).2.2.2, fun hnil => ?_,
    fun first hfirst p hp => ?_⟩
  · simp [hseen] at hnil
  · rw [hseen] at hfirst hp
    cases hold : s.seen with
    | nil =>
      simp only [hold, List.nil_append, List.head?_cons, Option.mem_def,
        Option.some.injEq] at hfirst
      simp only [hold, List.nil_append, List.mem_singleton] at hp
      rw [hp, hfirst]
    | cons q rest =>
      simp only [hold, List.cons_append, List.head?_cons, Option.mem_def,
        Option.some.injEq] at hfirst
      subst hfirst
      have hhead : q ∈ s.seen.head? := by simp [hold]
      rcases List.mem_append.mp hp with hp | hp
      · exact hs.fromFirst q hhead p hp
      · rw [List.mem_singleton.mp hp]
        exact hclock q (by simp [hold])

/-- One step: the statistics stay right exactly when they are not started again for nothing. -/
theorem statisticsRight_step_iff (hs : Kept s) (hright : s.StatisticsRight)
    (h : s.step a = some s') : s'.StatisticsRight ↔ s.StartsOnce a := by
  obtain ⟨hclock, hseen, out, hreceive⟩ := step_eq_some h
  obtain ⟨hmax, hfirst, hlast, -⟩ := PacketGroup.receive_statistics hreceive
  have hcard : s.group.decodedPkts.card + s.group.undecodedPkts.length =
      s.group.decodedPkts.card := by rw [hs.undecoded, List.length_nil, Nat.add_zero]
  cases hold : s.seen with
  | nil =>
    have hinit : s.group.decodedPkts.card + s.group.undecodedPkts.length = 0 := by
      rw [hcard, hs.unstarted hold, Finset.card_empty]
    obtain ⟨hmax', hfirst', hlast'⟩ := PacketGroup.recordPacket_of_init a.pkt hinit
    refine iff_of_true (fun first hmem => ?_) (.inr (by simp [hold]))
    rw [hseen, hold] at hmem ⊢
    simp only [List.nil_append, List.head?_cons, Option.mem_def, Option.some.injEq] at hmem
    subst hmem
    exact statistics_singleton (hmax.trans hmax') (hfirst.trans hfirst') (hlast.trans hlast')
  | cons first rest =>
    have hhead : first ∈ s.seen.head? := by simp [hold]
    have hmem : first ∈ s.seen := by simp [hold]
    have hstats := hright first hhead
    have hiff : s'.StatisticsRight ↔ Statistics (s.seen ++ [a.pkt]) first s'.group := by
      simp [StatisticsRight, hseen, hold]
    rw [hiff]
    by_cases hdecoded : s.group.decodedPkts = ∅
    · have hinit : s.group.decodedPkts.card + s.group.undecodedPkts.length = 0 := by
        rw [hcard, hdecoded, Finset.card_empty]
      obtain ⟨hmax', hfirst', hlast'⟩ := PacketGroup.recordPacket_of_init a.pkt hinit
      rw [statistics_restart_iff hmem (hs.fromFirst first hhead) hclock
        (hmax.trans hmax') (hfirst.trans hfirst') (hlast.trans hlast')]
      exact (or_iff_right (not_not.mpr hdecoded)).symm
    · have hinit : s.group.decodedPkts.card + s.group.undecodedPkts.length ≠ 0 := by
        rw [hcard]
        exact fun h0 => hdecoded (Finset.card_eq_zero.mp h0)
      obtain ⟨hmax', hfirst', hlast'⟩ := PacketGroup.recordPacket_of_not_init a.pkt hinit
      refine iff_of_true ?_ (.inl hdecoded)
      apply Statistics.of_times
      · exact maxTxCount_append hstats.maxTxCount (hmax.trans hmax')
      · exact hfirst.trans (hfirst'.trans hstats.firstRcvTime)
      · rw [hlast, hlast']
        exact hstats.lastRcvTimeTx0.append hmem hclock

/-- Over a run, the statistics are right after every packet exactly when no packet starts
them again that makes a difference. -/
theorem statisticsRight_iff_startsOnce (groupId : UInt32) (dataNum : UInt16) (encodeTime : Time)
    {arrivals : List Arrival}
    (h : (Run.exec step (.start groupId dataNum encodeTime) arrivals).isSome) :
    Run.Always step StatisticsRight (.start groupId dataNum encodeTime) arrivals ↔
      Run.Each step StartsOnce (.start groupId dataNum encodeTime) arrivals := by
  obtain ⟨last, hrun⟩ := Option.isSome_iff_exists.mp h
  apply Run.always_iff_each_of_exec (I := Kept) ?_ ?_ (.start groupId dataNum encodeTime) ?_ hrun
  · exact fun _ _ _ hs hstep => hs.step hstep
  · exact fun _ _ _ hs hright hstep => statisticsRight_step_iff hs hright hstep
  · intro first hmem
    cases hmem

/-- The first data packet of a batch of two, received at `rcvTime`. -/
def firstData (rcvTime : Time) : DataPacket :=
  { DataPacket.new 0 2 2 0 with
    groupDataNum := 2
    groupFecNum := 1
    batchDataNum := 2
    batchFecNum := 1
    rcvTime := rcvTime }

/-- The FEC packet of that batch. -/
def onlyFec (rcvTime : Time) : FECPacket :=
  { FECPacket.new 0 [firstData 0, { firstData 0 with pktIdInBatch := 1, pktIdInGroup := 1 }] with
    groupDataNum := 2
    groupFecNum := 1
    pktIdInGroup := 2
    batchDataNum := 2
    batchFecNum := 1
    pktIdInBatch := 2
    rcvTime := rcvTime }

/-- The data packet first, and the FEC packet ten milliseconds later. -/
theorem statisticsRight_dataFirst :
    Run.Always step StatisticsRight (.start 0 2 0)
      [⟨0, 0, .data (firstData 0)⟩,
        ⟨Time.milliSeconds 10, 0, .fec (onlyFec (Time.milliSeconds 10))⟩] := by
  apply (statisticsRight_iff_startsOnce 0 2 0 (by decide)).mpr
  refine ⟨.inr (by simp [start]), fun s hs => ⟨.inl ?_, fun _ _ => trivial⟩⟩
  cases hs
  decide

/-- The FEC packet first: the group takes the data packet for its first one. -/
theorem not_statisticsRight_fecFirst :
    ¬ ∀ (groupId : UInt32) (dataNum : UInt16) (encodeTime : Time) (arrivals : List Arrival),
      (Run.exec step (.start groupId dataNum encodeTime) arrivals).isSome →
        Run.Always step StatisticsRight (.start groupId dataNum encodeTime) arrivals := by
  intro h
  obtain ⟨s, hs⟩ : ∃ s, Run.exec step (.start 0 2 0) [⟨0, 0, .fec (onlyFec 0)⟩,
      ⟨Time.milliSeconds 10, 0, .data (firstData (Time.milliSeconds 10))⟩] = some s := ⟨_, rfl⟩
  have hright := (h 0 2 0 _ (Option.isSome_of_eq_some hs)).exec hs
  cases hs
  exact absurd (hright _ rfl).firstRcvTime (by decide)

end GroupLog

end Zhuge
