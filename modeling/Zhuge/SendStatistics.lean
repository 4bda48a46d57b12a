-- SUMMARY: The sender's counters of first transmissions and of the rest, and that leaving out the first ten frames leaves out exactly their groups.
import Zhuge.LedGroups
import Zhuge.WireTrip

/-!
# Send statistics

The sender counts first transmissions and all other packets, twice: once over the whole run, and
once without the groups of the first ten frames. An FEC packet does not say which frame it is of.
The sender knows the groups of the first frames by the data packets it has sent, so the second
count rests on an FEC packet never leaving before a data packet of its group.
-/

namespace Zhuge

/-! ## Counters -/

/-- `pkt_to_send->GetSize()`, as a 16-bit number. -/
def VideoPacket.pktSize (P : Type) [PacketBuffer P] (pkt : VideoPacket) : UInt16 :=
  .ofNat (PacketBuffer.bytes (NetworkPacket.toNetPacket (.video pkt) : P)).length

def VideoPacket.isGoodput (pkt : VideoPacket) : Bool :=
  pkt.packetType = .dataPkt && pkt.header.txCount = 0

/-- A number of packets and their bytes. -/
structure PktTally where
  count : UInt64
  size : UInt64
deriving DecidableEq

def PktTally.add (pktSize : UInt16) (t : PktTally) : PktTally :=
  ⟨t.count + 1, t.size + pktSize.toUInt64⟩

structure SendStatistics where
  firstTenFrameGroupId : Finset UInt32
  initDataPkt : PktTally
  otherPkt : PktTally
  excludeHeadInitDataPkt : PktTally
  excludeHeadOtherPkt : PktTally

namespace SendStatistics

def new : SendStatistics := ⟨∅, ⟨0, 0⟩, ⟨0, 0⟩, ⟨0, 0⟩, ⟨0, 0⟩⟩

/-- The groups of the first frames, after this packet. -/
def headGroups (pkt : VideoPacket) (groups : Finset UInt32) : Finset UInt32 :=
  match pkt with
  | .data pkt => if pkt.frameId < 10 then insert pkt.groupId groups else groups
  | _ => groups

/-- The counters of `SendPacket`. -/
def record (P : Type) [PacketBuffer P] (pkt : VideoPacket) (c : SendStatistics) : SendStatistics :=
  let groups := headGroups pkt c.firstTenFrameGroupId
  let size := pkt.pktSize P
  let inHead := pkt.header.groupId ∈ groups
  if pkt.isGoodput then
    { c with
      firstTenFrameGroupId := groups
      initDataPkt := c.initDataPkt.add size
      excludeHeadInitDataPkt :=
        if inHead then c.excludeHeadInitDataPkt else c.excludeHeadInitDataPkt.add size }
  else
    { c with
      firstTenFrameGroupId := groups
      otherPkt := c.otherPkt.add size
      excludeHeadOtherPkt :=
        if inHead then c.excludeHeadOtherPkt else c.excludeHeadOtherPkt.add size }

section

variable (P : Type) [PacketBuffer P] (pkt : VideoPacket) (c : SendStatistics)

theorem record_firstTenFrameGroupId : (c.record P pkt).firstTenFrameGroupId =
    headGroups pkt c.firstTenFrameGroupId := by
  unfold record
  cases pkt.isGoodput <;> rfl

theorem record_initDataPkt : (c.record P pkt).initDataPkt =
    if pkt.isGoodput then c.initDataPkt.add (pkt.pktSize P) else c.initDataPkt := by
  unfold record
  cases pkt.isGoodput <;> rfl

theorem record_otherPkt : (c.record P pkt).otherPkt =
    if !pkt.isGoodput then c.otherPkt.add (pkt.pktSize P) else c.otherPkt := by
  unfold record
  cases pkt.isGoodput <;> rfl

theorem record_excludeHeadInitDataPkt : (c.record P pkt).excludeHeadInitDataPkt =
    if decide (pkt.header.groupId ∉ headGroups pkt c.firstTenFrameGroupId) && pkt.isGoodput
    then c.excludeHeadInitDataPkt.add (pkt.pktSize P) else c.excludeHeadInitDataPkt := by
  unfold record
  by_cases hin : pkt.header.groupId ∈ headGroups pkt c.firstTenFrameGroupId <;>
    cases pkt.isGoodput <;> simp [hin]

theorem record_excludeHeadOtherPkt : (c.record P pkt).excludeHeadOtherPkt =
    if decide (pkt.header.groupId ∉ headGroups pkt c.firstTenFrameGroupId) && !pkt.isGoodput
    then c.excludeHeadOtherPkt.add (pkt.pktSize P) else c.excludeHeadOtherPkt := by
  unfold record
  by_cases hin : pkt.header.groupId ∈ headGroups pkt c.firstTenFrameGroupId <;>
    cases pkt.isGoodput <;> simp [hin]

end

/-- `GetBandwidthLossRate`. `none`: the quotient is infinite. -/
def getBandwidthLossRate (c : SendStatistics) : Option Binary64 :=
  if c.initDataPkt.count + c.otherPkt.count = 0 then some (.ofNat 0)
  else if c.initDataPkt.count = 0 then none
  else some (.div (.ofNat c.otherPkt.count.toNat) (.ofNat c.initDataPkt.count.toNat))

end SendStatistics

/-- The sender with its counters. -/
structure CountingSender where
  sender : PacketSenderUdp
  statistics : SendStatistics

namespace CountingSender

def new (delayDdl : Time) : CountingSender := ⟨.new delayDdl, .new⟩

/-- One step. Every packet that goes out is counted. -/
def step (P : Type) [PacketBuffer P] (s : CountingSender) (e : PacketSenderUdp.Event) :
    Option CountingSender :=
  (s.sender.step e).map fun sender => {
    sender
    statistics := (sender.sent.drop s.sender.sent.length).foldl
      (fun c pkt => c.record P pkt) s.statistics }

end CountingSender

/-! ## What the counters mean -/

section

variable (P : Type) [PacketBuffer P]

/-- The packets and bytes of a list, as the counters hold them. -/
def PktTally.of (pkts : List VideoPacket) : PktTally :=
  ⟨.ofNat pkts.length, .ofNat (pkts.map fun pkt => (pkt.pktSize P).toNat).sum⟩

theorem PktTally.of_append (pkts : List VideoPacket) (pkt : VideoPacket) :
    PktTally.of P (pkts ++ [pkt]) = (PktTally.of P pkts).add (pkt.pktSize P) := by
  rw [of, of, add, List.length_append, List.map_append, List.sum_append, UInt64.ofNat_add,
    UInt64.ofNat_add]
  simp

theorem PktTally.of_filter_append (p : VideoPacket → Bool) (pkts : List VideoPacket)
    (pkt : VideoPacket) : PktTally.of P ((pkts ++ [pkt]).filter p) =
      if p pkt then (PktTally.of P (pkts.filter p)).add (pkt.pktSize P)
      else PktTally.of P (pkts.filter p) := by
  rw [List.filter_append]
  cases h : p pkt with
  | true => rw [List.filter_cons_of_pos h, List.filter_nil, PktTally.of_append, if_pos rfl]
  | false =>
      rw [List.filter_cons_of_neg (Bool.eq_false_iff.mp h), List.filter_nil, List.append_nil]
      rfl

/-- The packet's group is of a frame behind the first ten. -/
def PacketSenderUdp.pastHead (s : PacketSenderUdp) (pkt : VideoPacket) : Bool :=
  s.sources.any fun src => src.groupId = pkt.header.groupId && 10 ≤ src.frameId

namespace CountingSender

/-- The first transmissions so far. -/
def goodput (s : CountingSender) : List VideoPacket := s.sender.sent.filter (·.isGoodput)

/-- Everything else. -/
def others (s : CountingSender) : List VideoPacket := s.sender.sent.filter (!·.isGoodput)

/-- The counters count what their names say, modulo 2^64. -/
structure Counts (s : CountingSender) : Prop where
  initDataPkt : s.statistics.initDataPkt = .of P s.goodput
  otherPkt : s.statistics.otherPkt = .of P s.others
  excludeHeadInitDataPkt : s.sender.sendGroupCnt ≤ 2 ^ 32 →
    s.statistics.excludeHeadInitDataPkt = .of P (s.goodput.filter s.sender.pastHead)
  excludeHeadOtherPkt : s.sender.sendGroupCnt ≤ 2 ^ 32 →
    s.statistics.excludeHeadOtherPkt = .of P (s.others.filter s.sender.pastHead)

/-- The invariant of a run: the counters, and the groups that the sender takes for those of the
first frames. -/
structure Consistent (s : CountingSender) : Prop extends Counts P s where
  traced : ∃ frames, s.sender.Traced frames []
  labelled : s.sender.Labelled
  groups : ∀ groupId, groupId ∈ s.statistics.firstTenFrameGroupId ↔
    ∃ pkt, VideoPacket.data pkt ∈ s.sender.sent ∧ pkt.groupId = groupId ∧ pkt.frameId < 10

variable {P} {s s' : CountingSender}

/-- The group of a packet on the wire is of the frame of any data packet sent of it. -/
theorem pastHead_iff {t : PacketSenderUdp} {frames : List (UInt32 × Time)}
    (htraced : t.Traced frames []) (hlabelled : t.Labelled) (hfits : t.sendGroupCnt ≤ 2 ^ 32)
    {pkt : VideoPacket} {d : DataPacket} (hd : .data d ∈ t.sent)
    (hgroup : d.groupId = pkt.header.groupId) : t.pastHead pkt ↔ 10 ≤ d.frameId := by
  have hsource : d.source ∈ t.sources := htraced.sent _ hd
  simp only [PacketSenderUdp.pastHead, List.any_eq_true, Bool.and_eq_true, decide_eq_true_eq]
  constructor
  · rintro ⟨src, hsrc, hsame, hframe⟩
    have heq := hlabelled.frame hfits src hsrc _ hsource (hsame.trans hgroup.symm)
    change src.frameId = d.frameId at heq
    exact heq ▸ hframe
  · exact fun hframe => ⟨_, hsource, hgroup, hframe⟩

/-- The sender goes on and sends nothing. -/
theorem Consistent.sameSent (h : Consistent P s) {sender : PacketSenderUdp}
    {frames : List (UInt32 × Time)} (htraced : sender.Traced frames [])
    (hlabelled : sender.Labelled) (hsent : sender.sent = s.sender.sent)
    (hcnt : s.sender.sendGroupCnt ≤ sender.sendGroupCnt) : Consistent P { s with sender } := by
  obtain ⟨frames', htraced'⟩ := h.traced
  have hpast : sender.sendGroupCnt ≤ 2 ^ 32 → ∀ pkt ∈ s.sender.sent,
      sender.pastHead pkt = s.sender.pastHead pkt := by
    intro hfits pkt hpkt
    obtain ⟨d, hd, hgroup⟩ := h.labelled.sent pkt hpkt
    rw [Bool.eq_iff_iff, pastHead_iff htraced hlabelled hfits (hsent ▸ hd) hgroup,
      pastHead_iff htraced' h.labelled (hcnt.trans hfits) hd hgroup]
  have hfilter : sender.sendGroupCnt ≤ 2 ^ 32 → ∀ p : VideoPacket → Bool,
      (sender.sent.filter p).filter sender.pastHead =
        (s.sender.sent.filter p).filter s.sender.pastHead := by
    intro hfits p
    rw [hsent]
    exact List.filter_congr fun pkt hpkt => hpast hfits pkt (List.mem_of_mem_filter hpkt)
  refine ⟨⟨?_, ?_, fun hfits => ?_, fun hfits => ?_⟩, ⟨frames, htraced⟩, hlabelled, ?_⟩
  · rw [goodput, hsent]
    exact h.initDataPkt
  · rw [others, hsent]
    exact h.otherPkt
  · rw [goodput, hfilter hfits]
    exact h.excludeHeadInitDataPkt (hcnt.trans hfits)
  · rw [others, hfilter hfits]
    exact h.excludeHeadOtherPkt (hcnt.trans hfits)
  · intro groupId
    rw [hsent]
    exact h.groups groupId

/-- The groups after a packet went out. -/
theorem mem_headGroups {sent : List VideoPacket} {groups : Finset UInt32} (pkt : VideoPacket)
    (h : ∀ groupId, groupId ∈ groups ↔
      ∃ d, VideoPacket.data d ∈ sent ∧ d.groupId = groupId ∧ d.frameId < 10) (groupId : UInt32) :
    groupId ∈ SendStatistics.headGroups pkt groups ↔
      ∃ d, VideoPacket.data d ∈ sent ++ [pkt] ∧ d.groupId = groupId ∧ d.frameId < 10 := by
  simp only [List.mem_append, List.mem_singleton, or_and_right, exists_or]
  cases pkt with
  | data d =>
      simp only [SendStatistics.headGroups, VideoPacket.data.injEq, exists_eq_left]
      split
      case isTrue hlt =>
        rw [Finset.mem_insert, h, or_comm, and_iff_left hlt, eq_comm]
      case isFalse hge =>
        rw [h]
        exact (or_iff_left fun hd => hge hd.2).symm
  | dupFec d => simp [SendStatistics.headGroups, h]
  | fec fec => simp [SendStatistics.headGroups, h]

theorem Consistent.sends (h : Consistent P s) {pkt : VideoPacket} {sender : PacketSenderUdp}
    {frames : List (UInt32 × Time)} (htraced : sender.Traced frames [])
    (hsend : PacketSenderUdp.Sends pkt s.sender sender) :
    Consistent P ⟨sender, s.statistics.record P pkt⟩ := by
  have hlabelled := h.labelled.sends hsend
  have hpast : sender.pastHead = s.sender.pastHead := by
    funext pkt'
    rw [PacketSenderUdp.pastHead, show sender.sources = s.sender.sources from hsend.sources,
      PacketSenderUdp.pastHead]
  have hgroups := mem_headGroups pkt h.groups
  rw [← hsend.sent] at hgroups
  -- the sender knows of the packet's frame by now
  have hhead : sender.sendGroupCnt ≤ 2 ^ 32 → (pkt.header.groupId ∈
      SendStatistics.headGroups pkt s.statistics.firstTenFrameGroupId ↔
        s.sender.pastHead pkt = false) := by
    intro hfits
    obtain ⟨d, hd, hgroup⟩ := hsend.opened
    have hiff := pastHead_iff htraced hlabelled hfits hd hgroup
    rw [← hpast, ← Bool.not_eq_true, hiff, hgroups, UInt32.not_le]
    constructor
    · rintro ⟨d', hd', hgroup', hlt⟩
      have heq := hlabelled.frame hfits _ (htraced.sent _ hd') _ (htraced.sent _ hd)
        (hgroup'.trans hgroup.symm)
      change d'.frameId = d.frameId at heq
      exact heq ▸ hlt
    · exact fun hlt => ⟨d, hd, hgroup, hlt⟩
  have hfresh : sender.sendGroupCnt ≤ 2 ^ 32 → decide (pkt.header.groupId ∉
      SendStatistics.headGroups pkt s.statistics.firstTenFrameGroupId) =
        s.sender.pastHead pkt := by
    intro hfits
    rw [Bool.eq_iff_iff, decide_eq_true_iff, hhead hfits, Bool.not_eq_false]
  have hcnt : sender.sendGroupCnt ≤ 2 ^ 32 → s.sender.sendGroupCnt ≤ 2 ^ 32 := fun hfits =>
    hsend.sendGroupCnt ▸ hfits
  refine ⟨⟨?_, ?_, fun hfits => ?_, fun hfits => ?_⟩, ⟨frames, htraced⟩, hlabelled, ?_⟩
  · rw [SendStatistics.record_initDataPkt, h.initDataPkt, goodput, goodput, hsend.sent,
      PktTally.of_filter_append]
  · rw [SendStatistics.record_otherPkt, h.otherPkt, others, others, hsend.sent,
      PktTally.of_filter_append]
  · rw [SendStatistics.record_excludeHeadInitDataPkt, h.excludeHeadInitDataPkt (hcnt hfits),
      hfresh hfits, goodput, goodput, List.filter_filter, List.filter_filter, hpast, hsend.sent,
      PktTally.of_filter_append]
  · rw [SendStatistics.record_excludeHeadOtherPkt, h.excludeHeadOtherPkt (hcnt hfits),
      hfresh hfits, others, others, List.filter_filter, List.filter_filter, hpast, hsend.sent,
      PktTally.of_filter_append]
  · rw [SendStatistics.record_firstTenFrameGroupId]
    exact hgroups

theorem Consistent.new (P : Type) [PacketBuffer P] (delayDdl : Time) :
    Consistent P (new delayDdl) where
  initDataPkt := rfl
  otherPkt := rfl
  excludeHeadInitDataPkt := fun _ => rfl
  excludeHeadOtherPkt := fun _ => rfl
  traced := ⟨_, .new delayDdl⟩
  labelled := .new delayDdl
  groups := fun groupId => by simp [CountingSender.new, SendStatistics.new, PacketSenderUdp.new]

theorem Consistent.step (h : Consistent P s) {e : PacketSenderUdp.Event}
    (hrun : s.step P e = some s') : Consistent P s' := by
  obtain ⟨frames, htraced⟩ := h.traced
  obtain ⟨sender, hsender, rfl⟩ := Option.map_eq_some_iff.mp hrun
  -- a step that sends nothing counts nothing
  have hquiet : ∀ {frames' : List (UInt32 × Time)}, sender.Traced frames' [] → sender.Labelled →
      sender.sent = s.sender.sent → s.sender.sendGroupCnt ≤ sender.sendGroupCnt →
      Consistent P ⟨sender, (sender.sent.drop s.sender.sent.length).foldl
        (fun c pkt => c.record P pkt) s.statistics⟩ := by
    intro frames' htraced' hlabelled hsent hcnt
    have hsame := h.sameSent htraced' hlabelled hsent hcnt
    rw [hsent, List.drop_length]
    exact hsame
  have hrequeues : sender.Traced frames [] → PacketSenderUdp.Requeues s.sender sender →
      Consistent P ⟨sender, (sender.sent.drop s.sender.sent.length).foldl
        (fun c pkt => c.record P pkt) s.statistics⟩ := fun htraced' hre =>
    hquiet htraced' (h.labelled.requeues hre) hre.sent hre.sendGroupCnt.ge
  cases e with
  | createFrame now policy statistic f =>
      obtain ⟨hlabelled, hsent, -, hcnt⟩ := h.labelled.createFrame htraced hsender
      have htraced' : sender.Traced (frames ++ [(f.frameId, now)]) [] := htraced.createFrame hsender
      exact hquiet htraced' hlabelled hsent hcnt
  | sendPacket now =>
      cases hsender
      rcases h.labelled.sends_sendPacket now with hnone | ⟨pkt, hsend⟩
      · rw [hnone] at hrequeues ⊢
        exact hrequeues htraced (.refl _)
      · have hcounted := h.sends (htraced.sendPacket now) hsend
        rw [hsend.sent, List.drop_left]
        exact hcounted
  | rcvACKPacket now pkt =>
      cases hsender
      exact hrequeues (htraced.rcvACKPacket pkt) (.rcvACKPacket _ pkt)
  | checkRetransmission now policy statistic iteration =>
      exact hrequeues (htraced.checkRetransmission hsender)
        (.checkRetransmission htraced hsender)

/-- While both counts are exact as doubles. -/
theorem Counts.getBandwidthLossRate_eq (h : Counts P s) (hfew : s.sender.sent.length ≤ 2 ^ 53) :
    s.statistics.getBandwidthLossRate =
      if s.goodput = [] then if s.others = [] then some (.ofNat 0) else none
      else some (.ofRat (s.others.length / s.goodput.length)) := by
  have hgoodput : s.goodput.length ≤ 2 ^ 53 := (List.length_filter_le _ _).trans hfew
  have hothers : s.others.length ≤ 2 ^ 53 := (List.length_filter_le _ _).trans hfew
  have hsum : s.goodput.length + s.others.length = s.sender.sent.length :=
    (List.length_eq_length_filter_add _).symm
  have hinit : s.statistics.initDataPkt.count.toNat = s.goodput.length := by
    rw [h.initDataPkt]
    exact UInt64.toNat_ofNat_of_lt' (by simp only [UInt64.size]; omega)
  have hother : s.statistics.otherPkt.count.toNat = s.others.length := by
    rw [h.otherPkt]
    exact UInt64.toNat_ofNat_of_lt' (by simp only [UInt64.size]; omega)
  have hzero : s.statistics.initDataPkt.count = 0 ↔ s.goodput = [] := by
    rw [← UInt64.toNat_inj, hinit]
    exact List.length_eq_zero_iff
  have hnone : s.statistics.initDataPkt.count + s.statistics.otherPkt.count = 0 ↔
      s.goodput = [] ∧ s.others = [] := by
    rw [← UInt64.toNat_inj, UInt64.toNat_add, hinit, hother,
      Nat.mod_eq_of_lt (by omega), ← List.length_eq_zero_iff, ← List.length_eq_zero_iff]
    exact Nat.add_eq_zero_iff
  unfold SendStatistics.getBandwidthLossRate
  by_cases hg : s.goodput = []
  · by_cases ho : s.others = []
    · rw [if_pos (hnone.mpr ⟨hg, ho⟩), if_pos hg, if_pos ho]
    · rw [if_neg fun hsum => ho (hnone.mp hsum).2, if_pos (hzero.mpr hg), if_pos hg, if_neg ho]
  · rw [if_neg fun hsum => hg (hnone.mp hsum).1, if_neg fun hi => hg (hzero.mp hi), if_neg hg,
      hinit, hother, Binary64.div, Binary64.ofNat_val hgoodput, Binary64.ofNat_val hothers]

end CountingSender

end

namespace CountingSender

/-- In every run the counters count what their names say. While group numbers do not come back,
the packets left out are exactly those of the first ten frames, FEC packets among them. -/
theorem counts_of_run (P : Type) [PacketBuffer P] {delayDdl : Time}
    {events : List PacketSenderUdp.Event} {s : CountingSender}
    (hrun : Run.exec (step P) (new delayDdl) events = some s) :
    Counts P s ∧ (s.sender.sent.length ≤ 2 ^ 53 → s.statistics.getBandwidthLossRate =
      if s.goodput = [] then if s.others = [] then some (.ofNat 0) else none
      else some (.ofRat (s.others.length / s.goodput.length))) := by
  have h := (Run.exec_invariant (fun _ _ _ h hstep => h.step hstep) (Consistent.new P delayDdl)
    hrun).toCounts
  exact ⟨h, h.getBandwidthLossRate_eq⟩

/-- A frame at the head and one behind it, each a packet with an FEC packet. -/
def twoFrames : List PacketSenderUdp.Event :=
  [.createFrame 0 (fun _ _ => ⟨1, .ofNat 1⟩) PacketSenderUdp.quietStat
      PacketSenderUdp.onePacketFrame,
    .createFrame 0 (fun _ _ => ⟨1, .ofNat 1⟩) PacketSenderUdp.quietStat
      { PacketSenderUdp.onePacketFrame with frameId := 10 },
    .sendPacket 0, .sendPacket 0, .sendPacket 0, .sendPacket 0]

theorem counts_of_run_twoFrames : ∃ s,
    Run.exec (step (List UInt8)) (new 0) twoFrames = some s ∧
    s.statistics.otherPkt.count = 2 ∧ s.statistics.excludeHeadOtherPkt = ⟨1, 1453⟩ ∧
    Counts (List UInt8) s ∧ (s.sender.sent.length ≤ 2 ^ 53 → s.statistics.getBandwidthLossRate =
      if s.goodput = [] then if s.others = [] then some (.ofNat 0) else none
      else some (.ofRat (s.others.length / s.goodput.length))) := by
  obtain ⟨s, hrun, hcount, hhead⟩ : ∃ s, Run.exec (step (List UInt8)) (new 0) twoFrames = some s ∧
      s.statistics.otherPkt.count = 2 ∧ s.statistics.excludeHeadOtherPkt = ⟨1, 1453⟩ := by
    decide +kernel
  exact ⟨s, hrun, hcount, hhead, counts_of_run (List UInt8) hrun⟩

end CountingSender

end Zhuge
