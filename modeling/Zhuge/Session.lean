-- SUMMARY: Sender and receiver over channels that lose, delay, reorder and duplicate packets, and what becomes of every stored packet.
import Zhuge.Receiver
import Zhuge.Retransmission

/-!
# The session

Whatever a party has sent may arrive at any time, any number of times, or never.
-/

namespace Zhuge

namespace PacketSenderUdp

/-! ## What becomes of a stored packet -/

/-- Every packet stored so far is in the history, was delivered, or left the history when it
was older than the deadline. -/
def Accounted (delivered : GroupPacketInfo → Prop) (s : PacketSenderUdp) : Prop :=
  ∀ info ∈ s.stored, (∃ ref, s.dataPktHistory.find info = some ref) ∨ delivered info ∨
    ∃ age, (info, age) ∈ s.expired ∧ age > s.delayDdl

namespace Accounted

variable {delivered delivered' : GroupPacketInfo → Prop} {s s' : PacketSenderUdp}

theorem mono (h : s.Accounted delivered) (hmore : ∀ info, delivered info → delivered' info) :
    s.Accounted delivered' := fun info hinfo =>
  (h info hinfo).imp_right (Or.imp_left (hmore info))

/-- Nothing that matters here changes. -/
theorem congr (h : s.Accounted delivered) (hstored : s'.stored = s.stored)
    (hhist : s'.dataPktHistory = s.dataPktHistory) (hexpired : s'.expired = s.expired)
    (hddl : s'.delayDdl = s.delayDdl) : s'.Accounted delivered := by
  unfold Accounted
  rw [hstored, hhist, hexpired, hddl]
  exact h

theorem storePacket (h : s.Accounted delivered) (ref : PktRef) :
    (s.storePacket ref).Accounted delivered := by
  unfold PacketSenderUdp.storePacket
  simp only
  split
  · exact h
  · intro info hinfo
    change (∃ ref', (s.dataPktHistory.store (s.deref ref).groupInfo ref).find info = some ref') ∨ _
    rw [PktHistory.find_store]
    by_cases hnew : info = (s.deref ref).groupInfo
    · exact .inl ⟨ref, if_pos hnew⟩
    · rw [if_neg hnew]
      rcases List.mem_append.mp hinfo with hinfo | hinfo
      · exact h info hinfo
      · exact absurd (List.mem_singleton.mp hinfo) hnew

theorem createFrame {policy : FECPolicy} {statistic : NetStat} {now : Time} {f : FrameArgs}
    (h : s.Accounted delivered) (hrun : s.createFrame policy statistic now f = some s') :
    s'.Accounted delivered := by
  obtain ⟨ids, batches, -, frame, -, -, -, -, rfl⟩ := createFrame_eq_some hrun
  generalize List.range' s.heap.length (queuedData now batches).length = refs
  refine List.foldlRecOn (motive := fun t : PacketSenderUdp => t.Accounted delivered) refs _ ?_ ?_
  · exact h.congr rfl rfl rfl rfl
  · exact fun t ht ref _ => ht.storePacket ref

theorem sendPacket (h : s.Accounted delivered) (now : Time) :
    (s.sendPacket now).Accounted delivered := by
  unfold PacketSenderUdp.sendPacket
  split
  · exact h
  · split
    · exact h
    · simp only
      split <;> exact h.congr rfl rfl rfl rfl

/-- An acknowledgement of delivered packets. -/
theorem rcvACKPacket (h : s.Accounted delivered) {pkt : AckPacket}
    (hack : ∀ info ∈ pkt.pktInfos, delivered info) : (s.rcvACKPacket pkt).Accounted delivered := by
  intro info hinfo
  change (∃ ref, (s.dataPktHistory.rcvACKPacket pkt).find info = some ref) ∨ _
  rw [PktHistory.find_rcvACKPacket]
  split
  case isTrue hmem => exact .inr (.inl (hack info hmem))
  case isFalse => exact h info hinfo

/-- The first scan. -/
theorem dropExpired (h : s.Accounted delivered) (now : Time) (keys : List GroupPacketInfo) :
    (dropExpired now keys s).Accounted delivered := by
  fun_induction PacketSenderUdp.dropExpired now keys s with
  | case1 s => exact h.congr rfl rfl rfl rfl
  | case2 info keys s hfind ih => exact ih h
  | case3 info keys s ref hfind hmiss ih =>
      apply ih
      intro info' hinfo'
      change (∃ ref', (s.dataPktHistory.remove info).find info' = some ref') ∨ _ ∨
        ∃ age, (info', age) ∈ s.expired ++ [(info, now - (s.deref ref).encodeTime)] ∧
          age > s.delayDdl
      rw [PktHistory.find_remove]
      by_cases hthis : info' = info
      · refine .inr (.inr ⟨now - (s.deref ref).encodeTime, ?_, by simpa [missesDdl] using hmiss⟩)
        rw [hthis]
        exact List.mem_append_right _ List.mem_cons_self
      · rw [if_neg hthis]
        rcases h info' hinfo' with hfound | hdelivered | ⟨age, hage, hover⟩
        · exact .inl hfound
        · exact .inr (.inl hdelivered)
        · exact .inr (.inr ⟨age, List.mem_append_left _ hage, hover⟩)
  | case4 info keys s ref hfind hmiss => exact h.congr rfl rfl rfl rfl

theorem updateAll (h : s.Accounted delivered) (refs : List PktRef) (f : DataPacket → DataPacket) :
    (s.updateAll refs f).Accounted delivered := by
  rw [updateAll_eq]
  exact h.congr rfl rfl rfl rfl

theorem writeBack (h : s.Accounted delivered) (refs : List PktRef) (pkts : List DataPacket) :
    (s.writeBack refs pkts).Accounted delivered := by
  rw [writeBack_eq]
  exact h.congr rfl rfl rfl rfl

theorem retransmitGroup {iteration : Iteration} {policy : FECPolicy} {call : ℕ}
    {statistic : NetStat} {now : Time} {groupId : UInt32} (h : s.Accounted delivered)
    (hrun : s.retransmitGroup iteration policy call statistic now groupId = some s') :
    s'.Accounted delivered := by
  rcases retransmitGroup_eq_some hrun with ⟨rfl, -⟩ | ⟨refs, txCount, ddlLeft, frameId, front,
    -, -, hrtx⟩
  · exact h
  · obtain ⟨fecRate, ids, data, fec, frame, -, -, rfl⟩ := sendRtx_eq_some hrtx
    have hback := ((h.updateAll refs (·.retransmit txCount now)).writeBack refs data)
    exact (hback.updateAll refs (setEnqueueTime now)).congr rfl rfl rfl rfl

/-- The second scan. -/
theorem retransmitTimedOut {iteration : Iteration} {policy : FECPolicy} {statistic : NetStat}
    {now : Time} {kept keys : List GroupPacketInfo} {done : Finset UInt32}
    (h : s.Accounted delivered)
    (hrun : retransmitTimedOut iteration policy statistic now kept keys done s = some s') :
    s'.Accounted delivered := by
  fun_induction PacketSenderUdp.retransmitTimedOut iteration policy statistic now kept keys done s
    with
  | case1 kept done s => cases hrun; exact h.congr rfl rfl rfl rfl
  | case2 kept info keys done s hfind ih => exact ih h hrun
  | case3 kept info keys done s ref hfind pkt hage =>
      cases hrun
      exact h.congr rfl rfl rfl rfl
  | case4 kept info keys done s ref hfind pkt hage hdone ih => exact ih h hrun
  | case5 kept info keys done s ref hfind pkt hage hdone hout ih =>
      obtain ⟨t, hgroup, hrun⟩ := Option.bind_eq_some_iff.mp hrun
      exact ih t (h.retransmitGroup hgroup) hrun
  | case6 kept info keys done s ref hfind pkt hage hdone hout ih => exact ih h hrun

theorem checkRetransmission {iteration : Iteration} {policy : FECPolicy} {statistic : NetStat}
    {now : Time} (h : s.Accounted delivered)
    (hrun : s.checkRetransmission iteration policy statistic now = some s') :
    s'.Accounted delivered :=
  (h.dropExpired now s.dataPktHistoryKey).retransmitTimedOut hrun

end Accounted

end PacketSenderUdp

/-! ## Two parties and their channels -/

structure Session where
  sender : PacketSenderUdp
  receiver : PacketReceiverUdp

namespace Session

inductive Event where
  | createFrame (now : Time) (policy : FECPolicy) (statistic : NetStat) (f : FrameArgs)
  | sendPacket (now : Time)
  | checkRetransmission (now : Time) (policy : FECPolicy) (statistic : NetStat)
      (iteration : PacketSenderUdp.Iteration)
  /-- The packet sent as number `sent` arrives, perhaps not for the first time. -/
  | deliverPacket (sent : ℕ) (rcvTime now : Time) (pick : ℕ)
  /-- The acknowledgement sent as number `ack` arrives, perhaps not for the first time. -/
  | deliverAck (now : Time) (ack : ℕ)

def new (delayDdl : Time) (fps : UInt16) : Session := ⟨.new delayDdl, .new delayDdl fps⟩

/-- One step. `none`: one of the parties does not return. -/
def step (s : Session) : Event → Option Session
  | .createFrame now policy statistic f =>
    (s.sender.createFrame policy statistic now f).map fun sender => { s with sender }
  | .sendPacket now => some { s with sender := s.sender.sendPacket now }
  | .checkRetransmission now policy statistic iteration =>
    (s.sender.checkRetransmission iteration policy statistic now).map fun sender =>
      { s with sender }
  | .deliverPacket sent rcvTime now pick =>
    match s.sender.sent[sent]? with
    | none => some s
    | some pkt =>
      (s.receiver.receiveUdpPacket ⟨now, pick, pkt.received.setRcvTime rcvTime⟩).map
        fun receiver => { s with receiver }
  | .deliverAck _ ack =>
    match s.receiver.acks[ack]? with
    | none => some s
    | some ack => some { s with sender := s.sender.rcvACKPacket (.ofHeader ack.header) }

/-- The packet was handed to the decoder. -/
def Handed (s : Session) (info : GroupPacketInfo) : Prop :=
  ∃ pkt ∈ s.receiver.handed, pkt.groupInfo = info

/-- Every stored packet is accounted for, and what the receiver acknowledged was handed to
the decoder. -/
structure Consistent (s : Session) : Prop where
  accounted : s.sender.Accounted s.Handed
  acks : ∀ ack ∈ s.receiver.acks, ∀ info ∈ ack.pktInfos, s.Handed info

namespace Consistent

theorem new (delayDdl : Time) (fps : UInt16) : Consistent (Session.new delayDdl fps) where
  accounted := fun _ hinfo => absurd hinfo List.not_mem_nil
  acks := fun _ hack => absurd hack List.not_mem_nil

theorem receive {s : Session} (h : s.Consistent) {receiver : PacketReceiverUdp} {a : Arrival}
    (hrun : s.receiver.receiveUdpPacket a = some receiver) :
    Consistent { s with receiver } := by
  obtain ⟨decodePkts, group, -, -, hhanded, hacks⟩ :=
    PacketReceiverUdp.receiveUdpPacket_output hrun
  have hmore : ∀ info, s.Handed info → Handed { s with receiver } info := by
    rintro info ⟨pkt, hpkt, rfl⟩
    refine ⟨pkt, ?_, rfl⟩
    rw [hhanded]
    exact List.mem_append_left _ hpkt
  refine ⟨h.accounted.mono hmore, ?_⟩
  intro ack hack info hinfo
  rw [hacks] at hack
  rcases List.mem_append.mp hack with hack | hack
  · exact hmore info (h.acks ack hack info hinfo)
  · rw [List.mem_singleton.mp hack] at hinfo
    obtain ⟨pkt, hpkt, rfl⟩ := List.mem_map.mp hinfo
    refine ⟨pkt, ?_, rfl⟩
    rw [hhanded]
    exact List.mem_append_right _ hpkt

theorem step {s s' : Session} {e : Event} (h : s.Consistent) (hrun : s.step e = some s') :
    s'.Consistent := by
  cases e with
  | createFrame now policy statistic f =>
      obtain ⟨sender, hsender, rfl⟩ := Option.map_eq_some_iff.mp hrun
      exact ⟨h.accounted.createFrame hsender, h.acks⟩
  | sendPacket now =>
      cases hrun
      exact ⟨h.accounted.sendPacket now, h.acks⟩
  | checkRetransmission now policy statistic iteration =>
      obtain ⟨sender, hsender, rfl⟩ := Option.map_eq_some_iff.mp hrun
      exact ⟨h.accounted.checkRetransmission hsender, h.acks⟩
  | deliverPacket sent rcvTime now pick =>
      simp only [Session.step] at hrun
      split at hrun
      · cases hrun
        exact h
      · obtain ⟨receiver, hreceiver, rfl⟩ := Option.map_eq_some_iff.mp hrun
        exact h.receive hreceiver
  | deliverAck now ack =>
      simp only [Session.step] at hrun
      split at hrun
      · cases hrun
        exact h
      case h_2 pkt hpkt =>
        cases hrun
        exact ⟨h.accounted.rcvACKPacket (h.acks pkt (List.mem_of_getElem? hpkt)), h.acks⟩

end Consistent

/-- In every reachable state a packet that was ever stored is still in the history, or was
handed to the decoder, or was dropped for being older than the deadline. -/
theorem stored_accounted {delayDdl : Time} {fps : UInt16} {events : List Event} {s : Session}
    (hrun : Run.exec step (new delayDdl fps) events = some s) :
    ∀ info ∈ s.sender.stored, (∃ ref, s.sender.dataPktHistory.find info = some ref) ∨
      (∃ pkt ∈ s.receiver.handed, pkt.groupInfo = info) ∨
      ∃ age, (info, age) ∈ s.sender.expired ∧ age > s.sender.delayDdl :=
  (Run.exec_invariant (fun _ _ _ => Consistent.step) (Consistent.new delayDdl fps) hrun).accounted

/-- A frame of one packet is sent, arrives and is acknowledged, twice. -/
def oneFrameEvents : List Event :=
  [.createFrame 0 PacketSenderUdp.singlePolicy PacketSenderUdp.quietStat
      PacketSenderUdp.onePacketFrame,
    .sendPacket 0, .deliverPacket 0 5 5 0, .deliverAck 9 0, .deliverPacket 0 11 11 0,
    .deliverAck 12 1]

theorem stored_accounted_oneFrame : ∃ s, Run.exec step (new 40 60) oneFrameEvents = some s ∧
    ∀ info ∈ s.sender.stored, (∃ ref, s.sender.dataPktHistory.find info = some ref) ∨
      (∃ pkt ∈ s.receiver.handed, pkt.groupInfo = info) ∨
      ∃ age, (info, age) ∈ s.sender.expired ∧ age > s.sender.delayDdl := by
  have hreturns : (Run.exec step (new 40 60) oneFrameEvents).isSome = true := by decide +kernel
  obtain ⟨s, hrun⟩ := Option.isSome_iff_exists.mp hreturns
  exact ⟨s, hrun, stored_accounted hrun⟩

end Session

end Zhuge
