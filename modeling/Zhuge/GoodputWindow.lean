-- SUMMARY: The byte counts of the sender are those of its window of time, and the history has an entry for every packet in its windows.
import Mathlib.Data.UInt
import Zhuge.Lib.Run
import Zhuge.Lib.Sweep
import Zhuge.SendQueueRuns

/-!
# What the windows of the sender count

A packet leaves `m_goodput_wnd` when it was sent too long ago, and `m_send_wnd` and the history
when there are more than 10000. Its entry in the history is read when it leaves the first of them.
It is still there if no more than 10000 packets are sent in the time that the first one spans.
-/

namespace Zhuge

/-- A packet that was sent, for comparison. -/
structure SentPacket where
  time : Time
  look : PacketLook

namespace SentPacket

def info (p : SentPacket) : SentPacketInfo where
  pktSendTime := p.time
  isGoodput := p.look.isGoodput
  pktSize := p.look.size.toUInt16

/-- In microseconds, as the windows compare times. -/
def us (p : SentPacket) : Int := Time.getMicroSeconds p.time

/-- The packets sent within the last 50000 microseconds. -/
def since (nowUs : Int) (sends : List SentPacket) : List SentPacket :=
  sends.filter fun p => nowUs - 50000 ≤ p.us

/-- The packets in the window that ends with the last one. -/
def recent (sends : List SentPacket) : List SentPacket :=
  match sends.getLast? with
  | none => []
  | some last => since last.us sends

/-- The bytes of packets. A datagram is shorter than 65536 bytes. -/
def bytes (packets : List SentPacket) : Nat := (packets.map fun p => p.look.size.toNat % 65536).sum

/-- Times do not go back and are not before 50 ms, and with the next packet there are at most
10000 in the last 50 ms. -/
structure InTime (sends : List SentPacket) (now : Time) : Prop where
  range : now.InRange
  started : 50000 ≤ Time.getMicroSeconds now
  ordered : ∀ p ∈ sends, p.us ≤ Time.getMicroSeconds now
  few : (since (Time.getMicroSeconds now) sends).length < 10000

instance (sends : List SentPacket) (now : Time) : Decidable (InTime sends now) :=
  decidable_of_iff
    (now.InRange ∧ 50000 ≤ Time.getMicroSeconds now ∧
      (∀ p ∈ sends, p.us ≤ Time.getMicroSeconds now) ∧
      (since (Time.getMicroSeconds now) sends).length < 10000)
    ⟨fun ⟨hrange, hstarted, hordered, hfew⟩ => ⟨hrange, hstarted, hordered, hfew⟩,
      fun h => ⟨h.range, h.started, h.ordered, h.few⟩⟩

end SentPacket

open SentPacket (InTime since recent bytes)

/-- The sending queue with the packets sent so far, oldest first. -/
structure SendLog (P : Type) where
  queue : SendQueue P
  sends : List SentPacket := []

namespace SendLog

variable {P : Type}

inductive Event (P : Type)
  | queue (e : SendQueue.Event P)
  /-- What the reports of the receiver do with the controller. -/
  | controller (e : SenderBasedController.Event)

/-- The packet that the event sends, if there is one. -/
def sending (now : Time) (look : P → PacketLook) (s : SendQueue P) : List SentPacket :=
  match s.queue with
  | [] => []
  | frame :: _ => (frame.packetsInFrame.take 1).map fun packet => ⟨now, look packet⟩

/-- The packets that an event sends. -/
def sentBy (s : SendQueue P) : SendQueue.Event P → List SentPacket
  | .sendPacket now look => sending now look s
  | .sendFrame .. => []
  | .sendRtx .. => []

def step (a : SendLog P) : Event P → Option (SendLog P)
  | .queue e => (a.queue.step e).map fun queue =>
    { queue, sends := a.sends ++ sentBy a.queue e }
  | .controller e => (a.queue.controller.step e).map fun controller =>
    { a with queue := { a.queue with controller } }

/-- Packets are sent in time. -/
def Admissible (a : SendLog P) : Event P → Prop
  | .queue e => ∀ p ∈ sentBy a.queue e, InTime a.sends p.time
  | .controller _ => True

instance (a : SendLog P) : (e : Event P) → Decidable (Admissible a e)
  | .queue _ => inferInstanceAs (Decidable (∀ _ ∈ _, _))
  | .controller _ => .isTrue trivial

/-- The counts and windows are those of the packets sent. -/
structure Accounts (a : SendLog P) : Prop where
  total : a.queue.totalPktsInwnd.toNat = bytes (recent a.sends)
  goodput : a.queue.goodputPktsInwnd.toNat = bytes ((recent a.sends).filter (·.look.isGoodput))
  keys : ∀ id, (a.queue.pktsHistory.lookup id).isSome ↔ id ∈ a.queue.sendWnd
  bounded : a.queue.sendWnd.length ≤ SendQueue.sendWndSize
  nodup : a.queue.sendWnd.Nodup
  infos : a.queue.goodputWnd.map a.queue.pktsHistory.lookup
    = (recent a.sends).map fun p => some p.info

end SendLog

/-! ## The window of time -/

namespace SentPacket

variable {sends : List SentPacket}

theorem since_recent {nowUs : Int} (hlater : ∀ p ∈ sends, p.us ≤ nowUs) :
    since nowUs (recent sends) = since nowUs sends := by
  rw [recent]
  split
  case h_1 hnone => rw [List.getLast?_eq_none_iff.mp hnone]
  case h_2 last hlast =>
    have hle := hlater last (List.mem_of_getLast? hlast)
    rw [since, since, since, List.filter_filter]
    apply List.filter_congr
    intro p _
    rw [Bool.eq_iff_iff]
    simp only [Bool.and_eq_true, decide_eq_true_eq]
    omega

/-- The next packet is in its own window. -/
theorem since_concat (p : SentPacket) (sends : List SentPacket) :
    since p.us (sends ++ [p]) = since p.us sends ++ [p] := by
  have hself : since p.us [p] = [p] :=
    List.filter_eq_self.mpr fun q hq => by
      rw [List.mem_singleton.mp hq, decide_eq_true_eq]
      omega
  rw [since, List.filter_append, ← since, ← since, hself]

theorem recent_concat (p : SentPacket) (sends : List SentPacket) :
    recent (sends ++ [p]) = since p.us sends ++ [p] := by
  rw [recent, List.getLast?_concat]
  exact since_concat p sends

theorem recent_append (p : SentPacket) (hlater : ∀ q ∈ sends, q.us ≤ p.us) :
    recent (sends ++ [p]) = since p.us (recent sends ++ [p]) := by
  rw [recent_concat, since_concat, since_recent hlater]

theorem recent_sublist : (recent sends).Sublist sends := by
  rw [recent]
  split
  · exact List.nil_sublist _
  · exact List.filter_sublist

/-- In the order of time, the packets in the window are the last ones. -/
theorem since_eq_dropWhile (nowUs : Int) (h : sends.Pairwise fun p q => p.us ≤ q.us) :
    since nowUs sends = sends.dropWhile fun p => p.us < nowUs - 50000 := by
  have hsorted : Sweep.ExpiredFirst (fun p : SentPacket => decide (p.us < nowUs - 50000)) sends :=
    Sweep.expiredFirst_of_sorted us (fun p q hle hq => by
      simp only [decide_eq_true_eq] at hq ⊢
      omega) h
  rw [Sweep.dropWhile_eq_filter_of_expiredFirst hsorted, since]
  apply List.filter_congr
  intro p _
  simp

theorem recent_eq_drop (h : sends.Pairwise fun p q => p.us ≤ q.us) :
    recent sends = sends.drop (sends.length - (recent sends).length) := by
  have hsuffix : recent sends <:+ sends := by
    rw [recent]
    split
    · exact List.nil_suffix
    · rw [since_eq_dropWhile _ h]
      exact List.dropWhile_suffix _
  exact List.suffix_iff_eq_drop.mp hsuffix

/-- The sizes as the counters add them up. -/
def counted (packets : List SentPacket) : UInt64 :=
  (packets.map fun p => p.info.pktSize.toUInt64).sum

theorem counted_append (packets packets' : List SentPacket) :
    counted (packets ++ packets') = counted packets + counted packets' := by
  rw [counted, List.map_append, List.sum_append]
  rfl

theorem counted_cons (p : SentPacket) (packets : List SentPacket) :
    counted (p :: packets) = p.info.pktSize.toUInt64 + counted packets := by
  simp only [counted, List.map_cons, List.sum_cons]

theorem counted_cons_sub (p : SentPacket) (packets : List SentPacket) :
    counted (p :: packets) - p.info.pktSize.toUInt64 = counted packets := by
  rw [counted_cons, UInt64.add_comm, UInt64.add_sub_cancel]

/-- The counters have room for the windows. -/
theorem toNat_counted {packets : List SentPacket} (h : packets.length ≤ 10000) :
    (counted packets).toNat = bytes packets := by
  have hboth : (counted packets).toNat = bytes packets ∧
      bytes packets ≤ packets.length * 65535 := by
    induction packets with
    | nil => exact ⟨rfl, Nat.zero_le _⟩
    | cons p packets ih =>
        rw [List.length_cons] at h ⊢
        obtain ⟨hcounted, hle⟩ := ih (by omega)
        have hsize : p.info.pktSize.toUInt64.toNat = p.look.size.toNat % 65536 := by
          rw [UInt16.toNat_toUInt64, info, UInt32.toNat_toUInt16]
        have hbytes : bytes (p :: packets) = p.look.size.toNat % 65536 + bytes packets := by
          simp only [bytes, List.map_cons, List.sum_cons]
        rw [counted_cons, UInt64.toNat_add, hsize, hcounted, hbytes]
        constructor <;> omega
  exact hboth.1

end SentPacket

namespace SendQueue

variable {P : Type} {sends : List SentPacket} {now : Time}

theorem toNat_toUs {t : Time} (hrange : t.InRange) (hnonneg : 0 ≤ Time.getMicroSeconds t) :
    ((toUs t).toNat : Int) = Time.getMicroSeconds t := by
  have hsmall : Time.getMicroSeconds t < 2 ^ 63 := by
    obtain ⟨hpos, hneg⟩ := Time.tdiv_mul_mem (t := t) (show (0 : Int) < 1000 by decide)
    obtain ⟨-, hlt⟩ := hrange
    rw [Time.getMicroSeconds]
    rcases le_total 0 t with ht | ht
    · have := hpos ht
      lia
    · have := hneg ht
      lia
  rw [toUs, UInt64.ofInt, UInt64.toNat_ofNat']
  omega

/-- The comparison of the loop over `m_goodput_wnd`. -/
theorem toUs_lt_iff {p : SentPacket} (hp : p.time.InRange ∧ 0 ≤ p.us) (hnow : now.InRange)
    (hstarted : 50000 ≤ Time.getMicroSeconds now) :
    toUs p.time < toUs now - goodputWndSize ↔ p.us < Time.getMicroSeconds now - 50000 := by
  have hpast : ((toUs p.time).toNat : Int) = p.us := toNat_toUs hp.1 hp.2
  have hpresent := toNat_toUs hnow (by omega)
  have hle : goodputWndSize ≤ toUs now := by
    rw [UInt64.le_iff_toNat_le]
    change 50000 ≤ _
    omega
  have hsub : (toUs now - goodputWndSize).toNat = (toUs now).toNat - 50000 :=
    UInt64.toNat_sub_of_le _ _ hle
  rw [UInt64.lt_iff_toNat_lt, hsub]
  omega

/-- The loop over `m_goodput_wnd`, when the ids in it have the entries of these packets. -/
theorem trimGoodput_eq {history : Dict UInt16 SentPacketInfo} {wnd : List UInt16}
    {packets : List SentPacket} (hnow : now.InRange)
    (hstarted : 50000 ≤ Time.getMicroSeconds now)
    (hpast : ∀ p ∈ packets, p.time.InRange ∧ 0 ≤ p.us)
    (hinfos : wnd.map history.lookup = packets.map fun p => some p.info) :
    let kept := packets.dropWhile fun p => p.us < Time.getMicroSeconds now - 50000
    trimGoodput history (toUs now) wnd (SentPacket.counted packets)
        (SentPacket.counted (packets.filter (·.look.isGoodput)))
      = some (wnd.drop (packets.length - kept.length), SentPacket.counted kept,
        SentPacket.counted (kept.filter (·.look.isGoodput))) := by
  induction packets generalizing wnd with
  | nil =>
      rw [List.map_nil, List.map_eq_nil_iff] at hinfos
      rw [hinfos]
      rfl
  | cons p packets ih =>
      obtain ⟨hp, hpast'⟩ := List.forall_mem_cons.mp hpast
      obtain ⟨id, rest, rfl⟩ : ∃ id rest, wnd = id :: rest := by
        cases wnd with
        | nil => cases hinfos
        | cons id rest => exact ⟨id, rest, rfl⟩
      rw [List.map_cons, List.map_cons, List.cons.injEq] at hinfos
      obtain ⟨hid, hrest⟩ := hinfos
      have hcomp := toUs_lt_iff hp hnow hstarted
      simp only [trimGoodput, hid]
      by_cases hold : p.us < Time.getMicroSeconds now - 50000
      · have hold' : toUs p.info.pktSendTime < toUs now - goodputWndSize := hcomp.mpr hold
        -- the oldest packet leaves the window, and its bytes leave both counts
        have hgoodput : (if p.info.isGoodput then
              SentPacket.counted ((p :: packets).filter (·.look.isGoodput))
                - p.info.pktSize.toUInt64
            else SentPacket.counted ((p :: packets).filter (·.look.isGoodput)))
            = SentPacket.counted (packets.filter (·.look.isGoodput)) := by
          have hinfo : p.info.isGoodput = p.look.isGoodput := rfl
          rw [hinfo, List.filter_cons]
          split
          · exact SentPacket.counted_cons_sub _ _
          · rfl
        have hkept := (List.dropWhile_sublist (l := packets) fun p =>
          decide (p.us < Time.getMicroSeconds now - 50000)).length_le
        rw [if_pos hold', SentPacket.counted_cons_sub, hgoodput,
          List.dropWhile_cons_of_pos (by simpa using hold), ih hpast' hrest, List.length_cons,
          Nat.succ_sub hkept, List.drop_succ_cons]
      · -- the first packet that is young enough ends the loop
        have hnew : ¬ toUs p.info.pktSendTime < toUs now - goodputWndSize := mt hcomp.mp hold
        rw [if_neg hnew, List.dropWhile_cons_of_neg (by simpa using hold), Nat.sub_self,
          List.drop_zero]

/-- The windows, the history and the counts are those of the packets sent. -/
structure Kept (sends : List SentPacket) (s : SendQueue P) : Prop where
  windows : s.Windows sends.length
  infos : s.sendWnd.map s.pktsHistory.lookup
    = (sends.drop (sends.length - sendWndSize)).map fun p => some p.info
  goodputWnd : s.goodputWnd = (ids sends.length).drop (sends.length - (recent sends).length)
  total : s.totalPktsInwnd = SentPacket.counted (recent sends)
  goodput : s.goodputPktsInwnd = SentPacket.counted ((recent sends).filter (·.look.isGoodput))
  ordered : sends.Pairwise fun p q => p.us ≤ q.us
  past : ∀ p ∈ sends, p.time.InRange ∧ 0 ≤ p.us
  few : (recent sends).length ≤ sendWndSize

namespace Kept

variable {s : SendQueue P}

theorem new (sendTimeLimit : Time) : Kept (P := P) [] { sendTimeLimit } where
  windows := (invariant_new sendTimeLimit).windows
  infos := rfl
  goodputWnd := rfl
  total := rfl
  goodput := rfl
  ordered := .nil
  past := nofun
  few := Nat.zero_le _

/-- The entries of the window of time. -/
theorem infos_recent (h : Kept sends s) :
    s.goodputWnd.map s.pktsHistory.lookup = (recent sends).map fun p => some p.info := by
  have hle := (SentPacket.recent_sublist : (recent sends).Sublist sends).length_le
  have hfew := h.few
  have hskip : sends.length - (recent sends).length
      = (sends.length - sendWndSize) + (sendWndSize - (recent sends).length
        - (sendWndSize - sends.length)) := by omega
  have hwnd : s.goodputWnd = s.sendWnd.drop
      (sendWndSize - (recent sends).length - (sendWndSize - sends.length)) := by
    rw [h.goodputWnd, h.windows.sendWnd, List.drop_drop, ← hskip]
  rw [hwnd, List.map_drop, h.infos, ← List.map_drop, List.drop_drop, ← hskip,
    ← SentPacket.recent_eq_drop h.ordered]

theorem accounts (h : Kept sends s) : SendLog.Accounts { queue := s, sends } where
  total := by
    rw [h.total]
    exact SentPacket.toNat_counted h.few
  goodput := by
    rw [h.goodput]
    exact SentPacket.toNat_counted ((List.length_filter_le _ _).trans h.few)
  keys := h.windows.history
  bounded := by
    rw [h.windows.sendWnd, List.length_drop, length_ids]
    omega
  nodup := by
    rw [h.windows.sendWnd]
    apply nodup_drop_ids
    simp only [sendWndSize]
    omega
  infos := h.infos_recent

theorem length_goodputWnd (h : Kept sends s) : s.goodputWnd.length = (recent sends).length := by
  have hle := (SentPacket.recent_sublist : (recent sends).Sublist sends).length_le
  rw [h.goodputWnd, List.length_drop, length_ids]
  omega

/-- No packet of the window of time has the next id. -/
theorem counter_notMem (h : Kept sends s) : s.ipidCounter ∉ s.goodputWnd := by
  have hfew := h.few
  have hnodup : ((ids (sends.length + 1)).drop (sends.length - (recent sends).length)).Nodup := by
    apply nodup_drop_ids
    simp only [sendWndSize] at hfew
    omega
  rw [ids_succ, List.drop_append_of_le_length (by rw [length_ids]; omega), ← h.goodputWnd,
    ← h.windows.counter, List.nodup_append] at hnodup
  exact fun hmem => hnodup.2.2 _ hmem _ (List.mem_singleton_self _) rfl

theorem ordered_append (h : Kept sends s) {p : SentPacket} (hp : InTime sends p.time) :
    (sends ++ [p]).Pairwise fun p q => p.us ≤ q.us := by
  refine List.pairwise_append.mpr ⟨h.ordered, List.pairwise_singleton .., ?_⟩
  intro q hq r hr
  rw [List.mem_singleton.mp hr]
  exact hp.ordered q hq

/-- Recording a packet, with the entry made for it. -/
theorem trimGoodput (h : Kept sends s) {p : SentPacket} (hp : InTime sends p.time) :
    SendQueue.trimGoodput (s.pktsHistory.insert s.ipidCounter p.info) (toUs p.time)
        (s.goodputWnd ++ [s.ipidCounter]) (s.totalPktsInwnd + p.info.pktSize.toUInt64)
        (if p.look.isGoodput then s.goodputPktsInwnd + p.info.pktSize.toUInt64
          else s.goodputPktsInwnd)
      = some ((ids (sends.length + 1)).drop
          (sends.length + 1 - (recent (sends ++ [p])).length),
        SentPacket.counted (recent (sends ++ [p])),
        SentPacket.counted ((recent (sends ++ [p])).filter (·.look.isGoodput))) := by
  have hinfos : (s.goodputWnd ++ [s.ipidCounter]).map
        (s.pktsHistory.insert s.ipidCounter p.info).lookup
      = (recent sends ++ [p]).map fun q => some q.info := by
    rw [List.map_append, List.map_append, ← h.infos_recent]
    congr 1
    · apply List.map_congr_left
      intro id hid
      rw [Dict.lookup_insert_eq, if_neg]
      rintro rfl
      exact h.counter_notMem hid
    · simp [Dict.lookup_insert_eq]
  have htotal : s.totalPktsInwnd + p.info.pktSize.toUInt64
      = SentPacket.counted (recent sends ++ [p]) := by
    rw [h.total, SentPacket.counted_append]
    simp [SentPacket.counted]
  have hgoodput : (if p.look.isGoodput then s.goodputPktsInwnd + p.info.pktSize.toUInt64
        else s.goodputPktsInwnd)
      = SentPacket.counted ((recent sends ++ [p]).filter (·.look.isGoodput)) := by
    rw [h.goodput, List.filter_append, SentPacket.counted_append, List.filter_singleton]
    cases p.look.isGoodput <;> simp [SentPacket.counted]
  have hsorted := h.ordered_append hp
  have hsub : (recent sends ++ [p]).Sublist (sends ++ [p]) :=
    SentPacket.recent_sublist.append_right _
  have hpast : ∀ q ∈ recent sends ++ [p], q.time.InRange ∧ 0 ≤ q.us := by
    intro q hq
    rcases List.mem_append.mp hq with hq | hq
    · exact h.past q (SentPacket.recent_sublist.subset hq)
    · rw [List.mem_singleton.mp hq]
      have hstarted := hp.started
      exact ⟨hp.range, by rw [SentPacket.us]; omega⟩
  -- the loop starts with the new packet already in the window and in the counts
  have hwnd := trimGoodput_eq hp.range hp.started hpast hinfos
  have hkept : ((recent sends ++ [p]).dropWhile fun q => q.us < Time.getMicroSeconds p.time - 50000)
      = recent (sends ++ [p]) := by
    rw [SentPacket.recent_append p hp.ordered]
    exact (SentPacket.since_eq_dropWhile _ (hsorted.sublist hsub)).symm
  rw [htotal, hgoodput, hwnd]
  simp only [hkept]
  have hle : (recent (sends ++ [p])).length ≤ (recent sends ++ [p]).length := by
    rw [← hkept]
    exact (List.dropWhile_sublist _).length_le
  have hlast : s.goodputWnd ++ [s.ipidCounter]
      = (ids (sends.length + 1)).drop (sends.length - (recent sends).length) := by
    rw [ids_succ, List.drop_append_of_le_length (by rw [length_ids]; omega), ← h.goodputWnd,
      h.windows.counter]
  have hcount := (SentPacket.recent_sublist : (recent sends).Sublist sends).length_le
  rw [List.length_append, List.length_singleton] at hle ⊢
  have hskip : sends.length - (recent sends).length
      + ((recent sends).length + 1 - (recent (sends ++ [p])).length)
      = sends.length + 1 - (recent (sends ++ [p])).length := by omega
  rw [hlast, List.drop_drop, hskip]

theorem counter_notMem_sendWnd (h : Kept sends s) : s.ipidCounter ∉ s.sendWnd := by
  have hnodup : ((ids (sends.length + 1)).drop (sends.length - sendWndSize)).Nodup := by
    apply nodup_drop_ids
    simp only [sendWndSize]
    omega
  rw [ids_succ, List.drop_append_of_le_length (by rw [length_ids]; omega), ← h.windows.sendWnd,
    ← h.windows.counter, List.nodup_append] at hnodup
  exact fun hmem => hnodup.2.2 _ hmem _ (List.mem_singleton_self _) rfl

/-- What stays in the history are the entries of the last packets. -/
theorem infos_append (h : Kept sends s) {p : SentPacket} {s' : SendQueue P}
    (hsend : trimSendWnd (s.sendWnd ++ [s.ipidCounter])
      (s.pktsHistory.insert s.ipidCounter p.info) = some (s'.sendWnd, s'.pktsHistory))
    (hwindows : s'.Windows (sends.length + 1)) :
    s'.sendWnd.map s'.pktsHistory.lookup
      = ((sends ++ [p]).drop (sends.length + 1 - sendWndSize)).map fun q => some q.info := by
  have hkept : s'.sendWnd.map s'.pktsHistory.lookup
      = s'.sendWnd.map (s.pktsHistory.insert s.ipidCounter p.info).lookup := by
    apply List.map_congr_left
    intro id hid
    obtain ⟨info, hinfo⟩ := Option.isSome_iff_exists.mp ((hwindows.history id).mpr hid)
    rw [hinfo, lookup_trimSendWnd hsend hinfo]
  -- the counter is none of the ids in the window, so the new entry replaces none of theirs
  have hold : s.sendWnd.map (s.pktsHistory.insert s.ipidCounter p.info).lookup
      = (sends.drop (sends.length - sendWndSize)).map fun q => some q.info := by
    rw [← h.infos]
    apply List.map_congr_left
    intro id hid
    rw [Dict.lookup_insert_eq, if_neg]
    rintro rfl
    exact h.counter_notMem_sendWnd hid
  have hskip : sends.length + 1 - sendWndSize
      = (sends.length - sendWndSize)
        + (sends.length + 1 - sendWndSize - (sends.length - sendWndSize)) := by omega
  have hwnd : s'.sendWnd = (s.sendWnd ++ [s.ipidCounter]).drop
      (sends.length + 1 - sendWndSize - (sends.length - sendWndSize)) := by
    rw [hwindows.sendWnd, ids_succ, hskip, ← List.drop_drop,
      List.drop_append_of_le_length (by rw [length_ids]; omega), ← h.windows.sendWnd,
      ← h.windows.counter, ← hskip]
  have hpackets : (sends ++ [p]).drop (sends.length + 1 - sendWndSize)
      = (sends.drop (sends.length - sendWndSize) ++ [p]).drop
        (sends.length + 1 - sendWndSize - (sends.length - sendWndSize)) := by
    rw [← List.drop_append_of_le_length (by omega), List.drop_drop, ← hskip]
  rw [hkept, hwnd, hpackets, List.map_drop, List.map_drop, List.map_append, List.map_append, hold]
  simp [Dict.lookup_insert_eq]

/-- The next packet of a run in time is recorded. -/
theorem recordSent (h : Kept sends s) (look : PacketLook) (hnow : InTime sends now) :
    ∃ s', SendQueue.recordSent now look s = some s' ∧ Kept (sends ++ [⟨now, look⟩]) s' := by
  have hgoodputWnd : s.goodputWnd.length ≤ sendWndSize := h.length_goodputWnd ▸ h.few
  obtain ⟨history, sendWnd, goodputWnd, total, goodput, heq, hwindows⟩ :=
    windows_recordSent now look h.windows hgoodputWnd
  refine ⟨_, heq, ?_⟩
  have htrim := h.trimGoodput (p := ⟨now, look⟩) hnow
  simp only [SendQueue.recordSent, Option.bind_eq_bind, Option.bind_eq_some_iff] at heq
  obtain ⟨⟨goodputWnd', total', goodput'⟩, hgood, ⟨sendWnd', history'⟩, hsend, heq⟩ := heq
  cases heq
  cases hgood.symm.trans htrim
  have hlength : (sends ++ [(⟨now, look⟩ : SentPacket)]).length = sends.length + 1 := by
    rw [List.length_append, List.length_singleton]
  refine ⟨hlength ▸ hwindows, ?_, by rw [hlength]; rfl, rfl, rfl, h.ordered_append hnow, ?_, ?_⟩
  · rw [hlength]
    exact h.infos_append hsend hwindows
  · intro q hq
    rcases List.mem_append.mp hq with hq | hq
    · exact h.past q hq
    · rw [List.mem_singleton.mp hq]
      have hstarted := hnow.started
      exact ⟨hnow.range, le_trans (by decide) hstarted⟩
  · rw [SentPacket.recent_concat, List.length_append, List.length_singleton]
    exact hnow.few

end Kept

/-! ## Handlers -/

/-- The handler has left the windows alone. -/
structure SameWindows (s t : SendQueue P) : Prop where
  ipidCounter : t.ipidCounter = s.ipidCounter
  pktsHistory : t.pktsHistory = s.pktsHistory
  sendWnd : t.sendWnd = s.sendWnd
  goodputWnd : t.goodputWnd = s.goodputWnd
  total : t.totalPktsInwnd = s.totalPktsInwnd
  goodput : t.goodputPktsInwnd = s.goodputPktsInwnd

theorem Kept.of_same {s t : SendQueue P} (h : Kept sends s) (hsame : SameWindows s t) :
    Kept sends t where
  windows := by
    obtain ⟨hcounter, hwnd, hhistory, hgoodput⟩ := h.windows
    refine ⟨?_, ?_, ?_, ?_⟩
    · rw [hsame.ipidCounter, hcounter]
    · rw [hsame.sendWnd, hwnd]
    · rw [hsame.pktsHistory, hsame.sendWnd]
      exact hhistory
    · rw [hsame.goodputWnd]
      exact hgoodput
  infos := by rw [hsame.sendWnd, hsame.pktsHistory, h.infos]
  goodputWnd := hsame.goodputWnd.trans h.goodputWnd
  total := hsame.total.trans h.total
  goodput := hsame.goodput.trans h.goodput
  ordered := h.ordered
  past := h.past
  few := h.few

theorem sameWindows_calculatePacingRate {s t : SendQueue P}
    (h : calculatePacingRate now s = some t) : SameWindows s t := by
  obtain ⟨interval, -, rfl⟩ := Option.map_eq_some_iff.mp h
  exact ⟨rfl, rfl, rfl, rfl, rfl, rfl⟩

theorem sameWindows_enqueue {s t u : SendQueue P} (hsame : SameWindows s t)
    (h : (calculatePacingRate now t).map scheduleSend = some u) : SameWindows s u := by
  obtain ⟨v, hv, rfl⟩ := Option.map_eq_some_iff.mp h
  obtain ⟨hcounter, hhistory, hwnd, hgoodputWnd, htotal, hgoodput⟩ :=
    sameWindows_calculatePacingRate hv
  exact ⟨hcounter.trans hsame.ipidCounter, hhistory.trans hsame.pktsHistory,
    hwnd.trans hsame.sendWnd, hgoodputWnd.trans hsame.goodputWnd, htotal.trans hsame.total,
    hgoodput.trans hsame.goodput⟩

theorem sameWindows_popPacket {s t : SendQueue P} {frame : QueuedFrame P} {rest : List P}
    {frames : List (QueuedFrame P)} (h : s.popPacket now frame rest frames = some t) :
    SameWindows s t := by
  rw [popPacket] at h
  split at h
  · obtain ⟨hcounter, hhistory, hwnd, hgoodputWnd, htotal, hgoodput⟩ :=
      sameWindows_calculatePacingRate h
    exact ⟨hcounter, hhistory, hwnd, hgoodputWnd, htotal, hgoodput⟩
  · cases h
    exact ⟨rfl, rfl, rfl, rfl, rfl, rfl⟩

/-- One event of the queue. -/
theorem Kept.step {s t : SendQueue P} {e : Event P} (h : Kept sends s)
    (hsent : ∀ p ∈ SendLog.sentBy s e, InTime sends p.time) (hstep : s.step e = some t) :
    Kept (sends ++ SendLog.sentBy s e) t := by
  cases e with
  | sendFrame now packets encodeTime =>
      simp only [SendQueue.step, sendFrame] at hstep
      split at hstep
      · cases hstep
      · rw [SendLog.sentBy, List.append_nil]
        refine h.of_same (sameWindows_enqueue ?_ hstep)
        exact ⟨rfl, rfl, rfl, rfl, rfl, rfl⟩
  | sendRtx now packets encodeTime =>
      simp only [SendQueue.step, sendRtx] at hstep
      split at hstep
      · cases hstep
      · rw [SendLog.sentBy, List.append_nil]
        refine h.of_same (sameWindows_enqueue ?_ hstep)
        exact ⟨rfl, rfl, rfl, rfl, rfl, rfl⟩
  | sendPacket now look =>
      simp only [SendLog.sentBy, SendLog.sending] at hsent ⊢
      cases hqueue : s.queue with
      | nil =>
          simp only [SendQueue.step, sendPacket, hqueue] at hstep
          cases hstep
          rw [List.append_nil]
          exact h.of_same ⟨rfl, rfl, rfl, rfl, rfl, rfl⟩
      | cons frame frames =>
          cases hpackets : frame.packetsInFrame with
          | nil =>
              simp only [SendQueue.step, sendPacket, hqueue, hpackets] at hstep
              cases hstep
          | cons packet rest =>
              simp only [hqueue, hpackets, List.take_succ_cons, List.take_zero, List.map_cons,
                List.map_nil, List.forall_mem_singleton] at hsent ⊢
              simp only [SendQueue.step, sendPacket, hqueue, hpackets, Option.bind_eq_bind,
                Option.bind_eq_some_iff] at hstep
              obtain ⟨⟨accepted, controller⟩, -, u, hrecord, v, hpop, hv⟩ := hstep
              cases hv
              -- the controller is told first, which the windows do not depend on
              have hsame := h.of_same (t := { s with
                queue := frame :: frames
                pending := s.pending - 1
                controller
                sent := s.sent ++ [⟨frame.number, packet, s.ipidCounter, accepted⟩] })
                ⟨rfl, rfl, rfl, rfl, rfl, rfl⟩
              obtain ⟨u', hrecord', hkept⟩ := hsame.recordSent (look packet) hsent
              cases hrecord'.symm.trans hrecord
              obtain ⟨hcounter, hhistory, hwnd, hgoodputWnd, htotal, hgoodput⟩ :=
                sameWindows_popPacket hpop
              exact hkept.of_same ⟨hcounter, hhistory, hwnd, hgoodputWnd, htotal, hgoodput⟩

end SendQueue

namespace SendLog

variable {P : Type}

/-! ## Runs -/

/-- In every run in which packets are sent in time, with any frames, retransmissions and reports,
the byte counts are those of the last 50 ms, the history has the entries of the packets in
`m_send_wnd`, and all entries that the next packet in time needs. -/
theorem accounts_of_inTime (sendTimeLimit : Time) {es : List (Event P)}
    (h : Run.Each step Admissible { queue := { sendTimeLimit } } es) :
    Run.Always step
      (fun a => a.Accounts ∧ ∀ now look, InTime a.sends now →
        ∃ s, SendQueue.recordSent now look a.queue = some s)
      { queue := { sendTimeLimit } } es := by
  have hkept : Run.Always step (fun a : SendLog P => a.queue.Kept a.sends)
      { queue := { sendTimeLimit } } es := by
    refine h.always (fun a e b ha he hstep => ?_) (SendQueue.Kept.new sendTimeLimit)
    cases e with
    | queue e =>
        obtain ⟨queue, hqueue, rfl⟩ := Option.map_eq_some_iff.mp hstep
        exact ha.step he hqueue
    | controller e =>
        obtain ⟨controller, -, rfl⟩ := Option.map_eq_some_iff.mp hstep
        exact ha.of_same ⟨rfl, rfl, rfl, rfl, rfl, rfl⟩
  refine hkept.mono fun a ha => ⟨ha.accounts, fun now look hnow => ?_⟩
  obtain ⟨s, hs, -⟩ := ha.recordSent look hnow
  exact ⟨s, hs⟩

/-- When the retransmission is sent, the first packet leaves the window of time. -/
theorem accounts_of_inTime_rtx :
    Run.Always step
      (fun a => a.Accounts ∧ ∀ now look, InTime a.sends now →
        ∃ s, SendQueue.recordSent now look a.queue = some s)
      { queue := { sendTimeLimit := 50000000 } }
      [.queue (.sendFrame 100000000 ['a', 'b'] 100000000),
        .queue (.sendPacket 100000000 fun _ => ⟨true, 1000⟩),
        .queue (.sendPacket 120000000 fun _ => ⟨true, 1200⟩),
        .queue (.sendRtx 151000000 ['a'] 100000000),
        .queue (.sendPacket 151000000 fun _ => ⟨false, 1000⟩)] :=
  accounts_of_inTime 50000000 (by decide +kernel)

end SendLog

end Zhuge
