-- SUMMARY: The loop of ABC: access point, receiver and sender over channels that lose, delay, reorder and duplicate, and where the window ends.
import Zhuge.TcpAbc

/-!
# The loop of ABC

The sender marks its packets for acceleration, the access point marks them anew, the receiver
answers each packet that arrives with the mark it carried, and the sender moves its window.
Packets and answers may arrive at any time, any number of times, or never.
-/

namespace Zhuge

/-- `heard` lists the data packets whose answers the sender has received, by their numbers; the
program keeps no such list. -/
structure AbcLoop (D : Type) [Floating D] where
  router : AbcRouter D
  sender : TcpAbc.Sender
  receiver : EcnSocket
  /-- The marks with which the data packets left the access point. -/
  data : List EcnType
  /-- The answers: which packet each is for, and its mark. -/
  acks : List (ℕ × EcnType)
  heard : List ℕ

namespace AbcLoop

inductive Event (D Pkt : Type) where
  | updateTxRate (o : Observation Pkt)
  | sendData (size : UInt32) (randNum : D)
  /-- The data packet with this number arrives. -/
  | deliverData (sent : ℕ)
  | deliverAck (ack : ℕ) (rtt : Time)

variable (F : Type) {D Pkt : Type} [Floating F] [Floating D] [Widening F D]

/-- A packet leaves a socket. `none`: it is tagged twice. -/
def tag (size : UInt32) (socket : EcnSocket) : Option (EcnType × EcnSocket) :=
  (EcnSocket.markOf (socket.addSocketTags size).1).map fun mark =>
    (mark, (socket.addSocketTags size).2)

def step (ops : HeaderOps Pkt) (recvIP : UInt32) (s : AbcLoop D) :
    Event D Pkt → Option (AbcLoop D)
  | .updateTxRate o => (s.router.updateTxRate F ops o).map fun router => { s with router }
  | .sendData size randNum =>
    (tag size s.sender.toEcnSocket).map fun (mark, socket) =>
      { s with
        sender := { s.sender with toEcnSocket := socket }
        data := s.data ++ [(s.router.interface.sentHeader randNum ⟨6, mark⟩ recvIP).ecn] }
  | .deliverData sent =>
    match s.data[sent]? with
    | none => some s
    | some mark =>
      (tag 0 { s.receiver with ecnValue := mark }).map fun (mark, receiver) =>
        { s with receiver, acks := s.acks ++ [(sent, mark)] }
  | .deliverAck ack rtt =>
    match s.acks[ack]? with
    | none => some s
    | some (sent, mark) =>
      (TcpAbc.receive mark rtt s.sender).map fun sender =>
        { s with sender, heard := s.heard ++ [sent] }

/-- The state after the handshake: the sender has heard the mark of its first packet. -/
def init (router : AbcRouter D) (recvIP : UInt32) (randNum : D) (sender : TcpAbc.Sender)
    (receiver : EcnSocket) : AbcLoop D where
  router
  sender :=
    { TcpAbc.init sender with
      ecnValue := (router.interface.sentHeader randNum ⟨6, .ect1⟩ recvIP).ecn }
  receiver
  data := []
  acks := []
  heard := []

/-- The marks that the sender has heard. -/
def heardMarks (s : AbcLoop D) : List EcnType := s.heard.filterMap fun sent => s.data[sent]?

end AbcLoop

/-! ## Tags -/

namespace EcnSocket

@[simp] theorem ofTos_markEcnCodePoint (tos : UInt8) (codePoint : EcnType) :
    EcnType.ofTos (markEcnCodePoint tos codePoint) = codePoint := by
  have hlow : markEcnCodePoint tos codePoint &&& 3 = codePoint.toWord := by
    apply UInt8.toBitVec_inj.mp
    rw [markEcnCodePoint, UInt8.toBitVec_and, UInt8.toBitVec_or, UInt8.toBitVec_and,
      BitVec.and_or_distrib_right, BitVec.and_assoc]
    cases codePoint <;> simp [EcnType.toWord]
  rw [EcnType.ofTos, hlow]
  cases codePoint <;> rfl

/-- The sender marks every packet for acceleration, once it has heard a mark. -/
theorem tag_sender {s : EcnSocket} (hmode : s.ecnMode = .abcEcn)
    (hvalue : s.ecnValue = .ect1 ∨ s.ecnValue = .ect0) (size : UInt32) :
    AbcLoop.tag size s = some (.ect1, { s with ectCodePoint := .ect1 }) := by
  have hmark : s.ecnValue = .ect0 ∨ s.ecnValue = .ect1 := hvalue.symm
  simp [AbcLoop.tag, addSocketTags, addAbcTag, addEcnTag, hmode, hmark, markOf]

/-- Any other socket answers with the mark that it has received. -/
theorem tag_receiver {s : EcnSocket} (hmode : s.ecnMode ≠ .abcEcn)
    (hvalue : s.ecnValue = .ect1 ∨ s.ecnValue = .ect0) (size : UInt32) :
    AbcLoop.tag size s = some (s.ecnValue, { s with ectCodePoint := s.ecnValue }) := by
  have hmark : s.ecnValue = .ect0 ∨ s.ecnValue = .ect1 := hvalue.symm
  simp [AbcLoop.tag, addSocketTags, addAbcTag, addEcnTag, hmode, hmark, markOf]

end EcnSocket

/-! ## Runs -/

namespace AbcLoop

variable {F : Type} {D Pkt : Type} [Floating F] [Floating D] [Widening F D]
  {ops : HeaderOps Pkt} {recvIP : UInt32}

/-- A mark of the access point. -/
def Verdict (mark : EcnType) : Prop := mark = .ect1 ∨ mark = .ect0

/-- What every step keeps. -/
structure Marked (recvIP : UInt32) (s : AbcLoop D) : Prop where
  abcMode : s.router.interface.abcMode = true
  adr : s.router.interface.adr = recvIP
  sender : s.sender.ecnMode = .abcEcn
  sender_value : Verdict s.sender.ecnValue
  receiver : s.receiver.ecnMode ≠ .abcEcn
  data : ∀ mark ∈ s.data, Verdict mark
  acks : ∀ ack ∈ s.acks, s.data[ack.1]? = some ack.2

theorem verdict_sentHeader {i : Ipv4Interface D} (hmode : i.abcMode = true) (hadr : i.adr = recvIP)
    (randNum : D) (mark : EcnType) : Verdict (i.sentHeader randNum ⟨6, mark⟩ recvIP).ecn := by
  rw [Ipv4Interface.sentHeader, if_pos ⟨hmode, hadr.symm, rfl⟩, Ipv4Interface.abcEstimation]
  by_cases h : randNum < i.creditProb
  · exact .inl (if_pos h)
  · exact .inr (if_neg h)

/-- The answer that a step processes, if it processes one. -/
def answered (s : AbcLoop D) : Event D Pkt → Option (ℕ × EcnType × Time)
  | .deliverAck ack rtt => s.acks[ack]?.map fun (sent, mark) => (sent, mark, rtt)
  | _ => none

/-- The round-trip time of an answer has a whole millisecond. -/
def Timed (s : AbcLoop D) (e : Event D Pkt) : Prop :=
  ∀ answer ∈ s.answered e, Time.getMilliSeconds answer.2.2 ≠ 0

theorem getElem?_of_prefix {xs ys : List EcnType} (h : xs <+: ys) {k : ℕ} {mark : EcnType}
    (hk : xs[k]? = some mark) : ys[k]? = some mark := by
  obtain ⟨more, rfl⟩ := h
  rw [List.getElem?_append_left (List.getElem?_eq_some_iff.mp hk).1, hk]

/-- The window can take one more segment. -/
def Room (s : AbcLoop D) : Prop := s.sender.cWnd.toNat + s.sender.segmentSize.toNat < 2 ^ 32

/-- The steps that process no answer return, and leave the window and what was heard. -/
theorem Marked.step_of_answered_none (ops : HeaderOps Pkt) {s : AbcLoop D} (h : Marked recvIP s)
    {e : Event D Pkt} (hnone : s.answered e = none) :
    ∃ s', s.step F ops recvIP e = some s' ∧ Marked recvIP s' ∧
      s'.sender.cWnd = s.sender.cWnd ∧ s'.sender.segmentSize = s.sender.segmentSize ∧
      s.data <+: s'.data ∧ s'.heard = s.heard := by
  cases e with
  | updateTxRate o =>
      obtain ⟨router, hrouter⟩ : ∃ router, s.router.updateTxRate F ops o = some router :=
        ⟨_, AbcRouter.updateTxRate_spec ops s.router o⟩
      obtain ⟨-, hmode, hadr⟩ := AbcRouter.updateTxRate_keeps hrouter
      refine ⟨{ s with router }, ?_, ?_, rfl, rfl, List.prefix_rfl, rfl⟩
      · simp only [step, hrouter, Option.map_some]
      · exact { h with abcMode := hmode.trans h.abcMode, adr := hadr.trans h.adr }
  | sendData size randNum =>
      refine ⟨{ s with
          sender := { s.sender with ectCodePoint := .ect1 }
          data := s.data ++ [(s.router.interface.sentHeader randNum ⟨6, .ect1⟩ recvIP).ecn] },
        ?_, ?_, rfl, rfl, List.prefix_append _ _, rfl⟩
      · simp only [step, EcnSocket.tag_sender h.sender h.sender_value, Option.map_some]
      · refine { h with
          sender := h.sender, sender_value := h.sender_value, data := ?_, acks := ?_ }
        · intro mark hmark
          rcases List.mem_append.mp hmark with hmark | hmark
          · exact h.data mark hmark
          · rw [List.mem_singleton.mp hmark]
            exact verdict_sentHeader h.abcMode h.adr randNum .ect1
        · intro ack hack
          exact getElem?_of_prefix (List.prefix_append _ _) (h.acks ack hack)
  | deliverData sent =>
      cases hsent : s.data[sent]? with
      | none => exact ⟨s, by simp only [step, hsent], h, rfl, rfl, List.prefix_rfl, rfl⟩
      | some mark =>
          have hmark := h.data mark (List.mem_of_getElem? hsent)
          refine ⟨{ s with
              receiver := { s.receiver with ecnValue := mark, ectCodePoint := mark }
              acks := s.acks ++ [(sent, mark)] }, ?_, ?_, rfl, rfl, List.prefix_rfl, rfl⟩
          · simp only [step, hsent,
              EcnSocket.tag_receiver (s := { s.receiver with ecnValue := mark })
              h.receiver hmark, Option.map_some]
          · refine { h with receiver := h.receiver, acks := ?_ }
            intro ack hack
            rcases List.mem_append.mp hack with hack | hack
            · exact h.acks ack hack
            · rw [List.mem_singleton.mp hack]
              exact hsent
  | deliverAck ack rtt =>
      have hack : s.acks[ack]? = none := by simpa [answered] using hnone
      exact ⟨s, by simp only [step, hack], h, rfl, rfl, List.prefix_rfl, rfl⟩

theorem answered_eq_some {s : AbcLoop D} {e : Event D Pkt} {answer : ℕ × EcnType × Time}
    (h : s.answered e = some answer) :
    ∃ ack, s.acks[ack]? = some (answer.1, answer.2.1) ∧ e = .deliverAck ack answer.2.2 := by
  cases e with
  | deliverAck ack rtt =>
      obtain ⟨⟨sent, mark⟩, hack, rfl⟩ := Option.map_eq_some_iff.mp h
      exact ⟨ack, hack, rfl⟩
  | updateTxRate o => cases h
  | sendData size randNum => cases h
  | deliverData sent => cases h

/-- A step that processes an answer moves the window by the mark of the packet it is for. -/
theorem Marked.step_of_answered (ops : HeaderOps Pkt) {s : AbcLoop D} (h : Marked recvIP s)
    (hsized : TcpAbc.Sized s.sender) (hroom : s.Room) {e : Event D Pkt}
    {answer : ℕ × EcnType × Time} (hanswer : s.answered e = some answer)
    (hrtt : Time.getMilliSeconds answer.2.2 ≠ 0) :
    ∃ s', s.step F ops recvIP e = some s' ∧ Marked recvIP s' ∧ TcpAbc.Sized s'.sender ∧
      s'.sender.segmentSize = s.sender.segmentSize ∧ s'.data = s.data ∧
      s'.heard = s.heard ++ [answer.1] ∧ s.data[answer.1]? = some answer.2.1 ∧
      (s'.sender.cWnd.toNat : ℤ) = Reflection.move (4 * s.sender.segmentSize.toNat : ℤ)
        s.sender.cWnd.toNat (TcpAbc.moveOf s.sender.segmentSize answer.2.1) := by
  obtain ⟨ack, hack, rfl⟩ := answered_eq_some hanswer
  have hdata := h.acks _ (List.mem_of_getElem? hack)
  have hmark := h.data _ (List.mem_of_getElem? hdata)
  obtain ⟨sender, hsender, hsized', hsegment, hsocket, hwnd⟩ :=
    hsized.receive hmark (fun _ => hroom) hrtt
  refine ⟨{ s with sender, heard := s.heard ++ [answer.1] }, ?_, ?_, hsized', hsegment, rfl, rfl,
    hdata, hwnd⟩
  · simp only [step, hack, hsender, Option.map_some]
  · exact { h with
      sender := by rw [hsocket]; exact h.sender
      sender_value := by rw [hsocket]; exact hmark }

/-- An answer without a whole millisecond of round-trip time ends the program. -/
theorem step_eq_none {s : AbcLoop D} {e : Event D Pkt} (h : ¬ s.Timed e) :
    s.step F ops recvIP e = none := by
  obtain ⟨answer, hanswer, hrtt⟩ : ∃ answer, s.answered e = some answer ∧
      Time.getMilliSeconds answer.2.2 = 0 := by
    simpa [Timed] using h
  obtain ⟨ack, hack, rfl⟩ := answered_eq_some hanswer
  simp only [step, hack, TcpAbc.receive_eq_none hrtt, Option.map_none]

theorem timed_of_step {s s' : AbcLoop D} {e : Event D Pkt}
    (h : s.step F ops recvIP e = some s') : s.Timed e := by
  by_contra hnot
  rw [step_eq_none hnot] at h
  cases h

theorem heard_step {s s' : AbcLoop D} {e : Event D Pkt} (h : s.step F ops recvIP e = some s') :
    s'.heard = s.heard ++ (s.answered e).toList.map Prod.fst := by
  cases e with
  | updateTxRate o =>
      obtain ⟨a, -, rfl⟩ := Option.map_eq_some_iff.mp h
      simp [answered]
  | sendData size randNum =>
      obtain ⟨a, -, rfl⟩ := Option.map_eq_some_iff.mp h
      simp [answered]
  | deliverData sent =>
      simp only [step] at h
      split at h
      · cases h
        simp [answered]
      · obtain ⟨a, -, rfl⟩ := Option.map_eq_some_iff.mp h
        simp [answered]
  | deliverAck ack rtt =>
      simp only [step] at h
      split at h
      case h_1 hack =>
        cases h
        simp [answered, hack]
      case h_2 sent mark hack =>
        obtain ⟨a, -, rfl⟩ := Option.map_eq_some_iff.mp h
        simp [answered, hack]

/-- A good state to start a step in. -/
structure Ready (recvIP : UInt32) (s : AbcLoop D) : Prop where
  marked : Marked recvIP s
  sized : TcpAbc.Sized s.sender

/-- Every step returns or finds an answer without a whole millisecond. -/
theorem Ready.moves (ops : HeaderOps Pkt) {s : AbcLoop D} (h : Ready recvIP s) {e : Event D Pkt}
    (hroom : s.Room)
    (htimed : s.Timed e) :
    ∃ s', s.step F ops recvIP e = some s' ∧ Ready recvIP s' ∧
      s'.sender.segmentSize = s.sender.segmentSize ∧ s.data <+: s'.data ∧
      ∃ new, s'.heard = s.heard ++ new ∧ (∀ sent ∈ new, sent < s.data.length) ∧
        (s'.sender.cWnd.toNat : ℤ) = Reflection.walk (4 * s.sender.segmentSize.toNat : ℤ)
          s.sender.cWnd.toNat ((new.filterMap fun sent => s.data[sent]?).map
            (TcpAbc.moveOf s.sender.segmentSize)) := by
  cases hanswer : s.answered e with
  | none =>
      obtain ⟨s', hstep, hmarked, hwnd, hsegment, hdata, hheard⟩ :=
        h.marked.step_of_answered_none (F := F) ops hanswer
      obtain ⟨hpos, hlt, hfloor⟩ := h.sized
      refine ⟨s', hstep, ⟨hmarked, ?_⟩, hsegment, hdata, [], ?_, ?_, ?_⟩
      · rw [← hsegment] at hpos hlt hfloor
        rw [← hwnd] at hfloor
        exact ⟨hpos, hlt, hfloor⟩
      · rw [hheard, List.append_nil]
      · intro sent hsent
        cases hsent
      · rw [hwnd]
        rfl
  | some answer =>
      obtain ⟨s', hstep, hmarked, hsized, hsegment, hdata, hheard, hmark, hwnd⟩ :=
        h.marked.step_of_answered (F := F) ops h.sized hroom hanswer
          (htimed answer hanswer)
      refine ⟨s', hstep, ⟨hmarked, hsized⟩, hsegment, hdata ▸ List.prefix_rfl, [answer.1], hheard,
        ?_, ?_⟩
      · intro sent hsent
        rw [List.mem_singleton.mp hsent]
        exact (List.getElem?_eq_some_iff.mp hmark).1
      · rw [hwnd, List.filterMap_cons_some hmark]
        rfl

/-- A run returns exactly if every answer that it processes took a whole millisecond. -/
theorem Ready.exec_isSome_iff {s : AbcLoop D} (h : Ready recvIP s) {es : List (Event D Pkt)}
    (hroom : Run.Each (step F ops recvIP) (fun s _ => s.Room) s es) :
    (∃ s', Run.exec (step F ops recvIP) s es = some s') ↔
      Run.Each (step F ops recvIP) Timed s es := by
  induction es generalizing s with
  | nil => exact ⟨fun _ => trivial, fun _ => ⟨s, rfl⟩⟩
  | cons e es ih =>
      by_cases htimed : s.Timed e
      · obtain ⟨t, ht, hready, -⟩ := h.moves (F := F) ops hroom.1 htimed
        have hrest := ih hready (hroom.2 t ht)
        constructor
        · rintro ⟨s', hs'⟩
          obtain ⟨t', ht', hrun⟩ := Run.exec_cons_eq_some.mp hs'
          cases ht.symm.trans ht'
          refine ⟨htimed, fun t' ht' => ?_⟩
          cases ht.symm.trans ht'
          exact hrest.mp ⟨s', hrun⟩
        · intro heach
          obtain ⟨s', hs'⟩ := hrest.mpr (heach.2 t ht)
          exact ⟨s', Run.exec_cons_eq_some.mpr ⟨t, ht, hs'⟩⟩
      · constructor
        · rintro ⟨s', hs'⟩
          obtain ⟨t, ht, -⟩ := Run.exec_cons_eq_some.mp hs'
          rw [step_eq_none htimed] at ht
          cases ht
        · intro heach
          exact absurd heach.1 htimed

/-- The window after a run is where the walk of the marks ends that were heard during it. -/
theorem Ready.exec {s s' : AbcLoop D} (h : Ready recvIP s) {es : List (Event D Pkt)}
    (hroom : Run.Each (step F ops recvIP) (fun s _ => s.Room) s es)
    (hrun : Run.exec (step F ops recvIP) s es = some s') :
    Ready recvIP s' ∧ s'.sender.segmentSize = s.sender.segmentSize ∧ s.data <+: s'.data ∧
      ∃ new, s'.heard = s.heard ++ new ∧ (∀ sent ∈ new, sent < s'.data.length) ∧
        (s'.sender.cWnd.toNat : ℤ) = Reflection.walk (4 * s.sender.segmentSize.toNat : ℤ)
          s.sender.cWnd.toNat ((new.filterMap fun sent => s'.data[sent]?).map
            (TcpAbc.moveOf s.sender.segmentSize)) := by
  induction es generalizing s with
  | nil =>
      cases hrun
      exact ⟨h, rfl, List.prefix_rfl, [], (List.append_nil _).symm,
        fun sent hsent => absurd hsent List.not_mem_nil, rfl⟩
  | cons e es ih =>
      obtain ⟨t, ht, hrest⟩ := Run.exec_cons_eq_some.mp hrun
      obtain ⟨t', ht', hready, hsegment, hdata, new, hheard, hnew, hwnd⟩ :=
        h.moves (F := F) ops hroom.1 (timed_of_step ht)
      cases ht.symm.trans ht'
      obtain ⟨hready', hsegment', hdata', new', hheard', hnew', hwnd'⟩ :=
        ih hready (hroom.2 t ht) hrest
      refine ⟨hready', hsegment'.trans hsegment, hdata.trans hdata', new ++ new', ?_, ?_, ?_⟩
      · rw [hheard', hheard, List.append_assoc]
      · intro sent hsent
        rcases List.mem_append.mp hsent with hsent | hsent
        · exact (hnew sent hsent).trans_le ((hdata.trans hdata').length_le)
        · exact hnew' sent hsent
      · -- later data does not change the marks that were heard before
        have hsame : (new.filterMap fun sent => s'.data[sent]?) =
            new.filterMap fun sent => s.data[sent]? := by
          apply List.filterMap_congr
          intro sent hsent
          obtain ⟨mark, hmark⟩ : ∃ mark, s.data[sent]? = some mark :=
            ⟨_, List.getElem?_eq_getElem (hnew sent hsent)⟩
          rw [hmark, getElem?_of_prefix (hdata.trans hdata') hmark]
        rw [hwnd', hwnd, hsegment, List.filterMap_append, List.map_append, Reflection.walk_append,
          hsame]

theorem ready_init {router : AbcRouter D} {randNum : D} {sender : TcpAbc.Sender}
    {receiver : EcnSocket} (habc : router.interface.abcMode = true)
    (hadr : router.interface.adr = recvIP) (hreceiver : receiver.ecnMode ≠ .abcEcn)
    (hsized : TcpAbc.Sized sender) :
    Ready recvIP (init router recvIP randNum sender receiver) where
  marked := {
    abcMode := habc
    adr := hadr
    sender := rfl
    sender_value := verdict_sentHeader habc hadr randNum .ect1
    receiver := hreceiver
    data := List.forall_mem_nil _
    acks := List.forall_mem_nil _ }
  sized := ⟨hsized.segment_pos, hsized.segment_lt, hsized.floor_le⟩

/-! ## The loop as a whole -/

/-- An access point before its first tick, for a flow to address 9. -/
def freshRouter : AbcRouter ℚ := .init ℚ 1 1 9 0 kMinTxRateBps

/-- A sender with a window of ten segments. -/
def freshSender : TcpAbc.Sender where
  ecnMode := .classicEcn
  ecnDisabled := false
  ectCodePoint := .notEct
  ipTos := 0
  cWnd := 14480
  segmentSize := 1448
  lastRtt := 0
  pacingRateBps := 0

/-- Headers that are numbers: the packet is its identification, and no header is removed. -/
def numberedHeaders : HeaderOps UInt16 := ⟨id, id, id, fun _ => 0⟩

/-- One packet is sent and arrives. -/
def onePacketArrives : List (Event ℚ UInt16) := [.sendData 1448 0, .deliverData 0]

theorem fresh_abcMode : freshRouter.interface.abcMode = true := rfl

theorem fresh_adr : freshRouter.interface.adr = 9 := rfl

theorem fresh_receiver : freshSender.toEcnSocket.ecnMode ≠ .abcEcn := by decide

theorem sized_freshSender : TcpAbc.Sized freshSender := ⟨by decide, by decide, by decide⟩

theorem ready_fresh : Ready 9 (init freshRouter 9 0 freshSender freshSender.toEcnSocket) :=
  ready_init fresh_abcMode fresh_adr fresh_receiver sized_freshSender

theorem room_fresh : (init freshRouter 9 0 freshSender freshSender.toEcnSocket).Room := by
  have hroom : freshSender.cWnd.toNat + freshSender.segmentSize.toNat < 2 ^ 32 := by decide
  exact hroom

theorem room_onePacketArrives :
    Run.Each (step ℚ numberedHeaders 9) (fun s _ => s.Room)
      (init freshRouter 9 0 freshSender freshSender.toEcnSocket) onePacketArrives := by
  refine ⟨room_fresh, fun t ht => ⟨?_, fun _ _ => trivial⟩⟩
  obtain ⟨_, -, rfl⟩ := Option.map_eq_some_iff.mp ht
  exact room_fresh

theorem timed_onePacketArrives :
    Run.Each (step ℚ numberedHeaders 9) Timed
      (init freshRouter 9 0 freshSender freshSender.toEcnSocket) onePacketArrives :=
  ⟨fun _ h => absurd h (Option.not_mem_none _),
    fun _ _ => ⟨fun _ h => absurd h (Option.not_mem_none _), fun _ _ => trivial⟩⟩

section

variable (ops) (recvIP)

/-- Every tick finds at least 140.34 milliseconds of queue, and every answer is for a packet that
was sent in the run; random numbers are not negative. -/
def Overloaded (start : ℕ) (s : AbcLoop ℚ) : Event ℚ Pkt → Prop
  | .updateTxRate o => s.router.Fits o ∧ ∀ a, s.router.updateTxRate ℚ ops o = some a →
      14034 * a.queue.curTxRateBps.toNat ≤ 100 * AbcRouter.delayBits s.router.queue.mode o
  | .sendData _ randNum => 0 ≤ randNum
  | .deliverData _ => True
  | .deliverAck ack _ => ∀ answer, s.acks[ack]? = some answer → start ≤ answer.1

/-- The access point brakes every packet that it sees, and has braked those since `start`. -/
structure Braking (start : ℕ) (s : AbcLoop ℚ) : Prop where
  marked : Marked recvIP s
  paced : AbcRouter.Paced s.router.queue
  starved : s.router.interface.creditProb ≤ 0
  data : ∀ sent mark, start ≤ sent → s.data[sent]? = some mark → mark = .ect0

end

/-- A tick that finds the queue too long makes the access point brake. -/
theorem Braking.of_tick {start : ℕ} {s : AbcLoop ℚ} {a : AbcRouter ℚ} {o : Observation Pkt}
    (hmarked : Marked recvIP s) (hpaced : AbcRouter.Paced s.router.queue)
    (hdata : ∀ sent mark, start ≤ sent → s.data[sent]? = some mark → mark = .ect0)
    (hover : Overloaded ops start s (.updateTxRate o))
    (ha : s.router.updateTxRate ℚ ops o = some a) :
    Braking recvIP start { s with router := a } := by
  obtain ⟨hfits, hfull⟩ := hover
  obtain ⟨-, hmode, hadr⟩ := AbcRouter.updateTxRate_keeps ha
  have hpaced' := AbcRouter.Paced.tick hfits (.inr hpaced) ha
  have hfollow := AbcRouter.MarksFollow.of_tick hmarked.abcMode hmarked.adr hpaced' ha
  refine ⟨{ hmarked with
    abcMode := hmode.trans hmarked.abcMode, adr := hadr.trans hmarked.adr }, hpaced', ?_, hdata⟩
  -- a mark for the random number zero tells the sign of the probability
  by_contra hpos
  have hzero := hfollow.full.mp (hfull a ha) 0 ⟨6, .ect1⟩ le_rfl rfl
  rw [Ipv4Interface.sentHeader,
    if_pos ⟨hmode.trans hmarked.abcMode, (hadr.trans hmarked.adr).symm, rfl⟩,
    Ipv4Interface.abcEstimation, if_pos (not_le.mp hpos)] at hzero
  cases hzero

theorem Braking.moves {start : ℕ} {s s' : AbcLoop ℚ} (h : Braking recvIP start s)
    {e : Event ℚ Pkt} (hover : Overloaded ops start s e) (hready : Marked recvIP s')
    (hstep : s.step ℚ ops recvIP e = some s') : Braking recvIP start s' := by
  cases e with
  | updateTxRate o =>
      obtain ⟨a, ha, rfl⟩ := Option.map_eq_some_iff.mp hstep
      exact .of_tick h.marked h.paced h.data hover ha
  | sendData size randNum =>
      obtain ⟨⟨mark, socket⟩, htag, rfl⟩ := Option.map_eq_some_iff.mp hstep
      refine ⟨hready, h.paced, h.starved, ?_⟩
      intro sent mark' hsent hmark'
      rcases Nat.lt_trichotomy sent s.data.length with hlt | heq | hgt
      · rw [List.getElem?_append_left hlt] at hmark'
        exact h.data sent mark' hsent hmark'
      · rw [heq, List.getElem?_concat_length] at hmark'
        cases hmark'
        rw [Ipv4Interface.sentHeader, if_pos ⟨h.marked.abcMode, h.marked.adr.symm, rfl⟩,
          Ipv4Interface.abcEstimation, if_neg (not_lt.mpr (h.starved.trans hover))]
      · rw [List.getElem?_eq_none (by simpa using hgt)] at hmark'
        cases hmark'
  | deliverData sent =>
      simp only [AbcLoop.step] at hstep
      split at hstep
      · cases hstep
        exact h
      · obtain ⟨_, -, rfl⟩ := Option.map_eq_some_iff.mp hstep
        exact ⟨hready, h.paced, h.starved, h.data⟩
  | deliverAck ack rtt =>
      simp only [AbcLoop.step] at hstep
      split at hstep
      · cases hstep
        exact h
      · obtain ⟨_, -, rfl⟩ := Option.map_eq_some_iff.mp hstep
        exact ⟨hready, h.paced, h.starved, h.data⟩

/-- While the access point brakes, every answer takes one segment off the window, down to the
floor of four segments. -/
theorem Braking.window {s s' : AbcLoop ℚ} (hsized : TcpAbc.Sized s.sender)
    (h : Braking recvIP s.data.length s) {es : List (Event ℚ Pkt)}
    (hroom : Run.Each (step ℚ ops recvIP) (fun s _ => s.Room) s es)
    (hover : Run.Each (step ℚ ops recvIP) (Overloaded ops s.data.length) s es)
    (hrun : Run.exec (step ℚ ops recvIP) s es = some s') :
    s'.sender.cWnd.toNat = max
      (s.sender.cWnd.toNat - s.sender.segmentSize.toNat * (s'.heard.length - s.heard.length))
      (4 * s.sender.segmentSize.toNat) := by
  have hready : Ready recvIP s := ⟨h.marked, hsized⟩
  let Inv (t : AbcLoop ℚ) : Prop := Ready recvIP t ∧ Braking recvIP s.data.length t ∧
    ∃ new, t.heard = s.heard ++ new ∧ ∀ sent ∈ new, s.data.length ≤ sent
  have hinv : ∀ t e t', Inv t → t.Room ∧ Overloaded ops s.data.length t e →
      t.step ℚ ops recvIP e = some t' → Inv t' := by
    rintro t e t' ⟨hready, hbraking, new, hheard, hstart⟩ ⟨hroom, hover⟩ hstep
    obtain ⟨t'', hstep', hready', -⟩ :=
      hready.moves (F := ℚ) ops hroom (timed_of_step hstep)
    cases hstep.symm.trans hstep'
    refine ⟨hready', hbraking.moves hover hready'.marked hstep,
      new ++ (t.answered e).toList.map Prod.fst, ?_, ?_⟩
    · rw [heard_step hstep, hheard, List.append_assoc]
    · intro sent hsent
      rcases List.mem_append.mp hsent with hsent | hsent
      · exact hstart sent hsent
      · obtain ⟨answer, hanswer, rfl⟩ := List.mem_map.mp hsent
        obtain ⟨ack, hack, rfl⟩ := answered_eq_some (Option.mem_toList.mp hanswer)
        exact hover _ hack
  obtain ⟨-, -, -, new, hheard, hnew, hwnd⟩ := hready.exec hroom hrun
  obtain ⟨-, hbraking, new', hheard', hstart⟩ := (Run.Each.always hinv
    ⟨hready, h, [], (List.append_nil _).symm, List.forall_mem_nil _⟩
    (hroom.and hover)).exec hrun
  cases List.append_cancel_left (hheard.symm.trans hheard')
  -- every mark that was heard in the run is a brake
  have hmarks : (new.filterMap fun sent => s'.data[sent]?) =
      List.replicate new.length .ect0 := by
    rw [List.eq_replicate_iff, List.length_filterMap_eq_countP, List.countP_eq_length]
    refine ⟨fun sent hsent => by simpa using hnew sent hsent, fun mark hmark => ?_⟩
    obtain ⟨sent, hsent, hmark⟩ := List.mem_filterMap.mp hmark
    exact hbraking.data sent mark (hstart sent hsent) hmark
  have hlength : s'.heard.length - s.heard.length = new.length := by
    rw [hheard, List.length_append, Nat.add_sub_cancel_left]
  have hfloor : (4 * s.sender.segmentSize.toNat : ℤ) ≤ s.sender.cWnd.toNat := by
    exact_mod_cast hsized.floor_le
  have hdown : ∀ move ∈ List.replicate new.length (TcpAbc.moveOf s.sender.segmentSize .ect0),
      move ≤ 0 := by
    intro move hmove
    rw [List.eq_of_mem_replicate hmove]
    exact neg_nonpos.mpr (Int.natCast_nonneg _)
  rw [hmarks, List.map_replicate, Reflection.walk_of_nonpos hfloor hdown, List.sum_replicate,
    nsmul_eq_mul] at hwnd
  rw [hlength]
  change (s'.sender.cWnd.toNat : ℤ) = max (s.sender.cWnd.toNat +
    new.length * -s.sender.segmentSize.toNat : ℤ) (4 * s.sender.segmentSize.toNat) at hwnd
  rw [mul_neg, mul_comm] at hwnd
  norm_cast at hwnd
  omega

/-- The queue of the device holds 40000 bytes. -/
def longQueue : Observation UInt16 := ⟨⟨[7], 40000, 40000⟩, ⟨[], 0, 0⟩, 0⟩

theorem overloaded_longQueue :
    Overloaded numberedHeaders 0 (init freshRouter 9 0 freshSender freshSender.toEcnSocket)
      (.updateTxRate longQueue) := by
  refine ⟨by decide, fun a ha => ?_⟩
  cases (AbcRouter.updateTxRate_spec (F := ℚ) numberedHeaders freshRouter longQueue).symm.trans ha
  decide

end AbcLoop

end Zhuge
