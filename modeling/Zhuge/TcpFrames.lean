-- SUMMARY: Frames over a byte stream: how the sender writes them, and when the receiver, which handles one frame a callback, puts them together again.
import Zhuge.Lib.Run
import Zhuge.SendPackets
import Zhuge.WireTrip

/-!
# Frames over TCP

The sender writes a header and the payload of each frame. A callback of the receiver either
starts a frame or goes on with one, and never handles more than that one frame.
-/

namespace Zhuge

/-! ## The sender -/

/-- The one data packet that `PacketSenderTcp::CreateFrame` makes of a frame. -/
def FrameArgs.tcpPacket (now : Time) (f : FrameArgs) : DataPacket :=
  { DataPacket.new f.frameId f.dataSize 1 f.pktId with
    encodeTime := now
    payloadSize := f.dataSize }

def DataPacket.toTcpSendPacket {P : Type} [PacketBuffer P] (pkt : DataPacket) : P :=
  PacketBuffer.create pkt.payloadSize |> addHeader pkt.toDataPacketHeader

structure PacketSenderTcp where
  connected : Bool
  queue : List DataPacket
  /-- The bytes written to the socket so far. -/
  stream : List UInt8

namespace PacketSenderTcp

inductive Event where
  | connectionSucceeded
  | createFrame (now : Time) (f : FrameArgs)
  /-- `SendPacket`; the socket may have no room for the packet. -/
  | sendPacket (accepted : Bool)

def new : PacketSenderTcp := ⟨false, [], []⟩

def step (s : PacketSenderTcp) : Event → PacketSenderTcp
  | .connectionSucceeded => { s with connected := true }
  | .createFrame now f => { s with queue := s.queue ++ [f.tcpPacket now] }
  | .sendPacket accepted =>
    match s.queue with
    | [] => s
    | pkt :: queue =>
      if s.connected && accepted then
        { s with
          queue := queue
          stream := s.stream ++ pkt.toTcpSendPacket }
      else s

end PacketSenderTcp

/-! ## The receiver -/

structure PacketReceiverTcp where
  recvPktStart : Bool
  bytesToRecv : UInt32
  curHdr : DataPacketHeader
  /-- The bytes that arrived at the socket and were not read yet. -/
  available : List UInt8
  /-- The packets handed to the decoder so far. -/
  handed : List DataPacket

namespace PacketReceiverTcp

def new : PacketReceiverTcp where
  recvPktStart := true
  bytesToRecv := 0
  curHdr := ⟨0, 0, 0, 0⟩
  available := []
  handed := []

/-- `Recv`: what is read and what is left. `none` is the null pointer, returned when nothing
arrived. -/
def recv (maxSize : ℕ) (available : List UInt8) : Option (List UInt8 × List UInt8) :=
  if available = [] then none else some (available.take maxSize, available.drop maxSize)

/-- The data packet made from the current header, handed to the decoder. -/
def hand (r : PacketReceiverTcp) : PacketReceiverTcp :=
  { r with handed := r.handed ++
      [.new r.curHdr.frameId r.curHdr.frameSize r.curHdr.framePktNum r.curHdr.pktIdInFrame] }

/-- `OnSocketRecv_receiver`. `none`: it uses a null pointer or reads a header past the end of
a packet. -/
def onSocketRecv (r : PacketReceiverTcp) : Option PacketReceiverTcp :=
  if r.recvPktStart then do
    let (pkt, available) ← recv 12 r.available
    let (curHdr, _) ← removeHeader (H := DataPacketHeader) pkt
    let (payload, available) ← recv curHdr.frameSize.toNat available
    let r := { r with curHdr, available }
    if payload.length < curHdr.frameSize.toNat then
      some { r with
        bytesToRecv := curHdr.frameSize - .ofNat payload.length
        recvPktStart := false }
    else some r.hand
  else do
    let (payload, available) ← recv r.bytesToRecv.toNat r.available
    let r := { r with available }
    if payload.length < r.bytesToRecv.toNat then
      some { r with bytesToRecv := r.bytesToRecv - .ofNat payload.length }
    else
      some { r with
        recvPktStart := true
        bytesToRecv := 0 }.hand

/-- A chunk arrives and the callback runs. -/
def receive (r : PacketReceiverTcp) (chunk : List UInt8) : Option PacketReceiverTcp :=
  { r with available := r.available ++ chunk }.onSocketRecv

end PacketReceiverTcp

/-! ## Frames on the stream -/

namespace FrameArgs

/-- The header in front of the frame. -/
def tcpHeader (f : FrameArgs) : DataPacketHeader := ⟨f.frameId, 1, f.pktId, f.dataSize⟩

/-- The bytes of the frame on the stream. -/
def tcpBytes (f : FrameArgs) : List UInt8 := (f.tcpPacket 0).toTcpSendPacket

/-- The packet that the receiver makes of the frame. -/
def tcpReceived (f : FrameArgs) : DataPacket := .new f.frameId f.dataSize 1 f.pktId

/-- How many bytes the frame takes on the stream. -/
def tcpSize (f : FrameArgs) : ℕ := 12 + f.dataSize.toNat

theorem toTcpSendPacket_tcpPacket (now : Time) (f : FrameArgs) :
    (f.tcpPacket now).toTcpSendPacket = f.tcpBytes := rfl

theorem tcpBytes_eq (f : FrameArgs) :
    f.tcpBytes = Header.serialize f.tcpHeader ++ List.replicate f.dataSize.toNat 0 :=
  LawfulPacketBuffer.bytes_addAtStart (P := List UInt8) _ _ (List.replicate f.dataSize.toNat 0)
    (DataPacketHeader.carries f.tcpHeader).size

theorem length_serialize (h : DataPacketHeader) : (Header.serialize h).length = 12 :=
  (DataPacketHeader.carries h).size

theorem length_tcpBytes (f : FrameArgs) : f.tcpBytes.length = f.tcpSize := by
  rw [tcpBytes_eq, List.length_append, length_serialize, List.length_replicate, tcpSize]

end FrameArgs

/-- The frames created by the events. -/
def PacketSenderTcp.created (events : List PacketSenderTcp.Event) : List FrameArgs :=
  events.filterMap fun
    | .createFrame _ f => some f
    | _ => none

/-- The stream holds the frames in order, up to those still in the queue. -/
theorem PacketSenderTcp.stream_eq (events : List PacketSenderTcp.Event) : ∃ sent waiting,
    created events = sent ++ waiting ∧
    (events.foldl step new).queue.map DataPacket.toTcpSendPacket
      = waiting.map FrameArgs.tcpBytes ∧
    (events.foldl step new).stream = sent.flatMap FrameArgs.tcpBytes := by
  induction events using List.reverseRecOn with
  | nil => exact ⟨[], [], rfl, rfl, rfl⟩
  | append_singleton events e ih =>
      obtain ⟨sent, waiting, hcreated, hqueue, hstream⟩ := ih
      rw [List.foldl_append, created, List.filterMap_append]
      change ∃ sent waiting, created events ++ _ = _ ∧ _
      rw [hcreated]
      generalize events.foldl step new = s at hqueue hstream
      cases e with
      | connectionSucceeded => exact ⟨sent, waiting, by simp, hqueue, hstream⟩
      | createFrame now f =>
          refine ⟨sent, waiting ++ [f], by simp, ?_, hstream⟩
          simp [step, hqueue, FrameArgs.toTcpSendPacket_tcpPacket]
      | sendPacket accepted =>
          simp only [List.foldl_cons, List.foldl_nil, step]
          cases hpkts : s.queue with
          | nil => exact ⟨sent, waiting, by simp, hqueue, hstream⟩
          | cons pkt queue =>
              simp only
              split
              case isFalse => exact ⟨sent, waiting, by simp, hqueue, hstream⟩
              case isTrue =>
                rw [hpkts] at hqueue
                cases waiting with
                | nil => cases hqueue
                | cons f waiting =>
                    obtain ⟨hbytes, hqueue⟩ := List.cons.inj hqueue
                    exact ⟨sent ++ [f], waiting, by simp, hqueue, by simp [hstream, hbytes]⟩

theorem length_of_run_readBe {n v : ℕ} {bytes rest : List UInt8}
    (h : (readBe n).run bytes = some (v, rest)) : bytes.length = n + rest.length := by
  induction n generalizing v bytes with
  | zero =>
      cases h
      rw [zero_add]
  | succ n ih =>
      cases bytes with
      | nil => cases h
      | cons byte bytes =>
          obtain ⟨⟨low, rest'⟩, hlow, h⟩ := Option.bind_eq_some_iff.mp h
          cases h
          rw [List.length_cons, ih hlow]
          omega

theorem length_of_run_map_readBe {α : Type} {f : ℕ → α} {n : ℕ} {a : α} {bytes rest : List UInt8}
    (h : (f <$> readBe n).run bytes = some (a, rest)) : bytes.length = n + rest.length := by
  rw [StateT.run_map] at h
  obtain ⟨⟨v, rest'⟩, hrun, heq⟩ := Option.map_eq_some_iff.mp h
  cases heq
  exact length_of_run_readBe hrun

/-- A header cannot be read off fewer bytes than it has. -/
theorem removeHeader_short {bytes : List UInt8} (h : bytes.length < 12) :
    removeHeader (H := DataPacketHeader) bytes = none := by
  rw [removeHeader, Option.map_eq_none_iff]
  by_contra hsome
  obtain ⟨⟨_, rest⟩, hrun⟩ := Option.ne_none_iff_exists'.mp hsome
  obtain ⟨⟨frameId, rest₁⟩, h₁, hrun⟩ := Option.bind_eq_some_iff.mp hrun
  obtain ⟨⟨frameSize, rest₂⟩, h₂, hrun⟩ := Option.bind_eq_some_iff.mp hrun
  obtain ⟨⟨framePktNum, rest₃⟩, h₃, hrun⟩ := Option.bind_eq_some_iff.mp hrun
  obtain ⟨⟨pktIdInFrame, rest₄⟩, h₄, -⟩ := Option.bind_eq_some_iff.mp hrun
  have hlen : bytes.length = 4 + rest₁.length := length_of_run_map_readBe h₁
  have hlen₁ : rest₁.length = 4 + rest₂.length := length_of_run_map_readBe h₂
  have hlen₂ : rest₂.length = 2 + rest₃.length := length_of_run_map_readBe h₃
  have hlen₃ : rest₃.length = 2 + rest₄.length := length_of_run_map_readBe h₄
  omega

/-- A header is read off its bytes. -/
theorem removeHeader_serialize (h : DataPacketHeader) :
    removeHeader (Header.serialize h) = some (h, ([] : List UInt8)) := by
  have hadd : addHeader h ([] : List UInt8) = Header.serialize h ++ [] :=
    LawfulPacketBuffer.bytes_addAtStart (P := List UInt8) _ _ [] (DataPacketHeader.carries h).size
  rw [List.append_nil] at hadd
  rw [← hadd]
  exact removeHeader_addHeader (DataPacketHeader.carries h) []

/-! ## One callback -/

namespace PacketReceiverTcp

/-- Between two frames: `ahead` are the bytes of the next ones that arrived too early. -/
structure Between (ahead : List UInt8) (handed : List DataPacket) (r : PacketReceiverTcp) :
    Prop where
  start : r.recvPktStart = true
  available : r.available = ahead
  handed : r.handed = handed

/-- Within a frame of which `left` bytes are missing. -/
structure Within (f : FrameArgs) (left : ℕ) (handed : List DataPacket) (r : PacketReceiverTcp) :
    Prop where
  start : r.recvPktStart = false
  curHdr : r.curHdr = f.tcpHeader
  left : r.bytesToRecv.toNat = left
  available : r.available = []
  handed : r.handed = handed

theorem recv_of_ne_nil {maxSize : ℕ} {available : List UInt8} (h : available ≠ []) :
    recv maxSize available = some (available.take maxSize, available.drop maxSize) := if_neg h

variable {ahead chunk rest stream : List UInt8} {handed : List DataPacket} {f : FrameArgs}
  {left : ℕ} {r : PacketReceiverTcp}

theorem take_header {bytes : List UInt8} (hlen : 12 ≤ bytes.length)
    (hstream : bytes ++ rest = f.tcpBytes ++ stream) :
    bytes.take 12 = Header.serialize f.tcpHeader := by
  have htake := congrArg (List.take 12) hstream
  rw [List.take_append_of_le_length hlen, f.tcpBytes_eq, List.append_assoc] at htake
  rw [htake]
  exact List.take_left' (FrameArgs.length_serialize f.tcpHeader)

/-- What a callback does that starts a frame whose header is there. -/
theorem Between.receive_eq (h : Between ahead handed r) (hlen : 12 ≤ (ahead ++ chunk).length)
    (hstream : ahead ++ chunk ++ rest = f.tcpBytes ++ stream) :
    r.receive chunk = (recv f.dataSize.toNat ((ahead ++ chunk).drop 12)).bind fun p =>
      let r : PacketReceiverTcp := { r with
        curHdr := f.tcpHeader
        available := p.2 }
      if p.1.length < f.dataSize.toNat then
        some { r with
          bytesToRecv := f.dataSize - .ofNat p.1.length
          recvPktStart := false }
      else some r.hand := by
  have hnil : ahead ++ chunk ≠ [] := by
    rintro hnil
    rw [hnil] at hlen
    cases hlen
  simp only [receive, onSocketRecv, h.start, h.available, if_true, recv_of_ne_nil hnil,
    take_header hlen hstream, removeHeader_serialize, Option.bind_eq_bind, Option.bind_some]
  rfl

theorem Between.receive_nil (h : Between [] handed r) : r.receive [] = none := by
  simp only [receive, onSocketRecv, h.start, h.available]
  rfl

/-- The callback starts a frame of which no byte of payload is there: it fails. -/
theorem Between.receive_none (h : Between ahead handed r) (hshort : (ahead ++ chunk).length < 13)
    (hstream : ahead ++ chunk ++ rest = f.tcpBytes ++ stream) : r.receive chunk = none := by
  rcases Nat.lt_or_ge (ahead ++ chunk).length 12 with hlt | hge
  · simp only [receive, onSocketRecv, h.start, h.available, if_true]
    by_cases hnil : ahead ++ chunk = []
    · rw [hnil]
      rfl
    · rw [recv_of_ne_nil hnil]
      simp only [Option.bind_eq_bind, Option.bind_some, List.take_of_length_le hlt.le,
        removeHeader_short hlt, Option.bind_none]
  · rw [h.receive_eq hge hstream, List.drop_of_length_le (Nat.le_of_lt_succ hshort)]
    rfl

/-- The callback starts a frame and does not find all of it. -/
theorem Between.receive_part (h : Between ahead handed r) (hlen : 13 ≤ (ahead ++ chunk).length)
    (hpart : (ahead ++ chunk).length < f.tcpSize)
    (hstream : ahead ++ chunk ++ rest = f.tcpBytes ++ stream) :
    ∃ r', r.receive chunk = some r' ∧ Within f (f.tcpSize - (ahead ++ chunk).length) handed r' := by
  have hsize : f.tcpSize = 12 + f.dataSize.toNat := rfl
  have hword := f.dataSize.toNat_lt
  have hdrop : ((ahead ++ chunk).drop 12).length = (ahead ++ chunk).length - 12 :=
    List.length_drop
  have hnil : (ahead ++ chunk).drop 12 ≠ [] := List.ne_nil_of_length_pos (by omega)
  rw [h.receive_eq (by omega) hstream, recv_of_ne_nil hnil, Option.bind_some]
  simp only
  have htake : ((ahead ++ chunk).drop 12).take f.dataSize.toNat = (ahead ++ chunk).drop 12 :=
    List.take_of_length_le (by omega)
  have hrest : ((ahead ++ chunk).drop 12).drop f.dataSize.toNat = [] :=
    List.drop_of_length_le (by omega)
  rw [htake, hrest, hdrop, if_pos (by omega)]
  refine ⟨_, rfl, rfl, rfl, ?_, rfl, h.handed⟩
  have hnat : (UInt32.ofNat ((ahead ++ chunk).length - 12)).toNat
      = (ahead ++ chunk).length - 12 :=
    UInt32.toNat_ofNat_of_lt' (by simp only [UInt32.size]; omega)
  simp only
  rw [UInt32.toNat_sub_of_le _ _ (by rw [UInt32.le_iff_toNat_le]; omega), hnat]
  omega

/-- The callback starts a frame and finds all of it. -/
theorem Between.receive_whole (h : Between ahead handed r) (hpos : 0 < f.dataSize.toNat)
    (hwhole : f.tcpSize ≤ (ahead ++ chunk).length)
    (hstream : ahead ++ chunk ++ rest = f.tcpBytes ++ stream) :
    ∃ r', r.receive chunk = some r' ∧
      Between ((ahead ++ chunk).drop f.tcpSize) (handed ++ [f.tcpReceived]) r' := by
  have hsize : f.tcpSize = 12 + f.dataSize.toNat := rfl
  have hdrop : ((ahead ++ chunk).drop 12).length = (ahead ++ chunk).length - 12 :=
    List.length_drop
  have hnil : (ahead ++ chunk).drop 12 ≠ [] := List.ne_nil_of_length_pos (by omega)
  rw [h.receive_eq (by omega) hstream, recv_of_ne_nil hnil, Option.bind_some]
  simp only
  rw [List.length_take, min_eq_left (by omega), if_neg (lt_irrefl _)]
  refine ⟨_, rfl, h.start, ?_, ?_⟩
  · rw [hsize, ← List.drop_drop]
    rfl
  · rw [← h.handed]
    rfl

/-- The callback goes on with a frame, but nothing arrived. -/
theorem Within.receive_none (h : Within f left handed r) : r.receive [] = none := by
  simp only [receive, onSocketRecv, h.start, h.available]
  rfl

theorem Within.receive_eq (h : Within f left handed r) (hnil : chunk ≠ []) :
    r.receive chunk = if (chunk.take left).length < left then
        some { r with
          available := chunk.drop left
          bytesToRecv := r.bytesToRecv - .ofNat (chunk.take left).length }
      else
        some { r with
          available := chunk.drop left
          recvPktStart := true
          bytesToRecv := 0 }.hand := by
  simp only [receive, onSocketRecv, h.start, h.available, h.left, List.nil_append,
    recv_of_ne_nil hnil, Bool.false_eq_true, if_false, Option.bind_eq_bind, Option.bind_some]

/-- The callback goes on with a frame and does not find the rest of it. -/
theorem Within.receive_part (h : Within f left handed r) (hnil : chunk ≠ [])
    (hpart : chunk.length < left) :
    ∃ r', r.receive chunk = some r' ∧ Within f (left - chunk.length) handed r' := by
  have hword := r.bytesToRecv.toNat_lt
  have hleft := h.left
  rw [h.receive_eq hnil, List.take_of_length_le hpart.le, if_pos hpart]
  refine ⟨_, rfl, h.start, h.curHdr, ?_, List.drop_of_length_le hpart.le, h.handed⟩
  have hnat : (UInt32.ofNat chunk.length).toNat = chunk.length :=
    UInt32.toNat_ofNat_of_lt' (by simp only [UInt32.size]; omega)
  simp only
  rw [UInt32.toNat_sub_of_le _ _ (by rw [UInt32.le_iff_toNat_le]; omega), hnat, hleft]

/-- The callback goes on with a frame and finds the rest of it. -/
theorem Within.receive_rest (h : Within f left handed r) (hpos : 0 < left)
    (hrest : left ≤ chunk.length) :
    ∃ r', r.receive chunk = some r' ∧
      Between (chunk.drop left) (handed ++ [f.tcpReceived]) r' := by
  have hnil : chunk ≠ [] := List.ne_nil_of_length_pos (hpos.trans_le hrest)
  rw [h.receive_eq hnil, List.length_take, min_eq_left hrest, if_neg (lt_irrefl _)]
  refine ⟨_, rfl, rfl, rfl, ?_⟩
  rw [← h.handed]
  simp only [hand, h.curHdr]
  rfl

/-! ## Runs of callbacks -/

theorem handed_grows {r r' : PacketReceiverTcp} {chunk : List UInt8}
    (h : r.receive chunk = some r') : r.handed <+: r'.handed := by
  unfold receive onSocketRecv at h
  simp only at h
  split at h
  case isTrue =>
    obtain ⟨⟨pkt, available⟩, -, h⟩ := Option.bind_eq_some_iff.mp h
    obtain ⟨⟨curHdr, _⟩, -, h⟩ := Option.bind_eq_some_iff.mp h
    obtain ⟨⟨payload, available'⟩, -, h⟩ := Option.bind_eq_some_iff.mp h
    simp only at h
    split at h <;> cases h
    · exact List.prefix_rfl
    · exact List.prefix_append _ _
  case isFalse =>
    obtain ⟨⟨payload, available⟩, -, h⟩ := Option.bind_eq_some_iff.mp h
    simp only at h
    split at h <;> cases h
    · exact List.prefix_rfl
    · exact List.prefix_append _ _

theorem handed_grows_exec {r r' : PacketReceiverTcp} {chunks : List (List UInt8)}
    (h : Run.exec receive r chunks = some r') : r.handed <+: r'.handed :=
  Run.exec_invariant (P := fun t => r.handed <+: t.handed)
    (fun _ _ _ hprefix hstep => hprefix.trans (handed_grows hstep)) List.prefix_rfl h

/-- The rest of a frame arrives with the last of some chunks. -/
theorem Within.exec_rest {chunks : List (List UInt8)} (h : Within f left handed r)
    (hpos : 0 < left) (hne : ∀ chunk ∈ chunks, chunk ≠ [])
    (hbefore : chunks.dropLast.flatten.length < left) (hlast : left ≤ chunks.flatten.length) :
    ∃ r', Run.exec receive r chunks = some r' ∧
      Between (chunks.flatten.drop left) (handed ++ [f.tcpReceived]) r' := by
  induction chunks generalizing left r with
  | nil => exact absurd hlast (not_le.mpr hpos)
  | cons chunk chunks ih =>
      cases chunks with
      | nil =>
          rw [List.flatten_cons, List.flatten_nil, List.append_nil] at hlast ⊢
          obtain ⟨r', hr', hbetween⟩ := h.receive_rest hpos hlast
          exact ⟨r', Run.exec_cons_eq_some.mpr ⟨r', hr', rfl⟩, hbetween⟩
      | cons next chunks =>
          rw [List.dropLast_cons_of_ne_nil (List.cons_ne_nil _ _), List.flatten_cons,
            List.length_append] at hbefore
          rw [List.flatten_cons, List.length_append] at hlast
          obtain ⟨t, ht, hwithin⟩ := h.receive_part (hne chunk List.mem_cons_self) (by omega)
          obtain ⟨r', hr', hbetween⟩ := ih hwithin (by omega)
            (fun c hc => hne c (List.mem_cons_of_mem _ hc)) (by omega) (by omega)
          refine ⟨r', Run.exec_cons_eq_some.mpr ⟨t, ht, hr'⟩, ?_⟩
          have hdrop : (chunk :: next :: chunks).flatten.drop left
              = (next :: chunks).flatten.drop (left - chunk.length) := by
            rw [List.flatten_cons, List.drop_append, List.drop_of_length_le (by omega),
              List.nil_append]
          rwa [hdrop]

/-- A frame that is finished is finished by one of the chunks. -/
theorem Within.exec_split {chunks : List (List UInt8)} {r' : PacketReceiverTcp}
    (h : Within f left handed r) (hpos : 0 < left) (hrun : Run.exec receive r chunks = some r')
    (hmore : r'.handed ≠ handed) : ∃ more rest t, chunks = more ++ rest ∧ more ≠ [] ∧
      (∀ chunk ∈ more, chunk ≠ []) ∧ more.dropLast.flatten.length < left ∧
      left ≤ more.flatten.length ∧
      Between (more.flatten.drop left) (handed ++ [f.tcpReceived]) t ∧
      Run.exec receive t rest = some r' := by
  induction chunks generalizing left r with
  | nil =>
      cases hrun
      exact absurd h.handed hmore
  | cons chunk chunks ih =>
      obtain ⟨t, ht, hrest⟩ := Run.exec_cons_eq_some.mp hrun
      have hne : chunk ≠ [] := by
        rintro rfl
        rw [h.receive_none] at ht
        cases ht
      rcases Nat.lt_or_ge chunk.length left with hpart | hwhole
      · obtain ⟨t', ht', hwithin⟩ := h.receive_part hne hpart
        rw [ht] at ht'
        cases ht'
        obtain ⟨more, rest, t', rfl, hnil, hmore', hbefore, hlast, hbetween, hexec⟩ :=
          ih hwithin (by omega) hrest
        refine ⟨chunk :: more, rest, t', rfl, List.cons_ne_nil _ _, ?_, ?_, ?_, ?_, hexec⟩
        · exact List.forall_mem_cons.mpr ⟨hne, hmore'⟩
        · rw [List.dropLast_cons_of_ne_nil hnil, List.flatten_cons, List.length_append]
          omega
        · rw [List.flatten_cons, List.length_append]
          omega
        · rwa [List.flatten_cons, List.drop_append, List.drop_of_length_le hpart.le,
            List.nil_append]
      · obtain ⟨t', ht', hbetween⟩ := h.receive_rest hpos hwhole
        rw [ht] at ht'
        cases ht'
        refine ⟨[chunk], chunks, t, rfl, List.cons_ne_nil _ _, by simpa using hne, ?_, ?_, ?_,
          hrest⟩
        · exact hpos
        · simpa using hwhole
        · simpa using hbetween

/-- The first chunk starts a frame that the last one finishes. -/
theorem Between.exec_frame {first : List UInt8} {more : List (List UInt8)}
    (h : Between ahead handed r) (hpos : 0 < f.dataSize.toNat)
    (hstream : ahead ++ (first :: more).flatten ++ rest = f.tcpBytes ++ stream)
    (hfirst : 13 ≤ ahead.length + first.length) (hne : ∀ chunk ∈ more, chunk ≠ [])
    (hbefore : more ≠ [] → ahead.length + (first :: more.dropLast).flatten.length < f.tcpSize)
    (hlast : f.tcpSize ≤ ahead.length + (first :: more).flatten.length) :
    ∃ r', Run.exec receive r (first :: more) = some r' ∧
      Between ((ahead ++ (first :: more).flatten).drop f.tcpSize)
        (handed ++ [f.tcpReceived]) r' := by
  rw [← List.length_append] at hfirst
  rw [List.flatten_cons, ← List.append_assoc] at hstream ⊢
  by_cases hnil : more = []
  · subst hnil
    simp only [List.flatten_cons, List.flatten_nil, List.append_nil] at hlast hstream ⊢
    rw [← List.length_append] at hlast
    obtain ⟨r', hr', hbetween⟩ := h.receive_whole hpos hlast hstream
    exact ⟨r', Run.exec_cons_eq_some.mpr ⟨r', hr', rfl⟩, hbetween⟩
  · have hbefore := hbefore hnil
    rw [List.flatten_cons, List.length_append, ← Nat.add_assoc, ← List.length_append] at hbefore
    rw [List.flatten_cons, List.length_append, ← Nat.add_assoc, ← List.length_append] at hlast
    rw [List.append_assoc] at hstream
    obtain ⟨t, ht, hwithin⟩ := h.receive_part hfirst (by omega) hstream
    obtain ⟨r', hr', hbetween⟩ := hwithin.exec_rest (by omega) hne (by omega) (by omega)
    refine ⟨r', Run.exec_cons_eq_some.mpr ⟨t, ht, hr'⟩, ?_⟩
    rwa [List.drop_append, List.drop_of_length_le (by omega), List.nil_append]

/-- A frame that is finished was started by the first chunk. -/
theorem Between.exec_split {chunks : List (List UInt8)} {r' : PacketReceiverTcp}
    (h : Between ahead handed r) (hpos : 0 < f.dataSize.toNat)
    (hstream : ahead ++ chunks.flatten = f.tcpBytes ++ stream)
    (hrun : Run.exec receive r chunks = some r') (hmore : r'.handed ≠ handed) :
    ∃ first more rest t, chunks = first :: (more ++ rest) ∧
      13 ≤ ahead.length + first.length ∧ (∀ chunk ∈ more, chunk ≠ []) ∧
      (more ≠ [] → ahead.length + (first :: more.dropLast).flatten.length < f.tcpSize) ∧
      f.tcpSize ≤ ahead.length + (first :: more).flatten.length ∧
      Between ((ahead ++ (first :: more).flatten).drop f.tcpSize) (handed ++ [f.tcpReceived]) t ∧
      Run.exec receive t rest = some r' := by
  cases chunks with
  | nil =>
      cases hrun
      exact absurd h.handed hmore
  | cons first chunks =>
      rw [List.flatten_cons, ← List.append_assoc] at hstream
      obtain ⟨t, ht, hrest⟩ := Run.exec_cons_eq_some.mp hrun
      rcases Nat.lt_or_ge (ahead ++ first).length 13 with hshort | hfirst
      · rw [h.receive_none hshort hstream] at ht
        cases ht
      rcases Nat.lt_or_ge (ahead ++ first).length f.tcpSize with hpart | hwhole
      · obtain ⟨t', ht', hwithin⟩ := h.receive_part hfirst hpart hstream
        rw [ht] at ht'
        cases ht'
        obtain ⟨more, rest, u, rfl, hnil, hne, hbefore, hlast, hbetween, hexec⟩ :=
          hwithin.exec_split (by omega) hrest hmore
        rw [List.length_append] at hfirst hbefore hlast hpart
        refine ⟨first, more, rest, u, rfl, hfirst, hne, fun _ => ?_, ?_, ?_, hexec⟩
        · rw [List.flatten_cons, List.length_append]
          omega
        · rw [List.flatten_cons, List.length_append]
          omega
        · rwa [List.flatten_cons, ← List.append_assoc, List.drop_append,
            List.drop_of_length_le (by rw [List.length_append]; omega), List.nil_append]
      · obtain ⟨t', ht', hbetween⟩ := h.receive_whole hpos hwhole hstream
        rw [ht] at ht'
        cases ht'
        rw [List.length_append] at hfirst hwhole
        refine ⟨first, [], chunks, t, rfl, hfirst, nofun, fun hnil => absurd rfl hnil, ?_, ?_,
          hrest⟩
        · simpa using hwhole
        · simpa using hbetween

/-- After `ahead` bytes, the chunks fall into runs, one for each frame: the first chunk of a
run brings at least one byte of the frame's payload, and its last chunk, but none before it,
brings the last one. -/
inductive CutInTime : ℕ → List FrameArgs → List (List UInt8) → Prop
  | nil : CutInTime 0 [] []
  | frame {ahead : ℕ} {f : FrameArgs} {frames : List FrameArgs} {first : List UInt8}
      {more rest : List (List UInt8)} (hfirst : 13 ≤ ahead + first.length)
      (hmore : ∀ chunk ∈ more, chunk ≠ [])
      (hbefore : more ≠ [] → ahead + (first :: more.dropLast).flatten.length < f.tcpSize)
      (hlast : f.tcpSize ≤ ahead + (first :: more).flatten.length)
      (hrest : CutInTime (ahead + (first :: more).flatten.length - f.tcpSize) frames rest) :
      CutInTime ahead (f :: frames) (first :: (more ++ rest))

/-- What arrived of the next frames when a frame is finished, and the chunks after it, are
the bytes of the next frames. -/
theorem stream_drop {run rest : List UInt8} (hlast : f.tcpSize ≤ (ahead ++ run).length)
    (hstream : ahead ++ (run ++ rest) = f.tcpBytes ++ stream) :
    (ahead ++ run).drop f.tcpSize ++ rest = stream := by
  have hdrop := congrArg (List.drop f.tcpSize) hstream
  rwa [← List.append_assoc, List.drop_append_of_le_length hlast,
    List.drop_left' f.length_tcpBytes] at hdrop

/-- Enough: every run of chunks hands out its frame. -/
theorem CutInTime.exec {n : ℕ} {frames : List FrameArgs} {chunks : List (List UInt8)}
    (h : CutInTime n frames chunks) (hpos : ∀ f ∈ frames, 0 < f.dataSize.toNat)
    (hn : ahead.length = n) (hstream : ahead ++ chunks.flatten = frames.flatMap FrameArgs.tcpBytes)
    (hr : Between ahead handed r) : ∃ r', Run.exec receive r chunks = some r' ∧
      r'.handed = handed ++ frames.map FrameArgs.tcpReceived := by
  induction h generalizing ahead handed r with
  | nil => exact ⟨r, rfl, by simpa using hr.handed⟩
  | @frame n f frames first more rest hfirst hmore hbefore hlast hrest ih =>
      subst hn
      obtain ⟨hposf, hposfs⟩ := List.forall_mem_cons.mp hpos
      rw [← List.cons_append, List.flatten_append, List.flatMap_cons] at hstream
      obtain ⟨t, ht, hbetween⟩ := hr.exec_frame hposf (by rw [List.append_assoc, hstream])
        hfirst hmore hbefore hlast
      rw [← List.length_append] at hlast
      obtain ⟨r', hr', hhanded⟩ := ih hposfs (by rw [List.length_drop, List.length_append])
        (stream_drop hlast hstream) hbetween
      refine ⟨r', Run.exec_append_eq_some.mpr ⟨t, ht, hr'⟩, ?_⟩
      rw [hhanded, List.map_cons, List.append_assoc, List.singleton_append]

/-- Needed: chunks that hand out every frame fall into runs. -/
theorem cutInTime_of_exec {frames : List FrameArgs} {chunks : List (List UInt8)}
    {r' : PacketReceiverTcp} (hpos : ∀ f ∈ frames, 0 < f.dataSize.toNat)
    (hstream : ahead ++ chunks.flatten = frames.flatMap FrameArgs.tcpBytes)
    (hr : Between ahead handed r) (hrun : Run.exec receive r chunks = some r')
    (hhanded : r'.handed = handed ++ frames.map FrameArgs.tcpReceived) :
    CutInTime ahead.length frames chunks := by
  induction frames generalizing ahead handed r chunks with
  | nil =>
      rw [List.flatMap_nil, List.append_eq_nil_iff] at hstream
      obtain ⟨rfl, hnil⟩ := hstream
      cases chunks with
      | nil => exact .nil
      | cons chunk chunks =>
          obtain ⟨t, ht, -⟩ := Run.exec_cons_eq_some.mp hrun
          rw [List.flatten_eq_nil_iff.mp hnil chunk List.mem_cons_self, hr.receive_nil] at ht
          cases ht
  | cons f frames ih =>
      obtain ⟨hposf, hposfs⟩ := List.forall_mem_cons.mp hpos
      rw [List.flatMap_cons] at hstream
      have hmore : r'.handed ≠ handed := by
        rw [hhanded]
        simp
      obtain ⟨first, more, rest, t, rfl, hfirst, hne, hbefore, hlast, hbetween, hexec⟩ :=
        hr.exec_split hposf hstream hrun hmore
      rw [← List.cons_append, List.flatten_append] at hstream
      refine .frame hfirst hne hbefore hlast ?_
      rw [← List.length_append, ← List.length_drop]
      apply ih hposfs (stream_drop (by rwa [List.length_append]) hstream) hbetween hexec
      rw [hhanded, List.map_cons, List.append_assoc, List.singleton_append]

/-! ## Reassembly -/

/-- The frames handed out are at any time the first ones sent, and at the end all of them. -/
def Reassembles (frames : List FrameArgs) (chunks : List (List UInt8)) : Prop :=
  (∀ before, before <+: chunks → ∃ r, Run.exec receive new before = some r ∧
    r.handed <+: frames.map FrameArgs.tcpReceived) ∧
  ∃ r, Run.exec receive new chunks = some r ∧ r.handed = frames.map FrameArgs.tcpReceived

theorem between_new : Between [] [] new := ⟨rfl, rfl, rfl⟩

/-- The frames come together exactly when each of them is finished by a callback of its own,
and started by one that finds its header and some of its payload. -/
theorem reassembles_iff_cutInTime {frames : List FrameArgs} {chunks : List (List UInt8)}
    (hpos : ∀ f ∈ frames, 0 < f.dataSize)
    (hstream : chunks.flatten = frames.flatMap FrameArgs.tcpBytes) :
    Reassembles frames chunks ↔ CutInTime 0 frames chunks := by
  have hpos : ∀ f ∈ frames, 0 < f.dataSize.toNat :=
    fun f hf => UInt32.lt_iff_toNat_lt.mp (hpos f hf)
  constructor
  case mp =>
    rintro ⟨-, r, hrun, hhanded⟩
    exact cutInTime_of_exec hpos hstream between_new hrun hhanded
  case mpr =>
    intro hcut
    obtain ⟨r, hrun, hhanded⟩ := hcut.exec hpos rfl hstream between_new
    refine ⟨?_, r, hrun, hhanded⟩
    rintro before ⟨after, rfl⟩
    obtain ⟨t, ht, hrest⟩ := Run.exec_append_eq_some.mp hrun
    have hprefix := handed_grows_exec hrest
    rw [hhanded] at hprefix
    exact ⟨t, ht, hprefix⟩

/-- A frame of one byte. -/
def byteFrame (frameId : UInt32) : FrameArgs := ⟨frameId, 0, 1400, 1, 1⟩

theorem reassembles_iff_cutInTime_twoFrames :
    Reassembles [byteFrame 0, byteFrame 1] [(byteFrame 0).tcpBytes, (byteFrame 1).tcpBytes] ↔
      CutInTime 0 [byteFrame 0, byteFrame 1]
        [(byteFrame 0).tcpBytes, (byteFrame 1).tcpBytes] :=
  reassembles_iff_cutInTime (by decide) rfl

/-- Two frames that arrive in one chunk: one callback hands out only the first. -/
theorem not_reassembles_oneChunk : ¬ (∀ (frames : List FrameArgs) (chunks : List (List UInt8)),
    (∀ f ∈ frames, 0 < f.dataSize) →
      chunks.flatten = frames.flatMap FrameArgs.tcpBytes → Reassembles frames chunks) := by
  intro h
  obtain ⟨-, r, hrun, hhanded⟩ := h [byteFrame 0, byteFrame 1]
    [(byteFrame 0).tcpBytes ++ (byteFrame 1).tcpBytes] (by decide) rfl
  have hone : (Run.exec receive new [(byteFrame 0).tcpBytes ++ (byteFrame 1).tcpBytes]).map
      (fun r => r.handed) = some [(byteFrame 0).tcpReceived] := by decide +kernel
  rw [hrun, Option.map_some, hhanded] at hone
  exact absurd hone (by decide)

end PacketReceiverTcp

end Zhuge
