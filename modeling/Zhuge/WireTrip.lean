-- SUMMARY: Packets over the wire: `ToNetPacket`, `ToInstance`, and the packet that comes out at the other end.
import Zhuge.Wire

/-!
# Packets over the wire

`toNetPacket` stacks the headers of a packet in front of its payload, `toInstance`
takes them off again and builds a fresh object of the class that the type word
names. What the object holds besides its headers does not travel.
-/

namespace Zhuge

variable {P : Type} [PacketBuffer P]

/-! ## To the network -/

def PacketType.header (t : PacketType) : NetworkPacketHeader := ⟨t.toWord⟩

def FECPacket.header (pkt : FECPacket) : FECPacketHeader := ⟨pkt.dataPkts⟩

def AckPacket.header (pkt : AckPacket) : AckPacketHeader := ⟨pkt.pktInfos, pkt.lastPktId⟩

def FrameAckPacket.header (pkt : FrameAckPacket) : FrameAckPacketHeader :=
  ⟨pkt.frameId, pkt.frameEncodeTime⟩

def NetStatePacket.header (pkt : NetStatePacket) : NetStatePacketHeader := ⟨pkt.netstates⟩

/-- `DataPacket::ToNetPacket`, which both classes of data packets share. -/
def DataPacket.toNetPacket (packetType : PacketType) (pkt : DataPacket) : P :=
  PacketBuffer.create pkt.payloadSize
    |> addHeader pkt.toDataPacketHeader
    |> addHeader pkt.toVideoPacketHeader
    |> addHeader packetType.header

/-- `VideoPacket::GetMaxPayloadSize`. -/
def VideoPacket.maxPayloadSize : UInt16 := 1460 - 42

/-- `FECPacket::GetHeaderLength`. -/
def FECPacket.headerLength (pkt : FECPacket) : UInt32 :=
  .ofNat (2 + pkt.dataPkts.length * (2 + 2 + 4 + 2 + 2))

def FECPacket.toNetPacket (pkt : FECPacket) : P :=
  -- with more digests than fit in a packet, the difference wraps
  PacketBuffer.create (-pkt.headerLength + VideoPacket.maxPayloadSize.toUInt32)
    |> addHeader pkt.header
    |> addHeader pkt.toVideoPacketHeader
    |> addHeader PacketType.fecPkt.header

/-- The empty buffer under the headers of a control packet. -/
def NetworkPacket.controlPacket {H : Type} [Header H] (packetType : PacketType) (h : H) : P :=
  PacketBuffer.create 0 |> addHeader h |> addHeader packetType.header

def NetworkPacket.toNetPacket : NetworkPacket → P
  | .video (.data pkt) => pkt.toNetPacket .dataPkt
  | .video (.dupFec pkt) => pkt.toNetPacket .dupFecPkt
  | .video (.fec pkt) => pkt.toNetPacket
  | .ack pkt => controlPacket .ackPkt pkt.header
  | .frameAck pkt => controlPacket .frameAckPkt pkt.header
  | .netState pkt => controlPacket .netstatePkt pkt.header

/-! ## From the network -/

/-- The data packet object made around two headers off the wire. -/
def DataPacket.ofHeaders (video : VideoPacketHeader) (data : DataPacketHeader) : DataPacket where
  toVideoPacketMeta := .init
  toVideoPacketHeader := video
  toDataPacketHeader := data

def FECPacket.ofHeaders (video : VideoPacketHeader) (fec : FECPacketHeader) : FECPacket where
  toVideoPacketMeta := .init
  toVideoPacketHeader := video
  dataPkts := fec.dataPkts

def DataPacket.ofNetPacket (packet : P) : Option DataPacket := do
  let (video, packet) ← removeHeader (H := VideoPacketHeader) packet
  let (data, _) ← removeHeader (H := DataPacketHeader) packet
  some (.ofHeaders video data)

def FECPacket.ofNetPacket (packet : P) : Option FECPacket := do
  let (video, packet) ← removeHeader (H := VideoPacketHeader) packet
  let (fec, _) ← removeHeader (H := FECPacketHeader) packet
  some (.ofHeaders video fec)

def AckPacket.ofHeader (h : AckPacketHeader) : AckPacket := ⟨.init, h.pktInfos, h.lastPktId⟩

def FrameAckPacket.ofHeader (h : FrameAckPacketHeader) : FrameAckPacket :=
  ⟨.init, h.frameId, h.frameEncodeTime⟩

def NetStatePacket.ofHeader (h : NetStatePacketHeader) : NetStatePacket := ⟨.init, h.netstates⟩

/-- `NetworkPacket::ToInstance`. `none` is the null pointer for the other types, or a read
past the end of the buffer. -/
def NetworkPacket.toInstance (packet : P) : Option NetworkPacket := do
  let (networkHeader, packet) ← removeHeader (H := NetworkPacketHeader) packet
  match PacketType.ofWord networkHeader.packetType with
  | some .dataPkt => (fun pkt => .video (.data pkt)) <$> DataPacket.ofNetPacket packet
  | some .dupFecPkt => (fun pkt => .video (.dupFec pkt)) <$> DataPacket.ofNetPacket packet
  | some .fecPkt => (fun pkt => .video (.fec pkt)) <$> FECPacket.ofNetPacket packet
  | some .ackPkt => (fun h => .ack (.ofHeader h.1)) <$> removeHeader (H := AckPacketHeader) packet
  | some .frameAckPkt =>
    (fun h => .frameAck (.ofHeader h.1)) <$> removeHeader (H := FrameAckPacketHeader) packet
  | some .netstatePkt =>
    (fun h => .netState (.ofHeader h.1)) <$> removeHeader (H := NetStatePacketHeader) packet
  | some .rtxReqPkt => none
  | none => none

/-! ## One trip -/

/-- The data packet at the other end. -/
def DataPacket.received (pkt : DataPacket) : DataPacket :=
  .ofHeaders pkt.toVideoPacketHeader.quantised pkt.toDataPacketHeader

def FECPacket.received (pkt : FECPacket) : FECPacket :=
  .ofHeaders pkt.toVideoPacketHeader.quantised pkt.header

/-- The video packet at the other end: a fresh object with the same header fields, the
encode time cut to milliseconds. -/
def VideoPacket.received : VideoPacket → VideoPacket
  | .data pkt => .data pkt.received
  | .dupFec pkt => .dupFec pkt.received
  | .fec pkt => .fec pkt.received

/-- The packet at the other end. -/
def NetworkPacket.received : NetworkPacket → NetworkPacket
  | .video pkt => .video pkt.received
  | .ack pkt => .ack (.ofHeader pkt.header)
  | .frameAck pkt => .frameAck (.ofHeader pkt.header.quantised)
  | .netState pkt => .netState (.ofHeader ⟨pkt.netstates.quantised⟩)

/-- What the format can hold. The bound on the infos of an acknowledgement is the
announced size, which has 32 bits. -/
def NetworkPacket.Encodable : NetworkPacket → Prop
  | .video (.data pkt) => pkt.encodeTime.InRange
  | .video (.dupFec pkt) => pkt.encodeTime.InRange
  | .video (.fec pkt) => pkt.encodeTime.InRange ∧ pkt.dataPkts.length ≤ 65535
  | .ack pkt => pkt.pktInfos.length ≤ AckPacketHeader.maxPktInfos
  | .frameAck pkt => pkt.frameEncodeTime.InRange
  | .netState pkt => pkt.netstates.Encodable

theorem DataPacket.ofNetPacket_toNetPacket [LawfulPacketBuffer P] {pkt : DataPacket}
    (h : pkt.encodeTime.InRange) (packetType : PacketType) :
    ∃ body : P, removeHeader (pkt.toNetPacket packetType : P) = some (packetType.header, body) ∧
      ofNetPacket body = some pkt.received := by
  refine ⟨_, removeHeader_addHeader (NetworkPacketHeader.carries _) _, ?_⟩
  simp [ofNetPacket, removeHeader_addHeader (VideoPacketHeader.carries h),
    removeHeader_addHeader (DataPacketHeader.carries _), received]

theorem FECPacket.ofNetPacket_toNetPacket [LawfulPacketBuffer P] {pkt : FECPacket}
    (h : pkt.encodeTime.InRange) (hlen : pkt.dataPkts.length ≤ 65535) :
    ∃ body : P, removeHeader (pkt.toNetPacket : P) = some (PacketType.fecPkt.header, body) ∧
      ofNetPacket body = some pkt.received := by
  refine ⟨_, removeHeader_addHeader (NetworkPacketHeader.carries _) _, ?_⟩
  simp [ofNetPacket, removeHeader_addHeader (VideoPacketHeader.carries h),
    removeHeader_addHeader (FECPacketHeader.carries (h := pkt.header) hlen), received]

theorem NetworkPacket.removeHeader_controlPacket [LawfulPacketBuffer P] {H : Type} [Header H]
    {h h' : H} (hcarries : Header.Carries h h') (packetType : PacketType) :
    ∃ body : P, removeHeader (controlPacket packetType h : P) = some (packetType.header, body) ∧
      removeHeader body = some (h', (PacketBuffer.create 0 : P)) :=
  ⟨_, removeHeader_addHeader (NetworkPacketHeader.carries _) _,
    removeHeader_addHeader hcarries _⟩

/-- Decoding what was encoded gives the packet of `received`. -/
theorem NetworkPacket.toInstance_toNetPacket [LawfulPacketBuffer P] {pkt : NetworkPacket}
    (h : pkt.Encodable) : toInstance (pkt.toNetPacket : P) = some pkt.received := by
  cases pkt with
  | video pkt =>
      cases pkt with
      | data pkt =>
          obtain ⟨body, hhead, hbody⟩ := pkt.ofNetPacket_toNetPacket (P := P) h .dataPkt
          simp [toInstance, toNetPacket, hhead, PacketType.header, hbody, received,
            VideoPacket.received]
      | dupFec pkt =>
          obtain ⟨body, hhead, hbody⟩ := pkt.ofNetPacket_toNetPacket (P := P) h .dupFecPkt
          simp [toInstance, toNetPacket, hhead, PacketType.header, hbody, received,
            VideoPacket.received]
      | fec pkt =>
          obtain ⟨body, hhead, hbody⟩ := pkt.ofNetPacket_toNetPacket (P := P) h.1 h.2
          simp [toInstance, toNetPacket, hhead, PacketType.header, hbody, received,
            VideoPacket.received]
  | ack pkt =>
      obtain ⟨body, hhead, hbody⟩ := removeHeader_controlPacket (P := P)
        (AckPacketHeader.carries (h := pkt.header) h) .ackPkt
      simp [toInstance, toNetPacket, hhead, PacketType.header, hbody, received]
  | frameAck pkt =>
      obtain ⟨body, hhead, hbody⟩ := removeHeader_controlPacket (P := P)
        (FrameAckPacketHeader.carries (h := pkt.header) h) .frameAckPkt
      simp [toInstance, toNetPacket, hhead, PacketType.header, hbody, received]
  | netState pkt =>
      obtain ⟨body, hhead, hbody⟩ := removeHeader_controlPacket (P := P)
        (NetStatePacketHeader.carries (h := pkt.header) h) .netstatePkt
      simp [toInstance, toNetPacket, hhead, PacketType.header, hbody, received]
      rfl

/-! ## Header bytes -/

namespace NetworkPacket

/-- The bytes of all headers, in the order in which they travel. -/
def headerBytes : NetworkPacket → List UInt8
  | .video (.data pkt) =>
    Header.serialize PacketType.dataPkt.header ++ Header.serialize pkt.toVideoPacketHeader
      ++ Header.serialize pkt.toDataPacketHeader
  | .video (.dupFec pkt) =>
    Header.serialize PacketType.dupFecPkt.header ++ Header.serialize pkt.toVideoPacketHeader
      ++ Header.serialize pkt.toDataPacketHeader
  | .video (.fec pkt) =>
    Header.serialize PacketType.fecPkt.header ++ Header.serialize pkt.toVideoPacketHeader
      ++ Header.serialize pkt.header
  | .ack pkt => Header.serialize PacketType.ackPkt.header ++ Header.serialize pkt.header
  | .frameAck pkt => Header.serialize PacketType.frameAckPkt.header ++ Header.serialize pkt.header
  | .netState pkt => Header.serialize PacketType.netstatePkt.header ++ Header.serialize pkt.header

/-- Each header announces the size it writes, reports that size when it is read, and is
read as the header of the received packet. -/
def HeadersCarried : NetworkPacket → Prop
  | .video (.data pkt) =>
    Header.Carries PacketType.dataPkt.header PacketType.dataPkt.header ∧
      Header.Carries pkt.toVideoPacketHeader pkt.received.toVideoPacketHeader ∧
      Header.Carries pkt.toDataPacketHeader pkt.received.toDataPacketHeader
  | .video (.dupFec pkt) =>
    Header.Carries PacketType.dupFecPkt.header PacketType.dupFecPkt.header ∧
      Header.Carries pkt.toVideoPacketHeader pkt.received.toVideoPacketHeader ∧
      Header.Carries pkt.toDataPacketHeader pkt.received.toDataPacketHeader
  | .video (.fec pkt) =>
    Header.Carries PacketType.fecPkt.header PacketType.fecPkt.header ∧
      Header.Carries pkt.toVideoPacketHeader pkt.received.toVideoPacketHeader ∧
      Header.Carries pkt.header pkt.received.header
  | .ack pkt =>
    Header.Carries PacketType.ackPkt.header PacketType.ackPkt.header ∧
      Header.Carries pkt.header (AckPacket.ofHeader pkt.header).header
  | .frameAck pkt =>
    Header.Carries PacketType.frameAckPkt.header PacketType.frameAckPkt.header ∧
      Header.Carries pkt.header (FrameAckPacket.ofHeader pkt.header.quantised).header
  | .netState pkt =>
    Header.Carries PacketType.netstatePkt.header PacketType.netstatePkt.header ∧
      Header.Carries pkt.header (NetStatePacket.ofHeader ⟨pkt.netstates.quantised⟩).header

theorem headersCarried {pkt : NetworkPacket} (h : pkt.Encodable) : pkt.HeadersCarried := by
  cases pkt with
  | video pkt =>
      cases pkt with
      | data pkt =>
          exact ⟨NetworkPacketHeader.carries _, VideoPacketHeader.carries h,
            DataPacketHeader.carries _⟩
      | dupFec pkt =>
          exact ⟨NetworkPacketHeader.carries _, VideoPacketHeader.carries h,
            DataPacketHeader.carries _⟩
      | fec pkt =>
          exact ⟨NetworkPacketHeader.carries _, VideoPacketHeader.carries h.1,
            FECPacketHeader.carries h.2⟩
  | ack pkt => exact ⟨NetworkPacketHeader.carries _, AckPacketHeader.carries h⟩
  | frameAck pkt => exact ⟨NetworkPacketHeader.carries _, FrameAckPacketHeader.carries h⟩
  | netState pkt => exact ⟨NetworkPacketHeader.carries _, NetStatePacketHeader.carries h⟩

/-- The bytes of a network state packet, for any value of the loss rate field. -/
def netStateBytes (s : NetStates) (count : ℤ) : List UInt8 :=
  Header.serialize PacketType.netstatePkt.header ++ (writeU16 (.ofInt count)
    ++ writeU32 s.throughputKbps ++ writeU16 s.fecGroupDelayUs
    ++ writeU16 (.ofNat s.lossSeq.length) ++ s.lossSeq.flatMap writeLoss
    ++ writeU16 (.ofNat s.recvtimeHist.length) ++ s.recvtimeHist.flatMap RcvTime.write)

theorem headerBytes_netState (pkt : NetStatePacket) :
    (netState pkt).headerBytes
      = netStateBytes pkt.netstates (NetStates.lossCount pkt.netstates.lossRate) := rfl

/-- What the decoded packet is encoded to: the same header bytes, except that the loss
rate field of a network state may come out one lower. -/
def Reencodes : NetworkPacket → Prop
  | .netState pkt => ∃ count : ℤ, 0 ≤ count ∧ count < 65536 ∧
      (netState pkt).headerBytes = netStateBytes pkt.netstates count ∧
      ((netState pkt).received.headerBytes = netStateBytes pkt.netstates count ∨
        (netState pkt).received.headerBytes = netStateBytes pkt.netstates (count - 1))
  | pkt => pkt.received.headerBytes = pkt.headerBytes

theorem netStateBytes_quantised (s : NetStates) (count : ℤ) :
    netStateBytes s.quantised count = netStateBytes s count := by
  have hhist : (s.recvtimeHist.map RcvTime.quantised).flatMap RcvTime.write
      = s.recvtimeHist.flatMap RcvTime.write := by
    rw [List.flatMap_map]; rfl
  simp only [netStateBytes, NetStates.quantised, hhist, List.length_map]

theorem reencodes {pkt : NetworkPacket} (h : pkt.Encodable) : pkt.Reencodes := by
  cases pkt with
  | video pkt =>
      cases pkt <;>
        simp only [Reencodes, received, VideoPacket.received, headerBytes, DataPacket.received,
          FECPacket.received, DataPacket.ofHeaders, FECPacket.ofHeaders, FECPacket.header,
          VideoPacketHeader.serialize_quantised]
  | ack pkt => rfl
  | frameAck pkt =>
      exact congrArg (_ ++ ·) (FrameAckPacketHeader.serialize_quantised pkt.header)
  | netState pkt =>
      have hnonneg := NetStates.lossCount_nonneg (NetStates.Encodable.lossRate h).1
      have hlt := NetStates.lossCount_lt (NetStates.Encodable.lossRate h)
      refine ⟨_, hnonneg, hlt, headerBytes_netState pkt, ?_⟩
      set count := NetStates.lossCount pkt.netstates.lossRate with hcount
      have hbytes : (netState pkt).received.headerBytes = netStateBytes pkt.netstates
          (NetStates.lossCount (NetStates.ofLossCount count.toNat)) := by
        rw [← netStateBytes_quantised]; rfl
      have hround := NetStates.lossCount_ofLossCount (show count.toNat < 65536 by omega)
      rw [Int.toNat_of_nonneg hnonneg] at hround
      rw [hbytes]
      exact hround.imp (congrArg _) (congrArg _)

/-- The trip over the wire, for every packet that the format can hold: it comes out as
`received`; every header is as long as it announces and as its reader reports; and
encoding the decoded packet gives the same header bytes, up to one step of a loss rate. -/
theorem wire_round_trip (P : Type) [PacketBuffer P] [LawfulPacketBuffer P] (pkt : NetworkPacket)
    (h : pkt.Encodable) :
    toInstance (pkt.toNetPacket : P) = some pkt.received ∧ pkt.HeadersCarried ∧ pkt.Reencodes :=
  ⟨toInstance_toNetPacket h, headersCarried h, reencodes h⟩

/-- A retransmitted FEC packet with two digests. -/
def sampleFec : FECPacket :=
  { FECPacket.new 1 [.new 4 0 2 0, .new 4 0 2 1] with encodeTime := 1234567, batchId := 7 }

theorem wire_round_trip_sampleFec :
    toInstance (toNetPacket (.video (.fec sampleFec)) : List UInt8)
        = some (received (.video (.fec sampleFec))) ∧
      HeadersCarried (.video (.fec sampleFec)) ∧ Reencodes (.video (.fec sampleFec)) :=
  wire_round_trip (List UInt8) (.video (.fec sampleFec))
    ⟨by show Time.InRange 1234567; decide, by decide⟩

/-- The rate 3/8192 is a binary64 number; so is its product with 10000. -/
def lossyStates : NetStates where
  lossRate := ⟨3 / 8192, by
    have := Binary64.round_mul_zpow (n := 3) (e := -13) (by norm_num) (by norm_num)
    norm_num at this ⊢
    exact this⟩
  throughputKbps := 0
  fecGroupDelayUs := 0
  lossSeq := []
  recvtimeHist := []

theorem lossCount_lossyStates : NetStates.lossCount lossyStates.lossRate = 3 := by
  have hprod := Binary64.round_mul_zpow (n := 1875) (e := -9) (by norm_num) (by norm_num)
  have hval : lossyStates.lossRate.val * 10000 = (1875 : ℤ) * 2 ^ (-9 : ℤ) := by
    norm_num [lossyStates]
  rw [NetStates.lossCount, Binary64.mul_val, NetStates.ofNat_tenThousand, hval, hprod,
    Int.floor_eq_iff]
  norm_num

theorem lossCount_ofLossCount_three : NetStates.lossCount (NetStates.ofLossCount 3) = 2 := by
  have hquot : Binary64.round (3 / 10000)
      = (5534023222112865 : ℤ) * 2 ^ (-64 : ℤ) := by
    refine Binary64.round_eq (by norm_num) ?_ ?_ ?_ <;> norm_num [abs_lt, abs_of_pos]
  have hprod : Binary64.round ((5534023222112865 : ℤ) * 2 ^ (-64 : ℤ) * 10000)
      = (6755399441055743 : ℤ) * 2 ^ (-51 : ℤ) := by
    refine Binary64.round_eq (by norm_num) ?_ ?_ ?_ <;> norm_num [abs_lt, abs_of_pos]
  have hval : (NetStates.ofLossCount 3).val = Binary64.round (3 / 10000) := by
    rw [NetStates.ofLossCount, Binary64.div_val, NetStates.ofNat_tenThousand,
      Binary64.ofNat_val (by norm_num)]
    norm_num
  rw [NetStates.lossCount, Binary64.mul_val, NetStates.ofNat_tenThousand, hval, hquot, hprod,
    Int.floor_eq_iff]
  norm_num

/-- Two ways in which the unrestricted round trip fails. The loss rate of `lossyStates` is
written as 3, and the decoded rate as 2. An acknowledgement of 715827882 packets, whose
count fits in its field, announces 2 bytes. -/
theorem wire_round_trip_fails :
    (∃ pkt', toInstance (toNetPacket (.netState ⟨.init, lossyStates⟩) : List UInt8) = some pkt' ∧
      pkt'.headerBytes ≠ headerBytes (.netState ⟨.init, lossyStates⟩)) ∧
    ∃ ack : AckPacketHeader, ack.pktInfos.length ≤ 2 ^ 32 - 1 ∧
      (Header.serialize ack).length ≠ (Header.getSerializedSize ack).toNat := by
  constructor
  · have hencodable : lossyStates.Encodable :=
      ⟨⟨by norm_num [lossyStates], by norm_num [lossyStates]⟩, by simp [lossyStates],
        by simp [lossyStates], by simp [lossyStates]⟩
    refine ⟨_, toInstance_toNetPacket hencodable, ?_⟩
    have hbytes : (received (.netState ⟨.init, lossyStates⟩)).headerBytes
        = netStateBytes lossyStates 2 := by
      rw [← lossCount_ofLossCount_three, ← netStateBytes_quantised]
      show netStateBytes _ (NetStates.lossCount (NetStates.ofLossCount
        (NetStates.lossCount lossyStates.lossRate).toNat)) = _
      rw [lossCount_lossyStates]
      rfl
    rw [hbytes, headerBytes_netState, lossCount_lossyStates]
    decide
  · refine ⟨⟨List.replicate 715827882 ⟨0, 0⟩, 0⟩, ?_, ?_⟩
    · rw [List.length_replicate]; norm_num
    · rw [AckPacketHeader.length_serialize]
      simp only [Header.getSerializedSize, List.length_replicate]
      decide

end NetworkPacket

end Zhuge
