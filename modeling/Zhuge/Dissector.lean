-- SUMMARY: What the Wireshark dissector shows of a packet, and for which packets that is the truth.
import Zhuge.Lib.Layout
import Zhuge.WireTrip

/-!
# The dissector

`protocol.lua` reads the packets at offsets of its own. It agrees with the headers on everything
but the frame counters of a data packet, where it does not know of the size of the frame, and it
does not know the numbers of the packets that the client sends.
-/

namespace Zhuge

/-! ## The dissector of `protocol.lua` -/

inductive ProtoField where
  | packetType
  | encodeType
  | globalId
  | groupId
  | groupDataNum
  | groupFecNum
  | pktIdInGroup
  | batchId
  | batchDataNum
  | batchFecNum
  | pktIdInBatch
  | txCount
  | frameId
  | framePktNum
  | pktIdInFrame
  | fecDataCount
  | rtxReqCount
  | lossRate
  | throughput
  | groupDelay
  | lossSeqSize
deriving DecidableEq

/-- What it shows: the name of the packet type, and the fields. -/
structure Dissection where
  typeName : String
  fields : List (ProtoField × ℕ)
deriving DecidableEq

namespace Dissector

def getPacketType (opcode : ℕ) : String :=
  if opcode = 0 then "DATA_PKT"
  else if opcode = 1 then "DUP_FEC_PKT"
  else if opcode = 2 then "FEC_PKT"
  else if opcode = 3 then "RTX_REQ_PKT"
  else if opcode = 4 then "NETSTATE_PKT"
  else "Unknown"

def videoLayout : List (LayoutField ProtoField) :=
  [⟨.encodeType, 4, 8⟩, ⟨.globalId, 12, 2⟩, ⟨.groupId, 14, 4⟩, ⟨.groupDataNum, 18, 2⟩,
    ⟨.groupFecNum, 20, 2⟩, ⟨.pktIdInGroup, 22, 2⟩, ⟨.batchId, 24, 4⟩, ⟨.batchDataNum, 28, 2⟩,
    ⟨.batchFecNum, 30, 2⟩, ⟨.pktIdInBatch, 32, 2⟩, ⟨.txCount, 34, 1⟩]

def frameLayout : List (LayoutField ProtoField) :=
  [⟨.frameId, 35, 4⟩, ⟨.framePktNum, 39, 2⟩, ⟨.pktIdInFrame, 41, 2⟩]

def fecLayout : List (LayoutField ProtoField) := [⟨.fecDataCount, 35, 2⟩]

def rtxReqLayout : List (LayoutField ProtoField) := [⟨.rtxReqCount, 4, 2⟩]

def netStateLayout : List (LayoutField ProtoField) :=
  [⟨.lossRate, 4, 2⟩, ⟨.throughput, 6, 2⟩, ⟨.groupDelay, 8, 2⟩, ⟨.lossSeqSize, 10, 2⟩]

/-- The fields it shows for a type of this name. -/
def layoutOf (typeName : String) : List (LayoutField ProtoField) :=
  if typeName = "DATA_PKT" ∨ typeName = "DUP_FEC_PKT" then videoLayout ++ frameLayout
  else if typeName = "FEC_PKT" then videoLayout ++ fecLayout
  else if typeName = "RTX_REQ_PKT" then rtxReqLayout
  else if typeName = "NETSTATE_PKT" then netStateLayout
  else []

/-- `dissector`, for the bytes of a datagram that is not empty. `none`: a range is outside of
it. -/
def dissector (buffer : List UInt8) : Option Dissection := do
  let code ← byteRange 0 4 buffer
  let typeName := getPacketType (ofBe code)
  let fields ← readLayout (⟨.packetType, 0, 4⟩ :: layoutOf typeName) buffer
  some ⟨typeName, fields⟩

end Dissector

/-! ## What the packets say -/

/-- The name of the enumerator. -/
def PacketType.name : PacketType → String
  | .dataPkt => "DATA_PKT"
  | .dupFecPkt => "DUP_FEC_PKT"
  | .fecPkt => "FEC_PKT"
  | .rtxReqPkt => "RTX_REQ_PKT"
  | .ackPkt => "ACK_PKT"
  | .frameAckPkt => "FRAME_ACK_PKT"
  | .netstatePkt => "NETSTATE_PKT"

def NetworkPacket.packetType : NetworkPacket → PacketType
  | .video (.data _) => .dataPkt
  | .video (.dupFec _) => .dupFecPkt
  | .video (.fec _) => .fecPkt
  | .ack _ => .ackPkt
  | .frameAck _ => .frameAckPkt
  | .netState _ => .netstatePkt

/-- The fields of a video header. -/
def VideoPacketHeader.fields (h : VideoPacketHeader) : List (WrittenField ProtoField) :=
  [⟨.encodeType, 8, (Time.toWord h.encodeTime.getMilliSeconds).toNat⟩,
    ⟨.globalId, 2, h.globalId.toNat⟩, ⟨.groupId, 4, h.groupId.toNat⟩,
    ⟨.groupDataNum, 2, h.groupDataNum.toNat⟩, ⟨.groupFecNum, 2, h.groupFecNum.toNat⟩,
    ⟨.pktIdInGroup, 2, h.pktIdInGroup.toNat⟩, ⟨.batchId, 4, h.batchId.toNat⟩,
    ⟨.batchDataNum, 2, h.batchDataNum.toNat⟩, ⟨.batchFecNum, 2, h.batchFecNum.toNat⟩,
    ⟨.pktIdInBatch, 2, h.pktIdInBatch.toNat⟩, ⟨.txCount, 1, h.txCount.toNat⟩]

/-- The frame fields of a data packet. -/
def DataPacketHeader.frameFields (h : DataPacketHeader) : List (WrittenField ProtoField) :=
  [⟨.frameId, 4, h.frameId.toNat⟩, ⟨.framePktNum, 2, h.framePktNum.toNat⟩,
    ⟨.pktIdInFrame, 2, h.pktIdInFrame.toNat⟩]

/-- The fields of the packets that have a layout of their own. -/
def NetworkPacket.fields : NetworkPacket → List (WrittenField ProtoField)
  | .video (.data pkt) => pkt.toVideoPacketHeader.fields ++ pkt.toDataPacketHeader.frameFields
  | .video (.dupFec pkt) => pkt.toVideoPacketHeader.fields ++ pkt.toDataPacketHeader.frameFields
  | .video (.fec pkt) => pkt.toVideoPacketHeader.fields ++ [⟨.fecDataCount, 2, pkt.dataPkts.length⟩]
  | _ => []

/-- The packet as it should be shown. -/
def NetworkPacket.dissection (pkt : NetworkPacket) : Dissection where
  typeName := pkt.packetType.name
  fields := (.packetType, pkt.packetType.toWord.toNat) ::
    pkt.fields.map fun field => (field.name, field.value)

/-- The size of the frame happens to be made of the other two frame fields. -/
def DataPacketHeader.SizeSaysPlace (h : DataPacketHeader) : Prop :=
  h.frameSize.toNat = h.framePktNum.toNat * 65536 + h.pktIdInFrame.toNat

/-- FEC packets are shown as they are, and data packets if the size of the frame is made so. -/
def NetworkPacket.ShownRight : NetworkPacket → Prop
  | .video (.data pkt) => pkt.SizeSaysPlace
  | .video (.dupFec pkt) => pkt.SizeSaysPlace
  | .video (.fec _) => True
  | _ => False

namespace Dissector

open PacketBuffer

/-! ## Bytes as fields -/

/-- What the dissector takes a data packet's header for. -/
def shownFrameFields (h : DataPacketHeader) : List (WrittenField ProtoField) :=
  [⟨.frameId, 4, h.frameId.toNat⟩, ⟨.framePktNum, 2, h.frameSize.toNat / 65536⟩,
    ⟨.pktIdInFrame, 2, h.frameSize.toNat⟩]

theorem serialize_video (h : VideoPacketHeader) : Header.serialize h = writeFields h.fields := by
  simp [Header.serialize, writeFields, VideoPacketHeader.fields, writeU64, writeU32, writeU16,
    writeU8]

theorem serialize_data (h : DataPacketHeader) : ∃ rest,
    Header.serialize h = writeFields (shownFrameFields h) ++ rest := by
  refine ⟨writeU16 h.framePktNum ++ writeU16 h.pktIdInFrame, ?_⟩
  have hsize : writeU32 h.frameSize =
      writeBe 2 (h.frameSize.toNat / 65536) ++ writeBe 2 h.frameSize.toNat :=
    writeBe_add 2 2 h.frameSize.toNat
  simp [Header.serialize, writeFields, shownFrameFields, hsize]
  rfl

theorem serialize_fec (h : FECPacketHeader) : ∃ rest,
    Header.serialize h = writeFields [(⟨.fecDataCount, 2, h.dataPkts.length % 65536⟩ :
      WrittenField ProtoField)] ++ rest :=
  ⟨h.dataPkts.flatMap DataPktDigest.write, by
    simp [Header.serialize, writeFields, writeU16]⟩

theorem word_mod (w : UInt32) : w.toNat % 256 ^ 4 = w.toNat := Nat.mod_eq_of_lt w.toNat_lt

/-- A packet whose fields stand one after another behind the type word. -/
theorem dissector_of_bytes {t : PacketType} {fields : List (WrittenField ProtoField)}
    {buffer rest : List UInt8} (hname : getPacketType t.toWord.toNat = t.name)
    (hlayout : layoutOf t.name = layoutFrom 4 fields)
    (hbytes : buffer = writeU32 t.toWord ++ writeFields fields ++ rest) :
    dissector buffer = some ⟨t.name, (.packetType, t.toWord.toNat) ::
      fields.map fun field => (field.name, field.value % 256 ^ field.width)⟩ := by
  have hcode : byteRange 0 4 buffer = some (writeU32 t.toWord) := by
    rw [hbytes, List.append_assoc]
    exact byteRange_append [] (writeU32 t.toWord) _
  have hword : ofBe (writeU32 t.toWord) = t.toWord.toNat := by
    rw [writeU32, ofBe_writeBe, word_mod]
  have hread := readLayout_writeFields
    ((⟨.packetType, 4, t.toWord.toNat⟩ : WrittenField ProtoField) :: fields) [] rest
  have hwritten : [] ++ writeFields
      ((⟨.packetType, 4, t.toWord.toNat⟩ : WrittenField ProtoField) :: fields) ++ rest =
        buffer := by
    rw [hbytes]
    rfl
  rw [hwritten] at hread
  simp only [dissector, hcode, Option.bind_eq_bind, Option.bind_some, hword, hname, hlayout]
  change (readLayout (layoutFrom 0 (⟨.packetType, 4, t.toWord.toNat⟩ :: fields)) buffer).bind _ = _
  rw [show (0 : ℕ) = ([] : List UInt8).length from rfl, hread, Option.bind_some, List.map_cons]
  simp only [word_mod]

variable {P : Type} [PacketBuffer P] [LawfulPacketBuffer P]

theorem bytes_addHeader {H : Type} [Header H] {h : H}
    (hsize : (Header.serialize h).length = (Header.getSerializedSize h).toNat) (p : P) :
    bytes (addHeader h p) = Header.serialize h ++ bytes p :=
  LawfulPacketBuffer.bytes_addAtStart _ _ p hsize

/-- The value is what the bytes of the field can say. -/
def Fits (field : WrittenField ProtoField) : Prop := field.value < 256 ^ field.width

theorem fits_video (h : VideoPacketHeader) : ∀ field ∈ h.fields, Fits field := by
  simp only [VideoPacketHeader.fields, Fits, List.forall_mem_cons]
  exact ⟨UInt64.toNat_lt _, UInt16.toNat_lt _, UInt32.toNat_lt _, UInt16.toNat_lt _,
    UInt16.toNat_lt _, UInt16.toNat_lt _, UInt32.toNat_lt _, UInt16.toNat_lt _, UInt16.toNat_lt _,
    UInt16.toNat_lt _, UInt8.toNat_lt _, List.forall_mem_nil _⟩

theorem map_fits {fields : List (WrittenField ProtoField)} (h : ∀ field ∈ fields, Fits field) :
    (fields.map fun field => (field.name, field.value % 256 ^ field.width)) =
      fields.map fun field => (field.name, field.value) :=
  List.map_congr_left fun field hfield => by rw [Nat.mod_eq_of_lt (h field hfield)]

/-! ## The packets as shown -/

theorem bytes_video (video : VideoPacketHeader) (p : P) :
    bytes (addHeader video p) = writeFields video.fields ++ bytes p := by
  have hsize : (Header.serialize video).length = (Header.getSerializedSize video).toNat := by
    simp [Header.serialize, Header.getSerializedSize]
  rw [bytes_addHeader hsize, serialize_video]

theorem bytes_packetType (t : PacketType) (p : P) :
    bytes (addHeader t.header p) = writeU32 t.toWord ++ bytes p :=
  bytes_addHeader (NetworkPacketHeader.carries _).size p

theorem dissector_data {t : PacketType} (ht : t = .dataPkt ∨ t = .dupFecPkt) (pkt : DataPacket) :
    dissector (bytes (pkt.toNetPacket t : P)) = some ⟨t.name, (.packetType, t.toWord.toNat) ::
      (pkt.toVideoPacketHeader.fields ++ shownFrameFields pkt.toDataPacketHeader).map fun field =>
        (field.name, field.value % 256 ^ field.width)⟩ := by
  obtain ⟨rest, hdata⟩ := serialize_data pkt.toDataPacketHeader
  have hbytes : bytes (pkt.toNetPacket t : P) = writeU32 t.toWord ++
      writeFields (pkt.toVideoPacketHeader.fields ++ shownFrameFields pkt.toDataPacketHeader) ++
        (rest ++ bytes (create pkt.payloadSize : P)) := by
    rw [DataPacket.toNetPacket, bytes_packetType, bytes_video,
      bytes_addHeader (DataPacketHeader.carries _).size, hdata]
    simp [writeFields]
  rcases ht with rfl | rfl
  · exact dissector_of_bytes rfl rfl hbytes
  · exact dissector_of_bytes rfl rfl hbytes

theorem dissector_fec {pkt : FECPacket} (hlen : pkt.dataPkts.length ≤ 65535) :
    dissector (bytes (pkt.toNetPacket : P)) =
      some (NetworkPacket.video (.fec pkt)).dissection := by
  obtain ⟨rest, hfec⟩ := serialize_fec pkt.header
  have hcount : pkt.header.dataPkts.length % 65536 = pkt.dataPkts.length :=
    Nat.mod_eq_of_lt (by change pkt.dataPkts.length < 65536; omega)
  rw [hcount] at hfec
  have hbytes : bytes (pkt.toNetPacket : P) = writeU32 PacketType.fecPkt.toWord ++
      writeFields (NetworkPacket.video (.fec pkt)).fields ++
        (rest ++ bytes (create (-pkt.headerLength + VideoPacket.maxPayloadSize.toUInt32) : P)) := by
    rw [FECPacket.toNetPacket, bytes_packetType, bytes_video,
      bytes_addHeader (FECPacketHeader.carries hlen).size, hfec]
    simp [writeFields, NetworkPacket.fields]
  have hfits : ∀ field ∈ (NetworkPacket.video (.fec pkt)).fields, Fits field := by
    rw [NetworkPacket.fields, List.forall_mem_append, List.forall_mem_singleton]
    exact ⟨fits_video _, show pkt.dataPkts.length < 65536 by omega⟩
  rw [dissector_of_bytes rfl rfl hbytes, map_fits hfits]
  rfl

/-- The type is shown under the dissector's name for it. -/
theorem typeName_of_bytes {t : PacketType} {buffer rest : List UInt8} {shown : Dissection}
    (hbytes : buffer = writeU32 t.toWord ++ rest) (h : dissector buffer = some shown) :
    shown.typeName = getPacketType t.toWord.toNat := by
  have hcode : byteRange 0 4 buffer = some (writeU32 t.toWord) := by
    rw [hbytes]
    exact byteRange_append [] (writeU32 t.toWord) _
  have hword : ofBe (writeU32 t.toWord) = t.toWord.toNat := by
    rw [writeU32, ofBe_writeBe, word_mod]
  simp only [dissector, hcode, Option.bind_eq_bind, Option.bind_some, hword] at h
  obtain ⟨fields, -, hshown⟩ := Option.bind_eq_some_iff.mp h
  rw [← Option.some.inj hshown]

/-- It knows the type of no packet that the client sends. -/
theorem dissector_control {H : Type} [Header H] {t : PacketType} {h : H}
    (ht : t = .ackPkt ∨ t = .frameAckPkt ∨ t = .netstatePkt) {shown : Dissection}
    (hshown : dissector (bytes (NetworkPacket.controlPacket t h : P)) = some shown) :
    shown.typeName ≠ t.name := by
  rw [typeName_of_bytes (bytes_packetType t _) hshown]
  rcases ht with rfl | rfl | rfl <;> decide

/-- The low word of the size stands where the number of packets should, the high one where the
place of the packet should. -/
theorem shownFrameFields_eq_iff (h : DataPacketHeader) :
    ((shownFrameFields h).map fun field => (field.name, field.value % 256 ^ field.width)) =
        (h.frameFields.map fun field => (field.name, field.value)) ↔ h.SizeSaysPlace := by
  have hsize := h.frameSize.toNat_lt
  have hnum := h.framePktNum.toNat_lt
  have hplace := h.pktIdInFrame.toNat_lt
  simp [shownFrameFields, DataPacketHeader.frameFields, DataPacketHeader.SizeSaysPlace]
  omega

theorem dissector_data_iff {t : PacketType} (ht : t = .dataPkt ∨ t = .dupFecPkt)
    (pkt : DataPacket) :
    dissector (bytes (pkt.toNetPacket t : P)) = some ⟨t.name, (.packetType, t.toWord.toNat) ::
        (pkt.toVideoPacketHeader.fields ++ pkt.toDataPacketHeader.frameFields).map
          fun field => (field.name, field.value)⟩ ↔
      pkt.SizeSaysPlace := by
  rw [dissector_data ht, List.map_append, List.map_append, map_fits (fits_video _),
    ← shownFrameFields_eq_iff, Option.some_inj, Dissection.mk.injEq, List.cons.injEq,
    List.append_right_inj]
  simp

end Dissector

end Zhuge
