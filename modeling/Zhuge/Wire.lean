-- SUMMARY: The wire format: the header codecs, packets to and from the network, and what one trip over the wire does to them.
import Zhuge.Lib.Codec
import Zhuge.Packet

/-!
# The wire format

Every packet is a type word followed by the headers of its class. The codecs below
write field by field in network byte order. Three fields lose precision: encode
times are cut to whole milliseconds or microseconds, and a loss rate to a count of
ten-thousandths.
-/

namespace Zhuge

/-! ## Times and loss rates on the wire -/

namespace Time

/-- The 64-bit word that a signed count is written as. -/
def toWord (count : Int) : UInt64 := (Int64.ofInt count).toUInt64

/-- A time from a word of `unit`s: the product is taken in 64 bits. -/
def ofWord (unit word : UInt64) : Time := (word * unit).toInt64.toInt

theorem ofWord_toWord {unit : UInt64} {count : Int} (h : InRange (count * unit.toInt64.toInt)) :
    ofWord unit (toWord count) = count * unit.toInt64.toInt := by
  obtain ⟨hlo, hhi⟩ := h
  have hmul : (toWord count * unit).toInt64 = Int64.ofInt (count * unit.toInt64.toInt) := by
    rw [UInt64.toInt64_mul, toWord, Int64.toInt64_toUInt64, Int64.ofInt_mul, Int64.ofInt_toInt]
  rw [ofWord, hmul, Int64.toInt_ofInt_of_le (by simpa using hlo) (by simpa using hhi)]

theorem ofWord_milli {t : Time} (h : InRange t) :
    ofWord 1000000 (toWord (getMilliSeconds t)) = truncMilli t :=
  ofWord_toWord (h.tdiv_mul (by decide))

theorem ofWord_micro {t : Time} (h : InRange t) :
    ofWord 1000 (toWord (getMicroSeconds t)) = truncMicro t :=
  ofWord_toWord (h.tdiv_mul (by decide))

end Time

namespace NetStates

/-- `loss_rate * 10000` as a whole number: the product is rounded, then truncated. -/
def lossCount (lossRate : Binary64) : ℤ := ⌊(lossRate.mul (.ofNat 10000)).val⌋

/-- `(float) count / 10000.`: every 16-bit count is a `float`. -/
def ofLossCount (count : ℕ) : Binary64 := .div (.ofNat count) (.ofNat 10000)

theorem ofNat_tenThousand : (Binary64.ofNat 10000).val = 10000 := by
  exact_mod_cast Binary64.ofNat_val (n := 10000) (by norm_num)

/-- The rates that the 16-bit field can hold. -/
def LossRateInRange (lossRate : Binary64) : Prop :=
  0 ≤ lossRate.val ∧ lossRate.val < 65536 / 10000

theorem lossCount_nonneg {lossRate : Binary64} (h : 0 ≤ lossRate.val) : 0 ≤ lossCount lossRate := by
  apply Int.floor_nonneg.mpr
  rw [Binary64.mul_val, ofNat_tenThousand]
  exact Binary64.round_nonneg (by positivity)

/-- The largest binary64 rate below 6.5536 is this multiple of `2 ^ (-50)`. -/
theorem val_le_of_lossRateInRange {lossRate : Binary64} (h : LossRateInRange lossRate) :
    lossRate.val ≤ 7378697629483820 * 2 ^ (-50 : ℤ) := by
  obtain ⟨hlo, hhi⟩ := h
  rcases lt_or_ge lossRate.val 4 with hsmall | hlarge
  · exact hsmall.le.trans (by norm_num)
  · have hexp : Binary64.ulpExp lossRate.val = -50 := by
      refine Binary64.ulpExp_eq (by norm_num) ?_ ?_ <;> rw [abs_of_nonneg hlo] <;> norm_num <;>
        linarith
    -- the rate is a whole number of its last places
    have hmul : lossRate.val
        = Binary64.roundHalfEven (lossRate.val / Binary64.ulp lossRate.val) * 2 ^ (-50 : ℤ) := by
      conv_lhs => rw [← lossRate.round_val]
      rw [Binary64.round, Binary64.ulp, hexp]
    set k := Binary64.roundHalfEven (lossRate.val / Binary64.ulp lossRate.val)
    have hk : (k : ℚ) < 65536 / 10000 * 2 ^ 50 := by
      rw [hmul] at hhi
      norm_num at hhi ⊢
      linarith
    have hkint : 625 * k < 2 ^ 62 := by
      have : (625 : ℚ) * k < 2 ^ 62 := by linarith
      exact_mod_cast this
    have hkle : k ≤ 7378697629483820 := by omega
    rw [hmul]
    exact mul_le_mul_of_nonneg_right (by exact_mod_cast hkle) (by positivity)

/-- No rate below 6.5536 rounds up to a count of 65536. -/
theorem lossCount_lt {lossRate : Binary64} (h : LossRateInRange lossRate) :
    lossCount lossRate < 65536 := by
  have hle := val_le_of_lossRateInRange h
  have htop : Binary64.round (7378697629483820 * 2 ^ (-50 : ℤ) * 10000)
      = (2 ^ 53 - 1 : ℤ) * 2 ^ (-37 : ℤ) := by
    apply Binary64.round_eq <;> norm_num [abs_lt, abs_of_pos]
  have hmono : Binary64.round (lossRate.val * 10000) ≤ (2 ^ 53 - 1 : ℤ) * 2 ^ (-37 : ℤ) := by
    rw [← htop]
    apply Binary64.round_mono_of_nonneg (mul_nonneg h.1 (by norm_num))
    exact mul_le_mul_of_nonneg_right hle (by norm_num)
  rw [lossCount, Binary64.mul_val, ofNat_tenThousand]
  apply Int.floor_lt.mpr
  exact hmono.trans_lt (by norm_num)

/-- Encoding a decoded loss rate again: the quotient is rounded, and its product
with 10000 may fall just short of the count. -/
theorem lossCount_ofLossCount {count : ℕ} (h : count < 65536) :
    lossCount (ofLossCount count) = count ∨ lossCount (ofLossCount count) = count - 1 := by
  have hcount : (count : ℚ) < 65536 := by exact_mod_cast h
  have hnonneg : (0 : ℚ) ≤ count := Nat.cast_nonneg count
  have hval : (ofLossCount count).val = Binary64.round (count / 10000) := by
    rw [ofLossCount, Binary64.div_val, ofNat_tenThousand,
      Binary64.ofNat_val (h.le.trans (by norm_num))]
  -- both roundings together move the product by less than a half
  have hquot : |Binary64.round (count / 10000) - count / 10000| ≤ 2 ^ (-50 : ℤ) / 2 := by
    apply (Binary64.abs_round_sub_le _).trans
    have := Binary64.ulp_le (x := count / 10000) (e := -50) (by norm_num)
      (by rw [abs_of_nonneg (by positivity)]; norm_num; linarith)
    exact div_le_div_of_nonneg_right this zero_le_two
  set x := Binary64.round (count / 10000)
  obtain ⟨hxlo, hxhi⟩ := abs_le.mp hquot
  have hprod : |Binary64.round (x * 10000) - x * 10000| ≤ 2 ^ (-36 : ℤ) / 2 := by
    apply (Binary64.abs_round_sub_le _).trans
    have := Binary64.ulp_le (x := x * 10000) (e := -36) (by norm_num)
      (by rw [abs_lt]; norm_num at hxlo hxhi ⊢; constructor <;> linarith)
    exact div_le_div_of_nonneg_right this zero_le_two
  obtain ⟨hplo, hphi⟩ := abs_le.mp hprod
  norm_num at hxlo hxhi hplo hphi
  have hfloor : lossCount (ofLossCount count) = ⌊Binary64.round (x * 10000)⌋ := by
    rw [lossCount, Binary64.mul_val, ofNat_tenThousand, hval]
  rw [hfloor]
  have hupper : ⌊Binary64.round (x * 10000)⌋ < count + 1 := by
    apply Int.floor_lt.mpr; push_cast; linarith
  have hlower : (count : ℤ) - 1 ≤ ⌊Binary64.round (x * 10000)⌋ := by
    apply Int.le_floor.mpr; push_cast; linarith
  omega

end NetStates

/-! ## Header codecs -/

def PacketType.toWord : PacketType → UInt32
  | .dataPkt => 0
  | .dupFecPkt => 1
  | .fecPkt => 2
  | .rtxReqPkt => 3
  | .ackPkt => 4
  | .frameAckPkt => 5
  | .netstatePkt => 6

/-- The enumerator with this value, if there is one. -/
def PacketType.ofWord (word : UInt32) : Option PacketType :=
  if word = 0 then some .dataPkt
  else if word = 1 then some .dupFecPkt
  else if word = 2 then some .fecPkt
  else if word = 3 then some .rtxReqPkt
  else if word = 4 then some .ackPkt
  else if word = 5 then some .frameAckPkt
  else if word = 6 then some .netstatePkt
  else none

@[simp] theorem PacketType.ofWord_toWord (t : PacketType) : ofWord t.toWord = some t := by
  cases t <;> rfl

/-- The type word; reading it accepts any value. -/
structure NetworkPacketHeader where
  packetType : UInt32

instance : Header NetworkPacketHeader where
  serialize h := writeU32 h.packetType
  getSerializedSize _ := 4
  deserialize := do
    let packetType ← readU32
    pure (⟨packetType⟩, 4)

theorem NetworkPacketHeader.carries (h : NetworkPacketHeader) : Header.Carries h h where
  size := by simp [Header.serialize, Header.getSerializedSize]
  reads rest := by simp [Header.serialize, Header.deserialize, Header.getSerializedSize]

instance : Header VideoPacketHeader where
  serialize h :=
    writeU64 (Time.toWord h.encodeTime.getMilliSeconds) ++ writeU16 h.globalId
      ++ writeU32 h.groupId ++ writeU16 h.groupDataNum ++ writeU16 h.groupFecNum
      ++ writeU16 h.pktIdInGroup
      ++ writeU32 h.batchId ++ writeU16 h.batchDataNum ++ writeU16 h.batchFecNum
      ++ writeU16 h.pktIdInBatch ++ writeU8 h.txCount
  getSerializedSize _ := 8 + 2 + 4 + 2 + 2 + 2 + 4 + 2 + 2 + 2 + 1
  deserialize := do
    let encodeTime ← readU64
    let globalId ← readU16
    let groupId ← readU32
    let groupDataNum ← readU16
    let groupFecNum ← readU16
    let pktIdInGroup ← readU16
    let batchId ← readU32
    let batchDataNum ← readU16
    let batchFecNum ← readU16
    let pktIdInBatch ← readU16
    let txCount ← readU8
    pure ({ encodeTime := Time.ofWord 1000000 encodeTime, globalId, groupId, groupDataNum,
            groupFecNum, pktIdInGroup, batchId, batchDataNum, batchFecNum, pktIdInBatch, txCount },
      8 + 2 + 4 + 2 + 2 + 2 + 4 + 2 + 2 + 2 + 1)

/-- A video header after the wire. -/
def VideoPacketHeader.quantised (h : VideoPacketHeader) : VideoPacketHeader :=
  { h with encodeTime := h.encodeTime.truncMilli }

theorem VideoPacketHeader.carries {h : VideoPacketHeader} (htime : h.encodeTime.InRange) :
    Header.Carries h h.quantised where
  size := by simp [Header.serialize, Header.getSerializedSize]
  reads rest := by
    -- field by field: each reader takes what its writer left in front
    simp only [Header.serialize, Header.deserialize, List.append_assoc]
    rw [(readU64_reads _).run_bind, (readU16_reads _).run_bind, (readU32_reads _).run_bind,
      (readU16_reads _).run_bind, (readU16_reads _).run_bind, (readU16_reads _).run_bind,
      (readU32_reads _).run_bind, (readU16_reads _).run_bind, (readU16_reads _).run_bind,
      (readU16_reads _).run_bind, (readU8_reads _).run_bind, StateT.run_pure,
      Time.ofWord_milli htime]
    rfl

theorem VideoPacketHeader.serialize_quantised (h : VideoPacketHeader) :
    Header.serialize h.quantised = Header.serialize h := by
  simp [Header.serialize, quantised, Time.getMilliSeconds_truncMilli]

instance : Header DataPacketHeader where
  serialize h :=
    writeU32 h.frameId ++ writeU32 h.frameSize ++ writeU16 h.framePktNum
      ++ writeU16 h.pktIdInFrame
  getSerializedSize _ := 4 + 4 + 2 + 2
  deserialize := do
    let frameId ← readU32
    let frameSize ← readU32
    let framePktNum ← readU16
    let pktIdInFrame ← readU16
    pure ({ frameId, frameSize, framePktNum, pktIdInFrame }, 4 + 4 + 2 + 2)

theorem DataPacketHeader.carries (h : DataPacketHeader) : Header.Carries h h where
  size := by simp [Header.serialize, Header.getSerializedSize]
  reads rest := by simp [Header.serialize, Header.deserialize, Header.getSerializedSize]

namespace DataPktDigest

def write (digest : DataPktDigest) : List UInt8 :=
  writeU16 digest.pktIdInBatch ++ writeU16 digest.pktIdInGroup ++ writeU32 digest.frameId
    ++ writeU16 digest.framePktNum ++ writeU16 digest.pktIdInFrame

def read : Reader DataPktDigest := do
  let pktIdInBatch ← readU16
  let pktIdInGroup ← readU16
  let frameId ← readU32
  let framePktNum ← readU16
  let pktIdInFrame ← readU16
  pure { pktIdInBatch, pktIdInGroup, frameId, framePktNum, pktIdInFrame }

@[simp] theorem length_write (digest : DataPktDigest) : digest.write.length = 12 := by
  simp [write]

theorem read_reads (digest : DataPktDigest) : read.Reads digest.write digest := fun rest => by
  simp [read, write]

end DataPktDigest

structure FECPacketHeader where
  dataPkts : List DataPktDigest

instance : Header FECPacketHeader where
  serialize h :=
    writeU16 (.ofNat h.dataPkts.length) ++ h.dataPkts.flatMap DataPktDigest.write
  getSerializedSize h := .ofNat (h.dataPkts.length * (2 + 2 + 4 + 2 + 2) + 2)
  deserialize := do
    let pktsSize ← readU16
    let (dataPkts, readSize) ← readCounted DataPktDigest.read 12 pktsSize.toNat [] 2
    pure (⟨dataPkts⟩, readSize)

theorem FECPacketHeader.carries {h : FECPacketHeader} (hlen : h.dataPkts.length ≤ 65535) :
    Header.Carries h h where
  size := by
    simp only [Header.serialize, Header.getSerializedSize, List.length_append, length_writeU16,
      length_flatMap_const fun d _ => DataPktDigest.length_write d, UInt32.toNat_ofNat']
    omega
  reads rest := by
    have hcount : (UInt16.ofNat h.dataPkts.length).toNat = h.dataPkts.length :=
      UInt16.toNat_ofNat_of_lt' (by simpa [UInt16.size] using Nat.lt_succ_of_le hlen)
    have hread := readCounted_reads 12
      (fun d (_ : d ∈ h.dataPkts) => DataPktDigest.read_reads d) [] 2 rest
    have hsize : (2 : UInt32) + UInt32.ofNat h.dataPkts.length * 12
        = UInt32.ofNat (h.dataPkts.length * (2 + 2 + 4 + 2 + 2) + 2) := by
      rw [UInt32.ofNat_add, UInt32.ofNat_mul, UInt32.add_comm]; rfl
    simp only [List.map_id', List.nil_append, hsize] at hread
    simp [Header.serialize, Header.deserialize, Header.getSerializedSize, hcount, hread]

namespace GroupPacketInfo

def write (info : GroupPacketInfo) : List UInt8 :=
  writeU32 info.groupId ++ writeU16 info.pktIdInGroup

def read : Reader GroupPacketInfo := do
  let groupId ← readU32
  let pktIdInGroup ← readU16
  pure { groupId, pktIdInGroup }

@[simp] theorem length_write (info : GroupPacketInfo) : info.write.length = 6 := by
  simp [write]

theorem read_reads (info : GroupPacketInfo) : read.Reads info.write info := fun rest => by
  simp [read, write]

end GroupPacketInfo

structure AckPacketHeader where
  pktInfos : List GroupPacketInfo
  lastPktId : UInt16

instance : Header AckPacketHeader where
  serialize h :=
    writeU32 (.ofNat h.pktInfos.length) ++ h.pktInfos.flatMap GroupPacketInfo.write
      ++ writeU16 h.lastPktId
  getSerializedSize h := .ofNat (4 + h.pktInfos.length * 6 + 2)
  deserialize := do
    let pktInfoCnt ← readU32
    let (pktInfos, readSize) ← readCounted GroupPacketInfo.read 6 pktInfoCnt.toNat [] 4
    let lastPktId ← readU16
    pure (⟨pktInfos, lastPktId⟩, readSize + 2)

namespace AckPacketHeader

theorem length_serialize (h : AckPacketHeader) :
    (Header.serialize h).length = 4 + h.pktInfos.length * 6 + 2 := by
  simp only [Header.serialize, List.length_append, length_writeU16, length_writeU32,
    length_flatMap_const fun d _ => GroupPacketInfo.length_write d, mul_comm]

/-- The most infos whose announced size fits in 32 bits. -/
def maxPktInfos : ℕ := 715827881

theorem carries {h : AckPacketHeader} (hlen : h.pktInfos.length ≤ maxPktInfos) :
    Header.Carries h h where
  size := by
    rw [length_serialize]
    simp only [Header.getSerializedSize, UInt32.toNat_ofNat']
    unfold maxPktInfos at hlen
    omega
  reads rest := by
    have hcount : (UInt32.ofNat h.pktInfos.length).toNat = h.pktInfos.length := by
      unfold maxPktInfos at hlen
      simp only [UInt32.toNat_ofNat']
      omega
    have hread := readCounted_reads 6
      (fun d (_ : d ∈ h.pktInfos) => GroupPacketInfo.read_reads d) [] 4
      (writeU16 h.lastPktId ++ rest)
    have hsize : (4 + UInt32.ofNat h.pktInfos.length * 6) + 2
        = UInt32.ofNat (4 + h.pktInfos.length * 6 + 2) := by
      rw [UInt32.ofNat_add, UInt32.ofNat_add, UInt32.ofNat_mul]; rfl
    simp only [List.map_id', List.nil_append] at hread
    simp [Header.serialize, Header.deserialize, Header.getSerializedSize, hcount, hread, ← hsize]

end AckPacketHeader

structure FrameAckPacketHeader where
  frameId : UInt32
  frameEncodeTime : Time

instance : Header FrameAckPacketHeader where
  serialize h := writeU32 h.frameId ++ writeU64 (Time.toWord h.frameEncodeTime.getMicroSeconds)
  getSerializedSize _ := 4 + 8
  deserialize := do
    let frameId ← readU32
    let frameEncodeTime ← readU64
    pure ({ frameId, frameEncodeTime := Time.ofWord 1000 frameEncodeTime }, 4 + 8)

/-- A frame acknowledgement header after the wire. -/
def FrameAckPacketHeader.quantised (h : FrameAckPacketHeader) : FrameAckPacketHeader :=
  { h with frameEncodeTime := h.frameEncodeTime.truncMicro }

theorem FrameAckPacketHeader.carries {h : FrameAckPacketHeader}
    (htime : h.frameEncodeTime.InRange) : Header.Carries h h.quantised where
  size := by simp [Header.serialize, Header.getSerializedSize]
  reads rest := by
    simp [Header.serialize, Header.deserialize, Header.getSerializedSize, quantised,
      Time.ofWord_micro htime]

theorem FrameAckPacketHeader.serialize_quantised (h : FrameAckPacketHeader) :
    Header.serialize h.quantised = Header.serialize h := by
  simp [Header.serialize, quantised, Time.getMicroSeconds_truncMicro]

/-! ### Network states -/

/-- A run of losses is written with sign word 0, a run of received packets with 1. -/
def writeLoss (loss : Int) : List UInt8 :=
  if loss < 0 then writeU16 0 ++ writeU16 (.ofInt (-loss))
  else writeU16 1 ++ writeU16 (.ofInt loss)

def readLoss : Reader Int := do
  let sig ← readU16
  let value ← readU16
  pure (if sig > 0 then (value.toNat : Int) else -(value.toNat : Int))

@[simp] theorem length_writeLoss (loss : Int) : (writeLoss loss).length = 4 := by
  unfold writeLoss; split <;> simp

theorem toNat_ofInt_of_le {n : Int} (h₀ : 0 ≤ n) (h : n ≤ 65535) :
    ((UInt16.ofInt n).toNat : Int) = n := by
  rw [UInt16.ofInt, UInt16.toNat_ofNat']
  omega

theorem readLoss_reads {loss : Int} (h : loss.natAbs ≤ 65535) :
    readLoss.Reads (writeLoss loss) loss := fun rest => by
  unfold writeLoss
  split
  case isTrue hneg =>
    have hvalue := toNat_ofInt_of_le (n := -loss) (by omega) (by omega)
    generalize UInt16.ofInt (-loss) = value at hvalue ⊢
    simp [readLoss, hvalue]
  case isFalse hpos =>
    have hvalue := toNat_ofInt_of_le (n := loss) (by omega) (by omega)
    simp [readLoss, hvalue]

namespace RcvTime

def write (rt : RcvTime) : List UInt8 := writeU32 rt.pktId ++ writeU32 rt.rtUs

def read : Reader RcvTime := do
  let pktId ← readU32
  let rtUs ← readU32
  pure { pktId, rtUs, pktSize := 0 }

@[simp] theorem length_write (rt : RcvTime) : rt.write.length = 8 := by simp [write]

/-- A receive time after the wire: the packet size is not sent. -/
def quantised (rt : RcvTime) : RcvTime := { rt with pktSize := 0 }

theorem read_reads (rt : RcvTime) : read.Reads rt.write rt.quantised := fun rest => by
  simp [read, write, quantised]

end RcvTime

structure NetStatePacketHeader where
  netstates : NetStates

instance : Header NetStatePacketHeader where
  serialize h :=
    writeU16 (.ofInt (NetStates.lossCount h.netstates.lossRate))
      ++ writeU32 h.netstates.throughputKbps ++ writeU16 h.netstates.fecGroupDelayUs
      ++ writeU16 (.ofNat h.netstates.lossSeq.length) ++ h.netstates.lossSeq.flatMap writeLoss
      ++ writeU16 (.ofNat h.netstates.recvtimeHist.length)
      ++ h.netstates.recvtimeHist.flatMap RcvTime.write
  getSerializedSize h :=
    .ofNat (12 + 4 * h.netstates.lossSeq.length + 8 * h.netstates.recvtimeHist.length)
  deserialize := do
    let lossRate ← readU16
    let throughputKbps ← readU32
    let fecGroupDelayUs ← readU16
    let lossSize ← readU16
    let (lossSeq, readSize) ← readCounted readLoss 4 lossSize.toNat [] 12
    let histSize ← readU16
    let (recvtimeHist, readSize) ← readCounted RcvTime.read 8 histSize.toNat [] readSize
    let lossRate := NetStates.ofLossCount lossRate.toNat
    pure (⟨{ lossRate, throughputKbps, fecGroupDelayUs, lossSeq, recvtimeHist }⟩, readSize)

namespace NetStates

/-- What the format can hold. -/
structure Encodable (s : NetStates) : Prop where
  lossRate : LossRateInRange s.lossRate
  lossSeq : s.lossSeq.length ≤ 65535
  loss : ∀ loss ∈ s.lossSeq, loss.natAbs ≤ 65535
  recvtimeHist : s.recvtimeHist.length ≤ 65535

/-- Network states after the wire. -/
def quantised (s : NetStates) : NetStates :=
  { s with
    lossRate := ofLossCount (lossCount s.lossRate).toNat
    recvtimeHist := s.recvtimeHist.map RcvTime.quantised }

end NetStates

namespace NetStatePacketHeader

theorem carries {h : NetStatePacketHeader} (hs : h.netstates.Encodable) :
    Header.Carries h ⟨h.netstates.quantised⟩ where
  size := by
    have hloss := hs.lossSeq
    have hhist := hs.recvtimeHist
    simp only [Header.serialize, Header.getSerializedSize, List.length_append, length_writeU16,
      length_writeU32, length_flatMap_const fun l _ => length_writeLoss l,
      length_flatMap_const fun r _ => RcvTime.length_write r, UInt32.toNat_ofNat']
    omega
  reads rest := by
    have hrate : (UInt16.ofInt (NetStates.lossCount h.netstates.lossRate)).toNat
        = (NetStates.lossCount h.netstates.lossRate).toNat := by
      have hlo := NetStates.lossCount_nonneg hs.lossRate.1
      have hhi := NetStates.lossCount_lt hs.lossRate
      have := toNat_ofInt_of_le hlo (by omega)
      omega
    have hlossLen : (UInt16.ofNat h.netstates.lossSeq.length).toNat = h.netstates.lossSeq.length :=
      UInt16.toNat_ofNat_of_lt' (by simpa [UInt16.size] using Nat.lt_succ_of_le hs.lossSeq)
    have hhistLen : (UInt16.ofNat h.netstates.recvtimeHist.length).toNat
        = h.netstates.recvtimeHist.length :=
      UInt16.toNat_ofNat_of_lt' (by simpa [UInt16.size] using Nat.lt_succ_of_le hs.recvtimeHist)
    have hloss := readCounted_reads 4 (fun l hl => readLoss_reads (hs.loss l hl)) [] 12
    have hhist := readCounted_reads 8
      (fun r (_ : r ∈ h.netstates.recvtimeHist) => RcvTime.read_reads r) []
    simp only [List.map_id', List.nil_append] at hloss hhist
    have hsize : (12 + UInt32.ofNat h.netstates.lossSeq.length * 4)
          + UInt32.ofNat h.netstates.recvtimeHist.length * 8
        = UInt32.ofNat (12 + 4 * h.netstates.lossSeq.length
          + 8 * h.netstates.recvtimeHist.length) := by
      rw [UInt32.ofNat_add, UInt32.ofNat_add, UInt32.ofNat_mul, UInt32.ofNat_mul,
        UInt32.mul_comm _ 4, UInt32.mul_comm _ 8]; rfl
    simp [Header.serialize, Header.deserialize, Header.getSerializedSize, hrate, hlossLen,
      hhistLen, hloss _, hhist _ _, ← hsize, NetStates.quantised]

end NetStatePacketHeader

end Zhuge
