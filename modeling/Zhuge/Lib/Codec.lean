-- SUMMARY: Big-endian integers, byte readers, counted lists, and headers stacked in front of a packet buffer.
import Mathlib.Algebra.Order.Ring.Nat
import Mathlib.Tactic

/-!
# Codecs

A writer is the list of bytes it writes; a reader consumes bytes from the front of
a buffer and may run out of them. `Reader.Reads r bs a` says that `r` reads `a` off
the bytes `bs` whatever follows them; it composes along the reader's steps.
-/

/-- A reader takes bytes off the front of the buffer; `none` is a read past its end. -/
abbrev Reader := StateT (List UInt8) Option

/-! ## Integers in network byte order -/

/-- The low `n` bytes of `v`, the most significant one first. -/
def writeBe : ℕ → ℕ → List UInt8
  | 0, _ => []
  | n + 1, v => UInt8.ofNat (v / 256 ^ n) :: writeBe n v

def readByte : Reader UInt8 := fun bytes =>
  match bytes with
  | [] => none
  | byte :: rest => some (byte, rest)

def readBe : ℕ → Reader ℕ
  | 0 => pure 0
  | n + 1 => do
    let byte ← readByte
    let low ← readBe n
    pure (byte.toNat * 256 ^ n + low)

@[simp] theorem length_writeBe (n v : ℕ) : (writeBe n v).length = n := by
  induction n with
  | zero => rfl
  | succ n ih => simp [writeBe, ih]

theorem run_readBe_writeBe (n v : ℕ) (rest : List UInt8) :
    (readBe n).run (writeBe n v ++ rest) = some (v % 256 ^ n, rest) := by
  induction n with
  | zero => simp [readBe, writeBe, Nat.mod_one]
  | succ n ih =>
      have hbyte : (UInt8.ofNat (v / 256 ^ n)).toNat = v / 256 ^ n % 256 := by simp
      have hread : readByte.run (writeBe (n + 1) v ++ rest)
          = some (UInt8.ofNat (v / 256 ^ n), writeBe n v ++ rest) := rfl
      simp only [readBe, StateT.run_bind, hread, Option.bind_eq_bind, Option.bind_some, ih,
        StateT.run_pure, hbyte]
      rw [Nat.mod_pow_succ, add_comm, mul_comm]
      rfl

def writeU8 (v : UInt8) : List UInt8 := writeBe 1 v.toNat
def writeU16 (v : UInt16) : List UInt8 := writeBe 2 v.toNat
def writeU32 (v : UInt32) : List UInt8 := writeBe 4 v.toNat
def writeU64 (v : UInt64) : List UInt8 := writeBe 8 v.toNat

def readU8 : Reader UInt8 := UInt8.ofNat <$> readBe 1
def readU16 : Reader UInt16 := UInt16.ofNat <$> readBe 2
def readU32 : Reader UInt32 := UInt32.ofNat <$> readBe 4
def readU64 : Reader UInt64 := UInt64.ofNat <$> readBe 8

@[simp] theorem length_writeU8 (v : UInt8) : (writeU8 v).length = 1 := length_writeBe _ _
@[simp] theorem length_writeU16 (v : UInt16) : (writeU16 v).length = 2 := length_writeBe _ _
@[simp] theorem length_writeU32 (v : UInt32) : (writeU32 v).length = 4 := length_writeBe _ _
@[simp] theorem length_writeU64 (v : UInt64) : (writeU64 v).length = 8 := length_writeBe _ _

@[simp] theorem run_readU8_writeU8 (v : UInt8) (rest : List UInt8) :
    readU8.run (writeU8 v ++ rest) = some (v, rest) := by
  simp [readU8, writeU8, run_readBe_writeBe, Nat.mod_eq_of_lt v.toNat_lt]

@[simp] theorem run_readU16_writeU16 (v : UInt16) (rest : List UInt8) :
    readU16.run (writeU16 v ++ rest) = some (v, rest) := by
  simp [readU16, writeU16, run_readBe_writeBe, Nat.mod_eq_of_lt v.toNat_lt]

@[simp] theorem run_readU32_writeU32 (v : UInt32) (rest : List UInt8) :
    readU32.run (writeU32 v ++ rest) = some (v, rest) := by
  simp [readU32, writeU32, run_readBe_writeBe, Nat.mod_eq_of_lt v.toNat_lt]

@[simp] theorem run_readU64_writeU64 (v : UInt64) (rest : List UInt8) :
    readU64.run (writeU64 v ++ rest) = some (v, rest) := by
  simp [readU64, writeU64, run_readBe_writeBe, Nat.mod_eq_of_lt v.toNat_lt]

/-! ## Readers of known bytes -/

/-- `r` reads `a` off exactly the bytes `bs`, whatever follows. -/
def Reader.Reads {α : Type} (r : Reader α) (bs : List UInt8) (a : α) : Prop :=
  ∀ rest, r.run (bs ++ rest) = some (a, rest)

namespace Reader.Reads

variable {α β : Type}

theorem bind {r : Reader α} {f : α → Reader β} {bs cs : List UInt8} {a : α} {b : β}
    (hr : r.Reads bs a) (hf : (f a).Reads cs b) : (r >>= f).Reads (bs ++ cs) b := by
  intro rest
  rw [List.append_assoc, StateT.run_bind, hr (cs ++ rest)]
  exact hf rest

theorem pure {a : α} : (Pure.pure a : Reader α).Reads [] a := fun _ => rfl

/-- A reader in front of others takes its own bytes. -/
theorem run_bind {r : Reader α} {f : α → Reader β} {bs : List UInt8} {a : α}
    (hr : r.Reads bs a) (rest : List UInt8) :
    (r >>= f).run (bs ++ rest) = (f a).run rest := by
  rw [StateT.run_bind, hr rest]
  rfl

end Reader.Reads

theorem readU8_reads (v : UInt8) : readU8.Reads (writeU8 v) v := run_readU8_writeU8 v
theorem readU16_reads (v : UInt16) : readU16.Reads (writeU16 v) v := run_readU16_writeU16 v
theorem readU32_reads (v : UInt32) : readU32.Reads (writeU32 v) v := run_readU32_writeU32 v
theorem readU64_reads (v : UInt64) : readU64.Reads (writeU64 v) v := run_readU64_writeU64 v

/-- Read `n` items of `width` bytes each, counting the bytes on top of `size`. -/
def readCounted {α : Type} (item : Reader α) (width : UInt32) :
    ℕ → List α → UInt32 → Reader (List α × UInt32)
  | 0, items, size => pure (items, size)
  | n + 1, items, size => do
    let a ← item
    readCounted item width n (items ++ [a]) (size + width)

theorem readCounted_reads {α β : Type} {item : Reader β} {write : α → List UInt8} {image : α → β}
    (width : UInt32) {items : List α} (hitem : ∀ a ∈ items, item.Reads (write a) (image a))
    (before : List β) (size : UInt32) :
    (readCounted item width items.length before size).Reads (items.flatMap write)
      (before ++ items.map image, size + UInt32.ofNat items.length * width) := by
  induction items generalizing before size with
  | nil => intro rest; simp [readCounted]
  | cons a items ih =>
      have hrest := ih (fun b hb => hitem b (List.mem_cons_of_mem _ hb)) (before ++ [image a])
        (size + width)
      have hcount : size + width + UInt32.ofNat items.length * width
          = size + UInt32.ofNat (items.length + 1) * width := by
        rw [UInt32.ofNat_add, UInt32.add_mul, UInt32.add_assoc, UInt32.add_comm width,
          show UInt32.ofNat 1 = 1 from rfl, UInt32.one_mul]
      rw [List.append_assoc, hcount] at hrest
      exact (hitem a List.mem_cons_self).bind hrest

theorem length_flatMap_const {α : Type} {write : α → List UInt8} {width : ℕ} {items : List α}
    (h : ∀ a ∈ items, (write a).length = width) :
    (items.flatMap write).length = width * items.length := by
  induction items with
  | nil => rfl
  | cons a items ih =>
      rw [List.flatMap_cons, List.length_append, h a List.mem_cons_self,
        ih fun b hb => h b (List.mem_cons_of_mem _ hb), List.length_cons]
      ring

/-! ## Headers -/

/-- A header type: what it writes, the size it announces, and how it is read back
together with the number of bytes the reader reports. -/
class Header (H : Type) where
  serialize : H → List UInt8
  getSerializedSize : H → UInt32
  deserialize : Reader (H × UInt32)

/-- `h` announces the size it writes, and what it writes is read back as `h'` with
that same size reported. -/
structure Header.Carries {H : Type} [Header H] (h h' : H) : Prop where
  size : (serialize h).length = (getSerializedSize h).toNat
  reads : deserialize.Reads (serialize h) (h', getSerializedSize h)

/-- The buffer of a packet. `addAtStart` reserves room in front and writes bytes from
its beginning; `bytes` is what an iterator placed at the front reads. -/
class PacketBuffer (P : Type*) where
  create : UInt32 → P
  addAtStart : UInt32 → List UInt8 → P → P
  bytes : P → List UInt8
  removeAtStart : UInt32 → P → P

/-- What holds of the buffer when exactly the reserved room is written. -/
class LawfulPacketBuffer (P : Type*) [PacketBuffer P] : Prop where
  bytes_addAtStart (size : UInt32) (written : List UInt8) (p : P) :
    written.length = size.toNat →
      PacketBuffer.bytes (PacketBuffer.addAtStart size written p)
        = written ++ PacketBuffer.bytes p
  removeAtStart_addAtStart (size : UInt32) (written : List UInt8) (p : P) :
    written.length = size.toNat →
      PacketBuffer.removeAtStart size (PacketBuffer.addAtStart size written p) = p

/-- A fresh buffer has the size it was asked for. -/
class SizedPacketBuffer (P : Type*) [PacketBuffer P] : Prop where
  length_bytes_create (size : UInt32) :
    (PacketBuffer.bytes (PacketBuffer.create size : P)).length = size.toNat

section PacketBuffer

variable {P : Type*} {H : Type} [PacketBuffer P] [Header H]

open PacketBuffer

/-- Put a header in front of a packet. -/
def addHeader (h : H) (p : P) : P :=
  addAtStart (Header.getSerializedSize h) (Header.serialize h) p

/-- Read a header off the front of a packet and drop the bytes the reader reports. -/
def removeHeader (p : P) : Option (H × P) :=
  (Header.deserialize.run (bytes p)).map fun ((h, size), _) => (h, removeAtStart size p)

theorem removeHeader_addHeader [LawfulPacketBuffer P] {h h' : H} (hcarries : Header.Carries h h')
    (p : P) : removeHeader (addHeader h p) = some (h', p) := by
  have hbytes := LawfulPacketBuffer.bytes_addAtStart (Header.getSerializedSize h)
    (Header.serialize h) p hcarries.size
  simp only [removeHeader, addHeader, hbytes, hcarries.reads (bytes p), Option.map_some,
    LawfulPacketBuffer.removeAtStart_addAtStart _ _ p hcarries.size]

theorem length_bytes_addHeader [LawfulPacketBuffer P] {h : H}
    (hsize : (Header.serialize h).length = (Header.getSerializedSize h).toNat) (p : P) :
    (bytes (addHeader h p)).length = (Header.serialize h).length + (bytes p).length := by
  rw [addHeader, LawfulPacketBuffer.bytes_addAtStart _ _ p hsize, List.length_append]

end PacketBuffer

/-- A buffer that keeps all of its bytes in a list. -/
instance : PacketBuffer (List UInt8) where
  create size := List.replicate size.toNat 0
  addAtStart size written p :=
    written ++ (List.replicate size.toNat 0 ++ p).drop written.length
  bytes p := p
  removeAtStart size p := p.drop size.toNat

instance : SizedPacketBuffer (List UInt8) where
  length_bytes_create _ := List.length_replicate

instance : LawfulPacketBuffer (List UInt8) where
  bytes_addAtStart size written p h := by simp [PacketBuffer.bytes, PacketBuffer.addAtStart, h]
  removeAtStart_addAtStart size written p h := by
    simp [PacketBuffer.removeAtStart, PacketBuffer.addAtStart, h]
