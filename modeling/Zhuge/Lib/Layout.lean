-- SUMMARY: Fields read at fixed offsets, and the layouts that read back what was written.
import Zhuge.Lib.Codec

/-!
# Layouts

A layout says at which offset a field stands and how many bytes it has. Read over bytes that
were written field after field, it gives the fields back if the offsets follow the widths.
-/

/-- The number that bytes in network order stand for. -/
def ofBe (bytes : List UInt8) : ℕ := bytes.foldl (fun v byte => v * 256 + byte.toNat) 0

/-- `length` bytes from an offset on; `none` outside of the bytes. -/
def byteRange (offset length : ℕ) (bytes : List UInt8) : Option (List UInt8) :=
  if offset + length ≤ bytes.length then some ((bytes.drop offset).take length) else none

/-- A field of a layout. -/
structure LayoutField (N : Type) where
  name : N
  offset : ℕ
  width : ℕ

/-- A field with its value. -/
structure WrittenField (N : Type) where
  name : N
  width : ℕ
  value : ℕ

def readLayout {N : Type} (layout : List (LayoutField N)) (bytes : List UInt8) :
    Option (List (N × ℕ)) :=
  layout.mapM fun field =>
    (byteRange field.offset field.width bytes).map fun range => (field.name, ofBe range)

/-- The bytes of fields, one after another. -/
def writeFields {N : Type} (fields : List (WrittenField N)) : List UInt8 :=
  fields.flatMap fun field => writeBe field.width field.value

/-- The layout of fields that stand one after another. -/
def layoutFrom {N : Type} : ℕ → List (WrittenField N) → List (LayoutField N)
  | _, [] => []
  | offset, field :: fields =>
    ⟨field.name, offset, field.width⟩ :: layoutFrom (offset + field.width) fields

/-! ## Numbers -/

theorem foldl_writeBe (n v first : ℕ) :
    (writeBe n v).foldl (fun v byte => v * 256 + byte.toNat) first =
      first * 256 ^ n + v % 256 ^ n := by
  induction n generalizing first with
  | zero => simp [writeBe, Nat.mod_one]
  | succ n ih =>
      have hbyte : (UInt8.ofNat (v / 256 ^ n)).toNat = v / 256 ^ n % 256 := by simp
      rw [writeBe, List.foldl_cons, ih, hbyte, Nat.mod_pow_succ]
      ring

theorem ofBe_writeBe (n v : ℕ) : ofBe (writeBe n v) = v % 256 ^ n := by
  rw [ofBe, foldl_writeBe, zero_mul, zero_add]

/-- A number is its high bytes, then its low ones. -/
theorem writeBe_add (m n v : ℕ) : writeBe (m + n) v = writeBe m (v / 256 ^ n) ++ writeBe n v := by
  induction m with
  | zero => simp [writeBe]
  | succ m ih =>
      rw [Nat.add_right_comm, writeBe, ih, writeBe, List.cons_append, Nat.div_div_eq_div_mul,
        pow_add, mul_comm]

/-! ## Reading what was written -/

theorem byteRange_append (before range after : List UInt8) :
    byteRange before.length range.length (before ++ range ++ after) = some range := by
  rw [byteRange, if_pos (by simp), List.append_assoc, List.drop_left, List.take_left]

variable {N : Type}

theorem readLayout_writeFields (fields : List (WrittenField N)) (before after : List UInt8) :
    readLayout (layoutFrom before.length fields) (before ++ writeFields fields ++ after) =
      some (fields.map fun field => (field.name, field.value % 256 ^ field.width)) := by
  induction fields generalizing before with
  | nil => rfl
  | cons field fields ih =>
      have hbytes : before ++ writeFields (field :: fields) ++ after =
          (before ++ writeBe field.width field.value) ++ writeFields fields ++ after := by
        simp [writeFields]
      have hrange : byteRange before.length field.width
          (before ++ writeFields (field :: fields) ++ after) =
            some (writeBe field.width field.value) := by
        have h := byteRange_append before (writeBe field.width field.value)
          (writeFields fields ++ after)
        rw [length_writeBe] at h
        rw [hbytes, List.append_assoc _ (writeFields fields)]
        exact h
      have hrest := ih (before ++ writeBe field.width field.value)
      rw [List.length_append, length_writeBe] at hrest
      rw [layoutFrom, readLayout, List.mapM_cons]
      rw [hrange, Option.map_some, Option.bind_eq_bind, Option.bind_some, hbytes]
      change (readLayout _ _).bind _ = _
      rw [hrest, Option.bind_some, ofBe_writeBe]
      rfl
