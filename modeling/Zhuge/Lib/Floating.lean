-- SUMMARY: Floating-point types as a class, with the machine types and the exact rationals as instances.
import Mathlib.Algebra.Order.Round
import Mathlib.Data.Rat.Floor

/-!
# Floating-point types

Code over `float` and `double` can be run on the machine types, or read as arithmetic on
exact numbers. A definition that asks for `Floating` serves both.
-/

/-- The operations on a floating-point type. -/
class Floating (F : Type) extends
    Add F, Sub F, Mul F, Div F, Neg F, LT F, LE F, BEq F, OfScientific F where
  decLt : DecidableLT F
  decLe : DecidableLE F
  /-- The conversion of an integer. -/
  ofInt : Int → F
  /-- The conversions drop the fraction. -/
  toUInt32 : F → UInt32
  toInt32 : F → Int32
  abs : F → F
  ceil : F → F

/-- The conversions between a type and a wider one. -/
class Widening (F D : Type) where
  widen : F → D
  narrow : D → F

/-- The functions of the mathematical library that no arithmetic fixes. -/
structure Libm (F D : Type) where
  sqrt : F → F
  pow : D → D → D

namespace Floating

instance {F : Type} [Floating F] : DecidableLT F := decLt

instance {F : Type} [Floating F] : DecidableLE F := decLe

instance : Floating Float where
  decLt := inferInstance
  decLe := inferInstance
  ofInt := Float.ofInt
  toUInt32 := Float.toUInt32
  toInt32 := Float.toInt32
  abs := Float.abs
  ceil := Float.ceil

instance : Floating Float32 where
  decLt := inferInstance
  decLe := inferInstance
  ofInt := Float32.ofInt
  toUInt32 := Float32.toUInt32
  toInt32 := Float32.toInt32
  abs := Float32.abs
  ceil := Float32.ceil

/-- Exact arithmetic. A conversion of a number out of range means nothing. -/
instance : Floating ℚ where
  decLt := inferInstance
  decLe := inferInstance
  ofInt n := n
  toUInt32 x := .ofNat ⌊x⌋₊
  toInt32 x := .ofInt (if 0 ≤ x then ⌊x⌋ else ⌈x⌉)
  abs x := |x|
  ceil x := ⌈x⌉

end Floating

instance : Widening Float32 Float where
  widen := Float32.toFloat
  narrow := Float.toFloat32

instance : Widening ℚ ℚ where
  widen := id
  narrow := id

namespace Libm

/-- The C library. Its `pow` is exact for the exponents zero and one. -/
def machine : Libm Float32 Float where
  sqrt := Float32.sqrt
  pow x y := if y == 0 then 1 else if y == 1 then x else Float.pow x y

end Libm
