/-
  `Scalar.Float`: the two binary floating-point types as scalars.

  Each operation rounds once to the nearest number of the type, and comparisons
  are those of IEEE 754: zero equals negative zero, and a NaN equals nothing.
-/
import PrimalSimplex.Scalar.Basic

set_option autoImplicit false

namespace PrimalSimplex

instance : Scalar Float where
  zero := 0.0
  one := 1.0
  neg a := -a
  add a b := a + b
  sub a b := a - b
  mul a b := a * b
  div a b := a / b
  abs := Float.abs
  isLt a b := a < b
  isLe a b := a ≤ b
  isEq a b := a == b
  isFinite := Float.isFinite

instance : Scalar Float32 where
  zero := 0.0
  one := 1.0
  neg a := -a
  add a b := a + b
  sub a b := a - b
  mul a b := a * b
  div a b := a / b
  abs := Float32.abs
  isLt a b := a < b
  isLe a b := a ≤ b
  isEq a b := a == b
  isFinite := Float32.isFinite

end PrimalSimplex
