/-
  `Scalar.Basic`: the numbers a linear program is written in.

  A solver runs on floating-point numbers and is understood over exact ones.
  Both are instances of the class below, which holds operations and no laws:
  every definition of this library is written once, over a `Scalar`, and a
  theorem asks for the laws it needs by fixing the instance.  Comparisons are
  functions to `Bool`, because floating-point comparisons are not an order: a
  NaN is neither below, nor above, nor equal to anything, itself included.
-/
set_option autoImplicit false

namespace PrimalSimplex

/-- Numbers with the field operations, an absolute value and comparisons.  No law
is assumed. -/
class Scalar (F : Type) where
  zero : F
  one : F
  neg : F → F
  add : F → F → F
  sub : F → F → F
  mul : F → F → F
  div : F → F → F
  abs : F → F
  isLt : F → F → Bool
  isLe : F → F → Bool
  isEq : F → F → Bool
  /-- Whether the number is neither infinite nor a NaN. -/
  isFinite : F → Bool

namespace Scalar

/-! ## Operators

The operations a type already has come first, so at a field `a + b` is the field's
own sum and not the sum found again through `Scalar`. -/

variable {F : Type} [Scalar F]

instance (priority := low) instZero : Zero F := ⟨zero⟩
instance (priority := low) instOne : One F := ⟨one⟩
instance (priority := low) instNeg : Neg F := ⟨neg⟩
instance (priority := low) instAdd : Add F := ⟨add⟩
instance (priority := low) instSub : Sub F := ⟨sub⟩
instance (priority := low) instMul : Mul F := ⟨mul⟩
instance (priority := low) instDiv : Div F := ⟨div⟩

end Scalar

end PrimalSimplex
