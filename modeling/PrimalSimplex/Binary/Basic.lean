/-
  `Binary.Basic`: what the bits of a binary floating-point number mean.

  A finite number is a sign and a magnitude `mantissa * 2 ^ exponent`, exactly.
  Nothing is rounded here: everything that prints a number starts from these
  natural numbers, so it can be reasoned about without floating-point arithmetic.
-/
set_option autoImplicit false

namespace PrimalSimplex.Binary

/-- Widths of the two fields below the sign bit. -/
structure Format where
  fractionBits : Nat
  exponentBits : Nat
  deriving DecidableEq, Repr

namespace Format

/-- The 64-bit format. -/
def double : Format := ⟨52, 11⟩

/-- The 32-bit format. -/
def single : Format := ⟨23, 8⟩

/-- The exponent field of infinities and NaNs. -/
def topExponent (format : Format) : Nat := Nat.pow 2 format.exponentBits - 1

/-- The exponent of the least magnitude: `minExponent + 1` for exponent field 2,
and so on. -/
def minExponent (format : Format) : Int :=
  1 - ((Nat.pow 2 (format.exponentBits - 1) - 1 : Nat) : Int) - format.fractionBits

end Format

/-- The magnitude `mantissa * 2 ^ exponent` of a finite number. -/
structure Magnitude where
  mantissa : Nat
  exponent : Int
  /-- Whether the next smaller magnitude is only half as far away as the next
  greater one, which holds at the powers of two. -/
  narrowBelow : Bool
  deriving DecidableEq, Repr

/-- A floating-point number, read exactly. -/
inductive Datum where
  | notANumber
  | infinite (negative : Bool)
  | finite (negative : Bool) (magnitude : Magnitude)
  deriving DecidableEq, Repr

/-- Reads a bit pattern.  An exponent field of zero stands for the exponent of
field one without the leading bit of the mantissa. -/
def Format.decode (format : Format) (bits : Nat) : Datum :=
  let fraction := bits % Nat.pow 2 format.fractionBits
  let field := bits / Nat.pow 2 format.fractionBits % Nat.pow 2 format.exponentBits
  let negative := bits / Nat.pow 2 (format.fractionBits + format.exponentBits) % 2 == 1
  if field = format.topExponent then
    if fraction = 0 then .infinite negative else .notANumber
  else if field = 0 then
    .finite negative ⟨fraction, format.minExponent, false⟩
  else
    .finite negative
      ⟨Nat.pow 2 format.fractionBits + fraction, format.minExponent + ((field - 1 : Nat) : Int),
        fraction == 0 && 1 < field⟩

namespace Magnitude

/-- Numerator of the magnitude as a fraction of natural numbers. -/
def numerator (m : Magnitude) : Nat := m.mantissa * Nat.pow 2 m.exponent.toNat

/-- Denominator of the magnitude as a fraction of natural numbers. -/
def denominator (m : Magnitude) : Nat := Nat.pow 2 (-m.exponent).toNat

end Magnitude

end PrimalSimplex.Binary
