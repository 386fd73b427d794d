/-
  `Decimal.Text`: the texts of a scalar, in messages and in tables.

  A message shows the shortest decimal that reads back, a table a fixed number
  of places.  Both put the sign in front, that of a negative zero too, and both
  spell the values that are no numbers in the same way.
-/
import PrimalSimplex.Decimal.Fixed
import PrimalSimplex.Decimal.Shortest

set_option autoImplicit false

namespace PrimalSimplex

/-- Scalars that can be written. -/
class DecimalText (F : Type) where
  /-- The fewest digits that read back. -/
  shortest : F → String
  /-- Exactly so many digits after the point. -/
  fixed : Nat → F → String

namespace Binary.Datum

/-- Writes a number, given how its magnitude is written. -/
def text (write : Magnitude → List Char) : Datum → String
  | .notANumber => "NaN"
  | .infinite negative => signed negative "inf".toList
  | .finite negative magnitude => signed negative (write magnitude)
where
  signed (negative : Bool) (unsigned : List Char) : String :=
    String.ofList (if negative then '-' :: unsigned else unsigned)

end Binary.Datum

instance : DecimalText Float where
  shortest x := (Binary.Format.double.decode x.toBits.toNat).text Decimal.shortest
  fixed places x := (Binary.Format.double.decode x.toBits.toNat).text (Decimal.fixed places)

instance : DecimalText Float32 where
  shortest x := (Binary.Format.single.decode x.toBits.toNat).text Decimal.shortest
  fixed places x := (Binary.Format.single.decode x.toBits.toNat).text (Decimal.fixed places)

end PrimalSimplex
