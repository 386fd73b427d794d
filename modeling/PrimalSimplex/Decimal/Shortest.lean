/-
  `Decimal.Shortest`: the fewest digits that still name a floating-point number.

  Every real number nearer to `v` than to any other number of the format reads
  back as `v`.  Those numbers form an interval, which holds its own ends exactly
  when the mantissa of `v` is even.  For one digit, two digits and so on, the two
  neighbours of `v` on the decimal grid of that many digits are tested against
  the interval: the first grid with a hit gives the shortest text, and of two hits
  the nearer one is taken, the upper one on a tie.  If any point of a grid lies in
  the interval then so does one of the two neighbours of `v`, so nothing shorter
  is missed.
-/
import PrimalSimplex.Binary.Basic
import PrimalSimplex.Decimal.Positional

set_option autoImplicit false

namespace PrimalSimplex.Decimal

open Binary

/-- The interval of reals that read back as a magnitude.  All numbers are in
units of a quarter of the mantissa's last place. -/
structure ReadBack where
  low : Nat
  value : Nat
  high : Nat
  /-- Exponent of two of the unit. -/
  unit : Int
  closed : Bool
  deriving DecidableEq, Repr

/-- Half a place above, and half a place below or a quarter where the next
smaller magnitude is nearer. -/
def ReadBack.ofMagnitude (m : Magnitude) : ReadBack where
  low := 4 * m.mantissa - (if m.narrowBelow then 1 else 2)
  value := 4 * m.mantissa
  high := 4 * m.mantissa + 2
  unit := m.exponent - 2
  closed := m.mantissa % 2 == 0

namespace ReadBack

/-- The decimal `n * 10 ^ e`, scaled so that it compares with `binary` at the same `e`. -/
def decimal (i : ReadBack) (n : Nat) (e : Int) : Nat :=
  n * Nat.pow 10 e.toNat * Nat.pow 2 (-i.unit).toNat

/-- So many units, scaled so that it compares with `decimal` at the same `e`. -/
def binary (i : ReadBack) (n : Nat) (e : Int) : Nat :=
  n * Nat.pow 2 i.unit.toNat * Nat.pow 10 (-e).toNat

/-- Whether `n * 10 ^ e` lies in the interval. -/
def holds (i : ReadBack) (n : Nat) (e : Int) : Bool :=
  let x := i.decimal n e
  if i.closed then i.binary i.low e ≤ x && x ≤ i.binary i.high e
  else i.binary i.low e < x && x < i.binary i.high e

/-- The greatest `n` with `n * 10 ^ e` at most the value. -/
def floor (i : ReadBack) (e : Int) : Nat :=
  i.binary i.value e / i.decimal 1 e

/-- The point of the grid `10 ^ e` that reads back, the nearer of two. -/
def gridPoint? (i : ReadBack) (e : Int) : Option Nat :=
  let below := i.floor e
  match i.holds below e, i.holds (below + 1) e with
  | true, true =>
    let upperIsNearer := 2 * i.binary i.value e ≥ i.decimal (2 * below + 1) e
    some (if upperIsNearer then below + 1 else below)
  | true, false => some below
  | false, true => some (below + 1)
  | false, false => none

/-- The decade of the value: the least `p` with the value below `10 ^ p`. -/
def decade (i : ReadBack) : Int :=
  let numerator := i.binary i.value 0
  let denominator := i.decimal 1 0
  if denominator ≤ numerator then
    (digits (numerator / denominator)).length
  else
    1 - ((digits ((denominator - 1) / numerator)).length : Int)

/-- Searches grids from the decade downwards, `grids` of them at most; the last
one is taken as it is. -/
def search (i : ReadBack) : (grids : Nat) → (e : Int) → Nat × Int
  | 0, e => (i.floor e, e)
  | grids + 1, e =>
    match i.gridPoint? e with
    | some n => (n, e)
    | none => i.search grids (e - 1)

end ReadBack

/-- Seventeen digits tell all numbers of the 64-bit format apart. -/
def digitLimit : Nat := 17

/-- The shortest decimal that reads back as a magnitude, written in full. -/
def shortest (m : Magnitude) : List Char :=
  if m.mantissa = 0 then positional 0 0
  else
    let i := ReadBack.ofMagnitude m
    let (n, e) := i.search digitLimit (i.decade - 1)
    positional n e

end PrimalSimplex.Decimal
