import Conform.Binary
import Conform.Decimal

/-! The fewest decimal digits that read back as a given number. For one digit,
two digits and so on the two neighbours of the number on that decimal grid are
read; the first grid with a neighbour that reads back decides, of two such
neighbours the nearer one, and of two equally near ones the even one. -/
namespace Conform

/-- The positive number `digits * 10 ^ exponent`. -/
structure Scientific where
  digits : Nat
  exponent : Int
  deriving DecidableEq, Repr

namespace Scientific

/-- The same number without trailing zeros. -/
def trimmed : Nat → Scientific → Scientific
  | 0, s => s
  | fuel + 1, s =>
    if s.digits ≠ 0 ∧ s.digits % 10 = 0 then trimmed fuel ⟨s.digits / 10, s.exponent + 1⟩ else s

end Scientific

namespace Binary

variable {f : Format}

/-- The number of zeros between the decimal point and the first digit of a ratio below one. -/
def zerosAfterPoint : Nat → Nat → Nat → Nat
  | 0, _, _ => 0
  | fuel + 1, num, den => if den ≤ num * 10 then 0 else zerosAfterPoint fuel (num * 10) den + 1

/-- The position of the decimal point: the least power of ten above the ratio. -/
def pointPosition (num den : Nat) : Int :=
  if den ≤ num then (decimalNat (num / den)).length
  else -(zerosAfterPoint 400 num den : Int)

/-- The neighbour of a ratio on the grid of `10 ^ exponent` that reads back as `x`. -/
def readingNeighbour? (x : Binary f) (negative : Bool) (num den : Nat) (exponent : Int) :
    Option Scientific :=
  let a := if exponent < 0 then num * Nat.pow 10 exponent.natAbs else num
  let b := if exponent < 0 then den else den * Nat.pow 10 exponent.natAbs
  let below := a / b
  let twice := 2 * (a % b)
  let lower := decide (ofDecimal negative below exponent = x)
  let upper := decide (ofDecimal negative (below + 1) exponent = x)
  if lower && (!upper || twice < b || (twice == b && below % 2 == 0)) then some ⟨below, exponent⟩
  else if upper then some ⟨below + 1, exponent⟩
  else none

/-- Searches the grids from `count` digits on. -/
def searchGrids (x : Binary f) (negative : Bool) (num den : Nat) (point : Int) :
    Nat → Nat → Option Scientific
  | 0, _ => none
  | fuel + 1, count =>
    match readingNeighbour? x negative num den (point - count) with
    | some s => some s
    | none => searchGrids x negative num den point fuel (count + 1)

/-- The exact value of a magnitude in decimal. -/
def exactDecimal (f : Format) (rank : Nat) : Scientific :=
  ⟨units f rank * Nat.pow 5 f.unit, -(f.unit : Int)⟩

/-- The shortest decimal of a finite magnitude that is not zero. -/
def shortest (negative : Bool) (rank : Fin f.ranks) : Scientific :=
  let num := units f rank
  let den := Nat.pow 2 f.unit
  let found := (searchGrids (.finite negative rank : Binary f) negative num den
    (pointPosition num den) 17 1).getD (exactDecimal f rank)
  found.trimmed 400

end Binary

end Conform
