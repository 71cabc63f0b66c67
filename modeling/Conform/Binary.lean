import Conform.Bytes

/-! Binary floating point without machine floats. A finite number is known by its
sign and its rank among the finite magnitudes of its format, so different values
of the type are different numbers apart from the two zeros, and every value of
the type is a number of the format. Every magnitude is a whole number of the
format's least unit, which makes rounding a division of naturals. -/
namespace Conform

/-- A binary interchange format: the stored fraction bits, the power of two that
the least unit divides one by, and the number of binades of the finite range. -/
structure Format where
  fraction : Nat
  unit : Nat
  binades : Nat
  deriving DecidableEq, Repr

namespace Format

def double : Format := ⟨52, 1074, 2047⟩

def single : Format := ⟨23, 149, 255⟩

/-- The number of finite magnitudes. -/
def ranks (f : Format) : Nat := f.binades * Nat.pow 2 f.fraction

end Format

inductive Binary (f : Format) where
  | nan
  | infinite (negative : Bool)
  | finite (negative : Bool) (rank : Fin f.ranks)
  deriving DecidableEq, Repr

abbrev Double := Binary .double

abbrev Single := Binary .single

/-- The quotient rounded to the nearest integer, a tie to the even one. -/
def divEven (a b : Nat) : Nat :=
  let q := a / b
  let r := a % b
  if 2 * r < b then q else if b < 2 * r then q + 1 else q + q % 2

namespace Binary

variable {f : Format}

/-- The magnitude of a rank in least units. -/
def units (f : Format) (rank : Nat) : Nat :=
  let binade := rank / Nat.pow 2 f.fraction
  if binade = 0 then rank
  else (Nat.pow 2 f.fraction + rank % Nat.pow 2 f.fraction) * Nat.pow 2 (binade - 1)

/-- The rank nearest to a ratio; it may lie beyond the finite range. -/
def nearestRank (f : Format) (num den : Nat) : Nat :=
  let scaled := num * Nat.pow 2 f.unit
  let shift := (scaled / den).log2 - f.fraction
  shift * Nat.pow 2 f.fraction + divEven scaled (den * Nat.pow 2 shift)

def ofRank (negative : Bool) (rank : Nat) : Binary f :=
  if h : rank < f.ranks then .finite negative ⟨rank, h⟩ else .infinite negative

/-- The number nearest to a ratio, a tie to the even one, or an infinity. -/
def ofRatio (negative : Bool) (num den : Nat) : Binary f :=
  ofRank negative (nearestRank f num den)

/-- The number nearest to `digits * 10 ^ exponent`. The first two cases are
decided by size alone, which keeps the powers of ten small. -/
def ofDecimal (negative : Bool) (digits : Nat) (exponent : Int) : Binary f :=
  if digits = 0 then ofRank negative 0
  else if 400 < exponent then .infinite negative
  else if exponent + digits.log2 / 3 + 1 < -400 then ofRank negative 0
  else if exponent < 0 then ofRatio negative digits (Nat.pow 10 exponent.natAbs)
  else ofRatio negative (digits * Nat.pow 10 exponent.natAbs) 1

/-- The number nearest to `digits * 2 ^ exponent`. -/
def ofDyadic (negative : Bool) (digits : Nat) (exponent : Int) : Binary f :=
  if digits = 0 then ofRank negative 0
  else if 1100 < exponent then .infinite negative
  else if exponent + digits.log2 < -1100 then ofRank negative 0
  else if exponent < 0 then ofRatio negative digits (Nat.pow 2 exponent.natAbs)
  else ofRatio negative (digits * Nat.pow 2 exponent.natAbs) 1

def ofInt (n : Int) : Binary f := ofRatio (decide (n < 0)) n.natAbs 1

def isFinite : Binary f → Bool
  | .finite .. => true
  | _ => false

/-- The same number in another format, rounded if it does not fit. -/
def convert {g : Format} : Binary f → Binary g
  | .nan => .nan
  | .infinite negative => .infinite negative
  | .finite negative rank => ofRatio negative (units f rank) (Nat.pow 2 f.unit)

/-- Numeric equality: not a number differs from itself, the zeros are equal. -/
def equal : Binary f → Binary f → Bool
  | .nan, _ => false
  | _, .nan => false
  | .infinite a, .infinite b => a == b
  | .finite a m, .finite b n => m == n && (a == b || m.val == 0)
  | _, _ => false

/-- The integer that a number is, if it is one. -/
def integer? : Binary f → Option Int
  | .finite negative rank =>
    let u := units f rank
    if u % Nat.pow 2 f.unit = 0 then
      let n : Int := (u / Nat.pow 2 f.unit : Nat)
      some (if negative then -n else n)
    else none
  | _ => none

end Binary

end Conform
