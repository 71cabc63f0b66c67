import Conform.Bytes

/-! Integers in decimal: writing them, and reading them with a limit of 64 bits. -/
namespace Conform

/-- Puts the digits of a number before a text; the fuel bounds their count. -/
def digitsBefore : Nat → Nat → Bytes → Bytes
  | 0, _, rest => rest
  | fuel + 1, n, rest =>
    let rest := (48 + n % 10).toUInt8 :: rest
    if n < 10 then rest else digitsBefore fuel (n / 10) rest

/-- The decimal digits of a number, without leading zeros. -/
def decimalNat (n : Nat) : Bytes := digitsBefore (n + 1) n []

def decimalInt (n : Int) : Bytes :=
  if n < 0 then octet '-' :: decimalNat n.natAbs else decimalNat n.natAbs

/-- The number that digits denote, after those already read. -/
def digitsValue (n : Nat) : Bytes → Nat
  | [] => n
  | b :: rest => digitsValue (n * 10 + digitValue b) rest

/-- A leading sign, if any: whether it is a minus, and what follows it. -/
def splitSign : Bytes → Bool × Bytes
  | b :: rest => if b = 0x2D then (true, rest) else if b = 0x2B then (false, rest) else (false, b :: rest)
  | [] => (false, [])

inductive NumberError where
  | malformed
  | outOfRange
  deriving DecidableEq, Repr

def NumberError.message : NumberError → Bytes
  | .malformed => "invalid syntax"
  | .outOfRange => "value out of range"

def inInt64 (n : Int) : Bool := -9223372036854775808 ≤ n && n < 9223372036854775808

/-- Reads digits while they fit 64 bits; the first digit that makes the number
too large decides before anything that follows it. -/
def readUnsigned (n : Nat) : Bytes → Except NumberError Nat
  | [] => .ok n
  | b :: rest =>
    if !isDigit b then .error .malformed
    else
      let next := n * 10 + digitValue b
      if next < 18446744073709551616 then readUnsigned next rest else .error .outOfRange

/-- Reads an optionally signed decimal integer of 64 bits. -/
def readInt64 (text : Bytes) : Except NumberError Int64 :=
  let (negative, digits) := splitSign text
  match digits with
  | [] => .error .malformed
  | b :: rest =>
    match readUnsigned 0 (b :: rest) with
    | .error e => .error e
    | .ok n =>
      let value : Int := if negative then -(n : Int) else n
      if inInt64 value then .ok (Int64.ofInt value) else .error .outOfRange

/-- The form of an integer literal: an optional sign, then zero or digits that
do not start with zero. -/
def isIntegerForm (text : Bytes) : Bool :=
  match (splitSign text).2 with
  | [] => false
  | b :: rest => if b = 0x30 then rest.isEmpty else isDigit b && rest.all isDigit

/-- The number of a text that has the form of an integer literal in range. -/
def integerLiteral? (text : Bytes) : Option Int64 :=
  if isIntegerForm text then (readInt64 text).toOption else none

end Conform
