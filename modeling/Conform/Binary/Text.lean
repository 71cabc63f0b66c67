import Conform.Binary.Shortest

/-! Texts of binary numbers. Writing puts the shortest digits into a layout that
says which magnitudes stand positionally and how an exponent is written. Reading
knows decimal and hexadecimal numbers, infinities and not-a-number. -/
namespace Conform

/-- How digits are laid out. With `d.ddd * 10 ^ x` the number is positional when
`positional` holds of `x`; otherwise an exponent follows, of at least
`exponentWidth` digits and always with a sign. -/
structure Layout where
  positional : Int → Bool
  exponentWidth : Nat

namespace Layout

/-- Short numbers stand positionally, the exponent has two digits or more. -/
def general : Layout := ⟨fun x => -4 ≤ x && x < 6, 2⟩

/-- No number has an exponent. -/
def plain : Layout := ⟨fun _ => true, 2⟩

/-- The numbers of JSON text: positional from a millionth to 10^21. -/
def json : Layout := ⟨fun x => -6 ≤ x && x < 21, 1⟩

end Layout

def zeros (n : Nat) : Bytes := List.replicate n 0x30

/-- Digits with the decimal point after the first `point` of them. -/
def positionalText (digits : Bytes) (point : Int) : Bytes :=
  if point ≤ 0 then "0." ++ zeros point.natAbs ++ digits
  else if digits.length ≤ point.natAbs then digits ++ zeros (point.natAbs - digits.length)
  else digits.take point.natAbs ++ 0x2E :: digits.drop point.natAbs

def exponentText (width : Nat) (digits : Bytes) (x : Int) : Bytes :=
  let size := decimalNat x.natAbs
  digits.take 1 ++ (if digits.length ≤ 1 then [] else 0x2E :: digits.drop 1) ++
    [0x65, if x < 0 then 0x2D else 0x2B] ++ zeros (width - size.length) ++ size

def Scientific.text (layout : Layout) (s : Scientific) : Bytes :=
  let digits := decimalNat s.digits
  let point := s.exponent + digits.length
  if layout.positional (point - 1) then positionalText digits point
  else exponentText layout.exponentWidth digits (point - 1)

namespace Binary

variable {f : Format}

def text (layout : Layout) : Binary f → Bytes
  | .nan => "NaN"
  | .infinite negative => if negative then "-Inf" else "+Inf"
  | .finite negative rank =>
    (if negative then [0x2D] else []) ++
      (if rank.val = 0 then [0x30] else (shortest negative rank).text layout)

/-- The general text, marked so that it never reads as an integer. -/
def literalText (x : Double) : Bytes :=
  let s := x.text .general
  if s.any fun b => b == 0x2E || b == 0x65 || b == 0x45 || b == 0x6E || b == 0x4E then s else s ++ ".0"

end Binary

/-- A decimal number of the form digits, fraction, exponent: the digits read
together, and the power of ten. -/
structure DecimalForm where
  digits : Nat
  exponent : Int
  deriving DecidableEq, Repr

/-- The exponent that a text spells after its mark: an optional sign and at
least one digit, up to the end. -/
def readExponent? (text : Bytes) : Option Int :=
  let (negative, digits) := splitSign text
  if digits.isEmpty || !digits.all isDigit then none
  else some (if negative then -(digitsValue 0 digits : Int) else digitsValue 0 digits)

/-- Digits, optionally a point and more digits, with one digit at least; then an
optional exponent. -/
def decimalForm? (text : Bytes) : Option DecimalForm :=
  let whole := text.takeWhile isDigit
  let rest := text.dropWhile isDigit
  let (fraction, rest) :=
    match rest with
    | b :: tail => if b = 0x2E then (tail.takeWhile isDigit, tail.dropWhile isDigit) else ([], rest)
    | [] => ([], [])
  if whole.isEmpty && fraction.isEmpty then none
  else
    let digits := digitsValue 0 (whole ++ fraction)
    match rest with
    | [] => some ⟨digits, -(fraction.length : Int)⟩
    | b :: tail =>
      if b = 0x65 ∨ b = 0x45 then
        (readExponent? tail).map fun e => ⟨digits, e - fraction.length⟩
      else none

/-- The form of a decimal number with an optional sign. -/
def isNumericForm (text : Bytes) : Bool := (decimalForm? (splitSign text).2).isSome

def isHexDigit (b : UInt8) : Bool := (hexValue? b).isSome

def hexDigitsValue (n : Nat) : Bytes → Nat
  | [] => n
  | b :: rest => hexDigitsValue (n * 16 + (hexValue? b).getD 0) rest

/-- A hexadecimal number after its mark: digits with an optional point, and a
power of two that must be given. -/
def hexForm? (text : Bytes) : Option DecimalForm :=
  let whole := text.takeWhile isHexDigit
  let rest := text.dropWhile isHexDigit
  let (fraction, rest) :=
    match rest with
    | b :: tail => if b = 0x2E then (tail.takeWhile isHexDigit, tail.dropWhile isHexDigit) else ([], rest)
    | [] => ([], [])
  if whole.isEmpty && fraction.isEmpty then none
  else
    match rest with
    | [] => none
    | b :: tail =>
      if b = 0x70 ∨ b = 0x50 then
        (readExponent? tail).map fun e => ⟨hexDigitsValue 0 (whole ++ fraction), e - 4 * fraction.length⟩
      else none

/-- Every underscore has a digit on both sides; before the first octet there is one
or none. -/
def separatesDigits (isDigit : UInt8 → Bool) : Bool → Bytes → Bool
  | _, [] => true
  | afterDigit, b :: rest =>
    if b = 0x5F then
      afterDigit && (rest.head?.map isDigit).getD false && separatesDigits isDigit false rest
    else separatesDigits isDigit (isDigit b) rest

/-- A text without its underscores, if all of them separate digits. The mark of
hexadecimal counts as a digit. -/
def withoutUnderscores? (text : Bytes) : Option Bytes :=
  let separated :=
    match text with
    | 0x30 :: x :: rest =>
      if x = 0x78 ∨ x = 0x58 then separatesDigits isHexDigit true rest
      else separatesDigits isDigit false text
    | _ => separatesDigits isDigit false text
  if separated then some (text.filter (· != 0x5F)) else none

namespace Binary

variable {f : Format}

/-- A number that is finite as it is written may still leave the range. -/
def checked : Binary f → Except NumberError (Binary f)
  | .infinite _ => .error .outOfRange
  | x => .ok x

/-- Reads a number without a sign. -/
def readUnsigned (negative : Bool) (text : Bytes) : Except NumberError (Binary f) :=
  match text with
  | 0x30 :: x :: digits =>
    if x = 0x78 ∨ x = 0x58 then
      match hexForm? digits with
      | some form => checked (ofDyadic negative form.digits form.exponent)
      | none => .error .malformed
    else
      match decimalForm? text with
      | some form => checked (ofDecimal negative form.digits form.exponent)
      | none => .error .malformed
  | _ =>
    match decimalForm? text with
    | some form => checked (ofDecimal negative form.digits form.exponent)
    | none => .error .malformed

/-- Reads a number, in which underscores may separate digits. Words for infinity
and not-a-number may be in any case. -/
def read (text : Bytes) : Except NumberError (Binary f) :=
  let (negative, rest) := splitSign text
  let word := rest.map fun b => if isUpper b then b + 32 else b
  if word = "inf" ∨ word = "infinity" then .ok (.infinite negative)
  else if word = "nan" ∧ rest.length = text.length then .ok .nan
  else
    match withoutUnderscores? rest with
    | some digits => readUnsigned negative digits
    | none => .error .malformed

end Binary

end Conform
