import Conform.Bytes.Blank
import Conform.Bytes.Case
import Conform.Value

/-! Scalar conversions. For each target there is a filter, which says whether a
value may be converted, and the conversion itself. Booleans never read as
numbers, text is trimmed of blanks before it is read, and a float reads as an
integer only when it is one of 64 bits. -/
namespace Conform

namespace Binary

/-- The integer of 64 bits that a number is, if it is one. -/
def toInt64? (x : Double) : Option Int64 :=
  match x.integer? with
  | some n => if inInt64 n then some (Int64.ofInt n) else none
  | none => none

end Binary

/-- The number of a text in the form of a decimal number, if it is in range. -/
def numericLiteral? (text : Bytes) : Option Double :=
  let (negative, rest) := splitSign text
  match decimalForm? rest with
  | some form => ((Binary.ofDecimal negative form.digits form.exponent : Double).checked).toOption
  | none => none

namespace Value

def canCastInteger : Value → Bool
  | .int _ n => inInt64 n
  | .double x => x.toInt64?.isSome
  | .single x => (x.convert : Double).toInt64?.isSome
  | .text s => isIntegerForm (Utf8.trim s) && (readInt64 (Utf8.trim s)).toBool
  | _ => false

def castInteger : Value → Option Int64
  | .int _ n => if inInt64 n then some (Int64.ofInt n) else none
  | .double x => x.toInt64?
  | .single x => (x.convert : Double).toInt64?
  | .text s => integerLiteral? (Utf8.trim s)
  | _ => none

def canCastDouble : Value → Bool
  | .int _ n => inInt64 n
  | .double _ => true
  | .single _ => true
  | .text s => isNumericForm (Utf8.trim s) && ((Binary.read (Utf8.trim s) : Except _ Double)).toBool
  | _ => false

def castDouble : Value → Option Double
  | .int _ n => if inInt64 n then some (.ofInt n) else none
  | .double x => some x
  | .single x => some x.convert
  | .text s => numericLiteral? (Utf8.trim s)
  | _ => none

def canCastText : Value → Bool
  | .text _ => true
  | .foreign v => v.speaks
  | .int _ n => inInt64 n
  | .double _ => true
  | .single _ => true
  | _ => false

def castText : Value → Option Bytes
  | .text s => some s
  | .foreign v => if v.speaks then some v.shown else none
  | .int _ n => if inInt64 n then some (decimalInt n) else none
  | .double x => some (x.text .plain)
  | .single x => some (x.text .plain)
  | _ => none

/-- The truth value that a word names. -/
def truthWord? (word : Bytes) : Option Bool :=
  if word = "1" ∨ word = "true" then some true
  else if word = "0" ∨ word = "false" then some false
  else none

def canCastBool : Value → Bool
  | .bool _ => true
  | .int _ n => n == 0 || n == 1
  | .text s =>
    let word := Utf8.lower (Utf8.trim s)
    word == "0" || word == "1" || word == "true" || word == "false"
  | _ => false

def castBool : Value → Option Bool
  | .bool b => some b
  | .int _ n => if n = 0 then some false else if n = 1 then some true else none
  | .text s => truthWord? (Utf8.lower (Utf8.trim s))
  | _ => none

end Value

end Conform
