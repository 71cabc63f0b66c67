/-! Text as octets. Declarations, literals and keys may hold bytes that are no
UTF-8, and positions count bytes, so every text of the library is a list of
octets. A string literal stands for its UTF-8 form. -/
namespace Conform

abbrev Bytes := List UInt8

/-- The UTF-8 form of a code point; a surrogate or a number above the last
code point is written as the replacement character. -/
def encodeRune (code : Nat) : Bytes :=
  if code < 0x80 then [code.toUInt8]
  else if code < 0x800 then [(0xC0 + code / 64).toUInt8, (0x80 + code % 64).toUInt8]
  else if 0xD800 ≤ code ∧ code < 0xE000 ∨ 0x110000 ≤ code then [0xEF, 0xBF, 0xBD]
  else if code < 0x10000 then
    [(0xE0 + code / 4096).toUInt8, (0x80 + code / 64 % 64).toUInt8, (0x80 + code % 64).toUInt8]
  else
    [(0xF0 + code / 262144).toUInt8, (0x80 + code / 4096 % 64).toUInt8,
      (0x80 + code / 64 % 64).toUInt8, (0x80 + code % 64).toUInt8]

def utf8 (s : String) : Bytes := s.toList.flatMap fun c => encodeRune c.toNat

instance : Coe String Bytes := ⟨utf8⟩

/-- The octet of an ASCII character. -/
def octet (c : Char) : UInt8 := c.toNat.toUInt8

def isDigit (b : UInt8) : Bool := octet '0' ≤ b && b ≤ octet '9'

def isLower (b : UInt8) : Bool := octet 'a' ≤ b && b ≤ octet 'z'

def isUpper (b : UInt8) : Bool := octet 'A' ≤ b && b ≤ octet 'Z'

/-- The value of a decimal digit, which is its lower half. -/
def digitValue (b : UInt8) : Nat := b.toNat % 16

/-- The value of a hexadecimal digit of either case. -/
def hexValue? (b : UInt8) : Option Nat :=
  if isDigit b then some (b.toNat - 48)
  else if octet 'a' ≤ b && b ≤ octet 'f' then some (b.toNat - 87)
  else if octet 'A' ≤ b && b ≤ octet 'F' then some (b.toNat - 55)
  else none

/-- The lower-case hexadecimal digit of a number below sixteen. -/
def hexDigit (n : Nat) : UInt8 := if n < 10 then (48 + n).toUInt8 else (87 + n).toUInt8

/-- A number as exactly `width` hexadecimal digits. -/
def hexFixed (width n : Nat) : Bytes :=
  match width with
  | 0 => []
  | width + 1 => hexFixed width (n / 16) ++ [hexDigit (n % 16)]

namespace Bytes

/-- The texts in order with a separator between neighbours. -/
def join (separator : Bytes) : List Bytes → Bytes
  | [] => []
  | [part] => part
  | part :: rest => part ++ separator ++ join separator rest

/-- The first text is not after the second in the order of octets. -/
def notAfter : Bytes → Bytes → Bool
  | [], _ => true
  | _ :: _, [] => false
  | a :: as, b :: bs => a < b || (a == b && notAfter as bs)

/-- A text that starts with a word loses it. -/
def after? : Bytes → Bytes → Option Bytes
  | [], text => some text
  | _ :: _, [] => none
  | w :: word, b :: text => if w = b then after? word text else none

/-- The parts of a text between the occurrences of an octet. -/
def splitAt (separator : UInt8) : Bytes → List Bytes
  | [] => [[]]
  | b :: rest =>
    if b = separator then [] :: splitAt separator rest
    else
      match splitAt separator rest with
      | [] => [[b]]
      | part :: parts => (b :: part) :: parts

end Bytes

section Sorting

variable {α : Type}

/-- Inserts before the first element whose key is not before the new one. -/
def insertBy (key : α → Bytes) (x : α) : List α → List α
  | [] => [x]
  | y :: ys => if (key x).notAfter (key y) then x :: y :: ys else y :: insertBy key x ys

/-- Sorts by the octet order of the keys; elements of one key keep their order. -/
def sortBy (key : α → Bytes) : List α → List α
  | [] => []
  | x :: xs => insertBy key x (sortBy key xs)

end Sorting

end Conform
