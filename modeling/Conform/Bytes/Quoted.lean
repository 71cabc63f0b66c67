import Conform.Bytes.Printable
import Conform.Bytes.Utf8

/-! Quoted text for messages and generated source: printable characters stand as
they are, the usual control characters have a letter, everything else is written
by its number, and a stray octet by its two hexadecimal digits. -/
namespace Conform

/-- One character between quotes of the given kind. -/
def quotedCode (quote : Nat) (code : Nat) : Bytes :=
  if code = quote ∨ code = 0x5C then 0x5C :: encodeRune code
  else if isPrintable code then encodeRune code
  else if code = 0x07 then "\\a"
  else if code = 0x08 then "\\b"
  else if code = 0x0C then "\\f"
  else if code = 0x0A then "\\n"
  else if code = 0x0D then "\\r"
  else if code = 0x09 then "\\t"
  else if code = 0x0B then "\\v"
  else if code < 0x20 ∨ code = 0x7F then "\\x" ++ hexFixed 2 code
  else if code < 0x10000 then "\\u" ++ hexFixed 4 code
  else "\\U" ++ hexFixed 8 code

/-- A text in double quotes. -/
def quoted (text : Bytes) : Bytes :=
  0x22 :: (Utf8.pieces text).flatMap (fun
    | .char code _ => quotedCode 0x22 code
    | .stray octet => "\\x" ++ hexFixed 2 octet.toNat) ++ [0x22]

/-- A code point in single quotes. -/
def quotedRune (code : Nat) : Bytes := 0x27 :: quotedCode 0x27 code ++ [0x27]

end Conform
