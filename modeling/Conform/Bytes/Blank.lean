import Conform.Bytes.Utf8

/-! White space as Unicode defines it, and texts without it at their ends. -/
namespace Conform

/-- The code points with the White_Space property. -/
def isBlankCode (code : Nat) : Bool :=
  (0x09 ≤ code && code ≤ 0x0D) || code == 0x20 || code == 0x85 || code == 0xA0 ||
    code == 0x1680 || (0x2000 ≤ code && code ≤ 0x200A) || code == 0x2028 || code == 0x2029 ||
    code == 0x202F || code == 0x205F || code == 0x3000

namespace Utf8

def Piece.isBlank : Piece → Bool
  | .char code _ => isBlankCode code
  | .stray _ => false

def trimLeft (text : Bytes) : Bytes :=
  ((pieces text).dropWhile Piece.isBlank).flatMap Piece.octets

def trimRight (text : Bytes) : Bytes :=
  ((pieces text).reverse.dropWhile Piece.isBlank).reverse.flatMap Piece.octets

/-- The text without the blank characters at its two ends. -/
def trim (text : Bytes) : Bytes :=
  ((((pieces text).dropWhile Piece.isBlank).reverse).dropWhile Piece.isBlank).reverse.flatMap Piece.octets

end Utf8

end Conform
