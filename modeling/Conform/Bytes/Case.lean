import Conform.Bytes.Utf8

/-! Letter case as far as ASCII words need it. Of the characters outside ASCII,
only the dotted capital I and the Kelvin sign have an ASCII lower case, and only
the long s and the Kelvin sign fold to an ASCII letter. -/
namespace Conform

def lowerOctet (b : UInt8) : UInt8 := if isUpper b then b + 32 else b

namespace Utf8

def Piece.lower : Piece → Bytes
  | .char 0x130 _ => [octet 'i']
  | .char 0x212A _ => [octet 'k']
  | .char _ octets => octets.map lowerOctet
  | .stray octet => [octet]

def Piece.fold : Piece → Bytes
  | .char 0x17F _ => [octet 's']
  | .char 0x212A _ => [octet 'k']
  | .char _ octets => octets.map lowerOctet
  | .stray octet => [octet]

/-- A text in lower case, for comparison with an ASCII word. -/
def lower (text : Bytes) : Bytes := (pieces text).flatMap Piece.lower

/-- A name is a given ASCII lower-case word up to letter case. -/
def foldsTo (word name : Bytes) : Bool := (pieces name).flatMap Piece.fold == word

end Utf8

end Conform
