import Conform.Bytes.Utf8

/-! JSON documents and their compact text. Numbers keep the text they were
written with. -/
namespace Conform

inductive Json where
  | null
  | bool (b : Bool)
  | number (text : Bytes)
  | string (text : Bytes)
  | array (items : List Json)
  | object (members : List (Bytes × Json))
  deriving Repr, Inhabited

namespace Json

/-- A character of a string, escaped where it must be, and also where it could
end a script or a line of one. A stray octet becomes the replacement character. -/
def escaped : Utf8.Piece → Bytes
  | .char 0x08 _ => "\\b"
  | .char 0x09 _ => "\\t"
  | .char 0x0A _ => "\\n"
  | .char 0x0C _ => "\\f"
  | .char 0x0D _ => "\\r"
  | .char 0x22 _ => "\\\""
  | .char 0x5C _ => "\\\\"
  | .char code octets =>
    if code < 0x20 || code == 0x3C || code == 0x3E || code == 0x26 || code == 0x2028 || code == 0x2029 then
      utf8 "\\u" ++ hexFixed 4 code
    else octets
  | .stray _ => encodeRune 0xFFFD

def quotedText (text : Bytes) : Bytes := 0x22 :: (Utf8.pieces text).flatMap escaped ++ [0x22]

mutual

/-- The text of a document, without any blanks. -/
def write : Json → Bytes
  | .null => "null"
  | .bool b => if b then "true" else "false"
  | .number text => text
  | .string text => quotedText text
  | .array items => "[" ++ Bytes.join "," (writeItems items) ++ "]"
  | .object members => "\x7b" ++ Bytes.join "," (writeMembers members) ++ "\x7d"

def writeItems : List Json → List Bytes
  | [] => []
  | item :: rest => item.write :: writeItems rest

def writeMembers : List (Bytes × Json) → List Bytes
  | [] => []
  | (name, value) :: rest => (quotedText name ++ ":" ++ value.write) :: writeMembers rest

end

end Json

end Conform
