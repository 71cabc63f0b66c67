import Conform.Bytes.Letter
import Conform.Bytes.Utf8

/-! The names that generated source may declare: a letter or underscore, then
letters, digits and underscores, and no reserved word. -/
namespace Conform.Source

def reservedWords : List String :=
  ["break", "case", "chan", "const", "continue", "default", "defer", "else", "fallthrough", "for",
    "func", "go", "goto", "if", "import", "interface", "map", "package", "range", "return", "select",
    "struct", "switch", "type", "var"]

def startsName : Utf8.Piece → Bool
  | .char code _ => code == 0x5F || isLetterCode code
  | .stray _ => false

def continuesName : Utf8.Piece → Bool
  | .char code _ => code == 0x5F || isLetterCode code || isDigitCode code
  | .stray _ => false

def isName (text : Bytes) : Bool :=
  (match Utf8.pieces text with
    | [] => false
    | first :: rest => startsName first && rest.all continuesName) &&
  !reservedWords.any fun word => text == utf8 word

end Conform.Source
