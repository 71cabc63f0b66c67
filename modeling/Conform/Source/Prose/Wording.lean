import Conform.Bytes.Punctuation
import Conform.Source.Prose.Address

/-! The wording of paragraphs. Doubled straight quotes become typographic ones,
except in addresses and words. Text in brackets that refers to a definition or to
something declared in a package is worded on its own. -/
namespace Conform.Source

def firstPiece? (text : Bytes) : Option Utf8.Piece := (Utf8.pieces (text.take 4)).head?

def isWordLetter : Utf8.Piece → Bool
  | .char code _ => code == 0x5F || isLetterCode code
  | .stray _ => false

def isWordPiece (piece : Utf8.Piece) : Bool :=
  isWordLetter piece || (0x30 ≤ piece.code && piece.code ≤ 0x39)

/-- The length of the letters, digits and underscores at the start of a text. -/
def wordTail : Nat → Bytes → Nat
  | 0, _ => 0
  | fuel + 1, text =>
    match firstPiece? text with
    | some piece =>
      if isWordPiece piece then
        piece.octets.length + wordTail fuel (text.drop piece.octets.length)
      else 0
    | none => 0

/-- The length of the word at the start of a text. No digit starts a word. -/
def wordLength (text : Bytes) : Nat :=
  if ((firstPiece? text).map isWordLetter).getD false then wordTail text.length text else 0

/-- The length of an address or word at the start of a text. -/
def plainLength (text : Bytes) : Nat := (addressLength? text).getD (wordLength text)

/-- Words the text from an offset on. Three backquotes stay, together with as many
more octets as there are backquotes three past twice the offset. -/
def wordedFrom (plain : Bytes → Nat) (whole : Bytes) : Nat → Nat → Bytes → Bytes
  | 0, _, _ => []
  | _, _, [] => []
  | fuel + 1, offset, b :: rest =>
    let kept := plain (b :: rest)
    if 0 < kept then
      (b :: rest).take kept ++ wordedFrom plain whole fuel (offset + kept) ((b :: rest).drop kept)
    else if (Bytes.after? "```" (b :: rest)).isSome then
      let kept := 3 + ((whole.drop (2 * offset + 3)).takeWhile (· == 0x60)).length
      (b :: rest).take kept ++ wordedFrom plain whole fuel (offset + kept) ((b :: rest).drop kept)
    else if (Bytes.after? "``" (b :: rest)).isSome then
      encodeRune 0x201C ++ wordedFrom plain whole fuel (offset + 2) (rest.drop 1)
    else if (Bytes.after? "''" (b :: rest)).isSome then
      encodeRune 0x201D ++ wordedFrom plain whole fuel (offset + 2) (rest.drop 1)
    else b :: wordedFrom plain whole fuel (offset + 1) rest

/-- A text with typographic quotes outside its addresses and words. -/
def worded (text : Bytes) : Bytes := wordedFrom plainLength text text.length 0 text

/-- The text of a reference, in which no address is looked for. -/
def wordedReference (text : Bytes) : Bytes := wordedFrom (fun _ => 0) text text.length 0 text

/-- The packages that are known by a single word. -/
def knownPackages : List String :=
  ["bufio", "bytes", "cmp", "context", "crypto", "embed", "encoding", "errors", "expvar", "flag", "fmt",
    "hash", "html", "image", "io", "iter", "log", "maps", "math", "mime", "net", "os", "path", "plugin",
    "reflect", "regexp", "runtime", "slices", "sort", "strconv", "strings", "structs", "sync", "syscall",
    "testing", "time", "unicode", "unique", "unsafe", "weak"]

def isPathElement (element : Bytes) : Bool :=
  !element.isEmpty && element.head? != some 0x2E && element.getLast? != some 0x2E &&
    element.all fun b => isAlphanumeric b || (utf8 "-.~_+").contains b

def isPackage (text : Bytes) : Bool :=
  if text.contains 0x2F then text.head? != some 0x2D && (Bytes.splitAt 0x2F text).all isPathElement
  else knownPackages.any fun package => text == utf8 package

/-- A word with a capital first. -/
def isCapitalWord (text : Bytes) : Bool :=
  wordLength text == text.length && ((firstPiece? text).map fun piece => isCapitalCode piece.code).getD false

/-- The text without the capital word after its last point, if it ends in one. -/
def withoutName? (text : Bytes) : Option Bytes :=
  let parts := Bytes.splitAt 0x2E text
  if isCapitalWord (parts.getLast?.getD []) then some (Bytes.join "." parts.dropLast) else none

/-- The text names a package, or something that is declared in one. -/
def namesDeclaration (text : Bytes) : Bool :=
  let text := if text.head? = some 0x2A then text.drop 1 else text
  match withoutName? text with
  | none => isPackage text
  | some owner => isPackage ((withoutName? owner).getD owner)

/-- A character beside which a reference may stand. -/
def isEdge : Utf8.Piece → Bool
  | .char code _ => isPunctuationCode code || code == 0x20 || code == 0x09 || code == 0x0A
  | .stray _ => false

/-- The text before a closing bracket, cut at the last opening one: what comes
before it, what it holds, and under which name that is looked up. -/
def bracketed? (text : Bytes) : Option (Bytes × Bytes × Bytes) :=
  match (Bytes.splitAt 0x5B text).reverse with
  | inside :: part :: parts =>
    let name := (text.dropWhile (· != 0x5B)).filter (· != 0x5B)
    some (Bytes.join "[" (part :: parts).reverse, inside,
      name.map fun b => if b = 0x0A ∨ b = 0x09 then 0x20 else b)
  | _ => none

/-- Words the parts of a text between its closing brackets. The text before them
that belongs to no reference comes first. The result has the names of the
definitions that were referred to. -/
def linkedParts (known : List Bytes) (pending : Bytes) : List Bytes → Bytes × List Bytes
  | [] => (worded pending, [])
  | [last] => (worded (pending ++ last), [])
  | part :: next :: rest =>
    match bracketed? part with
    | none => linkedParts known (pending ++ part ++ utf8 "]") (next :: rest)
    | some (before, inside, name) =>
      let edges := ((Utf8.pieces before).getLast?.map isEdge).getD true &&
        ((firstPiece? next).map isEdge).getD true
      if known.contains name || (edges && namesDeclaration inside) then
        let (text, used) := linkedParts known [] (next :: rest)
        (worded (pending ++ before) ++ utf8 "[" ++ wordedReference inside ++ utf8 "]" ++ text,
          if known.contains name then name :: used else used)
      else linkedParts known (pending ++ part ++ utf8 "]") (next :: rest)

/-- A paragraph in its final wording, and the definitions it refers to. -/
def linked (known : List Bytes) (text : Bytes) : Bytes × List Bytes :=
  linkedParts known [] (Bytes.splitAt 0x5D text)

end Conform.Source
