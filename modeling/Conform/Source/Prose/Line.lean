import Conform.Bytes.Blank
import Conform.Bytes.Capital
import Conform.Bytes.Letter

/-! The lines of prose. A line is blank, indented or neither; it may start an item
of a list, be a heading, or read like a title. -/
namespace Conform.Source

/-- The lines of a text; line ends are not part of them. -/
def linesOf (text : Bytes) : List Bytes := Bytes.splitAt 0x0A text

def isBlankText (line : Bytes) : Bool := (Utf8.trim line).isEmpty

def isSpaceOrTab (b : UInt8) : Bool := b == 0x20 || b == 0x09

/-- The line is indented by a space or a tab. -/
def isIndented : Bytes → Bool
  | [] => false
  | b :: _ => isSpaceOrTab b

/-- A list marker: the number of a numbered item, and what follows the marker. -/
def listMarker? (line : Bytes) : Option (Bytes × Bytes) :=
  let line := Utf8.trim line
  let found :=
    match Utf8.pieces line with
    | .char code octets :: _ =>
      if code = 0x2022 ∨ code = 0x2A ∨ code = 0x2B ∨ code = 0x2D then some ([], line.drop octets.length)
      else
        let digits := line.takeWhile isDigit
        match digits, line.dropWhile isDigit with
        | _ :: _, mark :: rest => if mark = 0x2E ∨ mark = 0x29 then some (digits, rest) else none
        | _, _ => none
    | _ => none
  match found with
  | some (number, rest) => if isIndented rest && !isBlankText rest then some (number, rest) else none
  | none => none

def isListLine (line : Bytes) : Bool := (listMarker? line).isSome

def isHeading : Bytes → Bool
  | 0x23 :: b :: rest => isSpaceOrTab b && !isBlankText rest
  | _ => false

/-- Every quote of a title is a possessive one. -/
def quotesPossessive : Bytes → Bool
  | [] => true
  | b :: rest =>
    (b != 0x27 || rest == utf8 "s" || (Bytes.after? "s " rest).isSome) && quotesPossessive rest

/-- Every point of a title stands before more text. -/
def pointsInside : Bytes → Bool
  | [] => true
  | b :: rest => (b != 0x2E || (!rest.isEmpty && rest.head? != some 0x20)) && pointsInside rest

/-- The characters that no title holds. -/
def untitled : Bytes := ";:!?+*/=[]\x7b\x7d_^°&§~%#@<\">\\"

/-- The line reads like a title: a capital first, a letter or digit last. -/
def isTitle (line : Bytes) : Bool :=
  let line := Utf8.trim line
  let pieces := Utf8.pieces line
  let startsWell := (pieces.head?.map fun piece => isCapitalCode piece.code).getD false
  let endsWell := (pieces.getLast?.map fun piece => isLetterCode piece.code || isDigitCode piece.code).getD false
  startsWell && endsWell && quotesPossessive line && pointsInside line &&
    !pieces.any (Utf8.pieces untitled).contains

def dropTrailingBlank (lines : List Bytes) : List Bytes :=
  (lines.reverse.dropWhile (·.isEmpty)).reverse

def leadingBlanks (line : Bytes) : Bytes := line.takeWhile isSpaceOrTab

def commonStart : Bytes → Bytes → Bytes
  | a :: as, b :: bs => if a = b then a :: commonStart as bs else []
  | _, _ => []

/-- The lines without the indentation that they share. -/
def unindented (lines : List Bytes) : List Bytes :=
  match lines.filter fun line => !line.isEmpty with
  | [] => lines
  | first :: rest =>
    let shared := rest.foldl (fun acc line => commonStart acc (leadingBlanks line)) (leadingBlanks first)
    lines.map fun line => (Bytes.after? shared line).getD line

end Conform.Source
