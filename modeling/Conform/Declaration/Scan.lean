import Conform.Declaration.Token

/-! Cutting a declaration into tokens, longest match first. Every step splits
off a front part of the text and hands over the rest. -/
namespace Conform.Declaration

/-- White space between tokens. -/
def isSpace (b : UInt8) : Bool := b == 0x20 || b == 0x09 || b == 0x0A || b == 0x0D

/-- Letters start names; every octet outside ASCII counts as one. -/
def isLetter (b : UInt8) : Bool := isLower b || isUpper b || b == 0x5F || 0x80 ≤ b

/-- Octets that continue a name wherever they stand. -/
def continuesName (b : UInt8) : Bool := isLetter b || isDigit b || b == 0x5C

def startsWith (test : UInt8 → Bool) : Bytes → Bool
  | b :: _ => test b
  | [] => false

/-- A name and the rest. A dash belongs to a name only before a letter. -/
def splitName : Bytes → Bytes × Bytes
  | [] => ([], [])
  | b :: rest =>
    if continuesName b || (b == 0x2D && startsWith isLetter rest) then
      let (name, tail) := splitName rest
      (b :: name, tail)
    else ([], b :: rest)

def isSign (b : UInt8) : Bool := b == 0x2D || b == 0x2B

/-- A front part of at most one octet that passes a test, and the rest. -/
def splitOne (test : UInt8 → Bool) : Bytes → Bytes × Bytes
  | [] => ([], [])
  | b :: rest => if test b then ([b], rest) else ([], b :: rest)

/-- A number starts here: a sign and a point may stand before its first digit. -/
def startsNumber (text : Bytes) : Bool :=
  startsWith isDigit (splitOne (· == 0x2E) (splitOne isSign text).2).2

/-- The exponent at the front of a text, which needs a digit to be one. -/
def splitExponent (text : Bytes) : Bytes × Bytes :=
  let (mark, afterMark) := splitOne (fun b => b == 0x65 || b == 0x45) text
  let (sign, afterSign) := splitOne isSign afterMark
  if !mark.isEmpty && startsWith isDigit afterSign then
    (mark ++ sign ++ afterSign.takeWhile isDigit, afterSign.dropWhile isDigit)
  else ([], text)

/-- A fraction: the point and the digits after it. -/
def splitFraction (text : Bytes) : Bytes × Bytes :=
  match splitOne (· == 0x2E) text with
  | ([], _) => ([], text)
  | (point, rest) => (point ++ rest.takeWhile isDigit, rest.dropWhile isDigit)

/-- A number, whether it has a fraction or exponent, and the rest. -/
def splitNumber (text : Bytes) : TokenKind × Bytes × Bytes :=
  let (sign, afterSign) := splitOne isSign text
  let whole := afterSign.takeWhile isDigit
  let (fraction, afterFraction) := splitFraction (afterSign.dropWhile isDigit)
  let (exponent, rest) := splitExponent afterFraction
  (if fraction.isEmpty && exponent.isEmpty then .integer else .float,
    sign ++ whole ++ fraction ++ exponent, rest)

/-- The rest of a quoted literal: its content, its source text with the closing
quote, and what follows. A backslash takes the next octet as it is. -/
def splitQuoted (quote : UInt8) : Bytes → Option (Bytes × Bytes × Bytes)
  | [] => none
  | b :: rest =>
    if b = 0x5C then
      match rest with
      | [] => none
      | c :: tail =>
        (splitQuoted quote tail).map fun (content, raw, after) => (c :: content, b :: c :: raw, after)
    else if b = quote then some ([], [b], rest)
    else (splitQuoted quote rest).map fun (content, raw, after) => (b :: content, b :: raw, after)

/-- Why a declaration has no tokens. -/
inductive ScanError where
  | unknownSymbol (symbol : Bytes)
  | unclosedString (text : Bytes) (position : Nat)
  deriving DecidableEq, Repr

/-- The token at the front of a text that starts with no space, and the rest. -/
def splitToken (position : Nat) (b : UInt8) (rest : Bytes) : Except ScanError (Token × Bytes) :=
  let text := b :: rest
  if isLetter b then
    let (name, after) := splitName text
    .ok (⟨.name, name, name, position, .none⟩, after)
  else if startsNumber text then
    let (kind, number, after) := splitNumber text
    .ok (⟨kind, number, number, position, .none⟩, after)
  else if b = 0x27 ∨ b = 0x22 then
    match splitQuoted b rest with
    | some (content, raw, after) =>
      .ok (⟨.string, content, b :: raw, position, if b = 0x22 then .double else .single⟩, after)
    | none => .error (.unclosedString text position)
  else
    match TokenKind.ofOctet? b with
    | some kind => .ok (⟨kind, [b], [b], position, .none⟩, rest)
    | none => .error (.unknownSymbol [b])

/-- The tokens of a text at an offset, as many as there are before the end or
the first error. The fuel bounds the number of tokens. -/
def scanFrom : Nat → Nat → Bytes → List Token × Option ScanError
  | 0, _, _ => ([], none)
  | fuel + 1, position, text =>
    let start := position + (text.takeWhile isSpace).length
    match text.dropWhile isSpace with
    | [] => ([⟨.eof, [], [], start, .none⟩], none)
    | b :: rest =>
      match splitToken start b rest with
      | .error e => ([], some e)
      | .ok (token, after) =>
        let (tokens, failure) := scanFrom fuel (start + token.raw.length) after
        (token :: tokens, failure)

/-- The tokens of a declaration, the last of which marks its end; or those
before the first error, and the error. -/
def scanned (source : Bytes) : List Token × Option ScanError :=
  scanFrom (source.length + 1) 0 source

def scan (source : Bytes) : Except ScanError (List Token) :=
  match scanned source with
  | (tokens, none) => .ok tokens
  | (_, some e) => .error e

end Conform.Declaration
