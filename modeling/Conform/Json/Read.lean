import Conform.Json

/-! Reading JSON text. The grammar is the strict one. Two things are left to the
caller: how deep a document may nest, and what text a string stands for, since
an escape may name half of a character only. -/
namespace Conform.Json

/-- A reader of a part of a text; it returns what follows that part. -/
abbrev Reader (α : Type) := Bytes → Option (α × Bytes)

def isSpace (b : UInt8) : Bool := b == 0x20 || b == 0x09 || b == 0x0A || b == 0x0D

def skipSpace : Bytes → Bytes := List.dropWhile isSpace

/-- What a string is made of: octets as they stand, and numbers by escapes. -/
inductive StringUnit where
  | octet (b : UInt8)
  | code (n : Nat)
  deriving DecidableEq, Repr

/-- The octet that a short escape stands for. -/
def shortEscape? (b : UInt8) : Option UInt8 :=
  if b = 0x22 ∨ b = 0x5C ∨ b = 0x2F then some b
  else if b = octet 'b' then some 0x08
  else if b = octet 'f' then some 0x0C
  else if b = octet 'n' then some 0x0A
  else if b = octet 'r' then some 0x0D
  else if b = octet 't' then some 0x09
  else none

def fourHex? (a b c d : UInt8) : Option Nat :=
  match hexValue? a, hexValue? b, hexValue? c, hexValue? d with
  | some p, some q, some r, some s => some (((p * 16 + q) * 16 + r) * 16 + s)
  | _, _, _, _ => none

/-- The units up to the closing quote, after those already read in reverse. -/
def stringRest (done : List StringUnit) : Reader (List StringUnit)
  | [] => none
  | b :: rest =>
    if b = 0x22 then some (done.reverse, rest)
    else if b < 0x20 then none
    else if b = 0x5C then
      match rest with
      | [] => none
      | mark :: rest =>
        if mark = octet 'u' then
          match rest with
          | h1 :: h2 :: h3 :: h4 :: rest =>
            match fourHex? h1 h2 h3 h4 with
            | some n => stringRest (.code n :: done) rest
            | none => none
          | _ => none
        else
          match shortEscape? mark with
          | some c => stringRest (.octet c :: done) rest
          | none => none
    else stringRest (.octet b :: done) rest

def digitsOf (text : Bytes) : Option (Bytes × Bytes) :=
  let digits := text.takeWhile isDigit
  if digits.isEmpty then none else some (digits, text.dropWhile isDigit)

/-- The whole part of a number: zero, or digits that do not start with it. -/
def wholePart : Reader Bytes
  | [] => none
  | b :: rest =>
    if b = 0x30 then some ([0x30], rest) else digitsOf (b :: rest)

def fractionPart : Reader Bytes
  | [] => some ([], [])
  | b :: rest =>
    if b = 0x2E then
      match digitsOf rest with
      | some (digits, rest) => some (0x2E :: digits, rest)
      | none => none
    else some ([], b :: rest)

def exponentPart : Reader Bytes
  | [] => some ([], [])
  | b :: rest =>
    if b = octet 'e' ∨ b = octet 'E' then
      let sign := (rest.take 1).filter fun c => c == 0x2B || c == 0x2D
      match digitsOf (rest.drop sign.length) with
      | some (digits, rest) => some (b :: sign ++ digits, rest)
      | none => none
    else some ([], b :: rest)

/-- A number as it is written. -/
def numeral : Reader Bytes := fun text =>
  let sign := (text.take 1).filter fun b => b == 0x2D
  match wholePart (text.drop sign.length) with
  | none => none
  | some (whole, rest) =>
    match fractionPart rest with
    | none => none
    | some (fraction, rest) =>
      match exponentPart rest with
      | none => none
      | some (exponent, rest) => some (sign ++ whole ++ fraction ++ exponent, rest)

section Documents

variable (text : List StringUnit → Bytes)

/-- The items after an opening bracket that is not closed at once. The items
already read come in reverse. -/
def items (inner : Reader Json) : Nat → List Json → Reader Json
  | 0, _, _ => none
  | fuel + 1, done, input =>
    match inner (skipSpace input) with
    | none => none
    | some (item, rest) =>
      match skipSpace rest with
      | [] => none
      | b :: rest =>
        if b = octet ',' then items inner fuel (item :: done) rest
        else if b = octet ']' then some (.array (item :: done).reverse, rest)
        else none

/-- The members after an opening brace that is not closed at once. -/
def members (inner : Reader Json) : Nat → List (Bytes × Json) → Reader Json
  | 0, _, _ => none
  | fuel + 1, done, input =>
    match skipSpace input with
    | [] => none
    | quote :: rest =>
      if quote ≠ 0x22 then none
      else
        match stringRest [] rest with
        | none => none
        | some (name, rest) =>
          match skipSpace rest with
          | [] => none
          | colon :: rest =>
            if colon ≠ octet ':' then none
            else
              match inner (skipSpace rest) with
              | none => none
              | some (value, rest) =>
                match skipSpace rest with
                | [] => none
                | b :: rest =>
                  if b = octet ',' then members inner fuel ((text name, value) :: done) rest
                  else if b = 0x7D then some (.object ((text name, value) :: done).reverse, rest)
                  else none

/-- A value that nests at most so deep. The length bounds every list of it. -/
def value (length : Nat) : Nat → Reader Json
  | _, [] => none
  | depth, b :: rest =>
    if b = 0x22 then
      match stringRest [] rest with
      | some (units, rest) => some (.string (text units), rest)
      | none => none
    else if b = octet '[' then
      match depth with
      | 0 => none
      | depth + 1 =>
        match skipSpace rest with
        | [] => none
        | c :: after =>
          if c = octet ']' then some (.array [], after)
          else items (value length depth) length [] (c :: after)
    else if b = 0x7B then
      match depth with
      | 0 => none
      | depth + 1 =>
        match skipSpace rest with
        | [] => none
        | c :: after =>
          if c = 0x7D then some (.object [], after)
          else members text (value length depth) length [] (c :: after)
    else if b = octet 'n' then (Bytes.after? "ull" rest).map (.null, ·)
    else if b = octet 't' then (Bytes.after? "rue" rest).map (.bool true, ·)
    else if b = octet 'f' then (Bytes.after? "alse" rest).map (.bool false, ·)
    else
      match numeral (b :: rest) with
      | some (n, rest) => some (.number n, rest)
      | none => none

/-- Reads a whole text as one document. -/
def read? (depth : Nat) (input : Bytes) : Option Json :=
  match value text input.length depth (skipSpace input) with
  | some (document, rest) => if (skipSpace rest).isEmpty then some document else none
  | none => none

end Documents

def isHighSurrogate (n : Nat) : Bool := 0xD800 ≤ n && n < 0xDC00

def isLowSurrogate (n : Nat) : Bool := 0xDC00 ≤ n && n < 0xE000

/-- The code point of two surrogates, or the replacement character. -/
def pairCode (high low : Nat) : Nat :=
  if isHighSurrogate high && isLowSurrogate low then (high - 0xD800) * 0x400 + (low - 0xDC00) + 0x10000
  else 0xFFFD

/-- Text in which an escape that follows an escaped surrogate always belongs to
it, whether or not the two make a character. Octets stay as they are. -/
def greedyText : List StringUnit → Bytes
  | [] => []
  | .octet b :: rest => b :: greedyText rest
  | .code n :: rest =>
    if isHighSurrogate n || isLowSurrogate n then
      match rest with
      | .code m :: rest => encodeRune (pairCode n m) ++ greedyText rest
      | rest => encodeRune 0xFFFD ++ greedyText rest
    else encodeRune n ++ greedyText rest

/-- Text in which only two surrogates that make a character belong together. -/
def pairedText : List StringUnit → Bytes
  | [] => []
  | .octet b :: rest => b :: pairedText rest
  | .code n :: .code m :: rest =>
    if isHighSurrogate n && isLowSurrogate m then encodeRune (pairCode n m) ++ pairedText rest
    else encodeRune n ++ pairedText (.code m :: rest)
  | .code n :: rest => encodeRune n ++ pairedText rest

/-- Reads stored text: every string is made well-formed, and documents nest at
most ten thousand deep. -/
def readStored? (input : Bytes) : Option Json :=
  read? (fun units => Utf8.repaired (pairedText units)) 10000 input

end Conform.Json
