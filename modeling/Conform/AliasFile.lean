import Conform.Bytes.Utf8

/-! Alias files: a block mapping of names to declarations, each a plain or quoted
scalar, with comments. Plain scalars are texts whatever they look like, except
that null and nothing at all stand for the empty text. Scalars may run over
several lines, whose ends then count as blanks. Nested structures, repeated
names and anything else that is no such mapping make the file unreadable. -/
namespace Conform.AliasFile

/-- What is left of a text, with the column at which it starts. -/
structure Cursor where
  column : Nat
  text : Bytes
  deriving DecidableEq, Repr

/-- The line end at the start of a text: how it counts inside a scalar, and what
follows it. All but the line and paragraph separators count as line feeds. -/
def lineEnd? : Bytes → Option (Bytes × Bytes)
  | 0x0D :: 0x0A :: rest => some ([0x0A], rest)
  | 0x0D :: rest => some ([0x0A], rest)
  | 0x0A :: rest => some ([0x0A], rest)
  | 0xC2 :: 0x85 :: rest => some ([0x0A], rest)
  | 0xE2 :: 0x80 :: 0xA8 :: rest => some ([0xE2, 0x80, 0xA8], rest)
  | 0xE2 :: 0x80 :: 0xA9 :: rest => some ([0xE2, 0x80, 0xA9], rest)
  | _ => none

def atLineEnd (text : Bytes) : Bool := (lineEnd? text).isSome

def isGap (b : UInt8) : Bool := b == 0x20 || b == 0x09

/-- The text is over, or a blank or line end comes next. -/
def atGap : Bytes → Bool
  | [] => true
  | b :: rest => isGap b || atLineEnd (b :: rest)

def dropGaps (c : Cursor) : Cursor :=
  let gaps := c.text.takeWhile isGap
  ⟨c.column + gaps.length, c.text.drop gaps.length⟩

def dropSpaces (c : Cursor) : Cursor :=
  let spaces := c.text.takeWhile (· == 0x20)
  ⟨c.column + spaces.length, c.text.drop spaces.length⟩

/-- What is left of a text from its first line end on. -/
def dropLine : Bytes → Bytes
  | [] => []
  | b :: rest => if atLineEnd (b :: rest) then b :: rest else dropLine rest

/-- A line ends in the text. -/
def spansLines (text : Bytes) : Bool := !(dropLine text).isEmpty

/-- Skips blanks, comments and line ends; says whether a line ended. At the start
of a line only spaces are blanks, since tabs do not indent. -/
def skip : Nat → Bool → Cursor → Cursor × Bool
  | 0, ended, c => (c, ended)
  | fuel + 1, ended, c =>
    let c := if ended then dropSpaces c else dropGaps c
    let c : Cursor :=
      match c.text with
      | 0x23 :: rest => ⟨c.column + 1, dropLine rest⟩
      | _ => c
    match lineEnd? c.text with
    | some (_, rest) => skip fuel true ⟨0, rest⟩
    | none => (c, ended)

/-- A line that starts or ends a document. -/
def atMarker (c : Cursor) : Bool :=
  c.column == 0 &&
    (((Bytes.after? "---" c.text).map atGap).getD false || ((Bytes.after? "..." c.text).map atGap).getD false)

def atEnd (c : Cursor) : Bool := c.text.isEmpty || atMarker c

/-- The characters that a plain scalar cannot start with. -/
def isIndicator (b : UInt8) : Bool :=
  (utf8 "-?:,[]\x7b\x7d#&*!|>'\"%@`").contains b

def startsPlain : Bytes → Bool
  | [] => false
  | b :: rest =>
    !atGap (b :: rest) && (!isIndicator b || ((b == 0x2D || b == 0x3F || b == 0x3A) && !atGap rest))

/-- The part of a plain scalar on one line, without the blanks that follow it. -/
def plainLine : Bytes → Bytes
  | [] => []
  | b :: rest =>
    if atLineEnd (b :: rest) || (b == 0x3A && atGap rest) then []
    else if isGap b then
      match rest with
      | [] => []
      | c :: more =>
        if c = 0x23 then []
        else
          match plainLine (c :: more) with
          | [] => []
          | line => b :: line
    else b :: plainLine rest

/-- Line ends inside a scalar: a single line feed is a blank, and of more line
ends all stay but a line feed that comes first. -/
def folded : List Bytes → Bytes
  | [] => []
  | first :: rest =>
    if first ≠ [0x0A] then first ++ rest.flatten
    else if rest.isEmpty then [0x20]
    else rest.flatten

/-- Skips the line ends and blanks before the next text; the line ends found come
in reverse. -/
def skipBreaks : Nat → List Bytes → Cursor → Cursor × List Bytes
  | 0, found, c => (c, found.reverse)
  | fuel + 1, found, c =>
    let c := dropGaps c
    match lineEnd? c.text with
    | some (text, rest) => skipBreaks fuel (text :: found) ⟨0, rest⟩
    | none => (c, found.reverse)

/-- A tab stands in the indentation of one of the lines that follow. -/
def tabIndents (indent : Nat) : Nat → Cursor → Bool
  | 0, _ => false
  | fuel + 1, c =>
    match lineEnd? (dropGaps c).text with
    | some (_, line) =>
      let spaces := line.takeWhile (· == 0x20)
      (spaces.length ≤ indent && (line.drop spaces.length).head? == some 0x09) || tabIndents indent fuel ⟨0, line⟩
    | none => false

/-- A plain scalar with the lines that continue it, which are indented deeper
than the mapping. -/
def plainScalar (indent : Nat) : Nat → Cursor → Option (Bytes × Cursor)
  | 0, _ => none
  | fuel + 1, c =>
    let line := plainLine c.text
    let after : Cursor := ⟨c.column + line.length, c.text.drop line.length⟩
    let (next, breaks) := skipBreaks (after.text.length + 1) [] after
    if tabIndents indent (after.text.length + 1) after then none
    else if breaks.isEmpty || next.column ≤ indent || next.text.isEmpty || next.text.head? == some 0x23 ||
        plainLine next.text == [] then some (line, after)
    else
      match plainScalar indent fuel next with
      | some (rest, last) => some (line ++ folded breaks ++ rest, last)
      | none => none

/-- A single-quoted scalar after its opening quote; a doubled quote is a quote. -/
def singleQuoted : Nat → Cursor → Option (Bytes × Cursor)
  | 0, _ => none
  | fuel + 1, c =>
    match c.text with
    | [] => none
    | 0x27 :: 0x27 :: rest => prepend [0x27] (singleQuoted fuel ⟨c.column + 2, rest⟩)
    | 0x27 :: rest => some ([], ⟨c.column + 1, rest⟩)
    | b :: rest =>
      if atGap (b :: rest) then
        let (next, breaks) := skipBreaks (c.text.length + 1) [] c
        if breaks.isEmpty then prepend [b] (singleQuoted fuel ⟨c.column + 1, rest⟩)
        else if atMarker next then none
        else prepend (folded breaks) (singleQuoted fuel next)
      else prepend [b] (singleQuoted fuel ⟨c.column + 1, rest⟩)
where
  prepend (start : Bytes) : Option (Bytes × Cursor) → Option (Bytes × Cursor)
    | some (text, c) => some (start ++ text, c)
    | none => none

/-- The number of so many hexadecimal digits. -/
def hexNumber? : Nat → Nat → Bytes → Option (Nat × Bytes)
  | 0, n, rest => some (n, rest)
  | width + 1, n, b :: rest =>
    match hexValue? b with
    | some d => hexNumber? width (n * 16 + d) rest
    | none => none
  | _ + 1, _, [] => none

/-- The character that an escape stands for. -/
def escape? : Bytes → Option (Bytes × Bytes)
  | [] => none
  | b :: rest =>
    let byNumber (width : Nat) : Option (Bytes × Bytes) :=
      match hexNumber? width 0 rest with
      | some (code, rest) =>
        if (0xD800 ≤ code && code < 0xE000) || 0x110000 ≤ code then none else some (encodeRune code, rest)
      | none => none
    if b = octet '0' then some ([0], rest)
    else if b = octet 'a' then some ([0x07], rest)
    else if b = octet 'b' then some ([0x08], rest)
    else if b = octet 't' ∨ b = 0x09 then some ([0x09], rest)
    else if b = octet 'n' then some ([0x0A], rest)
    else if b = octet 'v' then some ([0x0B], rest)
    else if b = octet 'f' then some ([0x0C], rest)
    else if b = octet 'r' then some ([0x0D], rest)
    else if b = octet 'e' then some ([0x1B], rest)
    else if b = 0x20 ∨ b = 0x22 ∨ b = 0x27 ∨ b = 0x5C then some ([b], rest)
    else if b = octet 'N' then some (encodeRune 0x85, rest)
    else if b = octet '_' then some (encodeRune 0xA0, rest)
    else if b = octet 'L' then some (encodeRune 0x2028, rest)
    else if b = octet 'P' then some (encodeRune 0x2029, rest)
    else if b = octet 'x' then byNumber 2
    else if b = octet 'u' then byNumber 4
    else if b = octet 'U' then byNumber 8
    else none

/-- A double-quoted scalar after its opening quote. An escaped line end joins the
lines. -/
def doubleQuoted : Nat → Cursor → Option (Bytes × Cursor)
  | 0, _ => none
  | fuel + 1, c =>
    match c.text with
    | [] => none
    | b :: rest =>
      if b = 0x22 then some ([], ⟨c.column + 1, rest⟩)
      else if b = 0x5C then
        match rest with
        | [] => none
        | e :: more =>
          match lineEnd? (e :: more) with
          | some (_, line) =>
            let (next, breaks) := skipBreaks (rest.length + 1) [] ⟨0, line⟩
            if atMarker next then none else singleQuoted.prepend breaks.flatten (doubleQuoted fuel next)
          | none =>
            match escape? rest with
            | none => none
            | some (text, after) =>
              singleQuoted.prepend text (doubleQuoted fuel ⟨c.column + 1 + (rest.length - after.length), after⟩)
      else if atGap (b :: rest) then
        let (next, breaks) := skipBreaks (c.text.length + 1) [] c
        if breaks.isEmpty then singleQuoted.prepend [b] (doubleQuoted fuel ⟨c.column + 1, rest⟩)
        else if atMarker next then none
        else singleQuoted.prepend (folded breaks) (doubleQuoted fuel next)
      else singleQuoted.prepend [b] (doubleQuoted fuel ⟨c.column + 1, rest⟩)

/-- The plain scalars that stand for nothing. -/
def isNothing (text : Bytes) : Bool :=
  text.isEmpty || text == "~" || text == "null" || text == "Null" || text == "NULL"

/-- A scalar of a mapping at the given indentation. -/
def scalar? (indent : Nat) (c : Cursor) : Option (Bytes × Cursor) :=
  match c.text with
  | 0x27 :: rest => singleQuoted (c.text.length + 1) ⟨c.column + 1, rest⟩
  | 0x22 :: rest => doubleQuoted (c.text.length + 1) ⟨c.column + 1, rest⟩
  | text =>
    if startsPlain text then
      match plainScalar indent (text.length + 1) c with
      | some (value, after) => some (if isNothing value then [] else value, after)
      | none => none
    else none

/-- A name up to its colon, all on one line. The colon is at most 1024 characters
behind the start of the name. -/
def name? (c : Cursor) : Option (Bytes × Cursor) :=
  match scalar? c.text.length c with
  | none => none
  | some (name, after) =>
    let consumed := c.text.take (c.text.length - after.text.length)
    let after := dropGaps after
    let length := Utf8.count (c.text.take (c.text.length - after.text.length))
    match after.text with
    | 0x3A :: rest =>
      if atGap rest && !spansLines consumed && length ≤ 1024 && consumed != "<<" then
        some (name, ⟨after.column + 1, rest⟩)
      else none
    | _ => none

/-- The value after a colon: a scalar that stands deeper than the names, or
nothing. -/
def value? (indent : Nat) (c : Cursor) : Option (Bytes × Cursor) :=
  let (next, ended) := skip (c.text.length + 1) false c
  if atEnd next || (ended && next.column ≤ indent) then some ([], c)
  else scalar? indent next

/-- The entries of a mapping at the given indentation. -/
def entries? (indent : Nat) : Nat → List (Bytes × Bytes) → Cursor → Option (List (Bytes × Bytes))
  | 0, _, _ => none
  | fuel + 1, done, c =>
    match name? c with
    | none => none
    | some (name, c) =>
      match value? indent c with
      | none => none
      | some (value, c) =>
        let (next, ended) := skip (c.text.length + 1) false c
        if done.any (·.1 == name) then none
        else if atEnd next then some ((name, value) :: done)
        else if ended && next.column == indent then entries? indent fuel ((name, value) :: done) next
        else none

/-- The code points that a file may hold. -/
def isTextCode (code : Nat) : Bool :=
  code == 0x09 || code == 0x0A || code == 0x0D || (0x20 ≤ code && code ≤ 0x7E) || code == 0x85 ||
    (0xA0 ≤ code && code ≤ 0xD7FF) || (0xE000 ≤ code && code ≤ 0xFFFD && code != 0xFEFF) || 0x10000 ≤ code

def isReadable (text : Bytes) : Bool :=
  (Utf8.pieces text).all fun
    | .char code _ => isTextCode code
    | .stray _ => false

/-- A mapping in braces that is empty, and what follows it. -/
def emptyBraces? (c : Cursor) : Option Cursor :=
  match c.text with
  | 0x7B :: rest =>
    let inner := (skip (rest.length + 1) false ⟨c.column + 1, rest⟩).1
    match inner.text with
    | 0x7D :: rest => some ⟨inner.column + 1, rest⟩
    | _ => none
  | _ => none

/-- The document is a scalar or a pair of braces that stands for nothing. -/
def isNothingAt (fuel : Nat) (c : Cursor) : Bool :=
  let rest :=
    match emptyBraces? c with
    | some rest => some rest
    | none =>
      match scalar? 0 c with
      | some ([], rest) => if c.text.head? == some 0x27 || c.text.head? == some 0x22 then none else some rest
      | _ => none
  match rest with
  | some rest => atEnd (skip fuel false rest).1
  | none => false

/-- The aliases of a document, which is a mapping only if it starts on a line of
its own. -/
def document? (ownLine : Bool) (fuel : Nat) (c : Cursor) : Option (List (Bytes × Bytes)) :=
  match if ownLine then entries? c.column fuel [] c else none with
  | some entries => some (sortBy (·.1) entries)
  | none => if isNothingAt fuel c then some [] else none

/-- The aliases of a file in order of their names. -/
def read? (text : Bytes) : Option (List (Bytes × Bytes)) :=
  let text := (Bytes.after? [0xEF, 0xBB, 0xBF] text).getD text
  let fuel := text.length + 1
  if !isReadable text then none
  else
    let (start, _) := skip fuel true ⟨0, text⟩
    if start.text.isEmpty then some []
    else if !atMarker start then document? true fuel start
    else
      match Bytes.after? "---" start.text with
      | some rest =>
        let (start, ended) := skip fuel false ⟨3, rest⟩
        if atEnd start then some [] else document? ended fuel start
      | none => none

end Conform.AliasFile
