import Conform.Source.Prose.Line

/-! Addresses in prose: a scheme, a host and a path. A line of the form
`[text]: address` defines what the text in brackets refers to. -/
namespace Conform.Source

def schemes : List Bytes :=
  [utf8 "file", utf8 "ftp", utf8 "gopher", utf8 "http", utf8 "https", utf8 "mailto", utf8 "nntp"]

def isAlphanumeric (b : UInt8) : Bool := isLower b || isUpper b || isDigit b

def isHostOctet (b : UInt8) : Bool := isAlphanumeric b || (utf8 "_@-.[]:").contains b

/-- Marks that an address may hold but not end with. -/
def isInnerMark (b : UInt8) : Bool := (utf8 ".,:;?!").contains b

def isPathOctet (b : UInt8) : Bool :=
  isAlphanumeric b || (utf8 "$'()*+&#=@~_/-[]\x7b\x7d%").contains b

/-- The bracket that closes an opening one. -/
def closer? (b : UInt8) : Option UInt8 :=
  if b = 0x28 then some 0x29 else if b = 0x5B then some 0x5D else if b = 0x7B then some 0x7D else none

def isCloser (b : UInt8) : Bool := b == 0x29 || b == 0x5D || b == 0x7D

/-- The length of a path: it ends before the first octet that fits no path or
closes a bracket that is not open, and then goes back to where all brackets were
closed and no mark came last. The brackets still open stand in a stack. -/
def pathLength : List UInt8 → Nat → Nat → Bytes → Nat
  | _, _, good, [] => good
  | stack, seen, good, b :: rest =>
    if isInnerMark b then pathLength stack (seen + 1) good rest
    else if !isPathOctet b || (isCloser b && stack.head? != some b) then good
    else
      let stack :=
        match closer? b with
        | some c => c :: stack
        | none => if isCloser b then stack.tail else stack
      pathLength stack (seen + 1) (if stack.isEmpty then seen + 1 else good) rest

/-- The octets of a text up to a word, and those after the word. -/
def cut? (word : Bytes) : Bytes → Option (Bytes × Bytes)
  | [] => none
  | b :: rest =>
    match Bytes.after? word (b :: rest) with
    | some after => some ([], after)
    | none =>
      match cut? word rest with
      | some (before, after) => some (b :: before, after)
      | none => none

/-- The length of the address at the start of a text, if one stands there. -/
def addressLength? (text : Bytes) : Option Nat :=
  let scheme := (text.take 7).takeWhile (· != octet ':')
  match Bytes.after? "://" (text.drop scheme.length) with
  | none => none
  | some rest =>
    let start := (rest.head?.map fun b => isHostOctet b && !isInnerMark b).getD false
    if !(schemes.contains scheme && start) then none
    else
      let host := ((rest.takeWhile isHostOctet).reverse.dropWhile isInnerMark).length
      some (scheme.length + 3 + host + pathLength [] 0 0 (rest.drop host))

/-- What a text in brackets refers to. -/
structure Definition where
  text : Bytes
  address : Bytes

/-- The definition that makes up a line. -/
def definition? (line : Bytes) : Option Definition :=
  match line with
  | [] => none
  | bracket :: rest =>
    if bracket ≠ octet '[' then none
    else
      match cut? "]:" rest with
      | some (text, blank :: after) =>
        let address := Utf8.trim after
        match cut? "://" address with
        | some (scheme, _) =>
          if isSpaceOrTab blank && schemes.contains scheme then some ⟨text, address⟩ else none
        | none => none
      | _ => none

def Definition.line (d : Definition) : Bytes := "[" ++ d.text ++ "]: " ++ d.address ++ "\n"

end Conform.Source
