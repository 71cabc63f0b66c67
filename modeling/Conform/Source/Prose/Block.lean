import Conform.Source.Prose.Address

/-! The groups of lines that prose consists of: paragraphs, headings, indented code
and lists. -/
namespace Conform.Source

/-- A numbered or bulleted item with its paragraphs. -/
structure Item where
  number : Bytes
  paragraphs : List (List Bytes)

inductive Block where
  | paragraph (lines : List Bytes)
  | heading (text : Bytes)
  | code (lines : List Bytes)
  | list (spaced loose : Bool) (items : List Item)

/-- The lines of an indented group: those that are forced in, blank, indented,
or items of a list that began unindented. -/
def splitIndented : Nat → Bool → List Bytes → List Bytes × List Bytes
  | _, _, [] => ([], [])
  | forced, listOk, line :: rest =>
    if line.isEmpty || 0 < forced || isIndented line || (listOk && isListLine line) then
      let (taken, left) := splitIndented (forced - 1) (listOk && !line.isEmpty) rest
      (line :: taken, left)
    else ([], line :: rest)

/-- Puts the lines of a list into items; a blank line ends a paragraph. The
current item and paragraph come last to first. -/
def itemsOf (numbered : Bool) : Option (Bytes × List (List Bytes) × List Bytes) → List Bytes → List Item
  | none, [] => []
  | some (number, done, current), [] =>
    [⟨number, (if current.isEmpty then done else current.reverse :: done).reverse⟩]
  | state, line :: rest =>
    let plain :=
      match state with
      | none => itemsOf numbered none rest
      | some (number, done, current) =>
        let text := Utf8.trim line
        if text.isEmpty then
          itemsOf numbered (some (number, if current.isEmpty then done else current.reverse :: done, [])) rest
        else itemsOf numbered (some (number, done, text :: current)) rest
    match listMarker? line with
    | some (number, after) =>
      if number.isEmpty = numbered then plain
      else
        let others := itemsOf numbered (some (number, [], [Utf8.trim after])) rest
        match state with
        | none => others
        | some (old, done, current) =>
          ⟨old, (if current.isEmpty then done else current.reverse :: done).reverse⟩ :: others
    | none => plain

/-- The definitions that make up a paragraph, if every line of it is one. -/
def definitions? (lines : List Bytes) : Option (List Definition) := lines.mapM definition?

def listBlock (spaced : Bool) (lines : List Bytes) : Block :=
  let numbered := ((lines.head?.bind listMarker?).map fun m => !m.1.isEmpty).getD false
  .list spaced (lines.any (·.isEmpty)) (itemsOf numbered none lines)

/-- How many of the last lines of an unindented group belong to the indented
group that follows it without a blank line. -/
def linesLeft (group after : List Bytes) : Nat :=
  match after with
  | [] => 0
  | next :: _ =>
    if next.isEmpty || isListLine next then 0
    else
      let listed := (group.reverse.takeWhile isListLine).length
      if 0 < listed then listed
      else
        match group.getLast?.bind (·.getLast?) with
        | some b => if b = 0x7B ∨ b = 0x5C then 1 else 0
        | none => 0

/-- The groups of the lines, of which the first few are forced to count as
indented. The flag says whether a blank line came before. -/
def blocks : Nat → Nat → Bool → List Bytes → List Block
  | 0, _, _, _ => []
  | _, _, _, [] => []
  | fuel + 1, forced, spaced, line :: rest =>
    if line.isEmpty then blocks fuel forced true rest
    else if 0 < forced || isIndented line then
      let (taken, left) := splitIndented (forced - 1) (isListLine line && 0 < forced) rest
      let group := dropTrailingBlank (line :: taken)
      let gap : Bool := group.length < taken.length + 1
      let (group, left) :=
        match gap, left with
        | false, close :: tail =>
          if close.head? = some 0x7D then (group ++ [close], tail) else (group, close :: tail)
        | _, left => (group, left)
      let block := if isListLine line then listBlock spaced group else .code (unindented group)
      block :: blocks fuel 0 gap left
    else
      let whole := line :: rest.takeWhile fun l => !l.isEmpty && !isIndented l
      let after := rest.dropWhile fun l => !l.isEmpty && !isIndented l
      let left := linesLeft whole after
      let group := whole.take (whole.length - left)
      let later := blocks fuel left (group.isEmpty && spaced) (whole.drop (whole.length - left) ++ after)
      match group with
      | [] => later
      | [only] =>
        if isHeading only then .heading (Utf8.trim (only.drop 1)) :: later
        else if spaced && isTitle only && left == 0 &&
            (match after with
              | [] :: next :: _ => !isIndented next
              | _ => false) then .heading (Utf8.trim only) :: later
        else .paragraph [only] :: later
      | group => .paragraph group :: later

/-- The definitions of a block, and the block without them. -/
def Block.define : Block → List Definition × Option Block
  | .paragraph lines =>
    match definitions? lines with
    | some found => (found, none)
    | none => ([], some (.paragraph lines))
  | .list spaced loose items =>
    let kept := items.map fun item =>
      { item with paragraphs := item.paragraphs.filter fun lines => (definitions? lines).isNone }
    let loose := loose || kept.any fun item => item.paragraphs.length != 1
    (items.flatMap fun item => item.paragraphs.flatMap fun lines => (definitions? lines).getD [],
      some (.list (spaced || loose) loose kept))
  | block => ([], some block)

end Conform.Source
