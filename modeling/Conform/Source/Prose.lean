import Conform.Source.Prose.Block
import Conform.Source.Prose.Wording

/-! The layout of prose in comments. Lines are grouped into paragraphs, headings,
indented code and lists; every group is written in one way, with a blank line
before it. Definitions come last, first those that the prose refers to. -/
namespace Conform.Source

/-- The lines of a paragraph, those after the first indented. -/
def paragraphText (known : List Bytes) (indent : Bytes) (lines : List Bytes) : Bytes × List Bytes :=
  let (text, used) := linked known (Bytes.join "\n" lines)
  (Bytes.join (0x0A :: indent) (linesOf text) ++ utf8 "\n", used)

/-- Texts in order with a separator, and all definitions they refer to. -/
def gathered (separator : Bytes) (parts : List (Bytes × List Bytes)) : Bytes × List Bytes :=
  (Bytes.join separator (parts.map (·.1)), parts.flatMap (·.2))

def itemText (known : List Bytes) (item : Item) : Bytes × List Bytes :=
  let marker : Bytes := if item.number.isEmpty then "  - " else " " ++ item.number ++ ". "
  let (text, used) := gathered "\n    " (item.paragraphs.map (paragraphText known "    "))
  (marker ++ text, used)

def Block.text (known : List Bytes) : Block → Bytes × List Bytes
  | .paragraph lines => paragraphText known [] lines
  | .heading text => (utf8 "# " ++ text ++ utf8 "\n", [])
  | .code lines => (lines.flatMap fun line => (if line.isEmpty then [] else 0x09 :: line) ++ [0x0A], [])
  | .list _ loose items => gathered (if loose then [0x0A] else []) (items.map (itemText known))

def Block.needsBlank : Block → Bool
  | .list spaced .. => spaced
  | _ => true

/-- A block that is not the first, after a blank line if it needs one. -/
def Block.laterText (known : List Bytes) (block : Block) : Bytes × List Bytes :=
  let (text, used) := block.text known
  (if block.needsBlank then 0x0A :: text else text, used)

/-- The text of all groups. -/
def layout (known : List Bytes) : List Block → Bytes × List Bytes
  | [] => ([], [])
  | first :: rest => gathered [] (first.text known :: rest.map (Block.laterText known))

/-- The first definition of a name is the one that is referred to. -/
def markUsed (used seen : List Bytes) : List Definition → List (Definition × Bool)
  | [] => []
  | d :: rest => (d, used.contains d.text && !seen.contains d.text) :: markUsed used (d.text :: seen) rest

/-- A group of definitions after a blank line. -/
def definitionText (definitions : List (Definition × Bool)) (used : Bool) : Bytes :=
  match definitions.filter fun d => d.2 == used with
  | [] => []
  | found => 0x0A :: found.flatMap fun d => d.1.line

/-- Prose laid out; every line of it ends. -/
def prose (text : Bytes) : Bytes :=
  let lines := (linesOf text).map fun line => if isBlankText line then [] else line
  let lines := dropTrailingBlank (lines.dropWhile (·.isEmpty))
  let found := (blocks (2 * lines.length) 0 false (unindented lines)).map Block.define
  let definitions := found.flatMap (·.1)
  let (text, used) := layout (definitions.map (·.text)) (found.filterMap (·.2))
  let marked := markUsed used [] definitions
  text ++ definitionText marked true ++ definitionText marked false

end Conform.Source
