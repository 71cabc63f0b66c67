import Conform.Value

/-! The printed form of values: scalars as they are, lists in brackets, maps with
their entries in the order of the keys. -/
namespace Conform

/-- A position of a number in the numeric order, not-a-number before all. -/
def Binary.order {f : Format} : Binary f → Int
  | .nan => -(f.ranks : Int) - 2
  | .infinite negative => if negative then -(f.ranks : Int) - 1 else f.ranks
  | .finite negative rank => if negative then -(rank.val : Int) else rank.val

namespace Value

/-- The order in which a printed map lists its keys: by type, then by value. -/
def listedBefore : Value → Value → Bool
  | .null, _ => true
  | _, .null => false
  | .bool a, .bool b => !a || b
  | .int k m, .int l n => if k = l then m ≤ n else k.typeName.notAfter l.typeName
  | .double x, .double y => x.order ≤ y.order
  | .single x, .single y => x.order ≤ y.order
  | .text s, .text t => s.notAfter t
  | .foreign v, .foreign w =>
    if v.typeName = w.typeName then v.shown.notAfter w.shown else v.typeName.notAfter w.typeName
  | v, w => v.typeName.notAfter w.typeName

/-- Inserts an entry with its printed form before the first one listed after it. -/
def insertListed (key : Value) (shown : Bytes) : List (Value × Bytes) → List (Value × Bytes)
  | [] => [(key, shown)]
  | entry :: rest =>
    if listedBefore key entry.1 then (key, shown) :: entry :: rest
    else entry :: insertListed key shown rest

mutual

/-- The printed form. -/
def shown : Value → Bytes
  | .null => "<nil>"
  | .bool b => if b then "true" else "false"
  | .int _ n => decimalInt n
  | .double x => x.text .general
  | .single x => x.text .general
  | .text s => s
  | .list _ items => "[" ++ Bytes.join " " (shownItems items) ++ "]"
  | .map _ entries => "map[" ++ Bytes.join " " ((shownEntries entries).map (·.2)) ++ "]"
  | .foreign v => v.shown

def shownItems : List Value → List Bytes
  | [] => []
  | v :: rest => v.shown :: shownItems rest

/-- The entries with their printed forms, in the listed order. -/
def shownEntries : List (Value × Value) → List (Value × Bytes)
  | [] => []
  | (k, v) :: rest => insertListed k (k.shown ++ ":" ++ v.shown) (shownEntries rest)

end

/-- The text of a value in a message: null by name, floats so that they never
read as integers. -/
def described : Value → Bytes
  | .null => "null"
  | .double x => x.literalText
  | .single x => (x.convert : Double).literalText
  | v => v.shown

end Value

end Conform
