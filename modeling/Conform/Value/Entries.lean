import Conform.Value.Show

/-! The elements of a container as entries of a key and a value. A list has its
indices as keys. The entries of a map come in the order of their key texts, and
a map that holds two keys of one text is no array. -/
namespace Conform

/-- One element of a container. -/
structure Entry where
  key : Value
  value : Value
  deriving Repr

namespace Value

/-- The text of a key, by which shapes and errors know it. -/
def keyText (key : Value) : Bytes := key.shown

/-- The elements of a list from an index on. -/
def indexed (i : Nat) : List Value → List Entry
  | [] => []
  | v :: rest => ⟨.int .int64 i, v⟩ :: indexed (i + 1) rest

/-- Two neighbours have one key text. -/
def repeatsText : List Entry → Bool
  | [] => false
  | [_] => false
  | a :: b :: rest => a.key.keyText == b.key.keyText || repeatsText (b :: rest)

/-- The elements of a list or map in a fixed order. -/
def entries? : Value → Option (List Entry)
  | .list _ items => some (indexed 0 items)
  | .map _ entries =>
    let sorted := sortBy (fun e : Entry => e.key.keyText) (entries.map fun (k, v) => ⟨k, v⟩)
    if repeatsText sorted then none else some sorted
  | _ => none

end Value

/-- The value under a key text. -/
def lookupText (key : Bytes) : List Entry → Option Value
  | [] => none
  | e :: rest => if e.key.keyText = key then some e.value else lookupText key rest

/-- The entries without those of a key text. -/
def withoutText (key : Bytes) (entries : List Entry) : List Entry :=
  entries.filter fun e => e.key.keyText != key

end Conform
