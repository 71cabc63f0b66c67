import Conform.Bytes.Case
import Conform.Json.Read
import Conform.Program

/-! The stored form of programs. Writing leaves out what is empty. Reading knows
members by their names up to letter case, skips unknown ones, takes null for
"as before", and lets a repeated member update what the earlier one left. -/
namespace Conform

/-- A member that is left out when its text is empty. -/
def textMember (name : String) (text : Bytes) : List (Bytes × Json) :=
  if text.isEmpty then [] else [(utf8 name, .string text)]

/-- A text member updated by a document. -/
def updatedText (old : Bytes) : Json → Option Bytes
  | .null => some old
  | .string text => some text
  | _ => none

def updatedFlag (old : Bool) : Json → Option Bool
  | .null => some old
  | .bool b => some b
  | _ => none

namespace Node

mutual

def toJson : Node → Json
  | ⟨op, type, literal, quote, keys, key, optional, children⟩ =>
    .object ([(utf8 "op", .string op), (utf8 "type", .string type)] ++ textMember "literal" literal ++
      textMember "quote" quote ++ textMember "keys" keys ++ textMember "key" key ++
      (if optional then [(utf8 "optional", .bool true)] else []) ++
      (if children.isEmpty then [] else [(utf8 "children", .array (childrenJson children))]))

def childrenJson : List (Option Node) → List Json
  | [] => []
  | none :: rest => .null :: childrenJson rest
  | some child :: rest => child.toJson :: childrenJson rest

end

end Node

/-- A node while it is read. The operands of an earlier list that a later one has
no place for are spare: a still later list finds them in their places again. -/
structure Draft where
  node : Node
  operands : List (Option Draft)
  spare : List (Option Draft)

namespace Draft

def empty : Draft := ⟨.empty, [], []⟩

mutual

/-- The node that was read. -/
def finish : Draft → Node
  | ⟨node, operands, _⟩ => { node with children := finishAll operands }

def finishAll : List (Option Draft) → List (Option Node)
  | [] => []
  | none :: rest => none :: finishAll rest
  | some draft :: rest => some draft.finish :: finishAll rest

end

mutual

/-- A place for a node updated by a document: null empties it, an object fills it. -/
def updated (old : Option Draft) : Json → Option (Option Draft)
  | .null => some none
  | .object members =>
    match updatedMembers (old.getD .empty) members with
    | some draft => some (some draft)
    | none => none
  | _ => none

def updatedMembers (draft : Draft) : List (Bytes × Json) → Option Draft
  | [] => some draft
  | (name, value) :: rest =>
    let node := draft.node
    if Utf8.foldsTo "op" name then
      match updatedText node.op value with
      | some op => updatedMembers { draft with node := { node with op } } rest
      | none => none
    else if Utf8.foldsTo "type" name then
      match updatedText node.type value with
      | some type => updatedMembers { draft with node := { node with type } } rest
      | none => none
    else if Utf8.foldsTo "literal" name then
      match updatedText node.literal value with
      | some literal => updatedMembers { draft with node := { node with literal } } rest
      | none => none
    else if Utf8.foldsTo "quote" name then
      match updatedText node.quote value with
      | some quote => updatedMembers { draft with node := { node with quote } } rest
      | none => none
    else if Utf8.foldsTo "keys" name then
      match updatedText node.keys value with
      | some keys => updatedMembers { draft with node := { node with keys } } rest
      | none => none
    else if Utf8.foldsTo "key" name then
      match updatedText node.key value with
      | some key => updatedMembers { draft with node := { node with key } } rest
      | none => none
    else if Utf8.foldsTo "optional" name then
      match updatedFlag node.optional value with
      | some optional => updatedMembers { draft with node := { node with optional } } rest
      | none => none
    else if Utf8.foldsTo "children" name then
      match value with
      | .null => updatedMembers ⟨node, [], []⟩ rest
      | .array [] => updatedMembers ⟨node, [], []⟩ rest
      | .array (item :: items) =>
        match updatedPlaces (draft.operands ++ draft.spare) (item :: items) with
        | some (operands, spare) => updatedMembers ⟨node, operands, spare⟩ rest
        | none => none
      | _ => none
    else updatedMembers draft rest

/-- Each document updates what stood in its place; the other places are spare. -/
def updatedPlaces (old : List (Option Draft)) :
    List Json → Option (List (Option Draft) × List (Option Draft))
  | [] => some ([], old)
  | item :: rest =>
    match updated (old.head?.getD none) item with
    | none => none
    | some draft =>
      match updatedPlaces old.tail rest with
      | none => none
      | some (drafts, spare) => some (draft :: drafts, spare)

end

end Draft

namespace Program

def toJson (p : Program) : Json :=
  .object [(utf8 "signature", .string p.signature),
    (utf8 "root", match p.root with
      | some node => node.toJson
      | none => .null)]

def source (p : Program) : Bytes := p.toJson.write

/-- The signature and the root of a program while it is read. -/
def updatedMembers (signature : Bytes) (root : Option Draft) : List (Bytes × Json) → Option Program
  | [] => some ⟨signature, root.map Draft.finish⟩
  | (name, value) :: rest =>
    if Utf8.foldsTo "signature" name then
      match updatedText signature value with
      | some signature => updatedMembers signature root rest
      | none => none
    else if Utf8.foldsTo "root" name then
      match Draft.updated root value with
      | some root => updatedMembers signature root rest
      | none => none
    else updatedMembers signature root rest

/-- The program that a stored text holds. -/
def read? (source : Bytes) : Option Program :=
  match Json.readStored? source with
  | some .null => some ⟨[], none⟩
  | some (.object members) => updatedMembers [] none members
  | _ => none

end Program

end Conform
