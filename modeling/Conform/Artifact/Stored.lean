import Conform.Artifact
import Conform.Bytes.Base64

/-! Artifacts as a store keeps them: JSON with the source in base 64. Reading is
as lenient as for programs; the source may also be a list of octets. -/
namespace Conform.Artifact

def stored (a : Artifact) : Bytes :=
  (Json.object [(utf8 "signature", .string a.signature), (utf8 "format", .string a.format),
    (utf8 "source", .string (Base64.encode a.source))]).write

/-- An octet updated by a document. -/
def updatedOctet (old : UInt8) : Json → Option UInt8
  | .null => some old
  | .number text =>
    if text.all isDigit && digitsValue 0 text < 256 then some (digitsValue 0 text).toUInt8 else none
  | _ => none

/-- Each document updates the octet in its place; there are zeros past the end. -/
def updatedOctets (old : Bytes) : List Json → Option Bytes
  | [] => some []
  | item :: rest =>
    match updatedOctet (old.head?.getD 0) item, updatedOctets old.tail rest with
    | some b, some octets => some (b :: octets)
    | _, _ => none

def updatedSource (old : Bytes) : Json → Option Bytes
  | .null => some []
  | .string text => Base64.decode? text
  | .array items => updatedOctets old items
  | _ => none

def updatedMembers (a : Artifact) : List (Bytes × Json) → Option Artifact
  | [] => some a
  | (name, value) :: rest =>
    if Utf8.foldsTo "signature" name then
      match updatedText a.signature value with
      | some signature => updatedMembers { a with signature } rest
      | none => none
    else if Utf8.foldsTo "format" name then
      match updatedText a.format value with
      | some format => updatedMembers { a with format } rest
      | none => none
    else if Utf8.foldsTo "source" name then
      match updatedSource a.source value with
      | some source => updatedMembers { a with source } rest
      | none => none
    else updatedMembers a rest

/-- The artifact that stored data holds. -/
def readStored? (data : Bytes) : Option Artifact :=
  match Json.readStored? data with
  | some .null => some ⟨[], [], []⟩
  | some (.object members) => updatedMembers ⟨[], [], []⟩ members
  | _ => none

end Conform.Artifact
