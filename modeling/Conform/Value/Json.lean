import Conform.Bytes.Base64
import Conform.Bytes.Blank
import Conform.Bytes.Quoted
import Conform.Json.Read
import Conform.Value

/-! Values as JSON and JSON as values. Integers without a fraction or an exponent
stay exact as long as they fit 64 bits; every other number is a float. -/
namespace Conform

/-- Why a text is no JSON value. -/
inductive JsonError where
  | empty
  | malformed (text : Bytes)
  deriving DecidableEq, Repr

def JsonError.message : JsonError → Bytes
  | .empty => "invalid JSON: empty input"
  | .malformed text => "invalid JSON: " ++ quoted text

/-- Why a value has no JSON text. -/
inductive EncodeError where
  | unsupportedNumber (text : Bytes)
  | unsupportedType (name : Bytes)
  deriving DecidableEq, Repr

def EncodeError.message : EncodeError → Bytes
  | .unsupportedNumber text => "json: unsupported value: " ++ text
  | .unsupportedType name => "json: unsupported type: " ++ name

namespace Value

/-- The number that a JSON number denotes. -/
def ofNumeral (text : Bytes) : Value :=
  match integerLiteral? text with
  | some n => .ofInt64 n
  | none =>
    let (negative, rest) := splitSign text
    match decimalForm? rest with
    | some form => .double (.ofDecimal negative form.digits form.exponent)
    | none => .double .nan

mutual

/-- The value of a document; of members of one name the last one counts. -/
def ofJson : Json → Value
  | .null => .null
  | .bool b => .bool b
  | .number numeral => ofNumeral numeral
  | .string s => .text s
  | .array items => .list .general (ofJsonItems items)
  | .object members => .map .text (ofJsonMembers [] members)

def ofJsonItems : List Json → List Value
  | [] => []
  | item :: rest => ofJson item :: ofJsonItems rest

def ofJsonMembers (done : List (Value × Value)) : List (Bytes × Json) → List (Value × Value)
  | [] => done
  | (name, item) :: rest => ofJsonMembers (insertEntry (.text name) (ofJson item) done) rest

end

/-- Reads a JSON text as a value. -/
def readJson (text : Bytes) : Except JsonError Value :=
  if (Utf8.trim text).isEmpty then .error .empty
  else
    match Json.read? Json.greedyText text.length text with
    | some document => .ok (ofJson document)
    | none => .error (.malformed text)

/-- The member name that a map key becomes. -/
def memberName : Value → Bytes
  | .bool b => if b then "true" else "false"
  | .int _ n => decimalInt n
  | .double x => x.text .plain
  | .single x => x.text .plain
  | .text s => s
  | .foreign v => if v.speaks then v.shown else []
  | _ => []

mutual

/-- The value with every map of arbitrary keys turned into one of texts. Lists
and maps of one element type are left alone. -/
def withTextKeys : Value → Value
  | .list .general items => .list .general (itemsWithTextKeys items)
  | .list .absent items => .list .general (itemsWithTextKeys items)
  | .map .general entries => .map .text (entriesWithTextKeys entries)
  | .map .text entries => .map .text (entriesWithTextKeys entries)
  | .map .absent entries => .map .text (entriesWithTextKeys entries)
  | v => v

def itemsWithTextKeys : List Value → List Value
  | [] => []
  | v :: rest => v.withTextKeys :: itemsWithTextKeys rest

def entriesWithTextKeys : List (Value × Value) → List (Value × Value)
  | [] => []
  | (k, v) :: rest => insertEntry (.text k.memberName) v.withTextKeys (entriesWithTextKeys rest)

end

def octetOf : Value → UInt8
  | .int _ n => n.toNat.toUInt8
  | _ => 0

/-- A float as a JSON number; infinities and not-a-number have none. -/
def numeralOf {f : Format} (x : Binary f) : Except EncodeError Json :=
  if x.isFinite then .ok (.number (x.text .json)) else .error (.unsupportedNumber (x.text .general))

/-- The members of an object, or the first failure among them. -/
def collectMembers : List (Bytes × Except EncodeError Json) → Except EncodeError (List (Bytes × Json))
  | [] => .ok []
  | (_, .error e) :: _ => .error e
  | (name, .ok document) :: rest =>
    match collectMembers rest with
    | .error e => .error e
    | .ok members => .ok ((name, document) :: members)

mutual

/-- The document of a value, with the members of an object in order of their
names. The keys of a map of any keys must have a number or a text as document. -/
def toJson : Value → Except EncodeError Json
  | .null => .ok .null
  | .bool b => .ok (.bool b)
  | .int _ n => .ok (.number (decimalInt n))
  | .double x => numeralOf x
  | .single x => numeralOf x
  | .text s => .ok (.string s)
  | .list .octets items => .ok (.string (Base64.encode (items.map octetOf)))
  | .list .absent _ => .ok .null
  | .list _ items =>
    match toJsonItems items with
    | .ok documents => .ok (.array documents)
    | .error e => .error e
  | .map .absent _ => .ok .null
  | .map .general entries =>
    match collectMembers (sortBy (·.1) (toJsonNamed entries)) with
    | .ok members => .ok (.object members)
    | .error e => .error e
  | .map _ entries =>
    match collectMembers (sortBy (·.1) (toJsonMembers entries)) with
    | .ok members => .ok (.object members)
    | .error e => .error e
  | .foreign v =>
    match v.json with
    | some document => .ok document
    | none => .error (.unsupportedType v.typeName)

def toJsonItems : List Value → Except EncodeError (List Json)
  | [] => .ok []
  | v :: rest =>
    match v.toJson with
    | .error e => .error e
    | .ok document =>
      match toJsonItems rest with
      | .error e => .error e
      | .ok documents => .ok (document :: documents)

def toJsonMembers : List (Value × Value) → List (Bytes × Except EncodeError Json)
  | [] => []
  | (k, v) :: rest => (k.memberName, v.toJson) :: toJsonMembers rest

/-- Entries under the names that the documents of their keys give. -/
def toJsonNamed : List (Value × Value) → List (Bytes × Except EncodeError Json)
  | [] => []
  | (k, v) :: rest =>
    (match k.toJson with
      | .ok (.number name) => (name, v.toJson)
      | .ok (.string name) => (name, v.toJson)
      | .ok _ => ([], .error (.unsupportedType k.typeName))
      | .error e => ([], .error e)) :: toJsonNamed rest

end

/-- The JSON text of a value, whatever the keys of its maps are. -/
def jsonText (v : Value) : Except EncodeError Bytes :=
  match v.withTextKeys.toJson with
  | .ok document => .ok document.write
  | .error e => .error e

end Value

end Conform
