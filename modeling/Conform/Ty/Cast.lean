import Conform.Ty.Accepts
import Conform.Ty.CastError
import Conform.Value.Scalar

/-! Conversion of values into types. Lists become lists, arrays become maps with
converted keys, shapes become maps of exactly the declared elements. The first
element that cannot be converted decides the error. The conversions on
containers take those of their parts, so that compiled programs share them. -/
namespace Conform

abbrev Conversion := Value → Except CastError Value

/-- Converts the elements of a list from an index on. -/
def castItems (element : Conversion) (i : Nat) : List Value → Except CastError (List Value)
  | [] => .ok []
  | v :: rest =>
    match element v with
    | .error e => .error (.element (decimalNat i) e)
    | .ok w =>
      match castItems element (i + 1) rest with
      | .error e => .error e
      | .ok ws => .ok (w :: ws)

def castList (expected : Bytes) (element : Conversion) (v : Value) : Except CastError Value :=
  match v with
  | .list _ items =>
    match castItems element 0 items with
    | .ok converted => .ok (.list .general converted)
    | .error e => .error e
  | v => .error (.notContainer v.kindName expected)

/-- Converts entries after those already converted. A converted key that is
already there gets the new value. -/
def castEntries (key value : Conversion) (done : List (Value × Value)) :
    List Entry → Except CastError (List (Value × Value))
  | [] => .ok done
  | e :: rest =>
    match key e.key with
    | .error fault => .error (.element e.key.keyText fault)
    | .ok k =>
      match value e.value with
      | .error fault => .error (.element e.key.keyText fault)
      | .ok v => castEntries key value (Value.insertEntry k v done) rest

def castArray (expected : Bytes) (key value : Conversion) (v : Value) : Except CastError Value :=
  match v.entries? with
  | none => .error (.notContainer v.kindName expected)
  | some entries =>
    match castEntries key value [] entries with
    | .ok converted => .ok (.map .general converted)
    | .error e => .error e

/-- Converts the declared elements of a shape; what is left of the entries was
not declared. -/
def castFields (expected : Bytes) : List (Field Conversion) → List Entry →
    Except CastError (List (Value × Value) × List Entry)
  | [], left => .ok ([], left)
  | f :: rest, entries =>
    match lookupText f.key entries with
    | none =>
      if f.optional then castFields expected rest entries
      else .error (.missing f.key expected)
    | some x =>
      match f.type x with
      | .error e => .error (.element f.key e)
      | .ok y =>
        match castFields expected rest (withoutText f.key entries) with
        | .error e => .error e
        | .ok (converted, left) => .ok ((.text f.key, y) :: converted, left)

def castShape (expected : Bytes) (fields : List (Field Conversion)) (v : Value) :
    Except CastError Value :=
  match v.entries? with
  | none => .error (.notContainer v.kindName expected)
  | some entries =>
    match castFields expected fields entries with
    | .error e => .error e
    | .ok (converted, []) => .ok (.map .text converted)
    | .ok (_, left) => .error (.unexpected (sortBy id (left.map fun e => e.key.keyText)) expected)

/-- The integer reading is preferred, the way numeric keys become integers. -/
def KeyKind.cast (kind : KeyKind) (v : Value) : Except CastError Value :=
  match if kind.integers then v.castInteger else none with
  | some n => .ok (.ofInt64 n)
  | none =>
    match if kind.strings then v.castText else none with
    | some s => .ok (.text s)
    | none => .error (.wrongKind v.kindName (.arrayKey kind))

def KeyKind.canCast (kind : KeyKind) (v : Value) : Bool :=
  (kind.integers && v.canCastInteger) || (kind.strings && v.canCastText)

namespace Ty

mutual

/-- Converts a value into the type. -/
def cast : Ty → Value → Except CastError Value
  | .mixed, v => .ok v
  | .null, v => if v.isNull then .ok .null else .error (.wrongKind v.kindName .null)
  | .bool, v =>
    match v.castBool with
    | some b => .ok (.bool b)
    | none => .error (.wrongKind v.kindName .bool)
  | .integer, v =>
    match v.castInteger with
    | some n => .ok (.ofInt64 n)
    | none => .error (.wrongKind v.kindName .integer)
  | .float, v =>
    match v.castDouble with
    | some x => .ok (.double x)
    | none => .error (.wrongKind v.kindName .float)
  | .string, v =>
    match v.castText with
    | some s => .ok (.text s)
    | none => .error (.wrongKind v.kindName .string)
  | .boolLit value, v =>
    match v.castBool with
    | none => .error (.wrongKind v.kindName (.boolLit value))
    | some b => if b = value then .ok (.bool b) else .error (.differs (.bool b) (.boolLit value))
  | .integerLit value, v =>
    match v.castInteger with
    | none => .error (.wrongKind v.kindName (.integerLit value))
    | some n =>
      if n = value then .ok (.ofInt64 n) else .error (.differs (.ofInt64 n) (.integerLit value))
  | .floatLit value, v =>
    match v.castDouble with
    | none => .error (.wrongKind v.kindName (.floatLit value))
    | some x =>
      if x.equal value then .ok (.double x) else .error (.differs (.double x) (.floatLit value))
  | .stringLit value quote, v =>
    match v.castText with
    | none => .error (.wrongKind v.kindName (.stringLit value quote))
    | some s =>
      if s = value then .ok (.text s) else .error (.differs (.text s) (.stringLit value quote))
  | .arrayKey kind, v => kind.cast v
  | .union members, v =>
    match castFirst members v with
    | .ok w => .ok w
    | .error attempts => .error (.noMember v.kindName (Ty.union members).text attempts)
  | .array key value, v => castArray (Ty.array key value).text key.cast value.cast v
  | .list value, v => castList (Ty.list value).text value.cast v
  | .shape fields, v => castShape (Ty.shape fields).text (fieldCasts fields) v
  | .unknown name accepted, v =>
    if accepted then .ok v else .error (.wrongKind v.kindName (.unknown name accepted))

/-- The result of the first member that converts the value, or every error. -/
def castFirst : List Ty → Value → Except (List CastError) Value
  | [], _ => .error []
  | t :: rest, v =>
    match t.cast v with
    | .ok w => .ok w
    | .error e =>
      match castFirst rest v with
      | .ok w => .ok w
      | .error es => .error (e :: es)

def fieldCasts : List (Field Ty) → List (Field Conversion)
  | [] => []
  | f :: rest => ⟨f.key, f.optional, f.type.cast⟩ :: fieldCasts rest

end

mutual

/-- The kind of the value allows a conversion, whatever comes of its parts. -/
def canCast : Ty → Value → Bool
  | .mixed, _ => true
  | .null, v => v.isNull
  | .bool, v => v.canCastBool
  | .integer, v => v.canCastInteger
  | .float, v => v.canCastDouble
  | .string, v => v.canCastText
  | .boolLit _, v => v.canCastBool
  | .integerLit _, v => v.canCastInteger
  | .floatLit _, v => v.canCastDouble
  | .stringLit .., v => v.canCastText
  | .arrayKey kind, v => kind.canCast v
  | .union members, v => anyCanCast members v
  | .array .., v => v.entries?.isSome
  | .list _, v => v.isList
  | .shape _, v => v.entries?.isSome
  | .unknown _ accepted, _ => accepted

/-- Some member allows a conversion or already accepts the value. -/
def anyCanCast : List Ty → Value → Bool
  | [], _ => false
  | t :: rest, v => t.canCast v || t.accepts v || anyCanCast rest v

end

end Ty

end Conform
