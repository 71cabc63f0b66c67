import Conform.Ty
import Conform.Value.Entries

/-! Membership of values in types, without conversion. The tests on containers
take the tests of their parts, so that compiled programs share them. -/
namespace Conform

/-- A list whose elements all pass. -/
def acceptsList (element : Value → Bool) (v : Value) : Bool :=
  match v with
  | .list _ items => items.all element
  | _ => false

/-- A container whose keys and values all pass. -/
def acceptsArray (key value : Value → Bool) (v : Value) : Bool :=
  match v.entries? with
  | some entries => entries.all fun e => key e.key && value e.value
  | none => false

/-- A container with exactly the declared keys, absent optional ones aside, whose
values pass. -/
def acceptsShape (fields : List (Field (Value → Bool))) (v : Value) : Bool :=
  match v.entries? with
  | none => false
  | some entries =>
    (fields.all fun f =>
      match lookupText f.key entries with
      | some x => f.type x
      | none => f.optional) &&
    (fields.filter fun f => (lookupText f.key entries).isSome).length == entries.length

def KeyKind.accepts (kind : KeyKind) (v : Value) : Bool :=
  (kind.integers && v.isInteger) || (kind.strings && v.isText)

namespace Ty

mutual

/-- The value belongs to the type. -/
def accepts : Ty → Value → Bool
  | .mixed, _ => true
  | .null, v => v.isNull
  | .bool, v => v.isBool
  | .integer, v => v.isInteger
  | .float, v => v.isFloat
  | .string, v => v.isText
  | .boolLit value, v => v.equalsBool value
  | .integerLit value, v => v.equalsInteger value
  | .floatLit value, v => v.equalsDouble value
  | .stringLit value _, v => v.equalsText value
  | .arrayKey kind, v => kind.accepts v
  | .union members, v => anyAccepts members v
  | .array key value, v => acceptsArray key.accepts value.accepts v
  | .list value, v => acceptsList value.accepts v
  | .shape fields, v => acceptsShape (fieldTests fields) v
  | .unknown _ accepted, _ => accepted

/-- Some member accepts the value. -/
def anyAccepts : List Ty → Value → Bool
  | [], _ => false
  | t :: rest, v => t.accepts v || anyAccepts rest v

def fieldTests : List (Field Ty) → List (Field (Value → Bool))
  | [] => []
  | f :: rest => ⟨f.key, f.optional, f.type.accepts⟩ :: fieldTests rest

end

end Ty

end Conform
