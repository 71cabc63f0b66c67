import Conform.Value

/-! Types over host values: the families, literals of one value, array keys,
unions, arrays, lists and shapes. A type of unknown variant stands for one that
the algebra can hold without understanding it. -/
namespace Conform

/-- The quoting style of a string literal. It only affects rendering. -/
inductive Quote where
  | none | single | double
  deriving DecidableEq, Repr

/-- The keys an array admits. -/
inductive KeyKind where
  | any | integer | string
  deriving DecidableEq, Repr

namespace KeyKind

def integers : KeyKind → Bool
  | .string => false
  | _ => true

def strings : KeyKind → Bool
  | .integer => false
  | _ => true

end KeyKind

/-- One declared element of a shape. -/
structure Field (α : Type) where
  key : Bytes
  optional : Bool
  type : α
  deriving Repr

inductive Ty where
  | mixed
  | null
  | bool
  | integer
  | float
  | string
  | boolLit (value : Bool)
  | integerLit (value : Int64)
  | floatLit (value : Double)
  | stringLit (value : Bytes) (quote : Quote)
  | arrayKey (kind : KeyKind)
  | union (members : List Ty)
  | array (key : KeyKind) (value : Ty)
  | list (value : Ty)
  | shape (fields : List (Field Ty))
  | unknown (name : Bytes) (accepted : Bool)
  deriving Repr, Inhabited

/-- The variants of types. -/
inductive Kind where
  | mixed | null | bool | boolLit | integer | integerLit | float | floatLit | string | stringLit
  | arrayKey | union | array | list | shape
  deriving DecidableEq, Repr

namespace Kind

def name : Kind → Bytes
  | .mixed => "Mixed"
  | .null => "Null"
  | .bool => "Bool"
  | .boolLit => "BoolValue"
  | .integer => "Integer"
  | .integerLit => "IntegerValue"
  | .float => "Float"
  | .floatLit => "FloatValue"
  | .string => "String"
  | .stringLit => "StringValue"
  | .arrayKey => "ArrayKey"
  | .union => "Union"
  | .array => "Array"
  | .list => "List"
  | .shape => "ShapedArray"

/-- The variants in the order of their numbers. -/
def all : List Kind :=
  [.mixed, .null, .bool, .boolLit, .integer, .integerLit, .float, .floatLit, .string, .stringLit,
    .arrayKey, .union, .array, .list, .shape]

/-- The name of a variant, or of none. -/
def nameOf : Option Kind → Bytes
  | some kind => kind.name
  | none => "Unknown"

def ofNumber? (n : Int) : Option Kind := if n < 0 then none else all[n.toNat]?

end Kind

namespace Ty

/-- The variant of a type, unless it is unknown. -/
def kind? : Ty → Option Kind
  | .mixed => some .mixed
  | .null => some .null
  | .bool => some .bool
  | .integer => some .integer
  | .float => some .float
  | .string => some .string
  | .boolLit _ => some .boolLit
  | .integerLit _ => some .integerLit
  | .floatLit _ => some .floatLit
  | .stringLit .. => some .stringLit
  | .arrayKey _ => some .arrayKey
  | .union _ => some .union
  | .array .. => some .array
  | .list _ => some .list
  | .shape _ => some .shape
  | .unknown .. => none

def isMixed : Ty → Bool
  | .mixed => true
  | _ => false

end Ty

end Conform
