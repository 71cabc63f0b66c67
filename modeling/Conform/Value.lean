import Conform.Binary.Text
import Conform.Json

/-! Host values: what a caller hands over to be checked or converted. Beside
null, booleans, numbers of every machine width, text, lists and maps there are
foreign values, of which only a type name and a printed form are known. -/
namespace Conform

/-- The machine types of integers. -/
inductive IntKind where
  | int | int8 | int16 | int32 | int64
  | uint | uint8 | uint16 | uint32 | uint64
  deriving DecidableEq, Repr

def IntKind.typeName : IntKind → Bytes
  | .int => "int"
  | .int8 => "int8"
  | .int16 => "int16"
  | .int32 => "int32"
  | .int64 => "int64"
  | .uint => "uint"
  | .uint8 => "uint8"
  | .uint16 => "uint16"
  | .uint32 => "uint32"
  | .uint64 => "uint64"

/-- How a host holds a list: of anything, of one element type, of fixed length,
under a type name of its own, or not at all, which counts as empty. -/
inductive ListKind where
  | general | ints | strings | octets | fixed | named | absent
  deriving DecidableEq, Repr

/-- How a host holds a map: by its key and element types, or not at all, which
counts as empty. -/
inductive MapKind where
  | text | general | textToInt | intToText | absent
  deriving DecidableEq, Repr

/-- A value outside the algebra: the name of its type, its printed form, whether
that form is a text the value gives of itself, and its JSON document if it has
one. -/
structure Foreign where
  typeName : Bytes
  shown : Bytes
  speaks : Bool
  json : Option Json
  deriving Repr

inductive Value where
  | null
  | bool (b : Bool)
  | int (kind : IntKind) (n : Int)
  | double (x : Double)
  | single (x : Single)
  | text (s : Bytes)
  | list (kind : ListKind) (items : List Value)
  | map (kind : MapKind) (entries : List (Value × Value))
  | foreign (v : Foreign)
  deriving Repr, Inhabited

namespace Value

/-- The integer of 64 bits that a value of any integer type is. -/
def toInteger? : Value → Option Int64
  | .int _ n => if inInt64 n then some (Int64.ofInt n) else none
  | _ => none

/-- The number that a value of either float type is. -/
def toDouble? : Value → Option Double
  | .double x => some x
  | .single x => some x.convert
  | _ => none

/-- The result of a conversion to an integer. -/
def ofInt64 (n : Int64) : Value := .int .int64 n.toInt

def ofNat (n : Nat) : Value := .int .int (n : Int)

/-- The host's name of a value's type. -/
def typeName : Value → Bytes
  | .null => "<nil>"
  | .bool _ => "bool"
  | .int kind _ => kind.typeName
  | .double _ => "float64"
  | .single _ => "float32"
  | .text _ => "string"
  | .list .general _ => "[]interface \x7b\x7d"
  | .list .ints _ => "[]int"
  | .list .strings _ => "[]string"
  | .list .octets _ => "[]uint8"
  | .list .fixed items => "[" ++ decimalNat items.length ++ "]interface \x7b\x7d"
  | .list .named _ => "main.NamedList"
  | .list .absent _ => "[]interface \x7b\x7d"
  | .map .text _ => "map[string]interface \x7b\x7d"
  | .map .general _ => "map[interface \x7b\x7d]interface \x7b\x7d"
  | .map .textToInt _ => "map[string]int"
  | .map .intToText _ => "map[int]string"
  | .map .absent _ => "map[string]interface \x7b\x7d"
  | .foreign v => v.typeName

/-- The kind of a value as messages name it. -/
def kindName : Value → Bytes
  | .null => "null"
  | .bool _ => "bool"
  | .text _ => "string"
  | .double _ => "float"
  | .single _ => "float"
  | .list .. => "array"
  | .map .. => "array"
  | .int kind n => if inInt64 n then "int" else kind.typeName
  | .foreign v => v.typeName

def isInteger (v : Value) : Bool := v.toInteger?.isSome

def isFloat (v : Value) : Bool := v.toDouble?.isSome

def isText : Value → Bool
  | .text _ => true
  | _ => false

def isBool : Value → Bool
  | .bool _ => true
  | _ => false

def isNull : Value → Bool
  | .null => true
  | _ => false

def isList : Value → Bool
  | .list .. => true
  | _ => false

/-- The value is the given integer, whatever its width. -/
def equalsInteger (v : Value) (n : Int64) : Bool := v.toInteger? == some n

/-- The value is numerically equal to the given float, whatever its width. -/
def equalsDouble (v : Value) (x : Double) : Bool :=
  match v.toDouble? with
  | some y => y.equal x
  | none => false

def equalsText (v : Value) (s : Bytes) : Bool :=
  match v with
  | .text t => t == s
  | _ => false

def equalsBool (v : Value) (b : Bool) : Bool :=
  match v with
  | .bool c => c == b
  | _ => false

/-- Two values are the same map key: one type and equal values. -/
def sameKey : Value → Value → Bool
  | .null, .null => true
  | .bool a, .bool b => a == b
  | .int k m, .int l n => k == l && m == n
  | .double x, .double y => x.equal y
  | .single x, .single y => x.equal y
  | .text s, .text t => s == t
  | .foreign v, .foreign w => v.typeName == w.typeName && v.shown == w.shown
  | _, _ => false

/-- Sets a key of a map; a key that is already there gives way to the new one. -/
def insertEntry (key value : Value) : List (Value × Value) → List (Value × Value)
  | [] => [(key, value)]
  | entry :: rest =>
    if sameKey entry.1 key then (key, value) :: rest else entry :: insertEntry key value rest

end Value

end Conform
