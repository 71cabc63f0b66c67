import Conform.Ty.Render

/-! Programs: a type as a tree of operations that can be stored and loaded again.
Every node carries the written form of the type it comes from, which errors
quote. A stored tree may hold anything, so operations are kept by name and
operands may be absent. -/
namespace Conform

inductive Operation where
  | mixed | null | bool | integer | float | string
  | boolLit | integerLit | floatLit | stringLit
  | arrayKey | union | array | list | shape | element
  deriving DecidableEq, Repr

namespace Operation

def name : Operation → Bytes
  | .mixed => "mixed"
  | .null => "null"
  | .bool => "bool"
  | .integer => "int"
  | .float => "float"
  | .string => "string"
  | .boolLit => "bool_value"
  | .integerLit => "int_value"
  | .floatLit => "float_value"
  | .stringLit => "string_value"
  | .arrayKey => "array_key"
  | .union => "union"
  | .array => "array"
  | .list => "list"
  | .shape => "shape"
  | .element => "element"

def all : List Operation :=
  [.mixed, .null, .bool, .integer, .float, .string, .boolLit, .integerLit, .floatLit, .stringLit,
    .arrayKey, .union, .array, .list, .shape, .element]

def ofName? (name : Bytes) : Option Operation := all.find? fun op => op.name == name

end Operation

/-- One operation with its operands. The literal, quote and keys describe
literals and array keys; the key and the flag describe elements of shapes. -/
structure Node where
  op : Bytes
  type : Bytes
  literal : Bytes
  quote : Bytes
  keys : Bytes
  key : Bytes
  optional : Bool
  children : List (Option Node)
  deriving Repr

structure Program where
  signature : Bytes
  root : Option Node
  deriving Repr

namespace Node

def empty : Node := ⟨[], [], [], [], [], [], false, []⟩

def simple (op : Operation) (type : Bytes) : Node := { empty with op := op.name, type }

def withLiteral (op : Operation) (type literal : Bytes) : Node :=
  { empty with op := op.name, type, literal }

def withChildren (op : Operation) (type : Bytes) (children : List Node) : Node :=
  { empty with op := op.name, type, children := children.map some }

end Node

def Quote.name : Quote → Bytes
  | .none => []
  | .single => "single"
  | .double => "double"

def Quote.ofName (name : Bytes) : Quote :=
  if name = "single" then .single else if name = "double" then .double else .none

def KeyKind.keysName : KeyKind → Bytes
  | .any => "int|string"
  | .integer => "int"
  | .string => "string"

def KeyKind.ofKeysName? (name : Bytes) : Option KeyKind :=
  if name = "int|string" then some .any
  else if name = "int" then some .integer
  else if name = "string" then some .string
  else none

def truthName (b : Bool) : Bytes := if b then "true" else "false"

def KeyKind.node (kind : KeyKind) : Node :=
  { Node.simple .arrayKey (kind.render .written) with keys := kind.keysName }

namespace Ty

mutual

/-- The tree of a type. A component of unknown variant has none, and is the
failure. -/
def node : Ty → Except Ty Node
  | .mixed => .ok (.simple .mixed (Ty.text .mixed))
  | .null => .ok (.simple .null (Ty.text .null))
  | .bool => .ok (.simple .bool (Ty.text .bool))
  | .integer => .ok (.simple .integer (Ty.text .integer))
  | .float => .ok (.simple .float (Ty.text .float))
  | .string => .ok (.simple .string (Ty.text .string))
  | .boolLit value => .ok (.withLiteral .boolLit (Ty.boolLit value).text (truthName value))
  | .integerLit value =>
    .ok (.withLiteral .integerLit (Ty.integerLit value).text (decimalInt value.toInt))
  | .floatLit value => .ok (.withLiteral .floatLit (Ty.floatLit value).text (value.text .general))
  | .stringLit value quote =>
    .ok { Node.withLiteral .stringLit (Ty.stringLit value quote).text value with quote := quote.name }
  | .arrayKey kind => .ok kind.node
  | .union members =>
    match nodes members with
    | .ok children => .ok (.withChildren .union (Ty.union members).text children)
    | .error e => .error e
  | .array key value =>
    match value.node with
    | .ok child => .ok (.withChildren .array (Ty.array key value).text [key.node, child])
    | .error e => .error e
  | .list value =>
    match value.node with
    | .ok child => .ok (.withChildren .list (Ty.list value).text [child])
    | .error e => .error e
  | .shape fields =>
    match elementNodes fields with
    | .ok children => .ok (.withChildren .shape (Ty.shape fields).text children)
    | .error e => .error e
  | .unknown name accepted => .error (.unknown name accepted)

def nodes : List Ty → Except Ty (List Node)
  | [] => .ok []
  | t :: rest =>
    match t.node with
    | .error e => .error e
    | .ok first =>
      match nodes rest with
      | .error e => .error e
      | .ok others => .ok (first :: others)

def elementNodes : List (Field Ty) → Except Ty (List Node)
  | [] => .ok []
  | f :: rest =>
    match f.type.node with
    | .error e => .error e
    | .ok first =>
      match elementNodes rest with
      | .error e => .error e
      | .ok others =>
        .ok ({ Node.withChildren .element f.type.text [first] with
          key := f.key, optional := f.optional } :: others)

end

/-- The program of a type. -/
def program (t : Ty) : Except Ty Program :=
  match t.node with
  | .ok root => .ok ⟨t.signature, some root⟩
  | .error e => .error e

end Ty

end Conform
