import Conform.Source.Expr

/-! The expression of a type. Function literals get a parameter of their own,
numbered in the order in which they are written. -/
namespace Conform.Source

/-- What is emitted, with the number of parameters used so far, or the component
of unknown variant that has no expression. -/
abbrev Emitted (α : Type) := Except Ty (α × Nat)

def keyTest (var : Nat) : KeyKind → Expr
  | .any => .any [.isFamily .integer var, .isFamily .string var]
  | .integer => .isFamily .integer var
  | .string => .isFamily .string var

mutual

/-- The test of a variable for membership in a type. -/
def emit (var used : Nat) : Ty → Emitted Expr
  | .mixed => .ok (.always, used)
  | .null => .ok (.isNull var, used)
  | .bool => .ok (.isFamily .bool var, used)
  | .integer => .ok (.isFamily .integer var, used)
  | .float => .ok (.isFamily .float var, used)
  | .string => .ok (.isFamily .string var, used)
  | .boolLit value => .ok (.equalsBool var value, used)
  | .integerLit value => .ok (.equalsInteger var value, used)
  | .floatLit value =>
    match value with
    | .nan => .ok (.never, used)
    | value => .ok (.equalsFloat var value, used)
  | .stringLit value _ => .ok (.equalsText var value, used)
  | .arrayKey kind => .ok (keyTest var kind, used)
  | .union members =>
    match emitAll var used members with
    | .error e => .error e
    | .ok (tests, used) => .ok (.any tests, used)
  | .array key value =>
    match emit (used + 2) (used + 2) value with
    | .error e => .error e
    | .ok (body, next) =>
      .ok (.acceptsArray var (.mk (used + 1) (keyTest (used + 1) key)) (.mk (used + 2) body), next)
  | .list value =>
    match emit (used + 1) (used + 1) value with
    | .error e => .error e
    | .ok (body, next) => .ok (.acceptsList var (.mk (used + 1) body), next)
  | .shape fields =>
    match emitFields used fields with
    | .error e => .error e
    | .ok (checks, used) => .ok (.acceptsShape var checks, used)
  | .unknown name accepted => .error (.unknown name accepted)

def emitAll (var used : Nat) : List Ty → Emitted (List Expr)
  | [] => .ok ([], used)
  | t :: rest =>
    match emit var used t with
    | .error e => .error e
    | .ok (first, used) =>
      match emitAll var used rest with
      | .error e => .error e
      | .ok (others, used) => .ok (first :: others, used)

def emitFields (used : Nat) : List (Field Ty) → Emitted (List (Field Predicate))
  | [] => .ok ([], used)
  | f :: rest =>
    match emit (used + 1) (used + 1) f.type with
    | .error e => .error e
    | .ok (body, next) =>
      match emitFields next rest with
      | .error e => .error e
      | .ok (others, next) => .ok (⟨f.key, f.optional, .mk (used + 1) body⟩ :: others, next)

end

end Conform.Source
