import Conform.Ty

/-! Compatibility of types: whether the values of one are meant to be values of
another. Unions on the left must match with every member, unions on the right
with some member; an array key stands for its integer and its string half. -/
namespace Conform

/-- The keys of one kind are keys of the other. -/
def KeyKind.fits (kind other : KeyKind) : Bool :=
  (!kind.integers || other.integers) && (!kind.strings || other.strings)

/-- The kind of keys that admits a shape's key: an integer when the text is an
integer literal in range, a string otherwise. -/
def KeyKind.admitsText (kind : KeyKind) (key : Bytes) : Bool :=
  if (integerLiteral? key).isSome then kind.integers else kind.strings

def findField (key : Bytes) : List (Field Ty) → Option (Field Ty)
  | [] => none
  | f :: rest => if f.key = key then some f else findField key rest

namespace Ty

mutual

/-- The type, or some member of it when it is a union, passes. -/
def someMember (test : Ty → Bool) : Ty → Bool
  | .union members => someOf test members
  | t => test t

def someOf (test : Ty → Bool) : List Ty → Bool
  | [] => false
  | t :: rest => t.someMember test || someOf test rest

end

/-- Every integer belongs to the type, which is no union. -/
def holdsIntegers : Ty → Bool
  | .integer => true
  | .mixed => true
  | .arrayKey kind => kind.integers
  | _ => false

/-- Every string belongs to the type, which is no union. -/
def holdsStrings : Ty → Bool
  | .string => true
  | .mixed => true
  | .arrayKey kind => kind.strings
  | _ => false

mutual

/-- The first type is compatible with the second. -/
def fits : Ty → Ty → Bool
  | .mixed, _ => true
  | .null, other => other.someMember fun
    | .null => true
    | .mixed => true
    | _ => false
  | .bool, other => other.someMember fun
    | .bool => true
    | .mixed => true
    | _ => false
  | .integer, other => other.someMember holdsIntegers
  | .float, other => other.someMember fun
    | .float => true
    | .mixed => true
    | _ => false
  | .string, other => other.someMember holdsStrings
  | .boolLit value, other => other.someMember fun
    | .boolLit value' => value == value'
    | .bool => true
    | .mixed => true
    | _ => false
  | .integerLit value, other => other.someMember fun
    | .integerLit value' => value == value'
    | t => t.holdsIntegers
  | .floatLit value, other => other.someMember fun
    | .floatLit value' => value.equal value'
    | .float => true
    | .mixed => true
    | _ => false
  | .stringLit value _, other => other.someMember fun
    | .stringLit value' _ => value == value'
    | t => t.holdsStrings
  | .arrayKey kind, other =>
    (!kind.integers || other.someMember holdsIntegers) &&
      (!kind.strings || other.someMember holdsStrings)
  | .union members, other => allFit members other
  | .array key value, other => other.someMember fun
    | .array key' value' => key.fits key' && value.fits value'
    | .mixed => true
    | _ => false
  | .list value, other => other.someMember fun
    | .list value' => value.fits value'
    | .array key' value' => key'.integers && value.fits value'
    | .mixed => true
    | _ => false
  | .shape fields, other => other.someMember fun
    | .shape fields' =>
      fieldsFit fields fields' &&
        fields'.all fun f => f.optional || fields.any fun g => g.key == f.key
    | .array key' value' => fieldsFitArray fields key' value'
    | .mixed => true
    | _ => false
  | .unknown name _, other => other.someMember fun
    | .unknown name' _ => name == name'
    | _ => false
termination_by structural t => t

/-- Every member matches. -/
def allFit : List Ty → Ty → Bool
  | [], _ => true
  | t :: rest, other => t.fits other && allFit rest other
termination_by structural members => members

/-- Every field has a counterpart that is optional if the field is. -/
def fieldsFit : List (Field Ty) → List (Field Ty) → Bool
  | [], _ => true
  | f :: rest, others =>
    (match findField f.key others with
      | some other => (!f.optional || other.optional) && f.type.fits other.type
      | none => false) &&
    fieldsFit rest others
termination_by structural fields => fields

/-- Every field could be an element of the array. -/
def fieldsFitArray : List (Field Ty) → KeyKind → Ty → Bool
  | [], _, _ => true
  | f :: rest, key, value =>
    key.admitsText f.key && f.type.fits value && fieldsFitArray rest key value
termination_by structural fields => fields

end

/-- What a union or an array key says of a candidate: a union that the candidate
matches some member, an array key that it only produces keys of its kind. -/
def isMatchedBy? : Ty → Ty → Option Bool
  | .union members, candidate => some (members.any fun m => candidate.fits m)
  | .arrayKey _, .mixed => some false
  | .arrayKey kind, candidate => some (candidate.fits (.arrayKey kind))
  | _, _ => none

end Ty

end Conform
