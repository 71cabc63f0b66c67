import Conform.Value

/-! What a caller sees of a failure: a code for machines, a message for people,
details by name, and the failures it comes from. -/
namespace Conform

inductive Code where
  | forbiddenMixedType
  | invalidUnion
  | invalidValueType
  | invalidValue
  | unionCastFailed
  | unhandledSpecification
  | unsupportedType
  | invalidDeclaration
  | invalidArtifact
  | invalidConfig
  | invalidArgument
  | notFound
  | methodNotAllowed
  | canceled
  | deadlineExceeded
  | internal
  | unlisted (name : Bytes)
  deriving DecidableEq, Repr

namespace Code

def name : Code → Bytes
  | .forbiddenMixedType => "forbidden_mixed_type"
  | .invalidUnion => "invalid_union"
  | .invalidValueType => "invalid_value_type"
  | .invalidValue => "invalid_value"
  | .unionCastFailed => "union_cast_failed"
  | .unhandledSpecification => "unhandled_specification"
  | .unsupportedType => "unsupported_type"
  | .invalidDeclaration => "invalid_declaration"
  | .invalidArtifact => "invalid_artifact"
  | .invalidConfig => "invalid_config"
  | .invalidArgument => "invalid_argument"
  | .notFound => "not_found"
  | .methodNotAllowed => "method_not_allowed"
  | .canceled => "canceled"
  | .deadlineExceeded => "deadline_exceeded"
  | .internal => "internal"
  | .unlisted name => name

def listed : List Code :=
  [.forbiddenMixedType, .invalidUnion, .invalidValueType, .invalidValue, .unionCastFailed,
    .unhandledSpecification, .unsupportedType, .invalidDeclaration, .invalidArtifact, .invalidConfig,
    .invalidArgument, .notFound, .methodNotAllowed, .canceled, .deadlineExceeded, .internal]

/-- The code of a name. -/
def ofName (name : Bytes) : Code := (listed.find? fun code => code.name == name).getD (.unlisted name)

end Code

/-- Named values that explain a failure; a name set again keeps its latest value. -/
abbrev Details := List (Bytes × Value)

def Details.set (key : Bytes) (value : Value) : Details → Details
  | [] => [(key, value)]
  | (k, v) :: rest => if k = key then (key, value) :: rest else (k, v) :: Details.set key value rest

/-- A failure. A plain one has only a message; a coded one may come from one
failure, or from one failure for each of several attempts. -/
inductive Report where
  | plain (message : Bytes)
  | coded (code : Code) (message : Bytes) (details : Details) (cause : Option Report)
      (attempts : List Report)
  deriving Repr, Inhabited

namespace Report

def message : Report → Bytes
  | .plain message => message
  | .coded _ message .. => message

def code? : Report → Option Code
  | .plain _ => none
  | .coded code .. => some code

def details : Report → Details
  | .plain _ => []
  | .coded _ _ details .. => details

/-- A coded failure of no other origin. -/
def simple (code : Code) (message : Bytes) (details : Details) : Report :=
  .coded code message details none []

/-- The failure with one more detail. -/
def withDetail (key : Bytes) (value : Value) : Report → Report
  | .plain message => .plain message
  | .coded code message details cause attempts =>
    .coded code message (details.set key value) cause attempts

/-- The failure with its context before the message. It keeps its code, and the
details stay with the failure inside. -/
def wrapped (context : Bytes) : Report → Report
  | .plain message => .plain (context ++ ": " ++ message)
  | .coded code message .. => .simple code (context ++ ": " ++ message) []

/-- The failure is coded with the given code. -/
def hasCode (code : Code) (r : Report) : Bool := r.code? == some code

end Report

end Conform
