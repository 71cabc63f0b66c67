import Conform.Report

/-! The response status of each error code. -/
namespace Conform

def Code.status : Code → Nat
  | .invalidArgument => 400
  | .invalidDeclaration => 400
  | .forbiddenMixedType => 400
  | .invalidUnion => 400
  | .invalidValueType => 422
  | .invalidValue => 422
  | .unionCastFailed => 422
  | .notFound => 404
  | .methodNotAllowed => 405
  | .unsupportedType => 501
  | .canceled => 499
  | .deadlineExceeded => 504
  | _ => 500

end Conform
