import Conform.Report
import Conform.Ty.Render
import Conform.Value.Show

/-! Why a conversion fails. An error of an element keeps the code and the details
of the error it wraps; an error of a union holds one error for each member. -/
namespace Conform

inductive CastError where
  /-- The kind of the value cannot be converted to the type. -/
  | wrongKind (kind : Bytes) (target : Ty)
  /-- The value is no container of the expected sort. -/
  | notContainer (kind : Bytes) (expected : Bytes)
  /-- The converted value is not the literal. -/
  | differs (converted : Value) (target : Ty)
  | missing (key : Bytes) (expected : Bytes)
  | unexpected (keys : List Bytes) (expected : Bytes)
  | noMember (kind : Bytes) (expected : Bytes) (attempts : List CastError)
  | element (key : Bytes) (inner : CastError)
  /-- A failure of a conversion that the library does not know. -/
  | external (message : Bytes)
  deriving Repr, Inhabited

/-- A value of a kind that cannot be converted to a type. Literals are named by
what they are. -/
def wrongKindMessage (kind : Bytes) (target : Ty) : Bytes :=
  match target with
  | .integerLit _ => "Value of type `" ++ kind ++ "` does not match integer value `" ++ target.text ++ "`."
  | .stringLit value _ => "Value of type `" ++ kind ++ "` does not match string value `" ++ value ++ "`."
  | .floatLit _ => "Value of type `" ++ kind ++ "` does not match float value `" ++ target.text ++ "`."
  | .boolLit _ => "Value of type `" ++ kind ++ "` does not match boolean value `" ++ target.text ++ "`."
  | _ => "Value of type `" ++ kind ++ "` cannot be cast to `" ++ target.text ++ "`."

/-- The literal that a converted value is compared with. -/
def literalMeant (target : Ty) : Bytes :=
  match target with
  | .stringLit value _ => value
  | _ => target.text

namespace CastError

mutual

def report : CastError → Report
  | .wrongKind kind target =>
    .simple .invalidValueType (wrongKindMessage kind target)
      [("value_kind", .text kind), ("expected", .text target.text)]
  | .notContainer kind expected =>
    .simple .invalidValueType ("Value of type `" ++ kind ++ "` cannot be cast to `" ++ expected ++ "`.")
      [("value_kind", .text kind), ("expected", .text expected)]
  | .differs converted target =>
    .simple .invalidValue
      ("Values `" ++ converted.described ++ "` and `" ++ literalMeant target ++ "` do not match.")
      [("value", converted), ("expected", .text target.text)]
  | .missing key expected =>
    .simple .invalidValue ("Missing element `" ++ key ++ "` of `" ++ expected ++ "`.")
      [("expected", .text expected)]
  | .unexpected keys expected =>
    .simple .invalidValue
      ("Unexpected elements `" ++ Bytes.join "`, `" keys ++ "` for `" ++ expected ++ "`.")
      [("expected", .text expected)]
  | .noMember kind expected attempts =>
    let reports := reportAll attempts
    .coded .unionCastFailed
      ("Value of type `" ++ kind ++ "` could not be cast to any member of `" ++ expected ++ "`: " ++
        Bytes.join " " (reports.map Report.message))
      [("value_kind", .text kind), ("expected", .text expected)] none reports
  | .element key inner =>
    match inner.report with
    | .plain message => .plain ("element `" ++ key ++ "`: " ++ message)
    | .coded code message details cause attempts =>
      .coded code ("Element `" ++ key ++ "`: " ++ message) details
        (some (.coded code message details cause attempts)) []
  | .external message => .plain message

def reportAll : List CastError → List Report
  | [] => []
  | e :: rest => e.report :: reportAll rest

end

end CastError

end Conform
