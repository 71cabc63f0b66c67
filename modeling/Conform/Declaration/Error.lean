import Conform.Declaration.Scan
import Conform.Ty.Build
import Conform.Ty.Render

/-! Why a declaration denotes no type. -/
namespace Conform.Declaration

inductive DeclarationError where
  | unknownSymbol (symbol : Bytes)
  | unclosedString (text : Bytes) (position : Nat)
  | unexpectedEnd (source : Bytes)
  | unexpectedToken (raw : Bytes) (position : Nat) (source : Bytes)
  | integerRange (literal : Bytes) (source : Bytes)
  | floatRange (literal : Bytes) (source : Bytes)
  | invalidKey (key : Ty)
  | type (error : TypeError)
  deriving Repr

namespace DeclarationError

def ofScan : ScanError → DeclarationError
  | .unknownSymbol symbol => .unknownSymbol symbol
  | .unclosedString text position => .unclosedString text position

def code : DeclarationError → Code
  | .type error => error.code
  | _ => .invalidDeclaration

def message : DeclarationError → Bytes
  | .unknownSymbol symbol => "Cannot parse unknown symbol `" ++ symbol ++ "`."
  | .unclosedString text _ => "String value `" ++ text ++ "` is not closed."
  | .unexpectedEnd source => "Unexpected end of declaration `" ++ source ++ "`."
  | .unexpectedToken raw position source =>
    "Unexpected `" ++ raw ++ "` at position " ++ decimalNat position ++ " of `" ++ source ++ "`."
  | .integerRange literal _ => "Integer value `" ++ literal ++ "` is out of range."
  | .floatRange literal _ => "Float value `" ++ literal ++ "` is out of range."
  | .invalidKey key => "Invalid array key type `" ++ key.text ++ "`, it must be a valid array key."
  | .type error => error.message

def details : DeclarationError → Details
  | .unknownSymbol symbol => [("symbol", .text symbol)]
  | .unclosedString _ position => [("position", .ofNat position)]
  | .unexpectedEnd source => [("declaration", .text source)]
  | .unexpectedToken _ position source => [("declaration", .text source), ("position", .ofNat position)]
  | .integerRange _ source => [("declaration", .text source)]
  | .floatRange _ source => [("declaration", .text source)]
  | .invalidKey key => [("key", .text key.text)]
  | .type _ => []

def report (e : DeclarationError) : Report := .simple e.code e.message e.details

end DeclarationError

end Conform.Declaration
