import Conform.Artifact
import Conform.Source.Text

/-! Compiling types to artifacts: a program that can be loaded again, or the
source text of a predicate. -/
namespace Conform

/-- The forms that a type can be compiled to. -/
inductive Backend where
  | program
  /-- Source text with the names of its package and function; empty names stand
  for the usual ones. -/
  | source (packageName functionName : Bytes)
  deriving DecidableEq, Repr

namespace Backend

def format : Backend → Bytes
  | .program => Artifact.programFormat
  | .source .. => "go"

/-- Looks a form up by its format, with the given names for source text. -/
def ofFormat? (format packageName functionName : Bytes) : Option Backend :=
  if format = Artifact.programFormat then some .program
  else if format = "go" then some (.source packageName functionName)
  else none

end Backend

/-- Why a type cannot be compiled. -/
inductive CompileError where
  | unsupported (t : Ty) (format : Bytes)
  /-- The names or the comment make no source text. -/
  | unprintable
  deriving Repr

namespace CompileError

def report : CompileError → Report
  | .unsupported t format =>
    .simple .unsupportedType
      ("Type `" ++ t.text ++ "` of kind " ++ Kind.nameOf t.kind? ++ " cannot be compiled to " ++ format ++ ".")
      [("kind", .text (Kind.nameOf t.kind?))]
  | .unprintable => .plain "render"

end CompileError

/-- No backend has the format. -/
structure UnknownFormat where
  format : Bytes
  deriving DecidableEq, Repr

def UnknownFormat.message (e : UnknownFormat) : Bytes := "unknown format: " ++ quoted e.format

def orDefault (name usual : Bytes) : Bytes := if name.isEmpty then usual else name

/-- The artifact of a type. -/
def Ty.compile (t : Ty) (backend : Backend) : Except CompileError Artifact :=
  match backend with
  | .program =>
    match t.program with
    | .ok program => .ok (.ofProgram program)
    | .error part => .error (.unsupported part backend.format)
  | .source packageName functionName =>
    match Source.emit 0 0 t with
    | .error part => .error (.unsupported part backend.format)
    | .ok (body, _) =>
      match Source.fileText? (orDefault packageName "validation") (orDefault functionName "Validate")
          t.signature body with
      | some text => .ok ⟨t.signature, backend.format, text⟩
      | none => .error .unprintable

end Conform
