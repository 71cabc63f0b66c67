import Conform.Artifact
import Conform.Bytes.Case
import Conform.Config

/-! The queries of requests: form-encoded pairs, of which the named ones fill the
fields of a request. Names count up to letter case, the last value of a name
wins, and other names are ignored. -/
namespace Conform.Service

/-- Undoes the form encoding; a percent sign must stand before two digits. -/
def unescape? : Bytes → Option Bytes
  | [] => some []
  | b :: rest =>
    if b = 0x25 then
      match rest with
      | h :: l :: rest =>
        match hexValue? h, hexValue? l with
        | some p, some q => (unescape? rest).map ((p * 16 + q).toUInt8 :: ·)
        | _, _ => none
      | _ => none
    else if b = 0x2B then (unescape? rest).map (0x20 :: ·)
    else (unescape? rest).map (b :: ·)

/-- The name and value of one pair; without an equals sign the value is empty. -/
def pairOf? (part : Bytes) : Option (Bytes × Bytes) :=
  if part.isEmpty || part.contains 0x3B then none
  else
    match unescape? (part.takeWhile (· != 0x3D)), unescape? ((part.dropWhile (· != 0x3D)).drop 1) with
    | some name, some value => some (name, value)
    | _, _ => none

/-- The pairs of a query in order; malformed ones are dropped. -/
def pairs (query : Bytes) : List (Bytes × Bytes) := (Bytes.splitAt 0x26 query).filterMap pairOf?

/-- The last pair whose name is the given word. -/
def lastOf? (word : String) (query : List (Bytes × Bytes)) : Option (Bytes × Bytes) :=
  query.reverse.find? fun pair => Utf8.foldsTo (utf8 word) pair.1

def textOf (word : String) (query : List (Bytes × Bytes)) : Bytes :=
  ((lastOf? word query).map (·.2)).getD []

/-- A flag cannot be read from the value of the named pair. -/
structure FlagError where
  name : Bytes
  deriving DecidableEq, Repr

/-- A flag; it is off when its value is empty. -/
def flagOf (word : String) (query : List (Bytes × Bytes)) : Except FlagError Bool :=
  match lastOf? word query with
  | none => .ok false
  | some (name, value) =>
    if value.isEmpty then .ok false
    else if value = "on" then .ok true
    else
      match readTruth value with
      | .ok b => .ok b
      | .error _ => .error ⟨name⟩

/-- A rule that a field of a request breaks. -/
inductive QueryRule where
  | required
  | tooLong (limit : Nat)
  | oneOf (choices : Bytes)
  deriving DecidableEq, Repr

def QueryRule.message : QueryRule → Bytes
  | .required => "required"
  | .tooLong limit => "must be at most " ++ decimalNat limit ++ " characters"
  | .oneOf choices => "must be one of: " ++ choices

/-- Why a query is no request. -/
inductive QueryError where
  | flag (error : FlagError)
  | invalid (problems : Problems QueryRule)
  deriving Repr

def QueryError.report : QueryError → Report
  | .flag error =>
    .simple .invalidArgument ("invalid query: schema: error converting value for " ++ quoted error.name) []
  | .invalid problems =>
    .simple .invalidArgument (problems.message QueryRule.message) (problems.details QueryRule.message)

/-- The longest declaration that a request may hold, in characters. -/
def longestType : Nat := 4096

def typeProblems (type : Bytes) : List (Bytes × QueryRule) :=
  if type.isEmpty then [("Type", .required)]
  else if longestType < Utf8.count type then [("Type", .tooLong longestType)]
  else []

def valueProblems (value : Bytes) : List (Bytes × QueryRule) :=
  if value.isEmpty then [("Value", .required)] else []

def formatProblems (format : Bytes) : List (Bytes × QueryRule) :=
  if format.isEmpty || format == "program" || format == "go" then []
  else [("Format", .oneOf "program go")]

structure CheckQuery where
  type : Bytes
  value : Bytes
  cast : Bool
  deriving DecidableEq, Repr

def CheckQuery.read (query : Bytes) : Except QueryError CheckQuery :=
  let query := pairs query
  match flagOf "cast" query with
  | .error e => .error (.flag e)
  | .ok cast =>
    let type := textOf "type" query
    let value := textOf "value" query
    let problems := typeProblems type ++ valueProblems value
    if problems.isEmpty then .ok ⟨type, value, cast⟩ else .error (.invalid ⟨problems⟩)

structure CompileQuery where
  type : Bytes
  format : Bytes
  deriving DecidableEq, Repr

def CompileQuery.read (query : Bytes) : Except QueryError CompileQuery :=
  let query := pairs query
  let type := textOf "type" query
  let format := textOf "format" query
  let problems := typeProblems type ++ formatProblems format
  if problems.isEmpty then .ok ⟨type, if format.isEmpty then "program" else format⟩
  else .error (.invalid ⟨problems⟩)

end Conform.Service
