import Conform.AliasFile
import Conform.Engine
import Conform.Value.Json

/-! The commands: check a value against a declaration, or compile a declaration.
What a command prints and what becomes of its output file are part of its
outcome, so that nothing here touches a file. -/
namespace Conform.Command

/-- Where aliases come from. -/
inductive AliasSource where
  | absent
  | missing (path : Bytes)
  | file (text : Bytes)
  deriving DecidableEq, Repr

/-- What the commands share: aliases, and a directory for artifacts, of which an
empty path stands for none. -/
structure Setup where
  aliases : AliasSource
  cacheDir : Bytes
  deriving DecidableEq, Repr

/-- Why a command fails. -/
inductive CommandError where
  | json (error : JsonError)
  | noAliasFile (path : Bytes)
  | unreadableAliases
  | config (error : ConfigError)
  | engine (error : EngineError)
  | cast (error : CastError)
  | notAccepted (signature : Bytes)
  | encode (error : EncodeError)
  | noOutput (path : Bytes)
  deriving Repr

def CommandError.report : CommandError → Report
  | .json error => .plain error.message
  | .noAliasFile path => .plain ("read aliases: open " ++ path ++ ": no such file or directory")
  | .unreadableAliases => .plain "parse aliases"
  | .config error => error.report
  | .engine error => error.report
  | .cast error => error.report
  | .notAccepted signature => .plain ("value is not accepted by `" ++ signature ++ "`")
  | .encode error => .plain error.message
  | .noOutput path => .plain ("open " ++ path ++ ": no such file or directory")

/-- The aliases of a source. -/
def AliasSource.read : AliasSource → Except CommandError (List (Bytes × Bytes))
  | .absent => .ok []
  | .missing path => .error (.noAliasFile path)
  | .file text =>
    match AliasFile.read? text with
    | some aliases => .ok aliases
    | none => .error .unreadableAliases

/-- The engine of a setup. -/
def Setup.engine (setup : Setup) (directory : Directory) :
    Except CommandError (Engine Directory × List Event) :=
  match setup.aliases.read with
  | .error e => .error e
  | .ok aliases =>
    match Config.engine ⟨0, 0, setup.cacheDir, aliases⟩ directory with
    | .ok ready => .ok ready
    | .error e => .error (.config e)

structure Check where
  setup : Setup
  type : Bytes
  value : Bytes
  cast : Bool
  deriving DecidableEq, Repr

/-- The value to check; a dash stands for the standard input. -/
def Check.valueText (c : Check) (stdin : Bytes) : Bytes := if c.value = "-" then stdin else c.value

/-- What a validator says of a value: the line to print. -/
def verdict (v : Validator) (cast : Bool) (value : Value) : Except CommandError Bytes :=
  if cast then
    match v.cast value with
    | .error e => .error (.cast e)
    | .ok converted =>
      match converted.jsonText with
      | .ok text => .ok (text ++ [0x0A])
      | .error e => .error (.encode e)
  else if v.accepts value then .ok ("✓ accepted by " ++ v.signature ++ "\n")
  else .error (.notAccepted v.signature)

/-- What a command leaves: its output or failure, the directory, and events. -/
structure Outcome where
  result : Except CommandError Bytes
  directory : Directory
  events : List Event

/-- Checks or converts a value. The value is read first. -/
def Check.run (c : Check) (stdin : Bytes) (directory : Directory) : Outcome :=
  match Value.readJson (c.valueText stdin) with
  | .error e => ⟨.error (.json e), directory, []⟩
  | .ok value =>
    match c.setup.engine directory with
    | .error e => ⟨.error e, directory, []⟩
    | .ok (engine, ready) =>
      match engine.validator ⟨false⟩ c.type with
      | (.error e, engine, events) => ⟨.error (.engine e), engine.validators.stored, ready ++ events⟩
      | (.ok held, engine, events) =>
        ⟨verdict held.validator c.cast value, engine.validators.stored, ready ++ events⟩

/-- Where compiled text goes. -/
inductive Destination where
  | console
  | file (path : Bytes)
  deriving DecidableEq, Repr

structure Compile where
  setup : Setup
  type : Bytes
  format : Bytes
  packageName : Bytes
  functionName : Bytes
  destination : Destination
  deriving DecidableEq, Repr

/-- The compiled text. The declaration is read before the format is looked up. -/
def Compile.text (c : Compile) (directory : Directory) : Except CommandError Bytes :=
  match c.setup.engine directory with
  | .error e => .error e
  | .ok (engine, _) =>
    match engine.parse c.type with
    | (.error e, _) => .error (.engine e)
    | (.ok t, _) =>
      match Backend.ofFormat? c.format c.packageName c.functionName with
      | none => .error (.engine (.format ⟨c.format⟩))
      | some backend =>
        match t.compile backend with
        | .ok artifact => .ok artifact.source
        | .error e => .error (.engine (.compile e))

/-- The output file: whether it can be opened, and what it holds, if it exists. -/
structure OutputFile where
  openable : Bool
  content : Option Bytes
  deriving DecidableEq, Repr

/-- What compiling prints, what becomes of the output file, and the failure. -/
structure CompileOutcome where
  printed : Bytes
  output : OutputFile
  failure : Option CommandError

/-- Compiles to the console or to a file. The file is emptied before anything
else is done. -/
def Compile.run (c : Compile) (output : OutputFile) (directory : Directory) : CompileOutcome :=
  match c.destination with
  | .console =>
    match c.text directory with
    | .ok text => ⟨text, output, none⟩
    | .error e => ⟨[], output, some e⟩
  | .file path =>
    if !output.openable then ⟨[], output, some (.noOutput path)⟩
    else
      match c.text directory with
      | .ok text => ⟨[], { output with content := some text }, none⟩
      | .error e => ⟨[], { output with content := some [] }, some e⟩

end Conform.Command
