import Conform.Command

/-! The command line: a command's name, its options in any order, and its
arguments. Files are named here and read elsewhere. -/
namespace Conform.Command

/-- The options of a run; an empty path stands for none. -/
structure Options where
  aliases : String
  cacheDir : String
  verbose : Bool
  cast : Bool
  format : String
  packageName : String
  functionName : String
  output : String
  arguments : List String
  deriving DecidableEq, Repr

def Options.default : Options :=
  ⟨"", "", false, false, "program", "validation", "Validate", "", []⟩

/-- Why a command line cannot be followed. -/
inductive LineError where
  | unknownOption (option : String)
  | missingValue (option : String)
  | unknownCommand (name : String)
  | arguments (name : String)
  deriving DecidableEq, Repr

def LineError.message : LineError → String
  | .unknownOption option => "unknown option " ++ option
  | .missingValue option => "option " ++ option ++ " needs a value"
  | .unknownCommand name => "unknown command " ++ name
  | .arguments name => "wrong number of arguments for " ++ name

/-- Sets an option that takes a value. -/
def Options.set? (o : Options) (option value : String) : Option Options :=
  if option = "--aliases" || option = "-a" then some { o with aliases := value }
  else if option = "--cache-dir" then some { o with cacheDir := value }
  else if option = "--format" || option = "-f" then some { o with format := value }
  else if option = "--package" then some { o with packageName := value }
  else if option = "--func" then some { o with functionName := value }
  else if option = "--out" || option = "-o" then some { o with output := value }
  else none

/-- Sets an option that stands alone. -/
def Options.turnOn? (o : Options) (option : String) : Option Options :=
  if option = "--cast" || option = "-c" then some { o with cast := true }
  else if option = "--verbose" || option = "-v" then some { o with verbose := true }
  else none

/-- An option starts with a dash; a dash alone is an argument. -/
def isOption (word : String) : Bool := word.startsWith "-" && word != "-"

/-- Reads the words after the command's name. -/
def Options.read (o : Options) : List String → Except LineError Options
  | [] => .ok o
  | "--" :: rest => .ok { o with arguments := o.arguments ++ rest }
  | [word] =>
    if !isOption word then .ok { o with arguments := o.arguments ++ [word] }
    else
      match o.turnOn? word, o.set? word "" with
      | some o, _ => .ok o
      | none, some _ => .error (.missingValue word)
      | none, none => .error (.unknownOption word)
  | word :: value :: rest =>
    if !isOption word then Options.read { o with arguments := o.arguments ++ [word] } (value :: rest)
    else
      match o.turnOn? word, o.set? word value with
      | some o, _ => o.read (value :: rest)
      | none, some o => o.read rest
      | none, none => .error (.unknownOption word)
termination_by words => words.length

/-- A run of one of the commands. -/
inductive Line where
  | check (options : Options) (type value : String)
  | compile (options : Options) (type : String)
  deriving DecidableEq, Repr

/-- Reads a command line. The value to check is a dash when it is left out. -/
def Line.read : List String → Except LineError Line
  | [] => .error (.unknownCommand "")
  | name :: rest =>
    match Options.default.read rest with
    | .error e => .error e
    | .ok options =>
      if name = "check" then
        match options.arguments with
        | [type] => .ok (.check options type "-")
        | [type, value] => .ok (.check options type value)
        | _ => .error (.arguments name)
      else if name = "compile" then
        match options.arguments with
        | [type] => .ok (.compile options type)
        | _ => .error (.arguments name)
      else .error (.unknownCommand name)

/-- The line that logs an event. -/
def eventLine (e : Event) : Bytes :=
  e.level.name ++ ": " ++ e.message ++
    (e.attributes.flatMap fun (key, value) => utf8 " " ++ key ++ utf8 "=" ++ value) ++ utf8 "\n"

/-- The events to log: warnings and errors, and with the option all of them. -/
def Options.logged (o : Options) (events : List Event) : List Event :=
  events.filter fun e => o.verbose || e.level = .warn || e.level = .error

end Conform.Command
