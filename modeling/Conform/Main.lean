import Conform.Command.Line

/-! The program: looks up the files that a command line names, runs the command,
and writes what it leaves. -/
namespace Conform.Command

def bytesOf (data : ByteArray) : Bytes := data.toList

def printTo (stream : IO.FS.Stream) (text : Bytes) : IO Unit := do
  stream.write ⟨text.toArray⟩
  stream.flush

/-- Runs an action on a file, and answers nothing where the file is missing. -/
def attempt {α : Type} (action : IO α) : IO (Option α) := do
  try return some (← action) catch _ => return none

def aliasSource (path : String) : IO AliasSource := do
  if path.isEmpty then return .absent
  match ← attempt (IO.FS.readBinFile path) with
  | some data => return .file (bytesOf data)
  | none => return .missing path

/-- The files of a directory, when there is one. -/
def openDirectory (path : String) : IO Directory := do
  if path.isEmpty then return .fresh path none
  match ← attempt (do (← IO.FS.realPath path).readDir) with
  | none => return .fresh path none
  | some entries =>
    let files ← entries.toList.filterMapM fun entry => do
      return (← attempt (IO.FS.readBinFile entry.path)).map fun data => (utf8 entry.fileName, bytesOf data)
    return ⟨path, .made, files, none⟩

/-- Writes the files that a run has changed. -/
def saveDirectory (path : String) (before after : Directory) : IO Unit := do
  if after = before then return
  IO.FS.createDirAll path
  for (name, data) in after.files do
    if before.files.find? name ≠ some data then
      match String.fromUTF8? ⟨name.toArray⟩ with
      | some name => IO.FS.writeBinFile (path ++ "/" ++ name) ⟨data.toArray⟩
      | none => pure ()

def failed (message : Bytes) : IO UInt32 := do
  printTo (← IO.getStderr) ("error: " ++ message ++ "\n")
  return 1

def logAll (options : Options) (events : List Event) : IO Unit := do
  printTo (← IO.getStderr) ((options.logged events).flatMap eventLine)

def setupFor (options : Options) : IO Setup := do
  return ⟨← aliasSource options.aliases, options.cacheDir⟩

def runCheck (options : Options) (type value : String) : IO UInt32 := do
  let stdin ← if value = "-" then (← IO.getStdin).readToEnd else pure ""
  let directory ← openDirectory options.cacheDir
  let command : Check := ⟨← setupFor options, type, value, options.cast⟩
  let outcome := command.run stdin directory
  saveDirectory options.cacheDir directory outcome.directory
  logAll options outcome.events
  match outcome.result with
  | .ok text => printTo (← IO.getStdout) text; return 0
  | .error e => failed e.report.message

def runCompile (options : Options) (type : String) : IO UInt32 := do
  let directory ← openDirectory options.cacheDir
  let destination : Destination := if options.output.isEmpty then .console else .file options.output
  let openable ←
    if options.output.isEmpty then pure true
    else Option.isSome <$> attempt (IO.FS.writeBinFile options.output ByteArray.empty)
  let command : Compile :=
    ⟨← setupFor options, type, options.format, options.packageName, options.functionName, destination⟩
  let outcome := command.run ⟨openable, none⟩ directory
  printTo (← IO.getStdout) outcome.printed
  match outcome.output.content with
  | some text => IO.FS.writeBinFile options.output ⟨text.toArray⟩
  | none => pure ()
  match outcome.failure with
  | some e => failed e.report.message
  | none => return 0

end Conform.Command

open Conform.Command in
def main (arguments : List String) : IO UInt32 := do
  match Line.read arguments with
  | .ok (.check options type value) => runCheck options type value
  | .ok (.compile options type) => runCompile options type
  | .error e => failed e.message
