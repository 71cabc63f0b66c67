import Conform.Decimal
import Conform.Store
import Conform.Store.Path

/-! Data kept as the files of one directory. Writing makes the directory, takes a
lock file in it, writes a temporary file and renames that to the key. Files whose
names start with a dot are not data. Some file systems limit the length of names. -/
namespace Conform

/-- Where a directory stands: not made yet, made, or under a plain file, so that
it can never be made. -/
inductive Place where
  | unmade
  | made
  | under (file : Bytes)
  deriving DecidableEq, Repr

structure Directory where
  root : Bytes
  place : Place
  files : Items
  nameLimit : Option Nat
  deriving DecidableEq, Repr

def lockName : Bytes := ".valtype.lock"

/-- The name of a temporary file; the file system chooses its number. -/
def temporaryName (number : Nat) : Bytes := ".valtype-" ++ decimalNat number ++ ".tmp"

namespace Directory

def fresh (root : Bytes) (nameLimit : Option Nat) : Directory := ⟨root, .unmade, [], nameLimit⟩

/-- Where the file of a name is sought. -/
def pathOf (d : Directory) (name : Bytes) : Path := .under d.root name

def path (d : Directory) (name : Bytes) : Bytes := (d.pathOf name).text

/-- No file of the directory can have the name. -/
def tooLong (d : Directory) (name : Bytes) : Bool :=
  match d.nameLimit with
  | some limit => limit < name.length
  | none => false

/-- The directory with a file in it. -/
def write (d : Directory) (name data : Bytes) : Directory :=
  { d with place := .made, files := d.files.set name data }

/-- The name of the file that a path leads to, if that file is in the directory itself. -/
def nameAt? (d : Directory) (path : Path) : Option Bytes :=
  if path.parent = .ofText d.root then path.name? else none

def readAt? (d : Directory) (path : Path) : Option Bytes := (d.nameAt? path).bind d.files.find?

def writeAt (d : Directory) (path : Path) (data : Bytes) : Directory :=
  match d.nameAt? path with
  | some name => d.write name data
  | none => d

def removeAt (d : Directory) (path : Path) : Directory :=
  match d.nameAt? path with
  | some name => { d with files := d.files.remove name }
  | none => d

/-- Gives a file another name, in place of the file that had it. -/
def rename (d : Directory) (source target : Path) : Directory :=
  match d.readAt? source with
  | some data => (d.removeAt source).writeAt target data
  | none => d

/-- The files that hold data. -/
def visible (d : Directory) : Items := d.files.filter fun file => file.1.head? != some 0x2E

/-- A number for a temporary file that is not there yet. -/
def unusedNumber (d : Directory) : Nat :=
  ((List.range d.files.length).find? fun n => (d.files.find? (temporaryName n)).isNone).getD
    d.files.length

def get (d : Directory) (call : Call) (key : Bytes) : Except StoreError (Option Bytes) :=
  match Store.allow call key with
  | .error e => .error e
  | .ok () =>
    match d.place with
    | .under _ => .error (.unreadable key (d.path key))
    | .unmade => .ok (d.readAt? (d.pathOf key))
    | .made =>
      if d.tooLong key then .error (.nameTooLong key (d.path key)) else .ok (d.readAt? (d.pathOf key))

/-- Puts data under a key, by way of a temporary file. A call that was given up is
refused the lock; a temporary file that cannot be renamed is removed. -/
def put (number : Nat) (d : Directory) (call : Call) (key data : Bytes) :
    Except StoreError Unit × Directory :=
  match checkKey key with
  | .error e => (.error (.invalidKey key e), d)
  | .ok () =>
    match d.place with
    | .under file => (.error (.noDirectory file), d)
    | _ =>
      let made := { d with place := .made }
      if call.canceled then (.error (.lockRefused d.root), made)
      else
        let temporary := d.pathOf (temporaryName number)
        let written := (made.writeAt (d.pathOf lockName) []).writeAt temporary data
        if d.tooLong key then (.error (.unwritable (d.path key)), written.removeAt temporary)
        else (.ok (), written.rename temporary (d.pathOf key))

end Directory

/-- The store of a directory whose temporary files are numbered in some way. -/
def Store.directoryBy (choose : Directory → Nat) : Store Directory where
  get d call key := (d.get call key, d)
  put d call key data := d.put (choose d) call key data

/-- The store of a directory. -/
def Store.directory : Store Directory := .directoryBy Directory.unusedNumber

end Conform
