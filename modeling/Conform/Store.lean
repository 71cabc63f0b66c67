import Conform.Bytes.Quoted

/-! Stores keep data under keys. A key is a flat file name. A store is given by
what its two operations do to its state, so that anything from a map in memory
to a failing disk is one. -/
namespace Conform

/-- Why a text is no key. -/
inductive KeyError where
  | empty
  | leadingDot
  | forbidden (code : Nat)
  deriving DecidableEq, Repr

def KeyError.message : KeyError → Bytes
  | .empty => "key is empty"
  | .leadingDot => "key must not start with a dot"
  | .forbidden code => "key contains " ++ quotedRune code

/-- A letter, a digit, or one of the three marks that keys may hold. -/
def isKeyCode (code : Nat) : Bool :=
  (0x61 ≤ code && code ≤ 0x7A) || (0x41 ≤ code && code ≤ 0x5A) || (0x30 ≤ code && code ≤ 0x39) ||
    code == 0x2E || code == 0x2D || code == 0x5F

/-- A key is not empty, does not start with a dot, and holds only letters,
digits, dots, dashes and underscores. -/
def checkKey (key : Bytes) : Except KeyError Unit :=
  match key with
  | [] => .error .empty
  | first :: _ =>
    if first = 0x2E then .error .leadingDot
    else
      match ((Utf8.pieces key).map Utf8.Piece.code).find? fun code => !isKeyCode code with
      | some code => .error (.forbidden code)
      | none => .ok ()

inductive StoreError where
  | invalidKey (key : Bytes) (error : KeyError)
  | canceled
  | lockRefused (root : Bytes)
  | noDirectory (path : Bytes)
  | unreadable (key path : Bytes)
  | nameTooLong (key path : Bytes)
  | unwritable (path : Bytes)
  | broken (message : Bytes)
  deriving DecidableEq, Repr

def StoreError.message : StoreError → Bytes
  | .invalidKey key error => "invalid key " ++ quoted key ++ ": " ++ error.message
  | .canceled => "context canceled"
  | .lockRefused root => "failed to take lock on " ++ root ++ ": context canceled"
  | .noDirectory path => "failed to create directories: mkdir " ++ path ++ ": not a directory"
  | .unreadable key path => "failed to read " ++ quoted key ++ ": open " ++ path ++ ": not a directory"
  | .nameTooLong key path => "failed to read " ++ quoted key ++ ": open " ++ path ++ ": file name too long"
  | .unwritable path => "failed to rename temp file: rename " ++ path ++ ": file name too long"
  | .broken message => message

/-- The caller's side of an operation: whether it was given up beforehand. -/
structure Call where
  canceled : Bool
  deriving DecidableEq, Repr

structure Store (σ : Type) where
  /-- The data under a key; a key that is not there is no failure. -/
  get : σ → Call → Bytes → Except StoreError (Option Bytes) × σ
  /-- Puts data under a key in place of what was there. -/
  put : σ → Call → Bytes → Bytes → Except StoreError Unit × σ

/-- Named pieces of data, each name once. -/
abbrev Items := List (Bytes × Bytes)

namespace Items

def find? (items : Items) (key : Bytes) : Option Bytes :=
  match items with
  | [] => none
  | (name, data) :: rest => if name = key then some data else Items.find? rest key

def set (items : Items) (key data : Bytes) : Items :=
  match items with
  | [] => [(key, data)]
  | (name, old) :: rest => if name = key then (key, data) :: rest else (name, old) :: Items.set rest key data

def remove (items : Items) (key : Bytes) : Items := items.filter fun item => item.1 != key

end Items

namespace Store

/-- Checks the key, then whether the call was given up. -/
def allow (call : Call) (key : Bytes) : Except StoreError Unit :=
  match checkKey key with
  | .error e => .error (.invalidKey key e)
  | .ok () => if call.canceled then .error .canceled else .ok ()

/-- Data kept in memory. -/
def memory : Store Items where
  get items call key :=
    match allow call key with
    | .error e => (.error e, items)
    | .ok () => (.ok (items.find? key), items)
  put items call key data :=
    match allow call key with
    | .error e => (.error e, items)
    | .ok () => (.ok (), items.set key data)

/-- A store of which every operation fails. -/
def broken (message : Bytes) : Store Unit where
  get _ _ _ := (.error (.broken message), ())
  put _ _ _ _ := (.error (.broken message), ())

end Store

end Conform
