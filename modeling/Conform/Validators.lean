import Conform.Artifact.Stored
import Conform.Compile
import Conform.Event
import Conform.Recent
import Conform.Store

/-! Validators by signature. A validator is sought among those used lately, then
in the store, and compiled when it is in neither; what was compiled is stored.
The key function may send two signatures to one key, so every find is checked
against the signature it was sought for. The store can only cost time: its
failures are reported as events and never reach the caller. -/
namespace Conform

/-- Why there is no validator of a type. -/
inductive ValidatorError where
  | compile (error : CompileError)
  | load (error : ArtifactError)
  deriving Repr

def ValidatorError.report : ValidatorError → Report
  | .compile error => error.report
  | .load error => error.report

/-- A validator with a number of its own, by which shared ones are told from new ones. -/
structure Held where
  validator : Validator
  serial : Nat
  deriving Repr

/-- The fixed parts: how signatures become keys, and the store, if there is one. -/
structure Backing (σ : Type) where
  key : Bytes → Bytes
  store : Option (Store σ)

/-- The validators in memory, the state of the store, and the next free number. -/
structure Validators (σ : Type) where
  recent : Recent Bytes Held
  stored : σ
  next : Nat

namespace Validators

variable {σ : Type}

/-- The number of validators held when no positive number is given. -/
def usualCapacity : Nat := 1024

def make (size : Int) (stored : σ) : Validators σ :=
  ⟨.empty (if 0 < size then size.toNat else usualCapacity), stored, 0⟩

def size (c : Validators σ) : Nat := c.recent.size

def purge (c : Validators σ) : Validators σ := { c with recent := c.recent.purge }

/-- The name under which the artifact of a key is stored. -/
def storeKey (key : Bytes) : Bytes := key ++ utf8 ".program.json"

def hitEvent (signature : Bytes) : Event :=
  ⟨.debug, "validator cache hit", [("signature", signature)]⟩

def unreadEvent (signature : Bytes) (error : StoreError) : Event :=
  ⟨.warn, "failed to read artifact", [("signature", signature), ("error", error.message)]⟩

def unreadableEvent (signature : Bytes) : Event :=
  ⟨.warn, "discarding unreadable artifact", [("signature", signature), ("error", [])]⟩

def otherSignatureEvent (signature found : Bytes) : Event :=
  ⟨.debug, "stored artifact has another signature, recompiling",
    [("signature", signature), ("stored", found)]⟩

def invalidEvent (signature : Bytes) (error : ArtifactError) : Event :=
  ⟨.warn, "discarding invalid artifact", [("signature", signature), ("error", error.message)]⟩

def loadedEvent (signature : Bytes) : Event :=
  ⟨.debug, "validator loaded from store", [("signature", signature)]⟩

def compilingEvent (signature key : Bytes) : Event :=
  ⟨.debug, "compiling validator", [("signature", signature), ("key", key)]⟩

def unsavedEvent (signature : Bytes) (error : StoreError) : Event :=
  ⟨.warn, "failed to persist artifact", [("signature", signature), ("error", error.message)]⟩

/-- What stored data says about a signature: a validator, or nothing. -/
def ofData (signature data : Bytes) : Option Validator × Event :=
  match Artifact.readStored? data with
  | none => (none, unreadableEvent signature)
  | some artifact =>
    if artifact.signature ≠ signature then (none, otherSignatureEvent signature artifact.signature)
    else
      match artifact.load with
      | .error e => (none, invalidEvent signature e)
      | .ok validator => (some validator, loadedEvent signature)

/-- Seeks a validator in the store. -/
def fromStore (store : Store σ) (state : σ) (call : Call) (signature key : Bytes) :
    Option Validator × σ × List Event :=
  match store.get state call (storeKey key) with
  | (.error e, state) => (none, state, [unreadEvent signature e])
  | (.ok none, state) => (none, state, [])
  | (.ok (some data), state) =>
    let (found, event) := ofData signature data
    (found, state, [event])

/-- Compiles a type and loads what came of it. -/
def compileAndLoad (t : Ty) : Except ValidatorError (Artifact × Validator) :=
  match t.compile .program with
  | .error e => .error (.compile e)
  | .ok artifact =>
    match artifact.load with
    | .error e => .error (.load e)
    | .ok validator => .ok (artifact, validator)

/-- Stores a new artifact. -/
def save (store : Store σ) (state : σ) (call : Call) (key : Bytes) (artifact : Artifact) :
    σ × List Event :=
  match store.put state call (storeKey key) artifact.stored with
  | (.ok (), state) => (state, [])
  | (.error e, state) => (state, [unsavedEvent artifact.signature e])

/-- A validator of a type from the store, or else from compiling it. -/
def obtain (backing : Backing σ) (state : σ) (call : Call) (t : Ty) :
    Except ValidatorError Validator × σ × List Event :=
  let signature := t.signature
  let key := backing.key signature
  let (found, state, events) :=
    match backing.store with
    | none => (none, state, [])
    | some store => fromStore store state call signature key
  match found with
  | some validator => (.ok validator, state, events)
  | none =>
    let events := events ++ [compilingEvent signature key]
    match compileAndLoad t with
    | .error e => (.error e, state, events)
    | .ok (artifact, validator) =>
      match backing.store with
      | none => (.ok validator, state, events)
      | some store =>
        let (state, saved) := save store state call key artifact
        (.ok validator, state, events ++ saved)

/-- The validator of a type. -/
def validator (c : Validators σ) (backing : Backing σ) (call : Call) (t : Ty) :
    Except ValidatorError Held × Validators σ × List Event :=
  let signature := t.signature
  let key := backing.key signature
  let (found, recent) := c.recent.get key
  let c := { c with recent }
  let miss : Except ValidatorError Held × Validators σ × List Event :=
    match obtain backing c.stored call t with
    | (.error e, stored, events) => (.error e, { c with stored }, events)
    | (.ok validator, stored, events) =>
      let held : Held := ⟨validator, c.next⟩
      (.ok held, { recent := c.recent.add key held, stored, next := c.next + 1 }, events)
  match found with
  | some held =>
    if held.validator.signature = signature then (.ok held, c, [hitEvent signature]) else miss
  | none => miss

end Validators

end Conform
