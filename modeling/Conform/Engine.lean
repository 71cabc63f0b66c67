import Conform.Config
import Conform.Declaration.Catalog
import Conform.Fingerprint
import Conform.Store.Directory
import Conform.Validators

/-! The engine: declarations in, verdicts and converted values out. It reads
declarations through a remembering reader and keeps validators by signature. -/
namespace Conform

open Declaration

/-- Why the engine has no answer. -/
inductive EngineError where
  | declaration (error : DeclarationError)
  | validator (error : ValidatorError)
  | cast (error : CastError)
  | format (error : UnknownFormat)
  | compile (error : CompileError)
  deriving Repr

def EngineError.report : EngineError → Report
  | .declaration error => error.report
  | .validator error => error.report
  | .cast error => error.report
  | .format error => .plain error.message
  | .compile error => error.report

structure Engine (σ : Type) where
  backing : Backing σ
  catalog : Catalog
  validators : Validators σ

namespace Engine

variable {σ : Type}

def readyEvent (config : Config) : Event :=
  ⟨.debug, "engine ready",
    [("aliases", decimalNat config.aliases.length), ("cache_dir", config.cacheDir)]⟩

def rejectedEvent (source : Bytes) (error : DeclarationError) : Event :=
  ⟨.debug, "declaration rejected", [("declaration", source), ("error", error.message)]⟩

/-- An engine over a store in a given state. -/
def make (backing : Backing σ) (stored : σ) (config : Config) :
    Except ConfigError (Engine σ × List Event) :=
  match config.check with
  | .error e => .error e
  | .ok (config, aliases) =>
    .ok (⟨backing, .make aliases config.parserCacheSize, .make config.cacheSize stored⟩,
      [readyEvent config])

/-- The type of a declaration. -/
def parse (e : Engine σ) (source : Bytes) : Except EngineError Ty × Engine σ :=
  match e.catalog.parse source with
  | (.ok t, catalog) => (.ok t, { e with catalog })
  | (.error error, catalog) => (.error (.declaration error), { e with catalog })

/-- The validator of a declaration. -/
def validator (e : Engine σ) (call : Call) (source : Bytes) :
    Except EngineError Held × Engine σ × List Event :=
  match e.catalog.parse source with
  | (.error error, catalog) =>
    (.error (.declaration error), { e with catalog }, [rejectedEvent source error])
  | (.ok t, catalog) =>
    match e.validators.validator e.backing call t with
    | (.ok held, validators, events) => (.ok held, { e with catalog, validators }, events)
    | (.error error, validators, events) =>
      (.error (.validator error), { e with catalog, validators }, events)

/-- Whether a value belongs to a declared type. -/
def accepts (e : Engine σ) (call : Call) (source : Bytes) (v : Value) :
    Except EngineError Bool × Engine σ × List Event :=
  match e.validator call source with
  | (.ok held, e, events) => (.ok (held.validator.accepts v), e, events)
  | (.error error, e, events) => (.error error, e, events)

/-- A value converted to a declared type. -/
def cast (e : Engine σ) (call : Call) (source : Bytes) (v : Value) :
    Except EngineError Value × Engine σ × List Event :=
  match e.validator call source with
  | (.error error, e, events) => (.error error, e, events)
  | (.ok held, e, events) =>
    match held.validator.cast v with
    | .ok w => (.ok w, e, events)
    | .error error => (.error (.cast error), e, events)

/-- The artifact of a declaration in a format. The format is looked up first. -/
def compile (e : Engine σ) (source format : Bytes) : Except EngineError Artifact × Engine σ :=
  match Backend.ofFormat? format [] [] with
  | none => (.error (.format ⟨format⟩), e)
  | some backend =>
    match e.parse source with
    | (.error error, e) => (.error error, e)
    | (.ok t, e) =>
      match t.compile backend with
      | .ok artifact => (.ok artifact, e)
      | .error error => (.error (.compile error), e)

end Engine

/-- The engine of a configuration: keys are fingerprints, and artifacts go to the
configured directory, if there is one. -/
def Config.engine (config : Config) (directory : Directory) :
    Except ConfigError (Engine Directory × List Event) :=
  Engine.make ⟨Fingerprint.key, if config.cacheDir.isEmpty then none else some .directory⟩ directory config

end Conform
