import Conform.Engine
import Conform.Service.Query
import Conform.Service.Status
import Conform.Value.Json

/-! The engine as a service: requests in, replies out. A reply carries one JSON
object, with a result or with an error; when that object cannot be written the
body stays empty and the log says why. -/
namespace Conform.Service

/-- A request with its path and query, and the origin it names. -/
structure Request where
  method : Bytes
  path : Bytes
  query : Bytes
  origin : Bytes
  deriving DecidableEq, Repr

structure Reply where
  status : Nat
  headers : List (Bytes × Bytes)
  body : Bytes
  deriving DecidableEq, Repr

def jsonHeader : Bytes × Bytes := ("Content-Type", "application/json")

/-- The reply with a result. -/
def resultReply (result : Except EncodeError Json) : Reply × List Event :=
  match result with
  | .ok document =>
    (⟨200, [jsonHeader], (Json.object [(utf8 "result", document)]).write ++ [0x0A]⟩, [])
  | .error e =>
    (⟨200, [jsonHeader], []⟩, [⟨.error, "failed to encode response", [("error", e.message)]⟩])

/-- The document of a failure, with its details in order of their names. -/
def errorDocument (code : Code) (message : Bytes) (details : Details) : Except EncodeError Json :=
  let start : List (Bytes × Json) := [("code", .string code.name), ("message", .string message)]
  if details.isEmpty then .ok (.object start)
  else
    let values := Value.map .text (details.map fun (name, value) => (.text name, value))
    match values.withTextKeys.toJson with
    | .ok document => .ok (.object (start ++ [(utf8 "details", document)]))
    | .error e => .error e

/-- The reply with an error. -/
def errorReply (code : Code) (message : Bytes) (details : Details) : Reply × List Event :=
  match errorDocument code message details with
  | .ok document =>
    (⟨code.status, [jsonHeader], (Json.object [(utf8 "error", document)]).write ++ [0x0A]⟩, [])
  | .error e =>
    (⟨code.status, [jsonHeader], []⟩,
      [⟨.error, "failed to encode error response",
        [("code", code.name), ("message", message), ("error", e.message)]⟩])

/-- A failure as a reply; one without a code is the service's own. -/
def failureReply : Report → Reply × List Event
  | .plain message => errorReply .internal message []
  | .coded code message details .. => errorReply code message details

/-- The result of a check; a null value is left out. -/
def checkDocument (signature : Bytes) (accepted : Bool) (value : Value) : Except EncodeError Json :=
  let start : List (Bytes × Json) := [("type", .string signature), ("accepted", .bool accepted)]
  match value with
  | .null => .ok (.object start)
  | value =>
    match value.withTextKeys.toJson with
    | .ok document => .ok (.object (start ++ [(utf8 "value", document)]))
    | .error e => .error e

def compileDocument (artifact : Artifact) : Json :=
  .object [(utf8 "signature", .string artifact.signature), (utf8 "format", .string artifact.format),
    (utf8 "source", .string artifact.source)]

variable {σ : Type}

/-- What a handler returns: a reply, the engine afterwards, and events. -/
abbrev Handled (σ : Type) := Reply × Engine σ × List Event

def live : Call := ⟨false⟩

/-- Checks or converts a value. -/
def check (e : Engine σ) (query : CheckQuery) : Handled σ :=
  match Value.readJson query.value with
  | .error error =>
    let (reply, events) := errorReply .invalidArgument ("value: " ++ error.message) []
    (reply, e, events)
  | .ok value =>
    match e.validator live query.type with
    | (.error error, e, events) =>
      let (reply, more) := failureReply error.report
      (reply, e, events ++ more)
    | (.ok held, e, events) =>
      let signature := held.validator.signature
      let (reply, more) :=
        if query.cast then
          match held.validator.cast value with
          | .ok converted => resultReply (checkDocument signature true converted)
          | .error error => failureReply error.report
        else resultReply (checkDocument signature (held.validator.accepts value) .null)
      (reply, e, events ++ more)

def compile (e : Engine σ) (query : CompileQuery) : Handled σ :=
  match e.compile query.type query.format with
  | (.ok artifact, e) =>
    let (reply, events) := resultReply (.ok (compileDocument artifact))
    (reply, e, events)
  | (.error error, e) =>
    let (reply, events) := failureReply error.report
    (reply, e, events)

/-- A handler of requests whose query can be read. -/
def withQuery {Q : Type} (read : Bytes → Except QueryError Q) (handle : Engine σ → Q → Handled σ)
    (e : Engine σ) (request : Request) : Handled σ :=
  if request.method ≠ "GET" then
    let (reply, events) := errorReply .methodNotAllowed ("method " ++ request.method ++ " not allowed") []
    (reply, e, events)
  else
    match read request.query with
    | .ok query => handle e query
    | .error error =>
      let (reply, events) := failureReply error.report
      (reply, e, events)

/-- Sends a request to the handler of its path. -/
def route (e : Engine σ) (request : Request) : Handled σ :=
  if request.path = "/check" then withQuery CheckQuery.read check e request
  else if request.path = "/compile" then withQuery CompileQuery.read compile e request
  else
    let (reply, events) := errorReply .notFound ("no route for " ++ request.path) []
    (reply, e, events)

/-- Which other origins may use the service; an empty list stands for all. -/
structure CrossOrigin where
  origins : List Bytes
  maxAge : Int
  deriving DecidableEq, Repr

namespace CrossOrigin

def allowsAll (c : CrossOrigin) : Bool := c.origins.isEmpty || c.origins.contains "*"

/-- The headers that tell an origin it may use the reply. -/
def originHeaders (c : CrossOrigin) (origin : Bytes) : List (Bytes × Bytes) :=
  if c.allowsAll then [("Access-Control-Allow-Origin", "*")]
  else if !origin.isEmpty && c.origins.contains origin then
    [("Access-Control-Allow-Origin", origin), ("Vary", "Origin")]
  else []

/-- The headers that answer a question about what is allowed. -/
def preflightHeaders (c : CrossOrigin) : List (Bytes × Bytes) :=
  ("Access-Control-Allow-Methods", "GET, OPTIONS") :: ("Access-Control-Allow-Headers", "Content-Type") ::
    if 0 < c.maxAge then [(utf8 "Access-Control-Max-Age", decimalInt c.maxAge)] else []

end CrossOrigin

/-- Adds what other origins need to know, and answers their questions itself. -/
def crossOrigin (c : Option CrossOrigin) (e : Engine σ) (request : Request) : Handled σ :=
  match c with
  | none => route e request
  | some c =>
    if request.method = "OPTIONS" then
      (⟨204, c.originHeaders request.origin ++ c.preflightHeaders, []⟩, e, [])
    else
      let (reply, e, events) := route e request
      ({ reply with headers := c.originHeaders request.origin ++ reply.headers }, e, events)

def startedEvent (request : Request) : Event :=
  ⟨.info, "request started", [("method", request.method), ("path", request.path)]⟩

/-- The event at the end of a request; how long it took is not kept. -/
def finishedEvent (request : Request) (status : Nat) : Event :=
  let attributes : List (Bytes × Bytes) :=
    [("path", request.path), ("status", decimalNat status), ("duration", [])]
  if 400 ≤ status then ⟨.error, "request failed", attributes⟩
  else ⟨.info, "request completed", attributes⟩

/-- Handles a request and logs it. -/
def handle (c : Option CrossOrigin) (e : Engine σ) (request : Request) : Handled σ :=
  let (reply, e, events) := crossOrigin c e request
  (reply, e, startedEvent request :: events ++ [finishedEvent request reply.status])

end Conform.Service
