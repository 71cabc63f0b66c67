import Conform.Service

/-! What the service replies to a check, step by step: the first step that fails
decides the reply, and what comes after the validator depends on what was asked
for. -/
namespace Conform.Service

section Check

variable {σ : Type} {e : Engine σ} {query : CheckQuery}

theorem check_of_malformed {error : JsonError}
    (malformed : Value.readJson query.value = .error error) :
    (check e query).1 = (errorReply .invalidArgument ("value: " ++ error.message) []).1 := by
  simp only [check, malformed]

variable {v : Value} (value : Value.readJson query.value = .ok v)

include value

theorem check_of_refused {error : EngineError}
    (refused : (e.validator live query.type).1 = .error error) :
    (check e query).1 = (failureReply error.report).1 := by
  simp only [check, value]
  rcases found : e.validator live query.type with ⟨result, after, events⟩
  rw [found] at refused
  obtain rfl : result = .error error := refused
  rfl

variable {held : Held} (got : (e.validator live query.type).1 = .ok held)

include got

theorem check_of_held : (check e query).1 =
    (if query.cast then
      match held.validator.cast v with
      | .ok converted => resultReply (checkDocument held.validator.signature true converted)
      | .error error => failureReply error.report
    else resultReply
      (checkDocument held.validator.signature (held.validator.accepts v) .null)).1 := by
  simp only [check, value]
  rcases found : e.validator live query.type with ⟨result, after, events⟩
  rw [found] at got
  obtain rfl : result = .ok held := got
  rfl

theorem check_of_unconverted (plain : query.cast = false) : (check e query).1 =
    (resultReply
      (checkDocument held.validator.signature (held.validator.accepts v) .null)).1 := by
  rw [check_of_held value got, plain]
  rfl

theorem check_of_converted (asked : query.cast = true) {w : Value}
    (converted : held.validator.cast v = .ok w) :
    (check e query).1 = (resultReply (checkDocument held.validator.signature true w)).1 := by
  rw [check_of_held value got, asked, converted]
  rfl

theorem check_of_failed (asked : query.cast = true) {error : CastError}
    (failed : held.validator.cast v = .error error) :
    (check e query).1 = (failureReply error.report).1 := by
  rw [check_of_held value got, asked, failed]
  rfl

end Check

/-- What a query asks: to check a value against a declared type. -/
structure Asks (aliases : Declaration.Aliases) (text : Bytes) (query : CheckQuery) (v : Value)
    (t : Ty) : Prop where
  read : CheckQuery.read text = .ok query
  value : Value.readJson query.value = .ok v
  type : Declaration.parse aliases query.type = .ok t

theorem Asks.unique {aliases : Declaration.Aliases} {text : Bytes} {query query' : CheckQuery}
    {v v' : Value} {t t' : Ty} (one : Asks aliases text query v t)
    (other : Asks aliases text query' v' t') : query = query' ∧ v = v' ∧ t = t' := by
  obtain rfl := Except.ok.inj (one.read.symm.trans other.read)
  exact ⟨rfl, Except.ok.inj (one.value.symm.trans other.value),
    Except.ok.inj (one.type.symm.trans other.type)⟩

/-- The declaration of a query that can be read. -/
theorem CheckQuery.type_of_read {text : Bytes} {query : CheckQuery}
    (read : CheckQuery.read text = .ok query) : query.type = textOf "type" (pairs text) := by
  rw [CheckQuery.read] at read
  simp only at read
  split at read
  · contradiction
  · split at read
    · exact (congrArg CheckQuery.type (Except.ok.inj read)).symm
    · contradiction

theorem route_check {σ : Type} {e : Engine σ} {request : Request} (path : request.path = "/check")
    (get : request.method = "GET") : (route e request).1 =
      match CheckQuery.read request.query with
      | .ok query => (check e query).1
      | .error error => (failureReply error.report).1 := by
  rw [route, if_pos path, withQuery, if_neg (not_not_intro get)]
  cases CheckQuery.read request.query <;> rfl

theorem handle_none {σ : Type} (e : Engine σ) (request : Request) :
    (handle none e request).1 = (route e request).1 := rfl

end Conform.Service
