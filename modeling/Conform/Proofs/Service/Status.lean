import Conform.Proofs.Declaration.Legible
import Conform.Proofs.Engine
import Conform.Proofs.Service
import Conform.Proofs.Ty.CastErrors
import Mathlib

/-! The status of a check. A request is refused as such when its query, its value or
its declaration cannot be read, and as unprocessable when the value cannot be
converted; otherwise there is a result. No error code that stands for a failure of
the service itself can come out of the steps in between: each kind of error has
its range of codes, and what was read from well-formed text can be compiled and
loaded. -/
namespace Conform

/-! ### Errors -/

/-- The status that a failure is sent with. -/
def Report.status (r : Report) : Nat := (r.code?.getD .internal).status

theorem DeclarationError.report_status (e : Declaration.DeclarationError) :
    e.report.status = 400 := by
  cases e with
  | type error => cases error <;> rfl
  | _ => rfl

theorem QueryError.report_status (e : Service.QueryError) : e.report.status = 400 := by
  cases e <;> rfl

theorem CastError.status_of_code {e f : CastError} (code : e.report.code? = f.report.code?) :
    e.report.status = f.report.status := by
  rw [Report.status, Report.status, code]

theorem CastError.Native.report_status {e : CastError} (native : e.Native) :
    e.report.status = 422 := by
  induction native with
  | element key _ ih => rw [CastError.status_of_code (CastError.element_code key _), ih]
  | _ => rfl

namespace Service

/-! ### Replies -/

theorem errorReply_status (code : Code) (message : Bytes) (details : Details) :
    (errorReply code message details).1.status = code.status := by
  rw [errorReply]
  split <;> rfl

theorem failureReply_eq (r : Report) : failureReply r =
    errorReply (r.code?.getD .internal) r.message r.details := by
  cases r <;> rfl

theorem failureReply_status (r : Report) : (failureReply r).1.status = r.status := by
  rw [failureReply_eq]
  exact errorReply_status _ r.message r.details

theorem resultReply_status (result : Except EncodeError Json) :
    (resultReply result).1.status = 200 := by
  cases result <;> rfl

/-- What other origins are told does not change a status. -/
theorem handle_status {σ : Type} (c : Option CrossOrigin) (e : Engine σ) {request : Request}
    (asks : request.method ≠ "OPTIONS") :
    (handle c e request).1.status = (route e request).1.status := by
  cases c with
  | none => rw [handle_none]
  | some c => simp only [handle, crossOrigin, if_neg asks]

/-! ### Checks -/

/-- The status of a check by what its steps come to: the steps that read, and the
conversion if one is asked for. -/
inductive StatusOf (aliases : Declaration.Aliases) (text : Bytes) : Nat → Prop
  | unread (none : ¬ ∃ query v t, Asks aliases text query v t) : StatusOf aliases text 400
  | unconverted {query : CheckQuery} {v : Value} {t : Ty} (asks : Asks aliases text query v t)
      (plain : query.cast = false) : StatusOf aliases text 200
  | converted {query : CheckQuery} {v w : Value} {t : Ty} (asks : Asks aliases text query v t)
      (converted : t.cast v = .ok w) : StatusOf aliases text 200
  | failed {query : CheckQuery} {v : Value} {t : Ty} {error : CastError}
      (asks : Asks aliases text query v t) (asked : query.cast = true)
      (failed : t.cast v = .error error) : StatusOf aliases text 422

/-- Each status stands for one outcome, since a query asks one thing at most. -/
theorem StatusOf.outcomes {aliases : Declaration.Aliases} {text : Bytes} {status : Nat}
    (of : StatusOf aliases text status) :
    (status = 400 ↔ ¬ ∃ query v t, Asks aliases text query v t) ∧
      (status = 422 ↔ ∃ query v t, Asks aliases text query v t ∧
        query.cast = true ∧ ∃ error, t.cast v = .error error) ∧
      (status = 200 ↔ ∃ query v t, Asks aliases text query v t ∧
        (query.cast = true → ∃ w, t.cast v = .ok w)) ∧
      status < 500 := by
  cases of with
  | unread none =>
    refine ⟨⟨fun _ => none, fun _ => rfl⟩, ⟨nofun, ?_⟩, ⟨nofun, ?_⟩, by decide⟩
    · rintro ⟨query, v, t, asks, _⟩
      exact absurd ⟨query, v, t, asks⟩ none
    · rintro ⟨query, v, t, asks, _⟩
      exact absurd ⟨query, v, t, asks⟩ none
  | unconverted asks plain =>
    refine ⟨⟨nofun, fun none => absurd ⟨_, _, _, asks⟩ none⟩, ⟨nofun, ?_⟩,
      ⟨fun _ => ⟨_, _, _, asks, ?_⟩, fun _ => rfl⟩, by decide⟩
    · rintro ⟨query, v, t, asks', asked, _⟩
      obtain ⟨rfl, _⟩ := asks.unique asks'
      exact nomatch plain.symm.trans asked
    · intro asked
      exact nomatch plain.symm.trans asked
  | converted asks converted =>
    refine ⟨⟨nofun, fun none => absurd ⟨_, _, _, asks⟩ none⟩, ⟨nofun, ?_⟩,
      ⟨fun _ => ⟨_, _, _, asks, fun _ => ⟨_, converted⟩⟩, fun _ => rfl⟩, by decide⟩
    rintro ⟨query, v, t, asks', _, error, failed⟩
    obtain ⟨rfl, rfl, rfl⟩ := asks.unique asks'
    exact nomatch converted.symm.trans failed
  | failed asks asked failed =>
    refine ⟨⟨nofun, fun none => absurd ⟨_, _, _, asks⟩ none⟩,
      ⟨fun _ => ⟨_, _, _, asks, asked, _, failed⟩, fun _ => rfl⟩, ⟨nofun, ?_⟩, by decide⟩
    rintro ⟨query, v, t, asks', converted⟩
    obtain ⟨rfl, rfl, rfl⟩ := asks.unique asks'
    obtain ⟨w, converted⟩ := converted asked
    exact nomatch failed.symm.trans converted

section Engines

variable {σ : Type} {backing : Backing σ} {aliases : Declaration.Aliases} {good : σ → Prop}
  {e : Engine σ}

/-- A declaration that can be compiled and loaded has a validator that converts as its type. -/
theorem validator_found (trusted : ∀ store, backing.store = some store → store.Trusted good)
    (names : aliases.Regular) (sound : e.Sound backing aliases good) {source : Bytes} {t : Ty}
    (type : Declaration.parse aliases source = .ok t) (signature : Utf8.valid t.signature = true)
    (shallow : t.nesting < 10000) (call : Call) : ∃ held,
      (e.validator call source).1 = .ok held ∧ ∀ v, Alike (held.validator.cast v) (t.cast v) := by
  have regular := Declaration.parse_regular names type
  have loaded := Ty.load_artifact regular shallow signature
  obtain ⟨_, _, found⟩ := Engine.validator_answers trusted names sound call source
  rcases found t type with ⟨held, got, genuine, same⟩ | ⟨failure, refused, _⟩
  · exact ⟨held, got, genuine.cast_alike regular shallow same⟩
  · simp only [loaded, reduceCtorEq] at refused

theorem check_statusOf (trusted : ∀ store, backing.store = some store → store.Trusted good)
    (names : aliases.Regular) (legible : aliases.Legible) (sound : e.Sound backing aliases good)
    {text : Bytes} {query : CheckQuery} (read : CheckQuery.read text = .ok query)
    (wellFormed : Utf8.valid query.type = true)
    (shallow : ∀ t, Declaration.parse aliases query.type = .ok t → t.nesting < 10000) :
    StatusOf aliases text (check e query).1.status := by
  cases value : Value.readJson query.value with
  | error error =>
    rw [check_of_malformed value, errorReply_status]
    refine .unread ?_
    rintro ⟨query', v, t, asks⟩
    obtain rfl := Except.ok.inj (read.symm.trans asks.read)
    exact nomatch value.symm.trans asks.value
  | ok v =>
    cases type : Declaration.parse aliases query.type with
    | error error =>
      obtain ⟨_, rejected, _⟩ := Engine.validator_answers trusted names sound live query.type
      rw [check_of_refused value (rejected error type), failureReply_status]
      rw [show (EngineError.declaration error).report = error.report from rfl,
        DeclarationError.report_status]
      refine .unread ?_
      rintro ⟨query', v', t, asks⟩
      obtain rfl := Except.ok.inj (read.symm.trans asks.read)
      exact nomatch type.symm.trans asks.type
    | ok t =>
      have asks : Asks aliases text query v t := ⟨read, value, type⟩
      have regular := Declaration.parse_regular names type
      have signature : Utf8.valid t.signature = true :=
        (Ty.valid_render .signature regular.known).trans
          (Declaration.parse_legible names legible wellFormed type)
      obtain ⟨held, got, alike⟩ :=
        validator_found trusted names sound type signature (shallow t type) live
      cases asked : query.cast with
      | false =>
        rw [check_of_unconverted value got asked, resultReply_status]
        exact .unconverted asks asked
      | true =>
        rcases alike v with ⟨w, answer, converted⟩ | ⟨error, error', answer, failed, code⟩
        · rw [check_of_converted value got asked answer, resultReply_status]
          exact .converted asks converted
        · rw [check_of_failed value got asked answer, failureReply_status,
            CastError.status_of_code code, (t.cast_native v error' failed).report_status]
          exact .failed asks asked failed

end Engines

end Service

end Conform
