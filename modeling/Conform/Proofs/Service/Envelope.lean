import Conform.Proofs.Json.Strings
import Conform.Proofs.Plan
import Conform.Proofs.Service.Reports
import Conform.Proofs.Service.Status

/-! The envelope of a reply. A reply is complete when its body is one JSON object with
a result, or with the code and the message of an error, as its status says. Every
reply is complete but two kinds: the answer to a question about what other origins may
do, which has no body, and the answer to a conversion whose outcome holds an infinity,
which cannot be written. -/
namespace Conform

theorem Json.read?_line {j : Json} (sound : j.Sound) :
    read? greedyText (j.write ++ [0x0A]).length (j.write ++ [0x0A]) = some j.repaired := by
  have stops : Starts isStop [0x0A] := Starts.cons [] (by decide)
  have enough : j.write.length ≤ (j.write ++ [0x0A]).length := by simp
  have read := value_write greedyText_joins.stringUnits sound enough
    (Nat.le_trans j.depth_le_length enough) [0x0A] stops
  rw [read?, skipSpace_write sound, read]
  rfl

namespace Service

/-! ### Complete replies -/

/-- The body is one object with a result or an error, as the status says. -/
def Reply.Complete (reply : Reply) : Prop :=
  ∃ members, Json.read? Json.greedyText reply.body.length reply.body = some (.object members) ∧
    ((reply.status < 400 ∧ ∃ result, members = [(utf8 "result", result)]) ∨
      (400 ≤ reply.status ∧ ∃ code message more, members = [(utf8 "error",
        .object ((utf8 "code", .string code) :: (utf8 "message", .string message) :: more))]))

theorem Reply.not_complete_of_empty {reply : Reply} (empty : reply.body = []) :
    ¬ reply.Complete := by
  rintro ⟨members, read, _⟩
  rw [empty] at read
  exact nomatch read

theorem repaired_word {word : String} (ascii : Utf8.isAscii (utf8 word) = true) :
    Utf8.repaired (utf8 word) = utf8 word :=
  Utf8.repaired_of_valid (Utf8.valid_ascii ascii)

theorem error_status (code : Code) : 400 ≤ code.status := by
  cases code with
  | unlisted name => exact Nat.le_add_right 400 100
  | _ => decide

theorem resultReply_complete {document : Json} (sound : document.Sound) :
    (resultReply (.ok document)).1.Complete := by
  have envelope : (Json.object [(utf8 "result", document)]).Sound :=
    (Json.everyMember_iff _ _ _).mpr (List.forall_mem_singleton.mpr ⟨trivial, sound⟩)
  have read := Json.read?_line envelope
  rw [Json.repaired, Json.repairedMembers_eq, List.map_singleton, repaired_word (by decide)] at read
  exact ⟨_, read, .inl ⟨Nat.lt_add_of_pos_right (by decide : 0 < 200), document.repaired, rfl⟩⟩

theorem errorDocument_eq_ok {details : Details} (simple : details.Simple)
    (finite : details.finite = true) (code : Code) (message : Bytes) :
    ∃ more, errorDocument code message details = .ok (.object
        ((utf8 "code", .string code.name) :: (utf8 "message", .string message) :: more)) ∧
      ∀ m ∈ more, m.2.Sound := by
  rw [errorDocument]
  split
  · exact ⟨[], rfl, nofun⟩
  · obtain ⟨document, encoded, sound⟩ :=
      Value.exists_document simple.orderly ((Details.value_finite details).trans finite)
    rw [Details.value] at encoded
    simp only [encoded]
    exact ⟨[(utf8 "details", document)], rfl, List.forall_mem_singleton.mpr sound⟩

theorem errorDocument_eq_error {details : Details} (simple : details.Simple)
    (infinite : details.finite = false) (code : Code) (message : Bytes) :
    ∃ e, errorDocument code message details = .error e := by
  obtain ⟨e, failed⟩ :=
    Value.no_document simple.orderly ((Details.value_finite details).trans infinite)
  rw [Details.value] at failed
  cases details with
  | nil => contradiction
  | cons first rest => exact ⟨e, by simp only [errorDocument, List.isEmpty_cons, failed]; rfl⟩

theorem errorReply_complete {details : Details} (simple : details.Simple)
    (finite : details.finite = true) (code : Code) (message : Bytes) :
    (errorReply code message details).1.Complete := by
  obtain ⟨more, document, sound⟩ := errorDocument_eq_ok simple finite code message
  have envelope : (Json.object [(utf8 "error", .object
      ((utf8 "code", .string code.name) :: (utf8 "message", .string message) :: more))]).Sound := by
    refine (Json.everyMember_iff _ _ _).mpr (List.forall_mem_singleton.mpr ⟨trivial, ?_⟩)
    apply (Json.everyMember_iff _ _ _).mpr
    exact List.forall_mem_cons.mpr ⟨⟨trivial, trivial⟩,
      List.forall_mem_cons.mpr ⟨⟨trivial, trivial⟩, fun m member => ⟨trivial, sound m member⟩⟩⟩
  have read := Json.read?_line envelope
  rw [Json.repaired, Json.repairedMembers_eq, List.map_singleton, Json.repaired,
    Json.repairedMembers_eq, List.map_cons, List.map_cons, Json.repaired, Json.repaired,
    repaired_word (by decide), repaired_word (by decide), repaired_word (by decide)] at read
  rw [errorReply, document]
  exact ⟨_, read, .inr ⟨error_status code, _, _, _, rfl⟩⟩

theorem errorReply_empty {details : Details} (simple : details.Simple)
    (infinite : details.finite = false) (code : Code) (message : Bytes) :
    (errorReply code message details).1.body = [] := by
  obtain ⟨e, failed⟩ := errorDocument_eq_error simple infinite code message
  rw [errorReply, failed]

theorem failureReply_complete {r : Report} (whole : r.Whole) : (failureReply r).1.Complete := by
  rw [failureReply_eq]
  exact errorReply_complete whole.simple whole.finite _ _

theorem checkDocument_eq_ok (signature : Bytes) (accepted : Bool) {v : Value}
    (orderly : v.orderly = true) (finite : v.finite = true) :
    ∃ document, checkDocument signature accepted v = .ok document ∧ document.Sound := by
  have whole : ∀ more : List (Bytes × Json), (∀ m ∈ more, m.2.Sound) →
      (Json.object ((utf8 "type", Json.string signature) :: (utf8 "accepted", .bool accepted) ::
        more)).Sound := by
    intro more others
    apply (Json.everyMember_iff _ _ _).mpr
    exact List.forall_mem_cons.mpr ⟨⟨trivial, trivial⟩,
      List.forall_mem_cons.mpr ⟨⟨trivial, trivial⟩, fun m member => ⟨trivial, others m member⟩⟩⟩
  obtain ⟨document, encoded, sound⟩ := Value.exists_document orderly finite
  cases v with
  | null => exact ⟨_, rfl, whole [] nofun⟩
  | _ =>
    simp only [checkDocument, encoded]
    exact ⟨_, rfl, whole [(utf8 "value", document)] (List.forall_mem_singleton.mpr sound)⟩

theorem checkDocument_eq_error (signature : Bytes) (accepted : Bool) {v : Value}
    (orderly : v.orderly = true) (infinite : v.finite = false) :
    ∃ e, checkDocument signature accepted v = .error e := by
  obtain ⟨e, failed⟩ := Value.no_document orderly infinite
  cases v with
  | null => contradiction
  | _ => exact ⟨e, by simp only [checkDocument, failed]⟩

/-! ### Replies that may be lost -/

/-- The reply is complete, except that it is empty when it is lost. -/
def Reply.CompleteUnless (lost : Prop) (reply : Reply) : Prop :=
  (¬ lost ∧ reply.Complete) ∨ (lost ∧ reply.body = [])

namespace Reply

variable {lost lost' : Prop} {reply : Reply}

theorem Complete.orLost (complete : reply.Complete) (kept : ¬ lost) : reply.CompleteUnless lost :=
  .inl ⟨kept, complete⟩

theorem CompleteUnless.congr (given : reply.CompleteUnless lost) (same : lost ↔ lost') :
    reply.CompleteUnless lost' := by
  rwa [← propext same]

theorem CompleteUnless.iff (given : reply.CompleteUnless lost) :
    (reply.Complete ↔ ¬ lost) ∧ (lost → reply.body = []) := by
  rcases given with ⟨kept, complete⟩ | ⟨gone, empty⟩
  · exact ⟨iff_of_true complete kept, fun gone => absurd gone kept⟩
  · exact ⟨iff_of_false (not_complete_of_empty empty) (not_not_intro gone), fun _ => empty⟩

end Reply

theorem resultReply_unless (signature : Bytes) (accepted : Bool) {v : Value}
    (orderly : v.orderly = true) :
    (resultReply (checkDocument signature accepted v)).1.CompleteUnless (v.finite = false) := by
  cases finite : v.finite with
  | true =>
    obtain ⟨document, written, sound⟩ := checkDocument_eq_ok signature accepted orderly finite
    rw [written]
    exact (resultReply_complete sound).orLost nofun
  | false =>
    obtain ⟨e, failed⟩ := checkDocument_eq_error signature accepted orderly finite
    rw [failed]
    exact .inr ⟨rfl, rfl⟩

theorem failureReply_unless {r : Report} (simple : r.details.Simple) :
    (failureReply r).1.CompleteUnless (r.details.finite = false) := by
  rw [failureReply_eq]
  cases finite : r.details.finite with
  | true => exact (errorReply_complete simple finite _ _).orLost nofun
  | false => exact .inr ⟨rfl, errorReply_empty simple finite _ _⟩

section Engines

variable {σ : Type} (e : Engine σ)

/-- There is no document for what comes of a conversion: the result holds an infinity or
not-a-number, or the error names one. -/
def Unsendable : Except EngineError Value → Prop
  | .ok w => w.finite = false
  | .error error => error.report.details.finite = false

/-- An engine without a validator says so in an error that can be sent. -/
theorem validator_error_whole {call : Call} {source : Bytes} {error : EngineError}
    (refused : (e.validator call source).1 = .error error) : error.report.Whole := by
  rw [Engine.validator] at refused
  rcases read : e.catalog.parse source with ⟨fault | t, catalog⟩
  · simp only [read] at refused
    obtain rfl := Except.error.inj refused
    exact DeclarationError.report_whole fault
  · simp only [read] at refused
    rcases found : e.validators.validator e.backing call t with ⟨(compile | load) | held, rest⟩
    · simp only [found] at refused
      obtain rfl := Except.error.inj refused
      exact CompileError.report_whole compile
    · simp only [found] at refused
      obtain rfl := Except.error.inj refused
      exact ArtifactError.report_whole load
    · simp only [found, reduceCtorEq] at refused

theorem compile_error_whole {source format : Bytes} {error : EngineError}
    (refused : (e.compile source format).1 = .error error) : error.report.Whole := by
  rw [Engine.compile] at refused
  cases form : Backend.ofFormat? format [] [] with
  | none =>
    simp only [form] at refused
    obtain rfl := Except.error.inj refused
    exact ⟨.nil, rfl⟩
  | some backend =>
    rcases read : e.catalog.parse source with ⟨fault | t, catalog⟩
    · simp only [form, Engine.parse, read] at refused
      obtain rfl := Except.error.inj refused
      exact DeclarationError.report_whole fault
    · simp only [form, Engine.parse, read] at refused
      cases compiled : t.compile backend with
      | ok artifact => simp only [compiled, reduceCtorEq] at refused
      | error fault =>
        simp only [compiled] at refused
        obtain rfl := Except.error.inj refused
        exact CompileError.report_whole fault

/-- What a check is asked for is a conversion that cannot be sent. -/
def CheckQuery.Overflows (query : CheckQuery) : Prop :=
  query.cast = true ∧ ∃ v, Value.readJson query.value = .ok v ∧
    Unsendable (e.cast live query.type v).1

theorem CheckQuery.overflows_iff {query : CheckQuery} {v : Value}
    (value : Value.readJson query.value = .ok v) : query.Overflows e ↔
      query.cast = true ∧ Unsendable (e.cast live query.type v).1 := by
  rw [Overflows, value]
  constructor
  · rintro ⟨asked, _, ⟨⟩, outcome⟩
    exact ⟨asked, outcome⟩
  · rintro ⟨asked, outcome⟩
    exact ⟨asked, v, rfl, outcome⟩

theorem check_unless (query : CheckQuery) :
    (check e query).1.CompleteUnless (query.Overflows e) := by
  cases value : Value.readJson query.value with
  | error error =>
    rw [check_of_malformed value]
    refine (errorReply_complete .nil rfl _ _).orLost ?_
    rintro ⟨_, v, read, _⟩
    exact nomatch value.symm.trans read
  | ok v =>
    refine Reply.CompleteUnless.congr ?_ (CheckQuery.overflows_iff e value).symm
    cases got : (e.validator live query.type).1 with
    | error error =>
      rw [check_of_refused value got]
      have outcome : (e.cast live query.type v).1 = .error error := by
        rw [Engine.cast_eq, got]
        rfl
      have whole := validator_error_whole e got
      rw [outcome]
      refine (failureReply_complete whole).orLost ?_
      rintro ⟨_, infinite⟩
      exact nomatch whole.finite.symm.trans infinite
    | ok held =>
      have outcome : (e.cast live query.type v).1 = (held.validator.cast v).mapError .cast := by
        rw [Engine.cast_eq, got]
        rfl
      have decoded := Value.readJson_decoded value
      rw [outcome]
      cases asked : query.cast with
      | false =>
        rw [check_of_unconverted value got asked]
        exact (resultReply_unless _ _ rfl).congr (iff_of_false nofun nofun)
      | true =>
        cases answer : held.validator.cast v with
        | ok w =>
          rw [check_of_converted value got asked answer]
          have orderly := held.validator.plan.cast_orderly decoded answer
          exact (resultReply_unless _ _ orderly).congr ⟨fun gone => ⟨rfl, gone⟩, And.right⟩
        | error error =>
          rw [check_of_failed value got asked answer]
          have native := held.validator.plan.cast_native v error answer
          exact (failureReply_unless native.report_simple).congr ⟨fun gone => ⟨rfl, gone⟩, And.right⟩

theorem compile_complete (query : CompileQuery) : (compile e query).1.Complete := by
  rw [compile]
  rcases compiled : e.compile query.type query.format with ⟨error | artifact, after⟩
  · exact failureReply_complete (compile_error_whole e (congrArg Prod.fst compiled))
  · refine resultReply_complete ?_
    apply (Json.everyMember_iff _ _ _).mpr
    simp [Json.Every]

/-- The request is for a conversion whose outcome cannot be sent. -/
structure Request.Overflows (request : Request) : Prop where
  get : request.method = "GET"
  path : request.path = "/check"
  query : ∃ query, CheckQuery.read request.query = .ok query ∧ query.Overflows e

theorem withQuery_unless {Q : Type} {read : Bytes → Except QueryError Q}
    {handle : Engine σ → Q → Handled σ} {lost : Q → Prop}
    (each : ∀ query, (handle e query).1.CompleteUnless (lost query)) (request : Request) :
    (withQuery read handle e request).1.CompleteUnless
      (request.method = "GET" ∧ ∃ query, read request.query = .ok query ∧ lost query) := by
  rw [withQuery]
  by_cases get : request.method = "GET"
  · rw [if_neg (not_not_intro get)]
    cases found : read request.query with
    | ok query =>
      refine (each query).congr ?_
      constructor
      · exact fun gone => ⟨get, query, rfl, gone⟩
      · rintro ⟨_, _, ⟨⟩, gone⟩
        exact gone
    | error error =>
      refine (failureReply_complete (QueryError.report_whole error)).orLost ?_
      rintro ⟨_, _, ⟨⟩, _⟩
  · rw [if_pos get]
    exact (errorReply_complete .nil rfl _ _).orLost fun gone => get gone.1

theorem route_unless (request : Request) :
    (route e request).1.CompleteUnless (request.Overflows e) := by
  rw [route]
  by_cases path : request.path = "/check"
  · rw [if_pos path]
    refine (withQuery_unless e (check_unless e) request).congr ?_
    constructor
    · exact fun asked => ⟨asked.1, path, asked.2⟩
    · exact fun gone => ⟨gone.get, gone.query⟩
  · rw [if_neg path]
    have kept : ¬ request.Overflows e := fun gone => path gone.path
    split
    · have always : ∀ query, (compile e query).1.CompleteUnless False := fun query =>
        (compile_complete e query).orLost not_false
      refine (withQuery_unless e always request).congr (iff_of_false ?_ kept)
      rintro ⟨_, _, _, never⟩
      exact never
    · exact (errorReply_complete .nil rfl _ _).orLost kept

theorem handle_unless (c : Option CrossOrigin) (request : Request) :
    (handle c e request).1.CompleteUnless
      ((c ≠ none ∧ request.method = "OPTIONS") ∨ request.Overflows e) := by
  have routed := route_unless e request
  cases c with
  | none => exact routed.congr ⟨.inr, fun gone => gone.elim (fun asks => absurd rfl asks.1) id⟩
  | some c =>
    by_cases options : request.method = "OPTIONS"
    · simp only [handle, crossOrigin, if_pos options]
      exact .inr ⟨.inl ⟨Option.some_ne_none c, options⟩, rfl⟩
    · simp only [handle, crossOrigin, if_neg options]
      exact routed.congr ⟨.inr, fun gone => gone.elim (fun asks => absurd asks.2 options) id⟩

end Engines

end Service

end Conform
