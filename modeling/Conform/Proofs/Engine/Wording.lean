import Conform.Proofs.Engine

/-! What earlier requests leave in an answer. An engine keeps validators by
signature, which forgets how string literals are quoted, while an error names the
type that was compiled. So without a store a conversion answers as the compiled form
of some type that differs from the declared one in quoting only, and that type is
the declared one or was sought before. Two histories show in nothing but the words
of an error, and not even there unless a declaration with other quotes was sought. -/
namespace Conform

open Declaration (Aliases)

namespace Validators

variable {σ : Type} {backing : Backing σ} {c : Validators σ} {P : Ty → Prop} {t : Ty}

/-- Every validator held was loaded from the compiled form of a type with the property. -/
def HeldFrom (P : Ty → Prop) (c : Validators σ) : Prop :=
  c.recent.All fun _ held => ∃ s, P s ∧ s.artifact.load = .ok held.validator

theorem obtain_without_store (alone : backing.store = none) (regular : t.Regular) (state : σ)
    (call : Call) : obtain backing state call t = (t.artifact.load.mapError .load, state,
      [compilingEvent t.signature (backing.key t.signature)]) := by
  rw [obtain, alone]
  simp only [compileAndLoad_eq regular]
  cases t.artifact.load <;> rfl

/-- Without a store the validator of a type was loaded from the type itself, or from
one of its signature whose validator was held. -/
theorem validator_without_store (alone : backing.store = none) (regular : t.Regular)
    (held : c.HeldFrom P) (property : P t) (call : Call) :
    (c.validator backing call t).2.1.HeldFrom P ∧
      ∃ s, P s ∧ s.signature = t.signature ∧
        (c.validator backing call t).1.map Held.validator = s.artifact.load.mapError .load := by
  obtain ⟨kept, origin⟩ := Recent.All.get held (backing.key t.signature)
  rcases validator_cases c backing call t with ⟨found, looked, same, answer⟩ | ⟨_, answer⟩
  · obtain ⟨s, property, loaded⟩ := origin found looked
    rw [answer]
    refine ⟨kept, s, property, (Ty.signature_of_load loaded).symm.trans same, ?_⟩
    rw [loaded]
    rfl
  · rw [answer, obtain_without_store alone regular]
    cases loaded : t.artifact.load with
    | error e => exact ⟨kept, t, property, rfl, by rw [loaded]; rfl⟩
    | ok v => exact ⟨kept.add ⟨t, property, loaded⟩, t, property, rfl, by rw [loaded]; rfl⟩

theorem make_room (size : Int) (state : σ) : 0 < (make size state).recent.capacity := by
  simp only [make, Recent.empty]
  split
  · omega
  · decide

/-- A validator that was just handed out is handed out for the next type of its signature. -/
theorem validator_again (room : 0 < c.recent.capacity) {s : Ty} {call : Call} {held : Held}
    (made : (c.validator backing call s).1 = .ok held) (same : s.signature = t.signature)
    (signature : held.validator.signature = t.signature) (next : Call) :
    ((c.validator backing call s).2.1.validator backing next t).1 = .ok held := by
  have latest : ((c.validator backing call s).2.1.recent.get (backing.key t.signature)).1 =
      some held := by
    rw [← same]
    rcases validator_cases c backing call s with ⟨found, looked, _, answer⟩ | ⟨_, answer⟩
    · rw [answer] at made ⊢
      obtain rfl := Except.ok.inj made
      simp only [Recent.get_of_found looked]
      exact Recent.get_add room _ _
    · rw [answer] at made ⊢
      cases result : obtain backing c.stored call s with
      | mk got rest =>
        rw [result] at made
        cases got with
        | error e => simp only [holding, reduceCtorEq] at made
        | ok v =>
          obtain rfl := Except.ok.inj made
          exact Recent.get_add (by rwa [Recent.capacity_get]) _ _
  rcases validator_cases (c.validator backing call s).2.1 backing next t with
    ⟨found, looked, _, answer⟩ | ⟨missed, _⟩
  · rw [answer, Option.some.inj (looked.symm.trans latest)]
  · exact absurd signature (missed held latest)

end Validators

/-- What a conversion by the compiled form of a type comes to. -/
def Ty.outcome (t : Ty) (v : Value) : Except EngineError Value :=
  (t.artifact.load.mapError fun e => .validator (.load e)).bind fun w => (w.cast v).mapError .cast

/-- The same value, or errors of one code. -/
def SameButWording (r s : Except EngineError Value) : Prop :=
  (∃ w, r = .ok w ∧ s = .ok w) ∨
    ∃ e f, r = .error e ∧ s = .error f ∧ e.report.code? = f.report.code?

namespace Ty

variable {s t : Ty}

theorem outcome_of_load {v : Validator} (loaded : t.artifact.load = .ok v) (x : Value) :
    t.outcome x = (v.cast x).mapError .cast := by
  rw [outcome, loaded]
  rfl

theorem outcome_of_refused {error : ArtifactError} (refused : t.artifact.load = .error error)
    (x : Value) : t.outcome x = .error (.validator (.load error)) := by
  rw [outcome, refused]
  rfl

theorem outcome_eq (regular : t.Regular) (shallow : t.nesting < 10000)
    (valid : Utf8.valid t.signature = true) (x : Value) :
    t.outcome x = (t.cast x).mapError .cast := by
  rw [outcome_of_load (load_artifact regular shallow valid), Validator.cast, plan_cast]

/-- Types of one signature convert alike, but each in its own words. -/
theorem outcome_of_signature (regularS : s.Regular) (regularT : t.Regular)
    (same : s.signature = t.signature) (x : Value) :
    SameButWording (s.outcome x) (t.outcome x) := by
  cases loadS : s.artifact.load with
  | ok v =>
    obtain ⟨w, loadT⟩ := load_of_signature regularS regularT same loadS
    rw [outcome_of_load loadS, outcome_of_load loadT, ((load_artifact_iff regularS v).mp loadS).2,
      ((load_artifact_iff regularT w).mp loadT).2, Validator.cast, Validator.cast, plan_cast,
      plan_cast]
    rcases cast_of_unquoted (unquoted_of_signature regularS regularT same) x with
      ⟨y, one, other⟩ | ⟨e, f, one, other, code⟩
    · exact .inl ⟨y, by rw [one]; rfl, by rw [other]; rfl⟩
    · exact .inr ⟨.cast e, .cast f, by rw [one]; rfl, by rw [other]; rfl, code⟩
  | error e =>
    cases loadT : t.artifact.load with
    | ok w =>
      obtain ⟨v, loaded⟩ := load_of_signature regularT regularS same.symm loadT
      simp only [loadS, reduceCtorEq] at loaded
    | error f =>
      rw [outcome_of_refused loadS, outcome_of_refused loadT]
      exact .inr ⟨_, _, rfl, rfl, rfl⟩

end Ty

namespace Engine

variable {σ : Type} {aliases : Aliases} {P : Ty → Prop} {e : Engine σ}

/-- The request needs a validator of the type. -/
def Request.Seeks (aliases : Aliases) : Request → Ty → Prop
  | .validator _ source, t | .accepts _ source _, t | .cast _ source _, t =>
    Declaration.parse aliases source = .ok t
  | .parse _, _ | .compile _ _, _ => False

/-- Some request of the history needed a validator of the type. -/
def Sought (aliases : Aliases) (history : List Request) (t : Ty) : Prop :=
  ∃ request ∈ history, request.Seeks aliases t

theorem Sought.regular (names : aliases.Regular) {history : List Request} {t : Ty}
    (sought : Sought aliases history t) : t.Regular := by
  obtain ⟨request, _, seeks⟩ := sought
  cases request with
  | parse source => contradiction
  | compile source format => contradiction
  | _ => exact Declaration.parse_regular names seeks

/-- An engine without a store, whose validators come from types with the property. -/
structure HeldFrom (aliases : Aliases) (P : Ty → Prop) (e : Engine σ) : Prop where
  alone : e.backing.store = none
  catalog : e.catalog.Sound aliases
  validators : e.validators.HeldFrom P

theorem parse_heldFrom (held : e.HeldFrom aliases P) (source : Bytes) :
    (e.parse source).2.HeldFrom aliases P := by
  rw [parse_state]
  exact ⟨held.alone, (held.catalog.parse_answers source).2, held.validators⟩

section Requests

variable (names : aliases.Regular)

include names

/-- The validator of a declaration was loaded from a type of the declared signature. -/
theorem validator_heldFrom (held : e.HeldFrom aliases P) {source : Bytes}
    (property : ∀ t, Declaration.parse aliases source = .ok t → P t) (call : Call) :
    (e.validator call source).2.1.HeldFrom aliases P ∧
      ∀ t, Declaration.parse aliases source = .ok t → ∃ s, P s ∧ s.signature = t.signature ∧
        (e.validator call source).1.map Held.validator =
          s.artifact.load.mapError fun error => .validator (.load error) := by
  obtain ⟨answer, kept⟩ := held.catalog.parse_answers source
  cases read : Declaration.parse aliases source with
  | error error =>
    rw [validator_of_rejected (answer.trans read)]
    exact ⟨⟨held.alone, kept, held.validators⟩, nofun⟩
  | ok t =>
    obtain ⟨validators, s, origin, same, made⟩ := Validators.validator_without_store held.alone
      (Declaration.parse_regular names read) held.validators (property t read) call
    rw [validator_of_parsed (answer.trans read)]
    refine ⟨⟨held.alone, kept, validators⟩, ?_⟩
    rintro _ ⟨⟩
    refine ⟨s, origin, same, ?_⟩
    cases result : (e.validators.validator e.backing call t).1 <;>
      cases loaded : s.artifact.load <;> rw [result, loaded] at made <;> cases made <;> rfl

/-- A request leaves validators of types held before and of the type it sought. -/
theorem after_heldFrom (held : e.HeldFrom aliases P) {request : Request}
    (property : ∀ t, request.Seeks aliases t → P t) : (e.after request).HeldFrom aliases P := by
  cases request with
  | parse source => exact parse_heldFrom held source
  | validator call source => exact (validator_heldFrom names held property call).1
  | accepts call source v =>
    rw [after, accepts_eq]
    exact (validator_heldFrom names held property call).1
  | cast call source v =>
    rw [after, cast_eq]
    exact (validator_heldFrom names held property call).1
  | compile source format =>
    rw [after]
    rcases compile_state e source format with same | same
    · rw [same]
      exact held
    · rw [same]
      exact parse_heldFrom held source

theorem run_heldFrom (held : e.HeldFrom aliases P) {history : List Request}
    (property : ∀ t, Sought aliases history t → P t) : (e.run history).HeldFrom aliases P := by
  induction history generalizing e with
  | nil => exact held
  | cons request rest ih =>
    have first := after_heldFrom names held fun t seeks => property t ⟨request, by simp, seeks⟩
    refine ih first ?_
    rintro t ⟨later, member, seeks⟩
    exact property t ⟨later, by simp [member], seeks⟩

/-- A conversion comes to what it comes to by some type of the declared signature. -/
theorem cast_heldFrom (held : e.HeldFrom aliases P) {source : Bytes} {t : Ty}
    (read : Declaration.parse aliases source = .ok t) (property : P t) (call : Call) (v : Value) :
    ∃ s, P s ∧ s.signature = t.signature ∧ (e.cast call source v).1 = s.outcome v := by
  have known : ∀ u, Declaration.parse aliases source = .ok u → P u := by
    intro u again
    obtain rfl := Except.ok.inj (read.symm.trans again)
    exact property
  obtain ⟨s, origin, same, made⟩ := (validator_heldFrom names held known call).2 t read
  refine ⟨s, origin, same, ?_⟩
  rw [Ty.outcome, ← made, cast_eq]
  cases (e.validator call source).1 <;> rfl

end Requests

/-- The engine of a configuration without a directory starts with nothing held. -/
theorem engine_heldFrom {config : Config} (alone : config.cacheDir = []) {directory : Directory}
    {e : Engine Directory} {events : List Event}
    (made : config.engine directory = .ok (e, events)) :
    ∃ aliases, Declaration.resolveAliases config.aliases = .ok aliases ∧
      (∀ P, e.HeldFrom aliases P) ∧ 0 < e.validators.recent.capacity := by
  rw [Config.engine, alone] at made
  obtain ⟨aliases, _, size, resolved, rfl⟩ := make_eq_ok made
  refine ⟨aliases, resolved, fun P => ⟨rfl, ⟨rfl, Recent.all_empty _⟩, Recent.all_empty _⟩, ?_⟩
  exact Validators.make_room size directory

/-- A declaration that cannot be read is refused before any validator is sought. -/
theorem cast_of_rejected (catalog : e.catalog.Sound aliases) {source : Bytes}
    {error : Declaration.DeclarationError} (read : Declaration.parse aliases source = .error error)
    (call : Call) (v : Value) : (e.cast call source v).1 = .error (.declaration error) := by
  rw [cast_eq, validator_of_rejected ((catalog.parse_answers source).1.trans read)]
  rfl

/-- A validator that was just handed out converts for the next declaration of its signature. -/
theorem cast_again (catalog : e.catalog.Sound aliases) (room : 0 < e.validators.recent.capacity)
    {first second : Bytes} {s t : Ty} (readS : Declaration.parse aliases first = .ok s)
    (readT : Declaration.parse aliases second = .ok t) (same : s.signature = t.signature)
    {call : Call} {held : Held} (made : (e.validator call first).1 = .ok held)
    (signature : held.validator.signature = t.signature) (next : Call) (v : Value) :
    ((e.validator call first).2.1.cast next second v).1 = (held.validator.cast v).mapError .cast := by
  obtain ⟨answer, kept⟩ := catalog.parse_answers first
  have sought := validator_of_parsed (answer.trans readS) call
  have obtained : (e.validators.validator e.backing call s).1 = .ok held := by
    rw [sought] at made
    cases result : (e.validators.validator e.backing call s).1 <;> rw [result] at made <;>
      cases made
    rfl
  have again := Validators.validator_again room obtained same signature next
  generalize after : (e.validator call first).2.1 = e'
  rw [sought] at after
  have catalog' : e'.catalog.Sound aliases := by rwa [← after]
  rw [cast_eq, validator_of_parsed ((catalog'.parse_answers second).1.trans readT), ← after, again]
  rfl

/-- Where nothing was held, the first declaration of a signature gives its words to the next. -/
theorem cast_after_first (names : aliases.Regular) {s t : Ty} (held : e.HeldFrom aliases (· = s))
    (room : 0 < e.validators.recent.capacity) {first second : Bytes}
    (readS : Declaration.parse aliases first = .ok s)
    (readT : Declaration.parse aliases second = .ok t) (same : s.signature = t.signature)
    {w : Validator} (loaded : s.artifact.load = .ok w) (call next : Call) (x v : Value) :
    ((e.run [.accepts call first x]).cast next second v).1 = s.outcome v := by
  have known : ∀ u, Declaration.parse aliases first = .ok u → u = s := fun u read =>
    Except.ok.inj (read.symm.trans readS)
  obtain ⟨_, rfl, _, made⟩ := (validator_heldFrom names held known call).2 s readS
  rw [loaded] at made
  obtain ⟨h, obtained, rfl⟩ : ∃ h, (e.validator call first).1 = .ok h ∧ h.validator = w := by
    cases result : (e.validator call first).1 <;> rw [result] at made <;> cases made
    exact ⟨_, rfl, rfl⟩
  have run : e.run [.accepts call first x] = (e.validator call first).2.1 := by
    simp only [run, List.foldl_cons, List.foldl_nil, after, accepts_eq]
  have signature := (Ty.signature_of_load loaded).trans same
  rw [run, Ty.outcome_of_load loaded]
  exact cast_again held.catalog room readS readT same obtained signature next v

/-- Two engines of one configuration without a directory convert a value alike, whatever
each was asked before: to one value, or with errors of one code. The errors are the
same word for word unless a declaration was sought before that differs from the given
one in the quotes of its literals alone. -/
theorem cast_same_but_quoting {config : Config} (alone : config.cacheDir = [])
    {directory directory' : Directory} {e e' : Engine Directory} {events events' : List Event}
    (made : config.engine directory = .ok (e, events))
    (made' : config.engine directory' = .ok (e', events')) (history history' : List Request)
    (call call' : Call) (source : Bytes) (v : Value) :
    ∃ aliases, Declaration.resolveAliases config.aliases = .ok aliases ∧
      SameButWording ((e.run history).cast call source v).1
        ((e'.run history').cast call' source v).1 ∧
      ((∀ s t, Sought aliases (history ++ history') s → Declaration.parse aliases source = .ok t →
          s.unquoted = t.unquoted → s = t) →
        ((e.run history).cast call source v).1 = ((e'.run history').cast call' source v).1) := by
  obtain ⟨aliases, resolved, held, _⟩ := engine_heldFrom alone made
  obtain ⟨_, again, held', _⟩ := engine_heldFrom alone made'
  obtain rfl := Except.ok.inj (resolved.symm.trans again)
  have names := Declaration.resolveAliases_regular resolved
  refine ⟨aliases, resolved, ?_⟩
  -- What may be held after either history, with the declared type.
  let P (s : Ty) : Prop :=
    Sought aliases (history ++ history') s ∨ Declaration.parse aliases source = .ok s
  have kept := run_heldFrom names (held P) fun s ⟨request, member, seeks⟩ =>
    .inl ⟨request, List.mem_append_left history' member, seeks⟩
  have kept' := run_heldFrom names (held' P) fun s ⟨request, member, seeks⟩ =>
    .inl ⟨request, List.mem_append_right history member, seeks⟩
  cases read : Declaration.parse aliases source with
  | error error =>
    rw [cast_of_rejected kept.catalog read, cast_of_rejected kept'.catalog read]
    exact ⟨.inr ⟨_, _, rfl, rfl, rfl⟩, fun _ => rfl⟩
  | ok t =>
    obtain ⟨s, origin, same, answer⟩ := cast_heldFrom names kept read (.inr read) call v
    obtain ⟨s', origin', same', answer'⟩ := cast_heldFrom names kept' read (.inr read) call' v
    have regular : ∀ u, P u → u.Regular := by
      rintro u (sought | declared)
      · exact sought.regular names
      · exact Declaration.parse_regular names declared
    rw [answer, answer']
    refine ⟨Ty.outcome_of_signature (regular s origin) (regular s' origin')
      (same.trans same'.symm) v, fun unmixed => ?_⟩
    have settled : ∀ u, P u → u.signature = t.signature → u = t := by
      rintro u (sought | declared) sameU
      · exact unmixed u t sought rfl (Ty.unquoted_of_signature (sought.regular names)
          (Declaration.parse_regular names read) sameU)
      · exact Except.ok.inj (declared.symm.trans read)
    rw [settled s origin same, settled s' origin' same']

/-- To read a declaration with other quotes is not to seek a validator of it. -/
theorem cast_same_but_quoting_read_only :
    let config : Config := ⟨0, 0, [], []⟩
    let history : List Request :=
      [.parse (utf8 "?\"a\""), .accepts ⟨false⟩ (utf8 "?'a'") .null]
    ∃ e events, config.engine (.fresh [] none) = .ok (e, events) ∧
      ((e.run history).cast ⟨false⟩ (utf8 "?'a'") (.bool false)).1 =
        (e.cast ⟨false⟩ (utf8 "?'a'") (.bool false)).1 := by
  intro config history
  obtain ⟨⟨e, events⟩, made⟩ : ∃ r, config.engine (.fresh [] none) = .ok r := ⟨_, rfl⟩
  refine ⟨e, events, made, ?_⟩
  obtain ⟨aliases, _, _, equal⟩ := cast_same_but_quoting rfl made made history [] ⟨false⟩ ⟨false⟩
    (utf8 "?'a'") (.bool false)
  refine equal ?_
  rintro s t ⟨request, member, seeks⟩ read _
  rcases List.mem_cons.mp member with rfl | member
  · cases seeks
  · obtain rfl := List.mem_singleton.mp member
    exact Except.ok.inj (seeks.symm.trans read)

/-- The validator of the first declaration gives its words to the second, which has
other quotes: without the first request the message and the details are different. -/
theorem cast_error_of_other_quotes :
    let config : Config := ⟨0, 0, [], []⟩
    ∃ e events, config.engine (.fresh [] none) = .ok (e, events) ∧
      ∃ error error',
        (e.cast ⟨false⟩ (utf8 "?'a'") (.bool false)).1 = .error error ∧
        ((e.run [.accepts ⟨false⟩ (utf8 "?\"a\"") .null]).cast ⟨false⟩ (utf8 "?'a'")
          (.bool false)).1 = .error error' ∧
        error.report.message ≠ error'.report.message ∧
        error.report.details ≠ error'.report.details := by
  intro config
  have readS : Declaration.parse [] (utf8 "?\"a\"") =
      .ok (.union [.null, .stringLit (utf8 "a") .double]) := rfl
  have readT : Declaration.parse [] (utf8 "?'a'") =
      .ok (.union [.null, .stringLit (utf8 "a") .single]) := rfl
  have validS : Utf8.valid (Ty.signature (.union [.null, .stringLit (utf8 "a") .double])) = true :=
    Utf8.valid_ascii (by decide)
  have validT : Utf8.valid (Ty.signature (.union [.null, .stringLit (utf8 "a") .single])) = true :=
    Utf8.valid_ascii (by decide)
  obtain ⟨⟨e, events⟩, made⟩ : ∃ r, config.engine (.fresh [] none) = .ok r := ⟨_, rfl⟩
  refine ⟨e, events, made, ?_⟩
  obtain ⟨_, resolved, held, room⟩ := engine_heldFrom rfl made
  obtain rfl := Except.ok.inj resolved
  have names : Aliases.Regular [] := nofun
  obtain ⟨_, rfl, _, plain⟩ :=
    cast_heldFrom names (held (· = _)) readT rfl ⟨false⟩ (.bool false)
  have after := cast_after_first names (held (· = _)) room readS readT rfl
    (Ty.load_artifact ⟨rfl, rfl⟩ (by decide) validS) ⟨false⟩ ⟨false⟩ .null (.bool false)
  refine ⟨_, _, plain.trans (Ty.outcome_eq ⟨rfl, rfl⟩ (by decide) validT _),
    after.trans (Ty.outcome_eq ⟨rfl, rfl⟩ (by decide) validS _), by decide, ?_⟩
  nofun

end Engine

end Conform
