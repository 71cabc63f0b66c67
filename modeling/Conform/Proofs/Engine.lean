import Conform.Engine
import Conform.Proofs.Declaration.Regular
import Conform.Proofs.Validators

/-! The engine answers as the declared type does, whatever was asked of it before.
Between a declaration and its answer stand two bounded memories, a key function
and a store. An invariant of the engine says that none of them holds anything
false: remembered declarations are read as they would be read now, and every
validator was loaded from a compiled type. Each request keeps it. -/
namespace Conform

open Declaration (Aliases Catalog)

namespace Declaration.Catalog

/-- The reader knows the aliases and remembers declarations as they are read with them. -/
structure Sound (aliases : Aliases) (c : Catalog) : Prop where
  names : c.aliases = aliases
  remembered : c.recent.All fun source t => Declaration.parse aliases source = .ok t

theorem Sound.parse_answers {aliases : Aliases} {c : Catalog} (sound : c.Sound aliases)
    (source : Bytes) :
    (c.parse source).1 = Declaration.parse aliases source ∧ (c.parse source).2.Sound aliases := by
  obtain ⟨rfl, remembered⟩ := sound
  obtain ⟨answer, kept⟩ := remembered.remember source
  exact ⟨answer, rfl, kept⟩

end Declaration.Catalog

namespace Engine

variable {σ : Type}

/-- What an engine can be asked. -/
inductive Request where
  | parse (source : Bytes)
  | validator (call : Call) (source : Bytes)
  | accepts (call : Call) (source : Bytes) (v : Value)
  | cast (call : Call) (source : Bytes) (v : Value)
  | compile (source format : Bytes)

/-- The engine after a request. -/
def after (e : Engine σ) : Request → Engine σ
  | .parse source => (e.parse source).2
  | .validator call source => (e.validator call source).2.1
  | .accepts call source v => (e.accepts call source v).2.1
  | .cast call source v => (e.cast call source v).2.1
  | .compile source format => (e.compile source format).2

/-- The engine after requests, the first of which comes first. -/
def run (e : Engine σ) (history : List Request) : Engine σ := history.foldl after e

/-- Nothing that the engine holds is false. -/
structure Sound (backing : Backing σ) (aliases : Aliases) (good : σ → Prop) (e : Engine σ) :
    Prop where
  backing : e.backing = backing
  catalog : e.catalog.Sound aliases
  validators : e.validators.Sound good

variable {backing : Backing σ} {aliases : Aliases} {good : σ → Prop} {e : Engine σ}

theorem parse_answers (sound : e.Sound backing aliases good) (source : Bytes) :
    (e.parse source).2.Sound backing aliases good ∧
      (∀ error, Declaration.parse aliases source = .error error →
        (e.parse source).1 = .error (.declaration error)) ∧
      ∀ t, Declaration.parse aliases source = .ok t → (e.parse source).1 = .ok t := by
  obtain ⟨answer, kept⟩ := sound.catalog.parse_answers source
  rw [parse]
  cases read : e.catalog.parse source with
  | mk result catalog =>
    rw [read] at answer kept
    rw [← answer]
    cases result with
    | ok t =>
      refine ⟨⟨sound.backing, kept, sound.validators⟩, nofun, ?_⟩
      rintro _ ⟨⟩
      rfl
    | error error =>
      refine ⟨⟨sound.backing, kept, sound.validators⟩, ?_, nofun⟩
      rintro _ ⟨⟩
      rfl

theorem parse_state (e : Engine σ) (source : Bytes) :
    (e.parse source).2 = { e with catalog := (e.catalog.parse source).2 } := by
  rw [parse]
  rcases e.catalog.parse source with ⟨_ | _, _⟩ <;> rfl

theorem validator_of_rejected {source : Bytes} {error : Declaration.DeclarationError}
    (read : (e.catalog.parse source).1 = .error error) (call : Call) :
    e.validator call source = (.error (.declaration error),
      { e with catalog := (e.catalog.parse source).2 }, [rejectedEvent source error]) := by
  rw [validator]
  cases parsed : e.catalog.parse source with
  | mk result catalog =>
    rw [parsed] at read
    obtain rfl : result = .error error := read
    rfl

theorem validator_of_parsed {source : Bytes} {t : Ty} (read : (e.catalog.parse source).1 = .ok t)
    (call : Call) : e.validator call source =
      ((e.validators.validator e.backing call t).1.mapError .validator,
        { e with
          catalog := (e.catalog.parse source).2
          validators := (e.validators.validator e.backing call t).2.1 },
        (e.validators.validator e.backing call t).2.2) := by
  rw [validator]
  cases parsed : e.catalog.parse source with
  | mk result catalog =>
    rw [parsed] at read
    obtain rfl : result = .ok t := read
    simp only
    rcases e.validators.validator e.backing call t with ⟨_ | _, _⟩ <;> rfl

section Answers

variable (trusted : ∀ store, backing.store = some store → store.Trusted good)
  (names : aliases.Regular)

include trusted names

/-- The validator of a declaration: the error of reading it, or a validator of the
signature of its type, unless the compiled form of that type does not load. -/
theorem validator_answers (sound : e.Sound backing aliases good) (call : Call) (source : Bytes) :
    (e.validator call source).2.1.Sound backing aliases good ∧
      (∀ error, Declaration.parse aliases source = .error error →
        (e.validator call source).1 = .error (.declaration error)) ∧
      ∀ t, Declaration.parse aliases source = .ok t →
        (∃ held, (e.validator call source).1 = .ok held ∧ held.validator.Genuine ∧
          held.validator.signature = t.signature) ∨
        ∃ failure, t.artifact.load = .error failure ∧
          (e.validator call source).1 = .error (.validator (.load failure)) := by
  obtain ⟨answer, kept⟩ := sound.catalog.parse_answers source
  cases read : Declaration.parse aliases source with
  | error error =>
    rw [validator_of_rejected (answer.trans read)]
    refine ⟨⟨sound.backing, kept, sound.validators⟩, ?_, nofun⟩
    rintro _ ⟨⟩
    rfl
  | ok t =>
    have regular := Declaration.parse_regular names read
    obtain ⟨held, answers⟩ := Validators.validator_answers trusted regular sound.validators call
    rw [validator_of_parsed (answer.trans read), sound.backing]
    refine ⟨⟨rfl, kept, held⟩, nofun, ?_⟩
    rintro _ ⟨⟩
    rcases answers with ⟨x, found, genuine, same⟩ | ⟨failure, failed, refused⟩
    · exact .inl ⟨x, by rw [found]; rfl, genuine, same⟩
    · exact .inr ⟨failure, failed, by rw [refused]; rfl⟩

omit trusted names in
theorem accepts_eq (e : Engine σ) (call : Call) (source : Bytes) (v : Value) :
    e.accepts call source v = ((e.validator call source).1.map fun held => held.validator.accepts v,
      (e.validator call source).2) := by
  rw [accepts]
  rcases e.validator call source with ⟨_ | _, _⟩ <;> rfl

omit trusted names in
theorem cast_eq (e : Engine σ) (call : Call) (source : Bytes) (v : Value) :
    e.cast call source v = ((e.validator call source).1.bind fun held =>
      (held.validator.cast v).mapError .cast, (e.validator call source).2) := by
  rw [cast]
  rcases e.validator call source with ⟨_ | held, _⟩
  · rfl
  · simp only [Except.bind]
    cases held.validator.cast v <;> rfl

omit trusted names in
theorem compile_state (e : Engine σ) (source format : Bytes) :
    (e.compile source format).2 = e ∨ (e.compile source format).2 = (e.parse source).2 := by
  rw [compile]
  cases Backend.ofFormat? format [] [] with
  | none => exact .inl rfl
  | some backend =>
    refine .inr ?_
    rcases e.parse source with ⟨_ | t, _⟩
    · rfl
    · simp only
      cases t.compile backend <;> rfl

/-- One request keeps the engine sound. -/
theorem after_sound (sound : e.Sound backing aliases good) (request : Request) :
    (e.after request).Sound backing aliases good := by
  cases request with
  | parse source => exact (parse_answers sound source).1
  | validator call source => exact (validator_answers trusted names sound call source).1
  | accepts call source v =>
    rw [after, accepts_eq]
    exact (validator_answers trusted names sound call source).1
  | cast call source v =>
    rw [after, cast_eq]
    exact (validator_answers trusted names sound call source).1
  | compile source format =>
    rw [after]
    rcases compile_state e source format with same | same
    · rw [same]
      exact sound
    · rw [same]
      exact (parse_answers sound source).1

/-- So does every history. -/
theorem run_sound (sound : e.Sound backing aliases good) (history : List Request) :
    (e.run history).Sound backing aliases good := by
  induction history generalizing e with
  | nil => exact sound
  | cons request rest ih => exact ih (after_sound trusted names sound request)

end Answers

/-- A new engine has the aliases of its configuration and remembers nothing. -/
theorem make_eq_ok {stored : σ} {config : Config} {events : List Event}
    (made : make backing stored config = .ok (e, events)) :
    ∃ aliases declarations validators, Declaration.resolveAliases config.aliases = .ok aliases ∧
      e = ⟨backing, .make aliases declarations, .make validators stored⟩ := by
  rw [make, Config.check] at made
  split at made
  · contradiction
  · rename_i checked found
    split at found
    · contradiction
    · split at found
      · contradiction
      · rename_i resolved
        obtain ⟨rfl, rfl⟩ := Prod.mk.inj (Except.ok.inj found)
        obtain ⟨rfl, rfl⟩ := Prod.mk.inj (Except.ok.inj made)
        exact ⟨_, _, _, resolved, rfl⟩

theorem make_sound {stored : σ} (start : good stored) {config : Config} {events : List Event}
    (made : make backing stored config = .ok (e, events)) :
    ∃ aliases, Declaration.resolveAliases config.aliases = .ok aliases ∧
      e.Sound backing aliases good := by
  obtain ⟨aliases, _, _, resolved, rfl⟩ := make_eq_ok made
  exact ⟨aliases, resolved, rfl, ⟨rfl, Recent.all_empty _⟩, ⟨Recent.all_empty _, start⟩⟩

/-- What an engine says about a value and a declaration, compared with the type that
the declaration denotes. Conversions may fail with other words but not with another code. -/
def AnswersAs (e : Engine σ) (call : Call) (source : Bytes) (v : Value) (t : Ty) : Prop :=
  (e.accepts call source v).1 = .ok (t.accepts v) ∧
    (∀ w, (e.cast call source v).1 = .ok w ↔ t.cast v = .ok w) ∧
    ∀ error, t.cast v = .error error → ∃ error', (e.cast call source v).1 = .error error' ∧
      error'.report.code? = error.report.code?

/-- A genuine validator of the signature of a type answers as the type does. -/
theorem answersAs_of_validator {call : Call} {source : Bytes} {held : Held} {t : Ty}
    (got : (e.validator call source).1 = .ok held) (genuine : held.validator.Genuine)
    (same : held.validator.signature = t.signature) (regular : t.Regular)
    (shallow : t.nesting < 10000) (v : Value) : e.AnswersAs call source v t := by
  have accepted := genuine.accepts_eq regular shallow same
  have converted := genuine.cast_alike regular shallow same v
  refine ⟨by rw [accepts_eq, got, Except.map, accepted], ?_⟩
  simp only [cast_eq, got]
  rcases converted with ⟨w, one, other⟩ | ⟨error, error', one, other, code⟩
  · simp only [Except.bind, one, other, Except.mapError]
    exact ⟨fun w' => by simp, nofun⟩
  · simp only [Except.bind, one, other, Except.mapError]
    refine ⟨fun w' => by simp, ?_⟩
    rintro _ ⟨⟩
    exact ⟨_, rfl, code⟩

/-- After any requests to an engine of any configuration, with memories of any size,
keys that may collide and a store that may fail, a declaration is answered as it
reads: with the error of reading it, or as its type answers. The signature has to
be well-formed and the type not nested beyond what stored documents may be. -/
theorem answers_as_declared {stored : σ} {config : Config} {events : List Event}
    (trusted : ∀ store, backing.store = some store → store.Trusted good) (start : good stored)
    (made : make backing stored config = .ok (e, events)) (history : List Request) (call : Call)
    (source : Bytes) (v : Value) :
    ∃ aliases, Declaration.resolveAliases config.aliases = .ok aliases ∧
      (∀ error, Declaration.parse aliases source = .error error →
        ((e.run history).parse source).1 = .error (.declaration error) ∧
          ((e.run history).accepts call source v).1 = .error (.declaration error) ∧
          ((e.run history).cast call source v).1 = .error (.declaration error)) ∧
      ∀ t, Declaration.parse aliases source = .ok t →
        ((e.run history).parse source).1 = .ok t ∧
          (Utf8.valid t.signature = true → t.nesting < 10000 →
            (e.run history).AnswersAs call source v t) := by
  obtain ⟨aliases, resolved, sound⟩ := make_sound start made
  have names := Declaration.resolveAliases_regular resolved
  have sound := run_sound trusted names sound history
  obtain ⟨_, rejected, parsed⟩ := parse_answers sound source
  obtain ⟨_, failed, found⟩ := validator_answers trusted names sound call source
  refine ⟨aliases, resolved, fun error read => ⟨rejected error read, ?_, ?_⟩, fun t read =>
    ⟨parsed t read, fun valid shallow => ?_⟩⟩
  · rw [accepts_eq, failed error read]
    rfl
  · rw [cast_eq, failed error read]
    rfl
  · have regular := Declaration.parse_regular names read
    rcases found t read with ⟨held, got, genuine, same⟩ | ⟨failure, refused, _⟩
    · exact answersAs_of_validator got genuine same regular shallow v
    · rw [Ty.load_artifact regular shallow valid] at refused
      contradiction

/-- Every signature has the same key here, each memory has room for one entry, and
the validator that is held was made for the other quotes. -/
theorem answers_as_declared_other_quotes :
    let backing : Backing Items := ⟨fun _ => [], some .memory⟩
    let t : Ty := .union [.stringLit (utf8 "a") .single, .integerLit 1]
    ∃ e events, make backing [] ⟨1, 1, [], []⟩ = .ok (e, events) ∧
      Declaration.parse [] (utf8 "'a'|1") = .ok t ∧ Utf8.valid t.signature = true ∧
      t.nesting < 10000 ∧
      let asked := e.run [.accepts ⟨false⟩ (utf8 "\"a\"|1") .null]
      asked.AnswersAs ⟨false⟩ (utf8 "'a'|1") (.text (utf8 "a")) t ∧
        (asked.accepts ⟨false⟩ (utf8 "'a'|1") (.text (utf8 "a"))).1 = .ok true := by
  intro backing t
  have read : Declaration.parse [] (utf8 "'a'|1") = .ok t := rfl
  have valid : Utf8.valid t.signature = true := Utf8.valid_ascii (by decide)
  have shallow : t.nesting < 10000 := by decide
  have trusted : ∀ store, backing.store = some store →
      store.Trusted fun items => ∀ item ∈ items, IsCompiled item.2 := by
    rintro _ ⟨⟩
    exact Store.memory_trusted
  have start : ∀ item ∈ ([] : Items), IsCompiled item.2 := nofun
  obtain ⟨⟨e, events⟩, made⟩ : ∃ r, make backing [] ⟨1, 1, [], []⟩ = .ok r := ⟨_, rfl⟩
  refine ⟨e, events, made, read, valid, shallow, ?_⟩
  obtain ⟨aliases, resolved, _, answers⟩ := answers_as_declared trusted start made
    [.accepts ⟨false⟩ (utf8 "\"a\"|1") .null] ⟨false⟩ (utf8 "'a'|1") (.text (utf8 "a"))
  obtain rfl : [] = aliases := Except.ok.inj resolved
  have same := (answers t read).2 valid shallow
  exact ⟨same, same.1⟩

end Engine

end Conform
