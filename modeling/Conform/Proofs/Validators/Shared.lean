import Conform.Fingerprint
import Conform.Proofs.Validators
import Mathlib.Data.List.Nodup
import Mathlib.Logic.Function.Basic

/-! Several memories of validators over one store. Each forgets what it likes, but a
store that works keeps every artifact that was put in, and what is stored loads again
for every type of its signature. So a signature is compiled when it is first sought
and never again: the store then holds its artifact, and every later call is answered
from the memory it goes to or from the store. -/
namespace Conform

variable {σ : Type}

namespace Store

/-- A store that also writes down the names under which data is put. -/
def logged (store : Store σ) : Store (σ × List Bytes) where
  get state call name := ((store.get state.1 call name).1, (store.get state.1 call name).2, state.2)
  put state call name data := ((store.put state.1 call name data).1,
    (store.put state.1 call name data).2, state.2 ++ [name])

/-- The operations that are admitted succeed: what is put under a name is there from then
on, and nothing else changes. -/
structure Working (store : Store σ) (admits : Call → Bytes → Prop)
    (contents : σ → Bytes → Option Bytes) : Prop where
  get : ∀ s call name, admits call name → (store.get s call name).1 = .ok (contents s name) ∧
    contents (store.get s call name).2 = contents s
  put : ∀ s call name data, admits call name → (store.put s call name data).1 = .ok () ∧
    contents (store.put s call name data).2 = Function.update (contents s) name (some data)

end Store

theorem Store.memory_working :
    Store.memory.Working (fun call name => Store.allow call name = .ok ()) Items.find? where
  get items call name admitted := by
    simp only [Store.memory, admitted, and_self]
  put items call name data admitted := by
    simp only [Store.memory, admitted, Items.find?_set, and_self]

/-- What a logged store holds is what the store holds. -/
theorem Store.Working.logged {store : Store σ} {admits : Call → Bytes → Prop}
    {contents : σ → Bytes → Option Bytes} (working : store.Working admits contents) :
    store.logged.Working admits fun state => contents state.1 where
  get state call name := working.get state.1 call name
  put state call name data := working.put state.1 call name data

namespace Validators

theorem storeKey_injective {key key' : Bytes} (same : storeKey key = storeKey key') : key = key' :=
  List.append_cancel_right same

/-- What was stored for a type that loads serves every type of its signature. -/
theorem ofData_stored {s : Ty} (regular : s.Regular) {v : Validator}
    (loaded : s.artifact.load = .ok v) :
    ofData s.signature s.artifact.stored = (some v, loadedEvent s.signature) := by
  obtain ⟨⟨valid, _⟩, _⟩ := (Ty.load_artifact_iff regular v).mp loaded
  have signature : Utf8.repaired s.artifact.signature = s.signature :=
    Utf8.repaired_of_valid valid
  have format : Utf8.repaired s.artifact.format = Artifact.programFormat :=
    Utf8.repaired_of_valid (Utf8.valid_ascii (show Utf8.isAscii Artifact.programFormat by decide))
  have read : Artifact.readStored? s.artifact.stored = some s.artifact := by
    rw [Artifact.readStored?_stored, signature, format]
    rfl
  have same : s.artifact.signature = s.signature := rfl
  simp only [ofData, read, same, ne_eq, not_true_eq_false, if_false, loaded]

section Working

variable {store : Store σ} {admits : Call → Bytes → Prop} {contents : σ → Bytes → Option Bytes}
  (working : store.Working admits contents) {key : Bytes → Bytes} {state : σ} {call : Call} {t : Ty}
  (admitted : admits call (storeKey (key t.signature)))

include working admitted

theorem fromStore_absent (absent : contents state (storeKey (key t.signature)) = none) :
    fromStore store state call t.signature (key t.signature) =
      (none, (store.get state call (storeKey (key t.signature))).2, []) := by
  have got := (working.get state call _ admitted).1
  rw [absent] at got
  rw [fromStore]
  cases result : store.get state call (storeKey (key t.signature)) with
  | mk answer after =>
    obtain rfl : answer = .ok none := by rwa [result] at got
    rfl

/-- What is stored for a type of the signature is loaded. -/
theorem obtain_present {s : Ty} (regular : s.Regular) (same : s.signature = t.signature)
    {v : Validator} (loaded : s.artifact.load = .ok v)
    (present : contents state (storeKey (key t.signature)) = some s.artifact.stored) :
    obtain ⟨key, some store⟩ state call t =
      (.ok v, (store.get state call (storeKey (key t.signature))).2, [loadedEvent t.signature]) := by
  have got := (working.get state call _ admitted).1
  rw [present] at got
  have found : fromStore store state call t.signature (key t.signature) =
      (some v, (store.get state call (storeKey (key t.signature))).2, [loadedEvent t.signature]) := by
    rw [fromStore]
    cases result : store.get state call (storeKey (key t.signature)) with
    | mk answer after =>
      obtain rfl : answer = .ok (some s.artifact.stored) := by rwa [result] at got
      simp only [← same, ofData_stored regular loaded]
  simp only [obtain, found]

/-- What is not stored is compiled and put into the store. -/
theorem obtain_absent (regular : t.Regular) {v : Validator} (loaded : t.artifact.load = .ok v)
    (absent : contents state (storeKey (key t.signature)) = none) :
    let name := storeKey (key t.signature)
    obtain ⟨key, some store⟩ state call t = (.ok v,
      (store.put (store.get state call name).2 call name t.artifact.stored).2,
      [compilingEvent t.signature (key t.signature)]) := by
  intro name
  have put := (working.put (store.get state call name).2 call name t.artifact.stored admitted).1
  have saved : save store (store.get state call name).2 call (key t.signature) t.artifact =
      ((store.put (store.get state call name).2 call name t.artifact.stored).2, []) := by
    rw [save]
    cases result : store.put (store.get state call name).2 call name t.artifact.stored with
    | mk answer after =>
      obtain rfl : answer = .ok () := by rwa [result] at put
      rfl
  have made : compileAndLoad t = .ok (t.artifact, v) := by
    rw [compileAndLoad_eq regular, loaded]
    rfl
  have named : storeKey (key t.signature) = name := rfl
  simp only [obtain, fromStore_absent working admitted absent, made, named, saved]
  rfl

/-- What does not load is not stored. -/
theorem obtain_refused (regular : t.Regular) {e : ArtifactError}
    (refused : t.artifact.load = .error e)
    (absent : contents state (storeKey (key t.signature)) = none) :
    obtain ⟨key, some store⟩ state call t = (.error (.load e),
      (store.get state call (storeKey (key t.signature))).2,
      [compilingEvent t.signature (key t.signature)]) := by
  have made : compileAndLoad t = .error (.load e) := by
    rw [compileAndLoad_eq regular, refused]
    rfl
  simp only [obtain, fromStore_absent working admitted absent, made]
  rfl

end Working

end Validators

/-- Memories of validators, and the one store behind them. -/
structure Shared (ι σ : Type) where
  memories : ι → Validators σ
  stored : σ

/-- A call for a validator, and how it was answered. -/
structure Answer where
  type : Ty
  result : Except ValidatorError Held
  events : List Event

namespace Answer

/-- The call gave a validator. -/
def obtained (a : Answer) : Bool := a.result.toBool

/-- The type was compiled on the call. -/
def compiled (a : Answer) : Bool := a.events.any fun event => event.message = "compiling validator"

/-- The call gave a validator that was in memory or in the store. -/
def Served (a : Answer) : Prop :=
  (∃ held, a.result = .ok held ∧ held.validator.signature = a.type.signature) ∧
    (a.events = [Validators.hitEvent a.type.signature] ∨
      a.events = [Validators.loadedEvent a.type.signature])

theorem Served.not_compiled {a : Answer} (served : a.Served) : a.compiled = false := by
  rcases served.2 with events | events
  · rw [compiled, events]
    rfl
  · rw [compiled, events]
    rfl

end Answer

/-- What can be done with one of the memories. -/
inductive Action (ι : Type) where
  | validator (memory : ι) (call : Call) (type : Ty)
  | purge (memory : ι)

/-- The type that a validator is sought for. -/
def Action.type? {ι : Type} : Action ι → Option Ty
  | .validator _ _ t => some t
  | .purge _ => none

namespace Shared

variable {ι : Type} [DecidableEq ι]

def make (sizes : ι → Int) (stored : σ) : Shared ι σ :=
  ⟨fun i => .make (sizes i) stored, stored⟩

/-- One action. The memory finds the store as the others left it. -/
def after (backing : Backing σ) (shared : Shared ι σ) : Action ι → Shared ι σ × List Answer
  | .validator i call t =>
    let (result, memory, events) :=
      { shared.memories i with stored := shared.stored }.validator backing call t
    (⟨Function.update shared.memories i memory, memory.stored⟩, [⟨t, result, events⟩])
  | .purge i => ({ shared with
      memories := Function.update shared.memories i (shared.memories i).purge }, [])

/-- Actions one after the other, with the answers in their order. -/
def run (backing : Backing σ) (shared : Shared ι σ) : List (Action ι) → Shared ι σ × List Answer
  | [] => (shared, [])
  | action :: rest =>
    let (shared, answers) := shared.after backing action
    let (shared, later) := shared.run backing rest
    (shared, answers ++ later)

/-- Every call is answered, in the order of the calls. -/
theorem run_types (backing : Backing σ) (shared : Shared ι σ) (actions : List (Action ι)) :
    (shared.run backing actions).2.map Answer.type = actions.filterMap Action.type? := by
  induction actions generalizing shared with
  | nil => rfl
  | cons action rest ih =>
    rw [run, List.filterMap_cons]
    simp only [List.map_append, ih]
    cases action <;> rfl

end Shared

/-- Types of the algebra, no two signatures of which have one key. -/
structure Distinct (key : Bytes → Bytes) (types : Ty → Prop) : Prop where
  regular : ∀ t, types t → t.Regular
  keys : ∀ s t, types s → types t → key s.signature = key t.signature → s.signature = t.signature

namespace Shared

variable {ι : Type} [DecidableEq ι] {store : Store σ} {admits : Call → Bytes → Prop}
  {contents : σ → Bytes → Option Bytes} {key : Bytes → Bytes} {types : Ty → Prop}

/-- The signatures in `kept` are those with an artifact in the store. Each was put there
once, and no memory holds a validator of another. -/
structure Keeps (contents : σ → Bytes → Option Bytes) (key : Bytes → Bytes) (types : Ty → Prop)
    (kept : List Bytes) (shared : Shared ι (σ × List Bytes)) : Prop where
  nodup : kept.Nodup
  origin : ∀ signature ∈ kept, ∃ t, types t ∧ t.signature = signature
  puts : shared.stored.2 = kept.map fun signature => Validators.storeKey (key signature)
  held : ∀ i, (shared.memories i).recent.All fun _ held => held.validator.signature ∈ kept
  present : ∀ t, types t → t.signature ∈ kept → ∃ s : Ty, s.Regular ∧ s.signature = t.signature ∧
    (∃ v, s.artifact.load = .ok v) ∧
    contents shared.stored.1 (Validators.storeKey (key t.signature)) = some s.artifact.stored
  absent : ∀ t, types t → t.signature ∉ kept →
    contents shared.stored.1 (Validators.storeKey (key t.signature)) = none

/-- How a call is answered where the artifacts of some signatures are kept: from memory or
from the store for those, and by compiling for the others. -/
inductive Answers (key : Bytes → Bytes) (kept : List Bytes) (a : Answer) : List Bytes → Prop
  | again (present : a.type.signature ∈ kept) (served : a.Served) : Answers key kept a kept
  | first (absent : a.type.signature ∉ kept) {held : Held} (result : a.result = .ok held)
      (loaded : a.type.artifact.load = .ok held.validator)
      (events : a.events = [Validators.compilingEvent a.type.signature (key a.type.signature)]) :
      Answers key kept a (kept ++ [a.type.signature])
  | refused (absent : a.type.signature ∉ kept) {e : ArtifactError}
      (result : a.result = .error (.load e)) (refused : a.type.artifact.load = .error e)
      (events : a.events = [Validators.compilingEvent a.type.signature (key a.type.signature)]) :
      Answers key kept a kept

/-- Answers in a row, with the signatures that are kept before and after them. -/
inductive Run (key : Bytes → Bytes) (types : Ty → Prop) :
    List Bytes → List Answer → List Bytes → Prop
  | nil {kept : List Bytes} : Run key types kept [] kept
  | cons {kept kept' kept'' : List Bytes} {a : Answer} {rest : List Answer}
      (sought : types a.type) (first : Answers key kept a kept')
      (later : Run key types kept' rest kept'') : Run key types kept (a :: rest) kept''

theorem Run.append {kept kept' kept'' : List Bytes} {answers later : List Answer}
    (first : Run key types kept answers kept') (second : Run key types kept' later kept'') :
    Run key types kept (answers ++ later) kept'' := by
  induction first with
  | nil => exact second
  | cons sought answer _ ih => exact .cons sought answer (ih second)

namespace Answers

variable {kept kept' : List Bytes} {a : Answer}

theorem kept_of_kept (answers : Answers key kept a kept') {signature : Bytes}
    (member : signature ∈ kept) : signature ∈ kept' := by
  cases answers with
  | first => exact List.mem_append_left _ member
  | _ => exact member

theorem kept_of_obtained (answers : Answers key kept a kept') (obtained : a.obtained = true) :
    a.type.signature ∈ kept' := by
  cases answers with
  | again present => exact present
  | first => exact List.mem_append_right _ (List.mem_singleton_self _)
  | refused _ result =>
    rw [Answer.obtained, result] at obtained
    cases obtained

theorem served_of_kept (answers : Answers key kept a kept') (member : a.type.signature ∈ kept) :
    a.Served := by
  cases answers with
  | again _ served => exact served
  | first absent => exact absurd member absent
  | refused absent => exact absurd member absent

/-- A type that loads is given a validator of its signature. -/
theorem obtained_of_load (answers : Answers key kept a kept') {v : Validator}
    (loaded : a.type.artifact.load = .ok v) :
    ∃ held, a.result = .ok held ∧ held.validator.signature = a.type.signature := by
  cases answers with
  | again _ served => exact served.1
  | first _ result loaded => exact ⟨_, result, Ty.signature_of_load loaded⟩
  | refused _ _ refused => simp only [refused, reduceCtorEq] at loaded

/-- A signature is kept once more for each call that compiled it. -/
theorem count (answers : Answers key kept a kept') (signature : Bytes) :
    kept'.count signature = kept.count signature +
      [a].countP fun a => a.obtained && a.compiled && a.type.signature == signature := by
  cases answers with
  | again _ served => simp [served.not_compiled]
  | first _ result _ events =>
    have compiled : a.compiled = true := by
      rw [Answer.compiled, events]
      rfl
    have obtained : a.obtained = true := by
      rw [Answer.obtained, result]
      rfl
    simp [List.count_append, List.count_singleton, List.countP_cons, obtained, compiled]
  | refused _ result =>
    have obtained : a.obtained = false := by
      rw [Answer.obtained, result]
      rfl
    simp [obtained]

end Answers

namespace Run

variable {kept kept' : List Bytes} {answers : List Answer}

theorem kept_of_kept (run : Run key types kept answers kept') {signature : Bytes}
    (member : signature ∈ kept) : signature ∈ kept' := by
  induction run with
  | nil => exact member
  | cons _ first _ ih => exact ih (first.kept_of_kept member)

theorem kept_of_obtained (run : Run key types kept answers kept') {a : Answer}
    (member : a ∈ answers) (obtained : a.obtained = true) : a.type.signature ∈ kept' := by
  induction run with
  | nil => cases member
  | cons _ first later ih =>
    rcases List.mem_cons.mp member with rfl | member
    · exact later.kept_of_kept (first.kept_of_obtained obtained)
    · exact ih member

theorem served_of_kept (run : Run key types kept answers kept') {a : Answer} (member : a ∈ answers)
    (before : a.type.signature ∈ kept) : a.Served := by
  induction run with
  | nil => cases member
  | cons _ first _ ih =>
    rcases List.mem_cons.mp member with rfl | member
    · exact first.served_of_kept before
    · exact ih member (first.kept_of_kept before)

theorem sought (run : Run key types kept answers kept') {a : Answer} (member : a ∈ answers) :
    types a.type := by
  induction run with
  | nil => cases member
  | cons sought _ _ ih =>
    rcases List.mem_cons.mp member with rfl | member
    · exact sought
    · exact ih member

theorem obtained_of_load (run : Run key types kept answers kept') {a : Answer}
    (member : a ∈ answers) {v : Validator} (loaded : a.type.artifact.load = .ok v) :
    ∃ held, a.result = .ok held ∧ held.validator.signature = a.type.signature := by
  induction run with
  | nil => cases member
  | cons _ first _ ih =>
    rcases List.mem_cons.mp member with rfl | member
    · exact first.obtained_of_load loaded
    · exact ih member

/-- Once a call gave a validator, no later one for its signature compiles. -/
theorem pairwise (run : Run key types kept answers kept') :
    answers.Pairwise fun a b => a.obtained = true → a.type.signature = b.type.signature →
      b.Served := by
  induction run with
  | nil => exact .nil
  | cons _ first later ih =>
    refine .cons (fun b member obtained same => later.served_of_kept member ?_) ih
    rw [← same]
    exact first.kept_of_obtained obtained

theorem count (run : Run key types kept answers kept') (signature : Bytes) :
    kept'.count signature = kept.count signature +
      answers.countP fun a => a.obtained && a.compiled && a.type.signature == signature := by
  induction run with
  | nil => simp
  | cons _ first _ ih =>
    rw [ih, first.count signature, Nat.add_assoc, ← List.countP_append]
    rfl

end Run

/-- What is changed in a memory leaves the invariant, if it holds nothing new and the store
has the same contents. -/
theorem Keeps.remember {kept : List Bytes} {shared : Shared ι (σ × List Bytes)}
    (keeps : shared.Keeps contents key types kept) (i : ι) {memory : Validators (σ × List Bytes)}
    (held : memory.recent.All fun _ held => held.validator.signature ∈ kept)
    {stored : σ × List Bytes} (same : contents stored.1 = contents shared.stored.1)
    (puts : stored.2 = shared.stored.2) :
    (⟨Function.update shared.memories i memory, stored⟩ : Shared ι _).Keeps contents key types
      kept where
  nodup := keeps.nodup
  origin := keeps.origin
  puts := puts.trans keeps.puts
  held j := by
    by_cases chosen : j = i
    · subst chosen
      simpa only [Function.update_self] using held
    · simpa only [Function.update_of_ne chosen] using keeps.held j
  present t sought member := by
    rw [same]
    exact keeps.present t sought member
  absent t sought missing := by
    rw [same]
    exact keeps.absent t sought missing

omit [DecidableEq ι] in
/-- To put the artifact of a type into the store is to keep its signature. -/
theorem Keeps.put {kept : List Bytes} {shared : Shared ι (σ × List Bytes)}
    (keeps : shared.Keeps contents key types kept) (distinct : Distinct key types) {t : Ty}
    (sought : types t) (new : t.signature ∉ kept) {v : Validator}
    (loaded : t.artifact.load = .ok v) {stored : σ × List Bytes}
    (updated : contents stored.1 = Function.update (contents shared.stored.1)
      (Validators.storeKey (key t.signature)) (some t.artifact.stored))
    (puts : stored.2 = shared.stored.2 ++ [Validators.storeKey (key t.signature)]) :
    (⟨shared.memories, stored⟩ : Shared ι _).Keeps contents key types
      (kept ++ [t.signature]) where
  nodup := by
    rw [List.nodup_append]
    refine ⟨keeps.nodup, by simp, ?_⟩
    rintro x member _ last rfl
    obtain rfl := List.mem_singleton.mp last
    exact new member
  origin x member := by
    rcases List.mem_append.mp member with before | last
    · exact keeps.origin x before
    · exact ⟨t, sought, (List.mem_singleton.mp last).symm⟩
  puts := by
    rw [puts, keeps.puts, List.map_append, List.map_singleton]
  held i entry member := List.mem_append_left _ (keeps.held i entry member)
  present u soughtU member := by
    by_cases same : u.signature = t.signature
    · refine ⟨t, distinct.regular t sought, same.symm, ⟨v, loaded⟩, ?_⟩
      rw [same, updated, Function.update_self]
    · have before : u.signature ∈ kept := by
        rcases List.mem_append.mp member with before | last
        · exact before
        · exact absurd (List.mem_singleton.mp last) same
      obtain ⟨s, regular, sameS, loads, present⟩ := keeps.present u soughtU before
      refine ⟨s, regular, sameS, loads, ?_⟩
      rw [updated, Function.update_of_ne, present]
      exact fun name => same (distinct.keys u t soughtU sought (Validators.storeKey_injective name))
  absent u soughtU missing := by
    obtain ⟨before, last⟩ := not_or.mp (fun h => missing (List.mem_append.mpr h))
    rw [updated, Function.update_of_ne, keeps.absent u soughtU before]
    intro name
    have same := distinct.keys u t soughtU sought (Validators.storeKey_injective name)
    exact last (List.mem_singleton.mpr same)

theorem after_of_answer {backing : Backing σ} {shared : Shared ι σ} {i : ι} {call : Call} {t : Ty}
    {result : Except ValidatorError Held} {memory : Validators σ} {events : List Event}
    (answer : { shared.memories i with stored := shared.stored }.validator backing call t =
      (result, memory, events)) :
    shared.after backing (.validator i call t) =
      (⟨Function.update shared.memories i memory, memory.stored⟩, [⟨t, result, events⟩]) := by
  rw [after, answer]

section Run

variable (working : store.Working admits contents) (distinct : Distinct key types)

include working distinct

/-- A call for a validator: how it is answered, and what is kept then. -/
theorem after_validator {kept : List Bytes} {shared : Shared ι (σ × List Bytes)}
    (keeps : shared.Keeps contents key types kept) (i : ι) {call : Call} {t : Ty}
    (sought : types t) (admitted : admits call (Validators.storeKey (key t.signature))) :
    ∃ kept' a shared', Answers key kept a kept' ∧ a.type = t ∧
      shared.after ⟨key, some store.logged⟩ (.validator i call t) = (shared', [a]) ∧
      shared'.Keeps contents key types kept' := by
  have regular := distinct.regular t sought
  have logged := working.logged
  have got := (logged.get shared.stored call _ admitted).2
  obtain ⟨recent, origin⟩ := (keeps.held i).get (key t.signature)
  rcases Validators.validator_cases { shared.memories i with stored := shared.stored }
    ⟨key, some store.logged⟩ call t with ⟨held, looked, same, answer⟩ | ⟨_, answer⟩
  · have present : t.signature ∈ kept := by
      rw [← same]
      exact origin held looked
    exact ⟨kept, ⟨t, .ok held, [Validators.hitEvent t.signature]⟩, _,
      .again present ⟨⟨held, rfl, same⟩, .inl rfl⟩, rfl, after_of_answer answer,
      keeps.remember i recent rfl rfl⟩
  · by_cases present : t.signature ∈ kept
    · obtain ⟨s, regularS, sameS, ⟨v, loaded⟩, stored⟩ := keeps.present t sought present
      have signature : v.signature = t.signature := (Ty.signature_of_load loaded).trans sameS
      rw [Validators.obtain_present logged admitted regularS sameS loaded stored,
        Validators.holding] at answer
      refine ⟨kept, ⟨t, .ok ⟨v, _⟩, [Validators.loadedEvent t.signature]⟩, _,
        .again present ⟨⟨_, rfl, signature⟩, .inr rfl⟩, rfl, after_of_answer answer,
        keeps.remember i (recent.add ?_) got rfl⟩
      rw [signature]
      exact present
    · have absent := keeps.absent t sought present
      cases loaded : t.artifact.load with
      | error e =>
        rw [Validators.obtain_refused logged admitted regular loaded absent,
          Validators.holding] at answer
        exact ⟨kept, ⟨t, .error (.load e), [Validators.compilingEvent t.signature (key t.signature)]⟩,
          _, .refused present rfl loaded rfl, rfl, after_of_answer answer,
          keeps.remember i recent got rfl⟩
      | ok v =>
        rw [Validators.obtain_absent logged admitted regular loaded absent,
          Validators.holding] at answer
        have put := (logged.put (store.logged.get shared.stored call
          (Validators.storeKey (key t.signature))).2 call _ t.artifact.stored admitted).2
        rw [got] at put
        have stored := keeps.put distinct sought present loaded put rfl
        have held : (((shared.memories i).recent.get (key t.signature)).2).All fun _ held =>
            held.validator.signature ∈ kept ++ [t.signature] := fun entry member =>
          List.mem_append_left _ (recent entry member)
        refine ⟨kept ++ [t.signature],
          ⟨t, .ok ⟨v, _⟩, [Validators.compilingEvent t.signature (key t.signature)]⟩, _,
          .first present rfl loaded rfl, rfl, after_of_answer answer,
          stored.remember i (held.add ?_) rfl rfl⟩
        rw [Ty.signature_of_load loaded]
        exact List.mem_append_right _ (List.mem_singleton_self _)

/-- One action keeps the invariant. -/
theorem after_keeps {kept : List Bytes} {shared : Shared ι (σ × List Bytes)}
    (keeps : shared.Keeps contents key types kept) (action : Action ι)
    (admitted : ∀ i call t, action = .validator i call t →
      types t ∧ admits call (Validators.storeKey (key t.signature))) :
    ∃ kept', Run key types kept (shared.after ⟨key, some store.logged⟩ action).2 kept' ∧
      (shared.after ⟨key, some store.logged⟩ action).1.Keeps contents key types kept' := by
  cases action with
  | purge i =>
    exact ⟨kept, .nil, keeps.remember i (Recent.all_empty (shared.memories i).recent.capacity) rfl rfl⟩
  | validator i call t =>
    obtain ⟨sought, admitted⟩ := admitted i call t rfl
    obtain ⟨kept', a, shared', answers, rfl, result, keeps'⟩ :=
      after_validator working distinct keeps i sought admitted
    rw [result]
    exact ⟨kept', .cons sought answers .nil, keeps'⟩

/-- So does every run, and its answers show what was kept when. -/
theorem run_keeps {kept : List Bytes} {shared : Shared ι (σ × List Bytes)}
    (keeps : shared.Keeps contents key types kept) {actions : List (Action ι)}
    (admitted : ∀ i call t, .validator i call t ∈ actions →
      types t ∧ admits call (Validators.storeKey (key t.signature))) :
    ∃ kept', Run key types kept (shared.run ⟨key, some store.logged⟩ actions).2 kept' ∧
      (shared.run ⟨key, some store.logged⟩ actions).1.Keeps contents key types kept' := by
  induction actions generalizing shared kept with
  | nil => exact ⟨kept, .nil, keeps⟩
  | cons action rest ih =>
    obtain ⟨kept', first, keeps'⟩ := after_keeps working distinct keeps action
      fun i call t chosen => admitted i call t (by simp [chosen])
    obtain ⟨kept'', later, keeps''⟩ := ih keeps'
      fun i call t member => admitted i call t (List.mem_cons_of_mem _ member)
    exact ⟨kept'', first.append later, keeps''⟩

end Run

omit [DecidableEq ι] in
theorem make_keeps {start : σ} (empty : ∀ name, contents start name = none) (sizes : ι → Int) :
    (make sizes (start, [])).Keeps contents key types [] where
  nodup := .nil
  origin := nofun
  puts := rfl
  held _ := Recent.all_empty _
  present _ _ := nofun
  absent _ _ _ := empty _

omit [DecidableEq ι] in
/-- No name is put into the store twice. -/
theorem Keeps.puts_nodup {kept : List Bytes} {shared : Shared ι (σ × List Bytes)}
    (keeps : shared.Keeps contents key types kept) (distinct : Distinct key types) :
    shared.stored.2.Nodup := by
  rw [keeps.puts]
  refine List.Nodup.map_on ?_ keeps.nodup
  intro x memberX y memberY same
  obtain ⟨s, soughtS, rfl⟩ := keeps.origin x memberX
  obtain ⟨t, soughtT, rfl⟩ := keeps.origin y memberY
  exact distinct.keys s t soughtS soughtT (Validators.storeKey_injective same)

end Shared

end Conform
