import Conform.Proofs.Artifact.Stored
import Conform.Proofs.Compile
import Conform.Proofs.Recent
import Conform.Proofs.Store.Items
import Conform.Proofs.Ty.Quoting
import Conform.Proofs.Ty.Signature
import Conform.Validators

/-! Validators by signature are validators of the type they are sought for. The
memory is keyed by a function that may send different signatures to one key and
the store may hold anything, but what is handed out was loaded from the compiled
form of some type with the signature. Signatures tell types apart up to quoting,
and quoting changes neither what is accepted nor what comes of a conversion. -/
namespace Conform

/-- The validator was loaded from the compiled form of a type. -/
def Validator.Genuine (v : Validator) : Prop := ∃ t : Ty, t.Regular ∧ t.artifact.load = .ok v

namespace Validator.Genuine

variable {v : Validator} (genuine : v.Genuine) {t : Ty} (regular : t.Regular)
  (shallow : t.nesting < 10000) (same : v.signature = t.signature)

include genuine regular shallow same

/-- A loaded validator is the plan of every type of its signature, up to quoting. -/
theorem exists_unquoted : ∃ s : Ty, s.unquoted = t.unquoted ∧ v = ⟨s.signature, s.plan⟩ := by
  obtain ⟨s, regularS, loaded⟩ := genuine
  obtain ⟨_, _, _, _, _, _, _, _, rfl⟩ := (Artifact.load_eq_ok_iff _ v).mp loaded
  have unquoted := Ty.unquoted_of_signature regularS regular same
  have shallowS : s.nesting < 10000 := by rwa [Ty.nesting_of_unquoted unquoted]
  have valid := Ty.valid_of_load regularS shallowS loaded
  exact ⟨s, unquoted, Except.ok.inj (loaded.symm.trans (Ty.load_artifact regularS shallowS valid))⟩

theorem accepts_eq : v.accepts = t.accepts := by
  obtain ⟨s, unquoted, rfl⟩ := genuine.exists_unquoted regular shallow same
  funext x
  rw [Validator.accepts, Ty.plan_accepts, Ty.accepts_of_unquoted unquoted]

theorem cast_alike (x : Value) : Alike (v.cast x) (t.cast x) := by
  obtain ⟨s, unquoted, rfl⟩ := genuine.exists_unquoted regular shallow same
  rw [Validator.cast, Ty.plan_cast]
  exact Ty.cast_of_unquoted unquoted x

end Validator.Genuine

/-- Types of one signature load or fail to load together. -/
theorem Ty.load_of_signature {s t : Ty} (regularS : s.Regular) (regularT : t.Regular)
    (same : s.signature = t.signature) {v : Validator} (loaded : s.artifact.load = .ok v) :
    ∃ w, t.artifact.load = .ok w := by
  obtain ⟨⟨valid, shallow⟩, _⟩ := (load_artifact_iff regularS v).mp loaded
  have unquoted := unquoted_of_signature regularS regularT same
  rw [same] at valid
  rw [nesting_of_unquoted unquoted] at shallow
  exact ⟨_, load_artifact regularT shallow valid⟩

/-- If the data holds an artifact that loads, a type of its signature was compiled to it. -/
def IsCompiled (data : Bytes) : Prop :=
  ∀ a v, Artifact.readStored? data = some a → a.load = .ok v →
    ∃ t : Ty, t.Regular ∧ t.signature = a.signature ∧ t.compile .program = .ok a

/-- An artifact that loads is read back as it is: its program says what the
signature was, so a repair of the signature would not go unnoticed. -/
theorem Artifact.eq_of_stored {a b : Artifact} {v w : Validator} (loaded : a.load = .ok v)
    (read : readStored? a.stored = some b) (reloaded : b.load = .ok w) : b = a := by
  obtain ⟨formatA, p, _, _, first, signatureA, _⟩ := (load_eq_ok_iff a v).mp loaded
  obtain ⟨formatB, q, _, _, second, signatureB, _⟩ := (load_eq_ok_iff b w).mp reloaded
  obtain rfl := Option.some.inj ((readStored?_stored a).symm.trans read)
  obtain rfl := Option.some.inj (first.symm.trans second)
  obtain ⟨signature, format, source⟩ := a
  simp only at formatA formatB signatureA signatureB ⊢
  rw [← signatureB, signatureA, formatB, formatA]

theorem isCompiled_stored {t : Ty} (regular : t.Regular) {v : Validator}
    (loaded : t.artifact.load = .ok v) : IsCompiled t.artifact.stored := by
  intro a w read reloaded
  obtain rfl := Artifact.eq_of_stored loaded read reloaded
  exact ⟨t, regular, rfl, Ty.compile_of_known regular.known⟩

/-- A store that may fail at will and return anything, but no loadable artifact
that was not compiled from a type of its signature. The states in which this
holds are kept as long as only such data is put in. -/
structure Store.Trusted {σ : Type} (store : Store σ) (good : σ → Prop) : Prop where
  found : ∀ s call key data, good s → (store.get s call key).1 = .ok (some data) → IsCompiled data
  get : ∀ s call key, good s → good (store.get s call key).2
  put : ∀ s call key data, good s → IsCompiled data → good (store.put s call key data).2

/-- Memory can be trusted while all of its items can. -/
theorem Store.memory_trusted :
    Store.memory.Trusted fun items => ∀ item ∈ items, IsCompiled item.2 where
  found items call key data good found := by
    simp only [Store.memory] at found
    split at found
    · contradiction
    · obtain ⟨name, member⟩ := Items.mem_of_find? (Except.ok.inj found)
      exact good (name, data) member
  get items call key good := by
    simp only [Store.memory]
    split <;> exact good
  put items call key data good compiled := by
    simp only [Store.memory]
    split
    · exact good
    · intro item member
      rcases Items.mem_set member with rfl | member
      · exact compiled
      · exact good item member

namespace Validators

variable {σ : Type} {good : σ → Prop} {backing : Backing σ} {state : σ} {c : Validators σ} {t : Ty}

/-- Data gives a validator where it is an artifact of the signature that loads. -/
theorem ofData_eq_some {signature data : Bytes} {v : Validator}
    (found : (ofData signature data).1 = some v) :
    ∃ a, Artifact.readStored? data = some a ∧ a.signature = signature ∧ a.load = .ok v := by
  rw [ofData] at found
  split at found
  · contradiction
  · rename_i a read
    split at found
    · contradiction
    · rename_i same
      split at found
      · contradiction
      · rename_i w loaded
        obtain rfl := Option.some.inj found
        exact ⟨a, read, Decidable.not_not.mp same, loaded⟩

/-- Data that can be trusted yields validators of the signature only. -/
theorem ofData_genuine {signature data : Bytes} (compiled : IsCompiled data) {v : Validator}
    (found : (ofData signature data).1 = some v) : v.Genuine ∧ v.signature = signature := by
  obtain ⟨a, read, same, loaded⟩ := ofData_eq_some found
  obtain ⟨t, regular, _, made⟩ := compiled a v read loaded
  obtain rfl := Except.ok.inj ((Ty.compile_of_known regular.known).symm.trans made)
  exact ⟨⟨t, regular, loaded⟩, (Artifact.signature_of_load loaded).trans same⟩

theorem fromStore_genuine {store : Store σ} (trusted : store.Trusted good) (stored : good state)
    (call : Call) (signature key : Bytes) :
    good (fromStore store state call signature key).2.1 ∧
      ∀ v, (fromStore store state call signature key).1 = some v →
        v.Genuine ∧ v.signature = signature := by
  have kept := trusted.get state call (storeKey key) stored
  have found := fun data => trusted.found state call (storeKey key) data stored
  rw [fromStore]
  cases got : store.get state call (storeKey key) with
  | mk result state' =>
    rw [got] at kept found
    rcases result with e | _ | data
    · exact ⟨kept, nofun⟩
    · exact ⟨kept, nofun⟩
    · exact ⟨kept, fun v held => ofData_genuine (found data rfl) held⟩

theorem compileAndLoad_eq (regular : t.Regular) : compileAndLoad t =
    (t.artifact.load.mapError .load).map fun v => (t.artifact, v) := by
  rw [compileAndLoad, Ty.compile_of_known regular.known]
  simp only
  cases t.artifact.load <;> rfl

theorem save_good {store : Store σ} (trusted : store.Trusted good) (stored : good state)
    (call : Call) (key : Bytes) {a : Artifact} (compiled : IsCompiled a.stored) :
    good (save store state call key a).1 := by
  have kept := trusted.put state call (storeKey key) a.stored stored compiled
  rw [save]
  cases put : store.put state call (storeKey key) a.stored with
  | mk result state' =>
    rw [put] at kept
    cases result <;> exact kept

theorem genuine_of_load (regular : t.Regular) {v : Validator} (loaded : t.artifact.load = .ok v) :
    v.Genuine ∧ v.signature = t.signature :=
  ⟨⟨t, regular, loaded⟩, Ty.signature_of_load loaded⟩

/-- There is a validator loaded from a type of the signature, unless the compiled
form of the type itself does not load. -/
def Answers (t : Ty) {α : Type} (validator : α → Validator) (result : Except ValidatorError α) :
    Prop :=
  (∃ x, result = .ok x ∧ (validator x).Genuine ∧ (validator x).signature = t.signature) ∨
    ∃ e, t.artifact.load = .error e ∧ result = .error (.load e)

variable (trusted : ∀ store, backing.store = some store → store.Trusted good) (regular : t.Regular)

include trusted regular

theorem obtain_answers (stored : good state) (call : Call) :
    good (obtain backing state call t).2.1 ∧ Answers t id (obtain backing state call t).1 := by
  rw [obtain]
  cases inside : backing.store with
  | none =>
    simp only [compileAndLoad_eq regular]
    cases loaded : t.artifact.load with
    | error e => exact ⟨stored, .inr ⟨e, loaded, rfl⟩⟩
    | ok v => exact ⟨stored, .inl ⟨v, rfl, genuine_of_load regular loaded⟩⟩
  | some store =>
    have trusted := trusted store inside
    obtain ⟨kept, genuine⟩ :=
      fromStore_genuine trusted stored call t.signature (backing.key t.signature)
    simp only
    cases sought : fromStore store state call t.signature (backing.key t.signature) with
    | mk found pair =>
      rw [sought] at kept genuine
      cases found with
      | some v => exact ⟨kept, .inl ⟨v, rfl, genuine v rfl⟩⟩
      | none =>
        simp only [compileAndLoad_eq regular]
        cases loaded : t.artifact.load with
        | error e => exact ⟨kept, .inr ⟨e, loaded, rfl⟩⟩
        | ok v =>
          have saved := save_good trusted kept call (backing.key t.signature)
            (isCompiled_stored regular loaded)
          exact ⟨saved, .inl ⟨v, rfl, genuine_of_load regular loaded⟩⟩

/-- Everything held was loaded from a compiled type, and the store can be trusted. -/
structure Sound (good : σ → Prop) (c : Validators σ) : Prop where
  held : c.recent.All fun _ held => held.validator.Genuine
  stored : good c.stored

/-- What comes of a validator that had to be obtained: it is held from then on. -/
def holding (c : Validators σ) (key : Bytes) : Except ValidatorError Validator × σ × List Event →
    Except ValidatorError Held × Validators σ × List Event
  | (.error e, stored, events) => (.error e, { c with stored }, events)
  | (.ok v, stored, events) =>
    (.ok ⟨v, c.next⟩, ⟨c.recent.add key ⟨v, c.next⟩, stored, c.next + 1⟩, events)

omit trusted regular in
/-- How a validator is found: in memory under its signature, or else it is obtained. -/
theorem validator_cases (c : Validators σ) (backing : Backing σ) (call : Call) (t : Ty) :
    (∃ held, (c.recent.get (backing.key t.signature)).1 = some held ∧
      held.validator.signature = t.signature ∧ c.validator backing call t =
        (.ok held, { c with recent := (c.recent.get (backing.key t.signature)).2 },
          [hitEvent t.signature])) ∨
    (∀ held, (c.recent.get (backing.key t.signature)).1 = some held →
      held.validator.signature ≠ t.signature) ∧ c.validator backing call t =
        holding { c with recent := (c.recent.get (backing.key t.signature)).2 }
          (backing.key t.signature) (obtain backing c.stored call t) := by
  rw [validator]
  cases looked : c.recent.get (backing.key t.signature) with
  | mk found recent =>
    cases found with
    | none =>
      refine .inr ⟨nofun, ?_⟩
      simp only
      rcases obtain backing c.stored call t with ⟨_ | _, _⟩ <;> rfl
    | some held =>
      simp only
      split
      · rename_i same
        exact .inl ⟨held, rfl, same, rfl⟩
      · rename_i other
        refine .inr ⟨?_, ?_⟩
        · rintro _ ⟨⟩
          exact other
        · rcases obtain backing c.stored call t with ⟨_ | _, _⟩ <;> rfl

/-- One call: whatever was held before, the answer belongs to the signature. -/
theorem validator_answers (sound : c.Sound good) (call : Call) :
    (c.validator backing call t).2.1.Sound good ∧
      Answers t Held.validator (c.validator backing call t).1 := by
  obtain ⟨kept, genuine⟩ := sound.held.get (backing.key t.signature)
  obtain ⟨stored, answers⟩ := obtain_answers trusted regular sound.stored call
  rcases validator_cases c backing call t with ⟨held, found, same, answer⟩ | ⟨_, answer⟩
  · rw [answer]
    exact ⟨⟨kept, sound.stored⟩, .inl ⟨held, rfl, genuine held found, same⟩⟩
  · rw [answer]
    cases made : obtain backing c.stored call t with
    | mk result pair =>
      rw [made] at stored answers
      rcases answers with ⟨v, rfl, genuine, same⟩ | ⟨e, failed, rfl⟩
      · exact ⟨⟨kept.add genuine, stored⟩, .inl ⟨⟨v, c.next⟩, rfl, genuine, same⟩⟩
      · exact ⟨⟨kept, stored⟩, .inr ⟨e, failed, rfl⟩⟩

end Validators

end Conform
