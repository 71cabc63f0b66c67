import Conform.Proofs.Validators
import Conform.Store.Directory

/-! A call that fails leaves everything as it was. Between looking a validator up and
holding a new one lie a reading of the store, which may fail or return anything, a
compilation, a loading and a writing to the store. Only the compilation and the loading can
make a call fail, and both come before anything is held or written; what a lookup does to
the memory is to move an entry to the front. -/
namespace Conform

namespace Store

/-- Reading leaves the contents as they are. -/
def ReadsOnly {σ γ : Type} (store : Store σ) (contents : σ → γ) : Prop :=
  ∀ s call name, contents (store.get s call name).2 = contents s

theorem memory_readsOnly : memory.ReadsOnly id := by
  intro items call name
  simp only [memory]
  cases allow call name <;> rfl

theorem directoryBy_readsOnly (choose : Directory → Nat) : (directoryBy choose).ReadsOnly id :=
  fun _ _ _ => rfl

end Store

namespace Validators

variable {σ : Type} {backing : Backing σ} {state : σ} {c : Validators σ} {t : Ty}
  {error : ValidatorError}

/-! ### States -/

/-- The states that calls lead to, whether they come one after another or overlap: a call
looks keys up and holds validators, the memory may be emptied, and the store may become
whatever this or another user makes of it. -/
inductive Reached : Validators σ → Prop
  | made (size : Int) (stored : σ) : Reached (make size stored)
  | looked {c : Validators σ} (reached : Reached c) (key : Bytes) :
      Reached { c with recent := (c.recent.get key).2 }
  | held {c : Validators σ} (reached : Reached c) (key : Bytes) (v : Validator) :
      Reached { c with recent := c.recent.add key ⟨v, c.next⟩, next := c.next + 1 }
  | purged {c : Validators σ} (reached : Reached c) : Reached c.purge
  | stored {c : Validators σ} (reached : Reached c) (state : σ) : Reached { c with stored := state }

namespace Reached

/-- Whole calls are made of these steps. -/
theorem validator (reached : Reached c) (backing : Backing σ) (call : Call) (t : Ty) :
    Reached (c.validator backing call t).2.1 := by
  have looked := reached.looked (backing.key t.signature)
  rcases validator_cases c backing call t with ⟨held, _, _, answer⟩ | ⟨_, answer⟩
  · rw [answer]
    exact looked
  · rw [answer]
    rcases obtain backing c.stored call t with ⟨_ | v, stored, events⟩
    · exact looked.stored stored
    · exact (looked.held (backing.key t.signature) v).stored stored

theorem proper (reached : Reached c) : c.recent.Proper := by
  induction reached with
  | made size stored => exact Recent.proper_empty _
  | looked _ key ih => exact ih.get key
  | held _ key v ih => exact ih.add key _
  | purged _ ih => exact ⟨List.nodup_nil, Nat.zero_le _⟩
  | stored _ state ih => exact ih

end Reached

/-! ### Failures -/

/-- The state of the store after it was read, if there is one. -/
def afterReading (backing : Backing σ) (state : σ) (call : Call) (name : Bytes) : σ :=
  match backing.store with
  | none => state
  | some store => (store.get state call name).2

theorem fromStore_state (store : Store σ) (state : σ) (call : Call) (signature key : Bytes) :
    (fromStore store state call signature key).2.1 = (store.get state call (storeKey key)).2 := by
  rw [fromStore]
  rcases store.get state call (storeKey key) with ⟨_ | _ | _, _⟩ <;> rfl

/-- Why there is nothing to load: the type does not compile, or what it compiles to does
not load. -/
theorem compileAndLoad_eq_error : compileAndLoad t = .error error ↔
    (∃ e, t.compile .program = .error e ∧ error = .compile e) ∨
      ∃ a e, t.compile .program = .ok a ∧ a.load = .error e ∧ error = .load e := by
  rw [compileAndLoad]
  cases t.compile .program with
  | error e => simp [eq_comm]
  | ok a =>
    simp only [reduceCtorEq, false_and, exists_false, false_or, Except.ok.injEq]
    cases loaded : a.load with
    | error e =>
      constructor
      · intro same
        exact ⟨a, e, rfl, loaded, (Except.error.inj same).symm⟩
      · rintro ⟨_, e', rfl, failed, rfl⟩
        rw [Except.error.inj (loaded.symm.trans failed)]
    | ok v =>
      constructor
      · intro same
        cases same
      · rintro ⟨_, e', rfl, failed, rfl⟩
        cases loaded.symm.trans failed

/-- How a validator is obtained: from the store, or else by compiling and loading. The store
is written to only when that has succeeded. -/
theorem obtain_cases (backing : Backing σ) (state : σ) (call : Call) (t : Ty) :
    (∃ store v, backing.store = some store ∧
      (fromStore store state call t.signature (backing.key t.signature)).1 = some v ∧
      (obtain backing state call t).1 = .ok v) ∨
    (obtain backing state call t).1 = (compileAndLoad t).map Prod.snd ∧
      ∀ error, compileAndLoad t = .error error → (obtain backing state call t).2.1 =
        afterReading backing state call (storeKey (backing.key t.signature)) := by
  rw [obtain, afterReading]
  cases backing.store with
  | none =>
    right
    simp only
    cases compileAndLoad t with
    | error e => exact ⟨rfl, fun _ _ => rfl⟩
    | ok pair =>
      refine ⟨rfl, fun _ failed => ?_⟩
      cases failed
  | some store =>
    have read := fromStore_state store state call t.signature (backing.key t.signature)
    simp only
    cases sought : fromStore store state call t.signature (backing.key t.signature) with
    | mk found pair =>
      rw [sought] at read
      cases found with
      | some v => exact .inl ⟨store, v, rfl, congrArg Prod.fst sought, rfl⟩
      | none =>
        right
        simp only
        cases compileAndLoad t with
        | error e => exact ⟨rfl, fun _ _ => read⟩
        | ok pair =>
          refine ⟨rfl, fun _ failed => ?_⟩
          cases failed

/-- Whether there is a failure has nothing to do with the store, which was only read. -/
theorem obtain_eq_error {call : Call} (failed : (obtain backing state call t).1 = .error error) :
    compileAndLoad t = .error error ∧ (obtain backing state call t).2.1 =
      afterReading backing state call (storeKey (backing.key t.signature)) := by
  rcases obtain_cases backing state call t with ⟨_, v, _, _, found⟩ | ⟨outcome, state⟩
  · cases found.symm.trans failed
  · rw [failed] at outcome
    cases made : compileAndLoad t with
    | ok pair =>
      rw [made] at outcome
      cases outcome
    | error e =>
      rw [made] at outcome
      exact ⟨congrArg _ (Except.error.inj outcome).symm, state e made⟩

theorem validator_eq_error {call : Call}
    (failed : (c.validator backing call t).1 = .error error) :
    compileAndLoad t = .error error ∧ (c.validator backing call t).2.1 =
      { c with
        recent := (c.recent.get (backing.key t.signature)).2
        stored := afterReading backing c.stored call (storeKey (backing.key t.signature)) } := by
  revert failed
  rcases validator_cases c backing call t with ⟨held, _, _, answer⟩ | ⟨_, answer⟩
  · rw [answer]
    intro failed
    cases failed
  · rw [answer]
    cases result : obtain backing c.stored call t with
    | mk outcome pair =>
      cases outcome with
      | ok v =>
        intro failed
        cases failed
      | error e =>
        intro failed
        obtain rfl : e = error := Except.error.inj failed
        obtain ⟨made, state⟩ := obtain_eq_error (congrArg Prod.fst result)
        rw [result] at state
        rw [← state]
        exact ⟨made, rfl⟩

/-- A type of which no validator can be made has none that is neither held nor stored. -/
theorem validator_of_failed {call : Call} (made : compileAndLoad t = .error error)
    (unheld : ∀ held, (c.recent.get (backing.key t.signature)).1 = some held →
      held.validator.signature ≠ t.signature)
    (unread : ∀ store, backing.store = some store →
      (fromStore store c.stored call t.signature (backing.key t.signature)).1 = none) :
    (c.validator backing call t).1 = .error error := by
  rcases validator_cases c backing call t with ⟨held, found, same, _⟩ | ⟨_, answer⟩
  · exact absurd same (unheld held found)
  · rw [answer]
    rcases obtain_cases backing c.stored call t with ⟨store, v, inside, read, _⟩ | ⟨outcome, _⟩
    · cases (unread store inside).symm.trans read
    · rw [made] at outcome
      cases result : obtain backing c.stored call t with
      | mk answer pair =>
        rw [result] at outcome
        obtain rfl : answer = .error error := outcome
        rfl

/-- A call that fails changes neither which validators are held nor what the store
contains: the memory has the same entries, and of the store there was one reading at most.
It fails because the type does not compile or because what it compiles to does not load;
where neither is the case there is a validator, whatever the store does. -/
theorem failed_call_keeps_all (reached : Reached c) (backing : Backing σ) (call : Call) (t : Ty) :
    (∀ error, (c.validator backing call t).1 = .error error →
      let after := (c.validator backing call t).2.1
      after.recent.entries.Perm c.recent.entries ∧
        after.stored = afterReading backing c.stored call (storeKey (backing.key t.signature)) ∧
        (∀ {γ : Type} (contents : σ → γ),
          (∀ store, backing.store = some store → store.ReadsOnly contents) →
          contents after.stored = contents c.stored) ∧
        ((∃ e, t.compile .program = .error e ∧ error = .compile e) ∨
          ∃ a e, t.compile .program = .ok a ∧ a.load = .error e ∧ error = .load e)) ∧
    ∀ a v, t.compile .program = .ok a → a.load = .ok v →
      ∃ held, (c.validator backing call t).1 = .ok held := by
  constructor
  · intro error failed after
    obtain ⟨made, state⟩ := validator_eq_error failed
    have kept : after.stored = afterReading backing c.stored call _ := congrArg stored state
    refine ⟨?_, kept, fun contents alone => ?_, compileAndLoad_eq_error.mp made⟩
    · rw [show after.recent = _ from congrArg recent state]
      exact reached.proper.get_perm _
    · rw [kept, afterReading]
      cases inside : backing.store with
      | none => rfl
      | some store => exact alone store inside _ _ _
  · intro a v compiled loaded
    cases result : (c.validator backing call t).1 with
    | ok held => exact ⟨held, rfl⟩
    | error error =>
      have failed := (validator_eq_error result).1
      simp only [compileAndLoad, compiled, loaded, reduceCtorEq] at failed

/-- Another signature is held under the same key, the store holds garbage there, and the
type has a component that no program can be made of. -/
theorem failed_call_keeps_all_collision :
    let garbage : Items := [("k.program.json", "[")]
    let backing : Backing Items := ⟨fun _ => "k", some .memory⟩
    let c : Validators Items :=
      ⟨(make 2 garbage).recent.add "k" ⟨⟨"int", .leaf .integer⟩, 0⟩, garbage, 1⟩
    let t : Ty := .list (.unknown "odd" true)
    Reached c ∧ ∃ error, (c.validator backing ⟨false⟩ t).1 = .error error ∧
      (c.validator backing ⟨false⟩ t).2.1.recent.entries.Perm c.recent.entries ∧
      (c.validator backing ⟨false⟩ t).2.1.stored = garbage := by
  intro garbage backing c t
  have reached : Reached c := (Reached.made 2 garbage).held "k" ⟨"int", .leaf .integer⟩
  have unheld : ∀ held, (c.recent.get (backing.key t.signature)).1 = some held →
      held.validator.signature ≠ t.signature := by
    intro held found
    obtain rfl := Option.some.inj ((Recent.get_add (by decide) _ _).symm.trans found)
    decide
  have unread : ∀ store, backing.store = some store →
      (fromStore store c.stored ⟨false⟩ t.signature (backing.key t.signature)).1 = none := by
    intro store inside
    obtain rfl := Option.some.inj inside
    have allowed : Store.allow ⟨false⟩ (storeKey (utf8 "k")) = .ok () := by decide +kernel
    have present : garbage.find? (storeKey (utf8 "k")) = some (utf8 "[") := by decide +kernel
    have broken : Artifact.readStored? (utf8 "[") = none := by decide +kernel
    simp only [fromStore, Store.memory, backing, c, allowed, present, ofData, broken]
  have uncompiled : t.compile .program = .error (.unsupported (.unknown "odd" true) "program") :=
    rfl
  have failed := validator_of_failed
    (compileAndLoad_eq_error.mpr (.inl ⟨_, uncompiled, rfl⟩)) unheld unread
  obtain ⟨entries, _, contents, _⟩ := (failed_call_keeps_all reached backing ⟨false⟩ t).1 _ failed
  refine ⟨reached, _, failed, entries, contents id ?_⟩
  intro store inside
  obtain rfl := Option.some.inj inside
  exact Store.memory_readsOnly

end Validators

end Conform
