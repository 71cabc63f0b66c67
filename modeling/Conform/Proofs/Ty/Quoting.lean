import Conform.Proofs.Program.Nesting
import Conform.Ty.Cast

/-! Quoting styles only affect what errors say. Types that are equal up to the
styles of their literals accept the same values and convert them to the same
results; where a conversion fails, the codes of the two errors are the same. -/
namespace Conform

/-- Two conversions end alike: with one result, or with errors of one code. -/
def Alike {α : Type} (r s : Except CastError α) : Prop :=
  (∃ x, r = .ok x ∧ s = .ok x) ∨
    ∃ e f, r = .error e ∧ s = .error f ∧ e.report.code? = f.report.code?

namespace Alike

variable {α : Type} {r s t : Except CastError α}

theorem ok (x : α) : Alike (.ok x) (.ok x) := .inl ⟨x, rfl, rfl⟩

theorem error {e f : CastError} (code : e.report.code? = f.report.code?) :
    Alike (.error e : Except CastError α) (.error f) := .inr ⟨e, f, rfl, rfl, code⟩

theorem eq_ok (alike : Alike r s) {x : α} (other : s = .ok x) : r = .ok x := by
  rcases alike with ⟨y, one, same⟩ | ⟨_, _, _, failed, _⟩
  · exact one.trans (same.symm.trans other)
  · exact nomatch failed.symm.trans other

theorem refl (r : Except CastError α) : Alike r r := by
  cases r with
  | ok x => exact .ok x
  | error e => exact .error rfl

theorem symm (alike : Alike r s) : Alike s r := by
  rcases alike with ⟨x, rfl, rfl⟩ | ⟨e, f, rfl, rfl, code⟩
  · exact .ok x
  · exact .error code.symm

theorem trans (first : Alike r s) (second : Alike s t) : Alike r t := by
  rcases first with ⟨x, rfl, rfl⟩ | ⟨e, f, rfl, rfl, code⟩
  · exact second
  · rcases second with ⟨x, found, _⟩ | ⟨f', g, found, rfl, code'⟩
    · contradiction
    · obtain rfl := Except.error.inj found
      exact .error (code.trans code')

end Alike

theorem CastError.element_code (key : Bytes) (e : CastError) :
    (CastError.element key e).report.code? = e.report.code? := by
  rw [CastError.report]
  cases e.report <;> rfl

theorem CastError.element_alike {α : Type} (key : Bytes) {e f : CastError}
    (code : e.report.code? = f.report.code?) :
    Alike (.error (.element key e) : Except CastError α) (.error (.element key f)) :=
  .error (by rw [CastError.element_code, CastError.element_code, code])

section Containers

variable {first second : Conversion} (each : ∀ v, Alike (first v) (second v))

include each

theorem castItems_alike (i : Nat) (items : List Value) :
    Alike (castItems first i items) (castItems second i items) := by
  induction items generalizing i with
  | nil => exact .ok []
  | cons v rest ih =>
    rcases each v with ⟨w, one, other⟩ | ⟨e, f, one, other, code⟩
    · rcases ih (i + 1) with ⟨ws, ones, others⟩ | ⟨e, f, ones, others, code⟩
      · simp only [castItems, one, other, ones, others]
        exact .ok _
      · simp only [castItems, one, other, ones, others]
        exact .error code
    · simp only [castItems, one, other]
      exact CastError.element_alike _ code

theorem castList_alike (one other : Bytes) (v : Value) :
    Alike (castList one first v) (castList other second v) := by
  cases v with
  | list kind items =>
    rcases castItems_alike each 0 items with ⟨ws, ones, others⟩ | ⟨e, f, ones, others, code⟩
    · simp only [castList, ones, others]
      exact .ok _
    · simp only [castList, ones, others]
      exact .error code
  | _ => exact .error rfl

theorem castEntries_alike (key : Conversion) (done : List (Value × Value)) (entries : List Entry) :
    Alike (castEntries key first done entries) (castEntries key second done entries) := by
  induction entries generalizing done with
  | nil => exact .ok done
  | cons e rest ih =>
    rw [castEntries, castEntries]
    cases key e.key with
    | error fault => exact .error rfl
    | ok k =>
      rcases each e.value with ⟨w, one, other⟩ | ⟨fault, fault', one, other, code⟩
      · simp only [one, other]
        exact ih _
      · simp only [one, other]
        exact CastError.element_alike _ code

theorem castArray_alike (one other : Bytes) (key : Conversion) (v : Value) :
    Alike (castArray one key first v) (castArray other key second v) := by
  rw [castArray, castArray]
  cases v.entries? with
  | none => exact .error rfl
  | some entries =>
    rcases castEntries_alike each key [] entries with ⟨ws, ones, others⟩ | ⟨e, f, ones, others, code⟩
    · simp only [ones, others]
      exact .ok _
    · simp only [ones, others]
      exact .error code

end Containers

/-- Fields of one key that convert alike. -/
structure FieldAlike (f g : Field Conversion) : Prop where
  key : f.key = g.key
  optional : f.optional = g.optional
  type : ∀ v, Alike (f.type v) (g.type v)

section Fields

variable {fields fields' : List (Field Conversion)} (each : List.Forall₂ FieldAlike fields fields')

include each

theorem castFields_alike (one other : Bytes) (entries : List Entry) :
    Alike (castFields one fields entries) (castFields other fields' entries) := by
  induction each generalizing entries with
  | nil => exact .ok _
  | @cons f g _ _ here _ ih =>
    rw [castFields, castFields, here.key, here.optional]
    split
    · split
      · exact ih entries
      · exact .error rfl
    · rename_i x _
      rcases here.type x with ⟨w, left, right⟩ | ⟨e, e', left, right, code⟩
      · simp only [left, right]
        rcases ih (withoutText g.key entries) with ⟨ws, left, right⟩ | ⟨e, e', left, right, code⟩
        · simp only [left, right]
          exact .ok _
        · simp only [left, right]
          exact .error code
      · simp only [left, right]
        exact CastError.element_alike _ code

theorem castShape_alike (one other : Bytes) (v : Value) :
    Alike (castShape one fields v) (castShape other fields' v) := by
  rw [castShape, castShape]
  cases v.entries? with
  | none => exact .error rfl
  | some entries =>
    rcases castFields_alike each one other entries with
      ⟨⟨converted, left⟩, ones, others⟩ | ⟨e, f, ones, others, code⟩
    · simp only [ones, others]
      cases left with
      | nil => exact .ok _
      | cons e rest => exact .error rfl
    · simp only [ones, others]
      exact .error code

end Fields

namespace Ty

/-- A type and its unquoted form convert alike. -/
def CastsAlike (t : Ty) : Prop := ∀ v, Alike (t.unquoted.cast v) (t.cast v)

theorem fieldCasts_alike {fields : List (Field Ty)} (each : ∀ f ∈ fields, f.type.CastsAlike) :
    List.Forall₂ FieldAlike (fieldCasts (unquotedFields fields)) (fieldCasts fields) := by
  induction fields with
  | nil => exact .nil
  | cons f rest ih =>
    obtain ⟨here, others⟩ := List.forall_mem_cons.mp each
    exact .cons ⟨rfl, rfl, here⟩ (ih others)

/-- Members that convert alike find the same first result, or all fail. -/
theorem castFirst_alike {members : List Ty} (each : ∀ m ∈ members, m.CastsAlike) (v : Value) :
    (∃ w, castFirst (unquotedAll members) v = .ok w ∧ castFirst members v = .ok w) ∨
      ∃ es fs, castFirst (unquotedAll members) v = .error es ∧ castFirst members v = .error fs := by
  induction members with
  | nil => exact .inr ⟨[], [], rfl, rfl⟩
  | cons t rest ih =>
    rw [unquotedAll, castFirst, castFirst]
    rcases each t (by simp) v with ⟨w, left, right⟩ | ⟨e, f, left, right, -⟩
    · simp only [left, right]
      exact .inl ⟨w, rfl, rfl⟩
    · simp only [left, right]
      rcases ih fun m member => each m (by simp [member]) with
        ⟨w, left, right⟩ | ⟨es, fs, left, right⟩
      · simp only [left, right]
        exact .inl ⟨w, rfl, rfl⟩
      · simp only [left, right]
        exact .inr ⟨_, _, rfl, rfl⟩

theorem casts_alike (t : Ty) : t.CastsAlike := by
  intro v
  induction t using Ty.induct generalizing v with
  | stringLit value quote =>
    simp only [unquoted, cast]
    cases v.castText with
    | none => exact .error rfl
    | some s =>
      simp only
      split
      · exact .ok _
      · exact .error rfl
  | union members ih =>
    rw [unquoted, cast, cast]
    rcases castFirst_alike ih v with ⟨w, left, right⟩ | ⟨es, fs, left, right⟩
    · simp only [left, right]
      exact .ok w
    · simp only [left, right]
      exact .error rfl
  | array key value ih => exact castArray_alike ih _ _ _ v
  | list value ih => exact castList_alike ih _ _ v
  | shape fields ih => exact castShape_alike (fieldCasts_alike ih) _ _ v
  | _ => exact .refl _

theorem accepts_unquoted (t : Ty) : t.unquoted.accepts = t.accepts := by
  funext v
  induction t using Ty.induct generalizing v with
  | union members ih =>
    simp only [unquoted, accepts]
    induction members with
    | nil => rfl
    | cons t rest hrest =>
      rw [unquotedAll, anyAccepts, anyAccepts, ih t (by simp),
        hrest fun m member => ih m (by simp [member])]
  | array key value ih => rw [unquoted, accepts, accepts, funext ih]
  | list value ih => rw [unquoted, accepts, accepts, funext ih]
  | shape fields ih =>
    have tests : fieldTests (unquotedFields fields) = fieldTests fields := by
      induction fields with
      | nil => rfl
      | cons f rest hrest =>
        rw [unquotedFields, fieldTests, fieldTests, funext (ih f (by simp)),
          hrest fun f member => ih f (by simp [member])]
    rw [unquoted, accepts, accepts, tests]
  | _ => rfl

theorem nesting_unquoted (t : Ty) : t.unquoted.nesting = t.nesting := by
  induction t using Ty.induct with
  | union members ih =>
    rw [unquoted, nesting, nesting]
    induction members with
    | nil => rfl
    | cons t rest hrest =>
      rw [unquotedAll, nestingAll, nestingAll, ih t (by simp),
        hrest fun m member => ih m (by simp [member])]
  | array key value ih => rw [unquoted, nesting, nesting, ih]
  | list value ih => rw [unquoted, nesting, nesting, ih]
  | shape fields ih =>
    rw [unquoted, nesting, nesting]
    induction fields with
    | nil => rfl
    | cons f rest hrest =>
      rw [unquotedFields, nestingFields, nestingFields, ih f (by simp),
        hrest fun f member => ih f (by simp [member])]
  | _ => rfl

section SameUnquoted

variable {s t : Ty} (same : s.unquoted = t.unquoted)

include same

theorem accepts_of_unquoted : s.accepts = t.accepts := by
  rw [← accepts_unquoted s, same, accepts_unquoted]

theorem nesting_of_unquoted : s.nesting = t.nesting := by
  rw [← nesting_unquoted s, same, nesting_unquoted]

theorem cast_of_unquoted (v : Value) : Alike (s.cast v) (t.cast v) := by
  have forgotten := casts_alike s v
  rw [same] at forgotten
  exact forgotten.symm.trans (casts_alike t v)

end SameUnquoted

end Ty

end Conform
