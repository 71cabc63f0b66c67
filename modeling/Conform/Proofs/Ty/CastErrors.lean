import Conform.Proofs.Ty.Cast

/-! The errors of conversions. Whatever the type and the value are, a conversion
fails with one of the library's own errors: at the bottom of any errors of
elements stands a wrong kind, a literal that a plain value differs from, a missing
or an unexpected element, or a union none of whose members converts the value. -/
namespace Conform

/-- What a literal can be compared with: a boolean, a number or a text. -/
def Value.isPlain : Value → Bool
  | .bool _ => true
  | .int .. => true
  | .double _ => true
  | .text _ => true
  | _ => false

/-- An error that the conversions of the library give. -/
inductive CastError.Native : CastError → Prop
  | wrongKind (kind : Bytes) (target : Ty) : Native (.wrongKind kind target)
  | notContainer (kind expected : Bytes) : Native (.notContainer kind expected)
  | differs {converted : Value} (plain : converted.isPlain = true) (target : Ty) :
      Native (.differs converted target)
  | missing (key expected : Bytes) : Native (.missing key expected)
  | unexpected (keys : List Bytes) (expected : Bytes) : Native (.unexpected keys expected)
  | noMember (kind expected : Bytes) (attempts : List CastError) :
      Native (.noMember kind expected attempts)
  | element (key : Bytes) {inner : CastError} : Native inner → Native (.element key inner)

/-- If the conversion fails, its error is a native one. -/
def FailsNatively {α : Type} (result : Except CastError α) : Prop :=
  ∀ e, result = .error e → e.Native

namespace FailsNatively

variable {α : Type}

theorem ok (x : α) : FailsNatively (.ok x) := nofun

theorem error {e : CastError} (native : e.Native) : FailsNatively (.error e : Except CastError α) := by
  rintro _ ⟨⟩
  exact native

end FailsNatively

section Containers

variable {convert : Conversion} (each : ∀ v, FailsNatively (convert v))

include each

theorem castItems_native (i : Nat) (items : List Value) :
    FailsNatively (castItems convert i items) := by
  induction items generalizing i with
  | nil => exact .ok []
  | cons v rest ih =>
    rw [castItems]
    cases first : convert v with
    | error e => exact .error (.element _ (each v e first))
    | ok w =>
      simp only
      cases others : castItems convert (i + 1) rest with
      | error e => exact .error (ih (i + 1) e others)
      | ok ws => exact .ok _

theorem castList_native (expected : Bytes) (v : Value) :
    FailsNatively (castList expected convert v) := by
  cases v with
  | list kind items =>
    rw [castList]
    cases converted : castItems convert 0 items with
    | error e => exact .error (castItems_native each 0 items e converted)
    | ok ws => exact .ok _
  | _ => exact .error (.notContainer _ _)

theorem castEntries_native {key : Conversion} (keys : ∀ v, FailsNatively (key v))
    (done : List (Value × Value)) (entries : List Entry) :
    FailsNatively (castEntries key convert done entries) := by
  induction entries generalizing done with
  | nil => exact .ok done
  | cons e rest ih =>
    rw [castEntries]
    cases keyed : key e.key with
    | error fault => exact .error (.element _ (keys e.key fault keyed))
    | ok k =>
      simp only
      cases valued : convert e.value with
      | error fault => exact .error (.element _ (each e.value fault valued))
      | ok w => exact ih _

theorem castArray_native {key : Conversion} (keys : ∀ v, FailsNatively (key v)) (expected : Bytes)
    (v : Value) : FailsNatively (castArray expected key convert v) := by
  rw [castArray]
  cases v.entries? with
  | none => exact .error (.notContainer _ _)
  | some entries =>
    simp only
    cases converted : castEntries key convert [] entries with
    | error e => exact .error (castEntries_native each keys [] entries e converted)
    | ok pairs => exact .ok _

end Containers

theorem castFields_native {fields : List (Field Conversion)}
    (each : ∀ f ∈ fields, ∀ v, FailsNatively (f.type v)) (expected : Bytes)
    (entries : List Entry) : FailsNatively (castFields expected fields entries) := by
  induction fields generalizing entries with
  | nil => exact .ok _
  | cons f rest ih =>
    obtain ⟨first, others⟩ := List.forall_mem_cons.mp each
    rw [castFields]
    cases lookupText f.key entries with
    | none =>
      simp only
      split
      · exact ih others entries
      · exact .error (.missing _ _)
    | some x =>
      simp only
      cases converted : f.type x with
      | error e => exact .error (.element _ (first x e converted))
      | ok y =>
        simp only
        cases more : castFields expected rest (withoutText f.key entries) with
        | error e => exact .error (ih others _ e more)
        | ok pairs => exact .ok _

theorem castShape_native {fields : List (Field Conversion)}
    (each : ∀ f ∈ fields, ∀ v, FailsNatively (f.type v)) (expected : Bytes) (v : Value) :
    FailsNatively (castShape expected fields v) := by
  rw [castShape]
  cases v.entries? with
  | none => exact .error (.notContainer _ _)
  | some entries =>
    simp only
    cases converted : castFields expected fields entries with
    | error e => exact .error (castFields_native each expected entries e converted)
    | ok pair =>
      obtain ⟨pairs, left⟩ := pair
      cases left with
      | nil => exact .ok _
      | cons e rest => exact .error (.unexpected _ _)

theorem KeyKind.cast_native (kind : KeyKind) (v : Value) : FailsNatively (kind.cast v) := by
  rw [KeyKind.cast]
  split
  · exact .ok _
  · split
    · exact .ok _
    · exact .error (.wrongKind _ _)

/-- Every type fails with native errors only. -/
theorem Ty.cast_native (t : Ty) (v : Value) : FailsNatively (t.cast v) := by
  induction t using Ty.induct generalizing v with
  | mixed => exact .ok v
  | null | bool | integer | float | string | unknown name accepted =>
    rw [cast]
    split
    · exact .ok _
    · exact .error (.wrongKind _ _)
  | boolLit value | integerLit value | floatLit value | stringLit value quote =>
    rw [cast]
    split
    · exact .error (.wrongKind _ _)
    · split
      · exact .ok _
      · exact .error (.differs rfl _)
  | arrayKey kind => exact kind.cast_native v
  | union members ih =>
    rw [cast]
    split
    · exact .ok _
    · exact .error (.noMember _ _ _)
  | array key value ih => exact castArray_native ih key.cast_native _ v
  | list value ih => exact castList_native ih _ v
  | shape fields ih =>
    refine castShape_native ?_ _ v
    rw [fieldCasts_eq]
    intro c member
    obtain ⟨f, declared, rfl⟩ := List.mem_map.mp member
    exact ih f declared

end Conform
