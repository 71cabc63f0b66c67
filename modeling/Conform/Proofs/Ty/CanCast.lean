import Conform.Proofs.Ty.Cast
import Conform.Proofs.Value.Filters

/-! The check of kinds beside the conversion. A value that fails the check is refused
for its kind; one that passes it is converted by the families and by the keys, and is
otherwise refused only for what it holds. -/
namespace Conform

namespace Ty

/-- A family of scalars, the keys of arrays, or any value at all. -/
def isFamily : Ty → Bool
  | .mixed => true
  | .null => true
  | .bool => true
  | .integer => true
  | .float => true
  | .string => true
  | .arrayKey _ => true
  | _ => false

def isLiteral : Ty → Bool
  | .boolLit _ => true
  | .integerLit _ => true
  | .floatLit _ => true
  | .stringLit .. => true
  | _ => false

/-- The value is refused for its kind. -/
def Refuses (t : Ty) (v : Value) : Prop :=
  ∃ e, t.cast v = .error e ∧ e.report.code? =
    some (if t.kind? = some .union then .unionCastFailed else .invalidValueType)

theorem castFirst_fails {members : List Ty} {v : Value}
    (each : ∀ m ∈ members, ∃ e, m.cast v = .error e) : ∃ es, castFirst members v = .error es := by
  cases result : castFirst members v with
  | error es => exact ⟨es, rfl⟩
  | ok w =>
    obtain ⟨m, member, converted⟩ := castFirst_eq_ok result
    obtain ⟨e, failed⟩ := each m member
    rw [converted] at failed
    contradiction

theorem refuses_union {members : List Ty} {v : Value} (each : ∀ m ∈ members, m.Refuses v) :
    (Ty.union members).Refuses v := by
  obtain ⟨es, failed⟩ := castFirst_fails fun m member =>
    (each m member).imp fun _ refused => refused.1
  exact ⟨_, by rw [cast, failed], rfl⟩

theorem refuses_arrayKey {kind : KeyKind} {v : Value} (refused : kind.canCast v = false) :
    (Ty.arrayKey kind).Refuses v := by
  have unconverted : ¬ ∃ w, kind.cast v = .ok w := by
    rw [← kind.canCast_iff, refused]
    exact Bool.false_ne_true
  rw [Refuses, cast, KeyKind.cast]
  rw [KeyKind.cast] at unconverted
  split at unconverted
  · exact absurd ⟨_, rfl⟩ unconverted
  · split at unconverted
    · exact absurd ⟨_, rfl⟩ unconverted
    · exact ⟨_, rfl, rfl⟩

/-- What the filter of a conversion does not let through is not converted. -/
theorem none_of_filter {α : Type} {read : Option α} {filter : Bool} (agree : read.isSome = filter)
    (refused : filter = false) : read = none :=
  Option.isNone_iff_eq_none.mp (Option.isSome_eq_false_iff.mp (agree.trans refused))

/-- What does not pass the check is refused for its kind. -/
theorem refuses_of_check (t : Ty) {v : Value} (refused : t.canCast v = false) : t.Refuses v := by
  induction t using Ty.induct with
  | mixed => contradiction
  | null =>
    have other : ¬ v.isNull = true := Bool.eq_false_iff.mp refused
    exact ⟨_, by rw [cast, if_neg other], rfl⟩
  | bool | boolLit value =>
    have unread := none_of_filter v.castBool_isSome refused
    exact ⟨_, by rw [cast, unread], rfl⟩
  | integer | integerLit value =>
    have unread := none_of_filter v.castInteger_isSome refused
    exact ⟨_, by rw [cast, unread], rfl⟩
  | float | floatLit value =>
    have unread := none_of_filter v.castDouble_isSome refused
    exact ⟨_, by rw [cast, unread], rfl⟩
  | string | stringLit value quote =>
    have unread := none_of_filter v.castText_isSome refused
    exact ⟨_, by rw [cast, unread], rfl⟩
  | arrayKey kind => exact refuses_arrayKey refused
  | union members ih =>
    rw [canCast, ← Bool.not_eq_true, anyCanCast_iff] at refused
    apply refuses_union
    intro m member
    apply ih m member
    rw [← Bool.not_eq_true]
    exact fun passes => refused ⟨m, member, Or.inl passes⟩
  | array key value =>
    have contents : v.entries? = none := none_of_filter rfl refused
    exact ⟨_, by rw [cast, castArray, contents], rfl⟩
  | shape fields =>
    have contents : v.entries? = none := none_of_filter rfl refused
    exact ⟨_, by rw [cast, castShape, contents], rfl⟩
  | list value =>
    cases v with
    | list kind items => contradiction
    | _ => exact ⟨_, rfl, rfl⟩
  | unknown name accepted =>
    have other : ¬ accepted = true := Bool.eq_false_iff.mp refused
    exact ⟨_, by rw [cast, if_neg other], rfl⟩

theorem check_of_cast {t : Ty} {v w : Value} (result : t.cast v = .ok w) : t.canCast v = true := by
  by_contra refused
  obtain ⟨e, failed, _⟩ := refuses_of_check t (Bool.eq_false_iff.mpr refused)
  rw [result] at failed
  contradiction

/-- The families convert whatever passes their check. -/
theorem cast_of_check {t : Ty} (family : t.isFamily = true) {v : Value} (passes : t.canCast v = true) :
    ∃ w, t.cast v = .ok w := by
  cases t with
  | mixed => exact ⟨v, rfl⟩
  | null => exact ⟨.null, cast_null_eq_ok_iff.mpr ⟨passes, rfl⟩⟩
  | bool =>
    obtain ⟨b, read⟩ := Option.isSome_iff_exists.mp (v.castBool_isSome.trans passes)
    exact ⟨.bool b, cast_bool_eq_ok_iff.mpr ⟨b, read, rfl⟩⟩
  | integer =>
    obtain ⟨n, read⟩ := Option.isSome_iff_exists.mp (v.castInteger_isSome.trans passes)
    exact ⟨.ofInt64 n, cast_integer_eq_ok_iff.mpr ⟨n, read, rfl⟩⟩
  | float =>
    obtain ⟨x, read⟩ := Option.isSome_iff_exists.mp (v.castDouble_isSome.trans passes)
    exact ⟨.double x, cast_float_eq_ok_iff.mpr ⟨x, read, rfl⟩⟩
  | string =>
    obtain ⟨s, read⟩ := Option.isSome_iff_exists.mp (v.castText_isSome.trans passes)
    exact ⟨.text s, cast_string_eq_ok_iff.mpr ⟨s, read, rfl⟩⟩
  | arrayKey kind =>
    rw [cast]
    exact (kind.canCast_iff v).mp passes
  | _ => contradiction

/-- A literal refuses what passes its check only for being another value. -/
theorem differs_of_check {t : Ty} (literal : t.isLiteral = true) {v : Value}
    (passes : t.canCast v = true) {e : CastError} (failed : t.cast v = .error e) :
    ∃ converted, e = .differs converted t := by
  cases t with
  | boolLit value =>
    obtain ⟨b, read⟩ := Option.isSome_iff_exists.mp (v.castBool_isSome.trans passes)
    simp only [cast, read] at failed
    split at failed
    · contradiction
    · exact ⟨_, (Except.error.inj failed).symm⟩
  | integerLit value =>
    obtain ⟨n, read⟩ := Option.isSome_iff_exists.mp (v.castInteger_isSome.trans passes)
    simp only [cast, read] at failed
    split at failed
    · contradiction
    · exact ⟨_, (Except.error.inj failed).symm⟩
  | floatLit value =>
    obtain ⟨x, read⟩ := Option.isSome_iff_exists.mp (v.castDouble_isSome.trans passes)
    simp only [cast, read] at failed
    split at failed
    · contradiction
    · exact ⟨_, (Except.error.inj failed).symm⟩
  | stringLit value quote =>
    obtain ⟨s, read⟩ := Option.isSome_iff_exists.mp (v.castText_isSome.trans passes)
    simp only [cast, read] at failed
    split at failed
    · contradiction
    · exact ⟨_, (Except.error.inj failed).symm⟩
  | _ => contradiction

/-- The check is exactly the check of kinds of the conversion. Whatever is converted passes
it; what does not pass it is refused for its kind; for a family or the keys of arrays passing
it and being converted are one thing; and what passes it for a literal and is not converted
is another value than the literal. -/
theorem canCast_is_kind_check (t : Ty) (v : Value) :
    (∀ w, t.cast v = .ok w → t.canCast v = true) ∧
      (t.canCast v = false → ∃ e, t.cast v = .error e ∧ e.report.code? = some
        (if t.kind? = some .union then .unionCastFailed else .invalidValueType)) ∧
      (t.isFamily = true → (t.canCast v = true ↔ ∃ w, t.cast v = .ok w)) ∧
      (t.isLiteral = true → t.canCast v = true → ∀ e, t.cast v = .error e →
        e.report.code? = some .invalidValue) := by
  refine ⟨fun w => check_of_cast, refuses_of_check t, ?_, ?_⟩
  · intro family
    exact ⟨cast_of_check family, fun ⟨w, result⟩ => check_of_cast result⟩
  · intro literal passes e failed
    obtain ⟨converted, rfl⟩ := differs_of_check literal passes failed
    rfl

end Ty

end Conform
