import Conform.Proofs.Binary.Integers
import Conform.Proofs.Ty.Sending

/-! Conversion is a projection. A type without unions converts what it gave to the same
value again, although the second conversion meets other kinds of lists and maps, keys
that became integers and entries in another order. What has to be ruled out is a key
that was left as the text of a float and reads as an integer the second time. -/
namespace Conform

open Value (Same Settled)

namespace Binary

variable {f : Format}

theorem visible_text (layout : Layout) (x : Binary f) :
    (x.text layout).all Utf8.isVisible = true := by
  have visible : ∀ b, isNumberOctet b = true → Utf8.isVisible b = true :=
    octet_cases (P := fun b => isNumberOctet b = true → Utf8.isVisible b = true) (by decide)
  cases x with
  | nan => rfl
  | infinite negative => cases negative <;> rfl
  | finite negative rank =>
    have octets := List.all_eq_true.mp (magnitudeText_number layout negative rank).octets
    rw [text_finite, List.all_append, Bool.and_eq_true]
    refine ⟨by cases negative <;> decide, ?_⟩
    exact List.all_eq_true.mpr fun b member => visible b (octets b member)

/-- The text of a number has no blanks, so that it is read as it stands. -/
theorem castInteger_text (layout : Layout) (x : Binary f) :
    (Value.text (x.text layout)).castInteger = integerLiteral? (x.text layout) := by
  rw [Value.castInteger, Utf8.trim_plain (Utf8.pieces_visible (visible_text layout x))]

end Binary

namespace Value

/-- The value is of a kind of the host. -/
def isNative : Value → Bool
  | .foreign _ => false
  | _ => true

/-- The plain text of a float that is not an integer of 64 bits does not read as one. It is
asked of the floats of single width only, since the others have this property. -/
def isToldApart : Value → Bool
  | .single x => (x.convert : Double).toInt64?.isSome || (integerLiteral? (x.text .plain)).isNone
  | _ => true

/-- The floats of single width have to be told apart: the text of the first power of two
beyond the integers of 64 bits has fewer digits than the power, and reads as an integer. -/
example : (single (.ofRatio false (2 ^ 63) 1)).isToldApart = false := by decide +kernel

/-- Data of the host: the keys of maps are integers and texts, no part is foreign, and the
texts of floats are told apart from those of integers. -/
structure Data (v : Value) : Prop where
  keys : v.everyKey isHostKey = true
  native : v.every isNative = true
  apart : v.every isToldApart = true

namespace Data

variable {v : Value}

theorem item {kind : ListKind} {items : List Value} (data : Data (.list kind items))
    (member : v ∈ items) : Data v where
  keys := (everyKeyItems_iff items).mp data.keys v member
  native := ((every_list_iff kind items).mp data.native).2 v member
  apart := ((every_list_iff kind items).mp data.apart).2 v member

variable {entries : List Entry} {e : Entry}

theorem key (data : Data v) (contents : v.entries? = some entries) (member : e ∈ entries) :
    e.key.isHostKey = true :=
  (everyKey_entry (fun _ => rfl) data.keys contents member).1

theorem entry (data : Data v) (contents : v.entries? = some entries) (member : e ∈ entries) :
    Data e.value where
  keys := (everyKey_entry (fun _ => rfl) data.keys contents member).2
  native := every_entry data.native contents member
  apart := every_entry data.apart contents member

/-- Data is converted to a key that stays: a float that did not become an integer does not
become one by way of its text. -/
theorem settled_of_cast (data : Data v) {kind : KeyKind} {k : Value}
    (converted : kind.cast v = .ok k) : Settled kind k := by
  cases v with
  | int width n => exact Value.settled_of_cast rfl converted
  | text s => exact Value.settled_of_cast rfl converted
  | double x =>
    rcases (kind.cast_eq_ok_iff _ k).mp converted with ⟨integers, n, _, rfl⟩ |
      ⟨left, strings, s, text, rfl⟩
    · exact .integer n integers
    · obtain rfl := Option.some.inj text
      refine .text _ strings fun integers => ?_
      rw [Binary.castInteger_text, Option.eq_none_iff_forall_ne_some]
      intro n literal
      have integer := Binary.toInt64?_of_integerLiteral? literal
      have none : x.toInt64? = none := left integers
      rw [none] at integer
      contradiction
  | single x =>
    rcases (kind.cast_eq_ok_iff _ k).mp converted with ⟨integers, n, _, rfl⟩ |
      ⟨left, strings, s, text, rfl⟩
    · exact .integer n integers
    · obtain rfl := Option.some.inj text
      refine .text _ strings fun integers => ?_
      have none : (x.convert : Double).toInt64? = none := left integers
      have apart : isToldApart (.single x) = true := data.apart
      rw [isToldApart, none] at apart
      rw [Binary.castInteger_text]
      exact Option.isNone_iff_eq_none.mp apart
  | foreign _ => exact absurd data.native Bool.false_ne_true
  | _ => cases kind <;> contradiction

end Data

end Value

theorem returns_of_fixed {convert : Conversion} {w : Value} (fixed : convert w = .ok w) :
    Returns convert Eq w := by
  rintro _ rfl
  exact ⟨w, fixed, .refl w⟩

theorem renamed_self (pairs : List (Value × Value)) :
    List.Forall₂ (Value.Renamed id Eq) pairs pairs :=
  List.forall₂_same.mpr fun p _ => .intro p.1 rfl

namespace Ty

/-- What data is converted to is converted to the same value again. -/
def Projects (t : Ty) : Prop :=
  ∀ {v w : Value}, v.Data → t.cast v = .ok w → Returns t.cast Eq w

theorem projects_list {value : Ty} (inner : value.Projects) : (Ty.list value).Projects := by
  intro v w data result
  rw [cast] at result
  obtain ⟨kind, items, converted, rfl, rfl, elements⟩ := castList_eq_ok result
  rintro _ rfl
  rw [cast]
  refine castList_returns .general ?_ (List.forall₂_same.mpr fun _ _ => rfl)
  intro y member
  obtain ⟨x, inside, read⟩ := exists_left_of_forall₂ elements member
  exact inner (data.item inside) read

theorem projects_array (key : KeyKind) {value : Ty} (inner : value.Projects) :
    (Ty.array key value).Projects := by
  intro v w data result
  rw [cast] at result
  obtain ⟨entries, pairs, contents, rfl, converted⟩ := castArray_eq_ok result
  have tidy := castEntries_tidy (fun e member => data.key contents member) converted
  rintro _ rfl
  rw [cast]
  refine castArray_returns (fun _ => rfl) .general (fun p member => (tidy.keys p member).cast_self)
    tidy.distinct ?_ (renamed_self pairs) (.refl pairs)
  intro p member
  obtain ⟨e, inside, _, valued⟩ := tidy.origin p member
  exact inner (data.entry contents inside) valued

theorem projects_shape {fields : List (Field Ty)} (distinct : (fields.map (·.key)).Nodup)
    (inner : ∀ f ∈ fields, f.type.Projects) : (Ty.shape fields).Projects := by
  intro v w data result
  rw [cast_shape_eq] at result
  obtain ⟨entries, pairs, contents, rfl, converted⟩ := castShape_eq_ok result
  have unique := conversions_unique distinct
  have taken := taken_of_castFields unique converted
  rintro _ rfl
  rw [cast_shape_eq]
  refine castShape_returns (fun _ => rfl) .text unique taken ?_ (renamed_self pairs) (.refl pairs)
  intro p member c declared key
  obtain ⟨f, there, rfl⟩ := mem_conversions.mp declared
  obtain ⟨e, inside, valued⟩ := taken.origin unique member declared key
  exact inner f there (data.entry contents inside) valued

/-- A well-formed type without unions projects. The scalar cases leave what they gave, the
others come down to the parts. -/
theorem projects_of_unionFree {t : Ty} (wellFormed : t.wellFormed = true)
    (unionFree : t.unionFree = true) : t.Projects := by
  induction t using Ty.induct with
  | mixed => exact fun _ _ => returns_of_fixed rfl
  | null =>
    intro v w _ result
    obtain ⟨-, rfl⟩ := cast_null_eq_ok_iff.mp result
    exact returns_of_fixed rfl
  | bool =>
    intro v w _ result
    obtain ⟨b, -, rfl⟩ := cast_bool_eq_ok_iff.mp result
    exact returns_of_fixed rfl
  | integer =>
    intro v w _ result
    obtain ⟨n, -, rfl⟩ := cast_integer_eq_ok_iff.mp result
    exact returns_of_fixed (cast_integer_eq_ok_iff.mpr ⟨n, Value.castInteger_ofInt64 n, rfl⟩)
  | float =>
    intro v w _ result
    obtain ⟨x, -, rfl⟩ := cast_float_eq_ok_iff.mp result
    exact returns_of_fixed rfl
  | string =>
    intro v w _ result
    obtain ⟨s, -, rfl⟩ := cast_string_eq_ok_iff.mp result
    exact returns_of_fixed rfl
  | boolLit value =>
    intro v w _ result
    obtain ⟨-, rfl⟩ := cast_boolLit_eq_ok_iff.mp result
    exact returns_of_fixed (cast_boolLit_eq_ok_iff.mpr ⟨rfl, rfl⟩)
  | integerLit value =>
    intro v w _ result
    obtain ⟨-, rfl⟩ := cast_integerLit_eq_ok_iff.mp result
    exact returns_of_fixed (cast_integerLit_eq_ok_iff.mpr ⟨Value.castInteger_ofInt64 value, rfl⟩)
  | floatLit value =>
    intro v w _ result
    obtain ⟨x, -, same, rfl⟩ := cast_floatLit_eq_ok_iff.mp result
    exact returns_of_fixed (cast_floatLit_eq_ok_iff.mpr ⟨x, rfl, same, rfl⟩)
  | stringLit value quote =>
    intro v w _ result
    obtain ⟨-, rfl⟩ := cast_stringLit_eq_ok_iff.mp result
    exact returns_of_fixed (cast_stringLit_eq_ok_iff.mpr ⟨rfl, rfl⟩)
  | arrayKey kind =>
    intro v w data result
    rw [cast] at result
    apply returns_of_fixed
    rw [cast]
    exact (data.settled_of_cast result).cast_self
  | union members => contradiction
  | array key value ih =>
    rw [Ty.wellFormed] at wellFormed
    exact projects_array key (ih wellFormed (every_arrayValue unionFree))
  | list value ih =>
    rw [Ty.wellFormed] at wellFormed
    exact projects_list (ih wellFormed (every_listValue unionFree))
  | shape fields ih =>
    obtain ⟨distinct, parts⟩ := (wellFormed_shape_iff fields).mp wellFormed
    refine projects_shape distinct ?_
    intro f member
    exact ih f member (parts f member) (every_field unionFree member)
  | unknown name accepted =>
    intro v w _ result
    obtain ⟨passes, rfl⟩ := cast_unknown_eq_ok_iff.mp result
    exact returns_of_fixed result

/-- Conversion to a type without unions is a projection: converting the result of a
conversion succeeds and gives the result again, its maps in whatever order. -/
theorem cast_projection {t : Ty} (wellFormed : t.wellFormed = true)
    (unionFree : t.unionFree = true) {v w : Value} (data : v.Data) (result : t.cast v = .ok w) :
    ∃ w', t.cast w = .ok w' ∧ w.Same w' :=
  projects_of_unionFree wellFormed unionFree data result w rfl

/-- Keys that meet in one integer, floats that become keys and stay texts, and floats of
single width that are converted or left as they are. -/
theorem cast_projection_keys :
    let half : Double := .ofDecimal false 5 (-1)
    let two : Single := .ofInt 2
    let t : Ty := .shape [⟨"a", false, .array .any .float⟩, ⟨"b", true, .list (.arrayKey .any)⟩,
      ⟨"c", true, .mixed⟩]
    let v : Value := .map .general
      [(.text "b", .list .general [.double .nan, .text " 7", .single (.infinite true)]),
        (.text "a", .map .general [(.int .uint8 7, .single two), (.text "+7", .double .nan),
          (.text "x", .double half)]),
        (.text "c", .list .named [.single two])]
    let w : Value := .map .text
      [(.text "a", .map .general [(.int .int64 7, .double two.convert), (.text "x", .double half)]),
        (.text "b", .list .general [.text "NaN", .int .int64 7, .text "-Inf"]),
        (.text "c", .list .named [.single two])]
    (t.wellFormed = true ∧ t.unionFree = true ∧ v.Data ∧ t.cast v = .ok w) ∧
      ∃ w', t.cast w = .ok w' ∧ w.Same w' := by
  intro half two t v w
  have wellFormed : t.wellFormed = true := by decide
  have unionFree : t.unionFree = true := rfl
  have data : v.Data := ⟨by decide, by decide, by decide +kernel⟩
  have result : t.cast v = .ok w := rfl
  exact ⟨⟨wellFormed, unionFree, data, result⟩,
    cast_projection wellFormed unionFree data result⟩

end Ty

end Conform
