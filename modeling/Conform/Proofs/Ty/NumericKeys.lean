import Conform.Proofs.Ty.Fits
import Conform.Proofs.Value.Decoded
import Conform.Proofs.Value.Written
import Mathlib

/-! Numeric keys of documents. A shape knows a key by its text, so the text "1" is
the element 1 to it, and a shape with that element fits arrays of integer keys.
An array knows a key by its kind, and to it that text is no integer. The two
differ on documents in this one respect: where no array has integer keys only, or
no key of the document reads as an integer, fitting is inclusion. -/
namespace Conform

/-- A text that reads as an integer. -/
def Value.isNumericText : Value → Bool
  | .text s => (integerLiteral? s).isSome
  | _ => false

namespace Ty

/-- On decoded values texts tell what keys are, to kinds that have strings or of texts that
do not read as integers. -/
theorem decoded_tell {bound : Nat} (hosted : bound ≤ 0x8000000000000000) (kinds : KeyKind → Bool) :
    TextsTell kinds fun v => v.decoded bound = true ∧
      ((∀ kind, kinds kind = true → kind.strings = true) ∨
        v.everyKey (fun k => !k.isNumericText) = true) where
  bounded := by
    rintro kind items ⟨decoded, _⟩
    exact (Value.decoded_list decoded).2.trans hosted
  entry := by
    rintro v entries ⟨decoded, apart⟩ contents e member
    obtain ⟨form, inner⟩ := Value.decoded_entry decoded contents member
    have keyed : (∀ kind, kinds kind = true → kind.strings = true) ∨
        (!e.key.isNumericText) = true ∧ e.value.everyKey (fun k => !k.isNumericText) = true := by
      apply apart.imp_right
      intro keys
      exact Value.everyKey_entry (fun _ => rfl) keys contents member
    refine ⟨⟨inner, keyed.imp_right And.right⟩, ?_⟩
    intro kind considered admits
    have told : e.key.isPlainKey = true → kind.accepts e.key = true := by
      intro plain
      rwa [KeyKind.admitsText_keyText kind plain] at admits
    rcases form with ⟨j, below, index⟩ | ⟨s, text⟩
    · apply told
      rw [index]
      exact Value.isInteger_index (by omega)
    · rcases keyed with strings | ⟨other, _⟩
      · simp [text, KeyKind.accepts, strings kind considered, Value.isText]
      · apply told
        simpa [text, Value.isNumericText, Value.isPlainKey] using other

/-- A shape that fits an array is included in it on what JSON texts hold, provided that
no array has integer keys only or that no key reads as an integer. -/
theorem array_accepts_of_shape_fits {fields : List (Field Ty)} {key : KeyKind} {value : Ty}
    (regular : (Ty.shape fields).Regular) (regular' : (Ty.array key value).Regular)
    (mixedFree : ∀ f ∈ fields, f.type.mixedFree = true)
    (fits : (Ty.shape fields).fits (.array key value) = true) {text : Bytes} {v : Value}
    (hosted : text.length ≤ 0x8000000000000000) (read : Value.readJson text = .ok v)
    (apart : (Ty.array key value).every (keyedBy KeyKind.strings) = true ∨
      v.everyKey (fun k => !k.isNumericText) = true)
    (accepted : (Ty.shape fields).accepts v = true) : (Ty.array key value).accepts v = true := by
  have decoded := Value.readJson_decoded read
  have mixedFree : (Ty.shape fields).mixedFree = true := by
    rw [Ty.mixedFree, every, Bool.and_eq_true, everyField_iff]
    exact ⟨rfl, mixedFree⟩
  rcases apart with keyed | keys
  · exact regular.soundOn (decoded_tell hosted KeyKind.strings) mixedFree _ regular' keyed fits v
      ⟨decoded, Or.inl fun _ strings => strings⟩ accepted
  · exact regular.soundOn (decoded_tell hosted fun _ => true) mixedFree _ regular'
      (every_keyedBy_all _) fits v ⟨decoded, Or.inr keys⟩ accepted

/-- A tuple with a named element, read as an object, in an array of either kind of keys. -/
theorem array_accepts_of_tuple :
    let fields : List (Field Ty) := [⟨"0", false, .integer⟩, ⟨"b", true, .list (.arrayKey .any)⟩]
    let value : Ty := .union [.integer, .array .any (.union [.null, .string, .integer])]
    let document : Json := .object [("b", .array [.string "x", .number (decimalInt 2)]),
      ("0", .number (decimalInt 7))]
    let text : Bytes := document.write
    let v : Value := .map .text [(.text "b", .list .general [.text "x", .int .int64 2]),
      (.text "0", .int .int64 7)]
    ((Ty.shape fields).Regular ∧ (Ty.array .any value).Regular ∧
      (∀ f ∈ fields, f.type.mixedFree = true) ∧ (Ty.shape fields).fits (.array .any value) = true ∧
      text.length ≤ 0x8000000000000000 ∧ Value.readJson text = .ok v ∧
      (Ty.array .any value).every (keyedBy KeyKind.strings) = true ∧
      (Ty.shape fields).accepts v = true) ∧ (Ty.array .any value).accepts v = true := by
  intro fields value document text v
  have every : document.Every (fun s => Utf8.valid s = true) Json.Numeral :=
    ⟨⟨rfl, ⟨rfl, Json.numeral_decimalInt 2, trivial⟩⟩, ⟨rfl, Json.numeral_decimalInt 7⟩, trivial⟩
  have regular : (Ty.shape fields).Regular := ⟨by decide, by decide⟩
  have regular' : (Ty.array .any value).Regular := ⟨by decide, by decide⟩
  have mixedFree : ∀ f ∈ fields, f.type.mixedFree = true := by decide
  have fits : (Ty.shape fields).fits (.array .any value) = true := by decide
  have hosted : text.length ≤ 0x8000000000000000 := by decide
  have read : Value.readJson text = .ok v := Value.readJson_write (j := document) every
  have keyed : (Ty.array .any value).every (keyedBy KeyKind.strings) = true := by decide
  have accepted : (Ty.shape fields).accepts v = true := by decide
  exact ⟨⟨regular, regular', mixedFree, fits, hosted, read, keyed, accepted⟩,
    array_accepts_of_shape_fits regular regular' mixedFree fits hosted read (Or.inl keyed) accepted⟩

/-- Without the proviso it is not: the shape has the element 1 and fits the array of integer
keys, but the key that the document has is a text. -/
theorem shape_fits_array_without_inclusion :
    let s : Ty := .shape [⟨"1", false, .integer⟩]
    let t : Ty := .array .integer .integer
    ∃ v, Value.readJson "\x7b\"1\":5\x7d" = .ok v ∧ s.Regular ∧ t.Regular ∧ s.mixedFree = true ∧
      s.fits t = true ∧ s.accepts v = true ∧ t.accepts v = false := by
  intro s t
  exact ⟨.map .text [(.text "1", .int .int64 5)], by cbv, ⟨by decide, by decide⟩,
    ⟨by decide, by decide⟩, by decide, by decide, by decide, by decide⟩

end Ty

end Conform
