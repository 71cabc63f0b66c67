import Conform.Proofs.Ty.Words
import Conform.Proofs.Utf8

/-! Well-formed text in types. Everything that a rendering adds to the literals
and keys of a type is ASCII, so either rendering is well-formed UTF-8 exactly
when all literals and keys are. -/
namespace Conform

open Utf8 (valid valid_append_ascii valid_cons_ascii valid_ascii valid_ascii_append valid_join)

theorem ascii_of_word {b : UInt8} (word : isWordOctet b = true) : b < 0x80 :=
  octet_cases (P := fun b => isWordOctet b = true → b < 0x80) (by decide) b word

theorem valid_words {text : Bytes} (words : text.all isWordOctet = true) : valid text = true :=
  valid_ascii <| Utf8.isAscii_iff.mpr fun b member => ascii_of_word (List.all_eq_true.mp words b member)

/-- Escaping adds ASCII octets in front of others, which changes no character. -/
theorem valid_quoteWith {quote : UInt8} (ascii : quote < 0x80) (text : Bytes) :
    valid (quoteWith quote text) = valid text := by
  have escaped : ∀ before : Bytes, valid (before ++ text.flatMap fun b =>
      if b = quote ∨ b = 0x5C then [0x5C, b] else [b]) = valid (before ++ text) := by
    induction text with
    | nil => exact fun before => rfl
    | cons b text ih =>
      intro before
      rw [List.flatMap_cons]
      split
      · rename_i special
        have small : b < 0x80 := by
          rcases special with rfl | rfl
          · exact ascii
          · decide
        have rest := ih []
        rw [List.nil_append, List.nil_append] at rest
        rw [List.cons_append, List.cons_append, List.nil_append,
          valid_append_ascii (by decide), valid_cons_ascii small, rest,
          valid_append_ascii small]
      · simpa using ih (before ++ [b])
  rw [quoteWith, valid_append_ascii ascii, valid_cons_ascii ascii]
  have inside := escaped []
  rw [List.nil_append, List.nil_append] at inside
  rw [inside, show valid [] = true from rfl, Bool.and_true]

theorem valid_quote_render (quote : Quote) (text : Bytes) :
    valid (quote.render text) = valid text := by
  cases quote with
  | none => rfl
  | single => exact valid_quoteWith (by decide) text
  | double => exact valid_quoteWith (by decide) text

namespace Ty

/-- The literal or the keys of one type, its parts aside, are well-formed. -/
def legibleAlone : Ty → Bool
  | .stringLit value _ => valid value
  | .shape fields => fields.all fun f => valid f.key
  | _ => true

/-- Every literal and key, at any depth, is well-formed. -/
def legible (t : Ty) : Bool := t.every legibleAlone

theorem legible_array (key : KeyKind) (value : Ty) :
    (Ty.array key value).legible = value.legible := rfl

theorem legible_list (value : Ty) : (Ty.list value).legible = value.legible := rfl

theorem legible_union_iff (members : List Ty) :
    (Ty.union members).legible = true ↔ ∀ m ∈ members, m.legible = true :=
  everyMember_iff legibleAlone members

theorem legible_shape_iff (fields : List (Field Ty)) : (Ty.shape fields).legible = true ↔
    ∀ f ∈ fields, valid f.key = true ∧ f.type.legible = true := by
  simp only [legible, every, legibleAlone, Bool.and_eq_true, List.all_eq_true, everyField_iff,
    ← forall₂_and]

theorem valid_renderField (key : Bytes) (optional : Bool) (type : Bytes) :
    valid (renderField key optional type) = (valid key && valid type) := by
  have keys : valid (if isBareKey key then key else quoteWith 0x27 key) = valid key := by
    split
    · rfl
    · exact valid_quoteWith (by decide) key
  have colon : utf8 ": " = [0x3A, 0x20] := rfl
  rw [renderField, colon]
  generalize (if isBareKey key then key else quoteWith 0x27 key) = form at keys ⊢
  cases optional with
  | true =>
    simp only [if_true, List.append_assoc, List.cons_append, List.nil_append]
    rw [valid_append_ascii (by decide), keys, valid_cons_ascii (by decide),
      valid_cons_ascii (by decide)]
  | false =>
    simp only [Bool.false_eq_true, if_false, List.append_nil, List.append_assoc, List.cons_append,
      List.nil_append]
    rw [valid_append_ascii (by decide), keys, valid_cons_ascii (by decide)]

/-- A text between ASCII words. -/
theorem valid_between {word : Bytes} (ascii : Utf8.isAscii word = true) (inside : Bytes)
    {close : UInt8} (small : close < 0x80) : valid (word ++ (inside ++ [close])) = valid inside := by
  rw [valid_ascii_append ascii, valid_append_ascii small, show valid [] = true from rfl, Bool.and_true]

theorem valid_mixed {value : Ty} (style : Style) (mixed : value.isMixed = true) :
    valid (value.render style) = true := by
  cases value <;> simp [isMixed] at mixed
  exact valid_words rfl

theorem valid_array (style : Style) (key : KeyKind) (value : Ty) :
    valid ((Ty.array key value).render style) = valid (value.render style) := by
  have close : utf8 ">" = [0x3E] := rfl
  cases key with
  | any =>
    simp only [render, renderArray]
    split
    · rename_i mixed
      rw [valid_mixed style mixed]
      exact valid_words rfl
    · rw [List.append_assoc, close]
      exact valid_between (by decide) _ (by decide)
  | integer =>
    rw [render, renderArray, List.append_assoc, close]
    · exact valid_between (by decide) _ (by decide)
    · exact KeyKind.noConfusion
  | string =>
    rw [render, renderArray, List.append_assoc, close]
    · exact valid_between (by decide) _ (by decide)
    · exact KeyKind.noConfusion

theorem valid_list (style : Style) (value : Ty) :
    valid ((Ty.list value).render style) = valid (value.render style) := by
  rw [render]
  split
  · rename_i mixed
    rw [valid_mixed style mixed]
    exact valid_words rfl
  · rw [List.append_assoc]
    exact valid_between (by decide) _ (by decide)

theorem valid_shape (style : Style) (fields : List (Field Ty)) :
    valid ((Ty.shape fields).render style) =
      fields.all fun f => valid f.key && valid (f.type.render style) := by
  have close : utf8 "\x7d" = [0x7D] := rfl
  rw [render, List.append_assoc, close, valid_between (by decide) _ (by decide)]
  rw [valid_join (by decide) (by decide), renderFields_eq, List.all_map]
  simp only [Function.comp_def, valid_renderField]

/-- Either rendering is well-formed exactly when the literals and the keys are. -/
theorem valid_render (style : Style) {t : Ty} (known : t.known = true) :
    valid (t.render style) = t.legible := by
  rw [legible]
  induction t using Ty.induct with
  | boolLit value => cases value <;> exact valid_words rfl
  | integerLit value => exact valid_words (decimalInt_words _)
  | floatLit value => exact valid_words (literalText_words value)
  | stringLit value quote =>
    cases style with
    | written => exact valid_quote_render quote value
    | signature => exact valid_quoteWith (by decide) value
  | arrayKey kind => cases kind <;> cases style <;> exact valid_ascii (by decide)
  | union members ih =>
    rw [render, valid_join (by decide) (by decide), renderAll_eq, Bool.eq_iff_iff]
    simp only [every, Bool.and_eq_true, everyMember_iff, List.all_map, List.all_eq_true,
      Function.comp_apply, legibleAlone, true_and]
    exact forall₂_congr fun m member => by rw [ih m member (every_member known member)]
  | array key value ih =>
    simp only [valid_array, ih (every_arrayValue known), every, legibleAlone, Bool.true_and]
  | list value ih =>
    simp only [valid_list, ih (every_listValue known), every, legibleAlone, Bool.true_and]
  | shape fields ih =>
    rw [valid_shape, Bool.eq_iff_iff]
    simp only [every, legibleAlone, Bool.and_eq_true, everyField_iff, List.all_eq_true,
      ← forall₂_and]
    exact forall₂_congr fun f member => by rw [ih f member (every_field known member)]
  | unknown name accepted => exact absurd known (not_known_unknown name accepted)
  | _ => exact valid_words rfl

end Ty

end Conform
