import Conform.Proofs.Ty.Cast
import Conform.Proofs.Ty.CastArray
import Conform.Proofs.Ty.Legible
import Conform.Proofs.Ty.Returning
import Conform.Proofs.Value.Sending

/-! Conversion and sending. What a conversion gives can be sent as a JSON text, and
converting what comes back gives it again: integer keys come back as texts and
are read as integers once more, keys that stayed texts stay texts. A union could
choose another member the second time, so there are none here. -/
namespace Conform

open Value (Resent Same Renamed Settled Received)

theorem Value.Settled.cast_asText {kind : KeyKind} {k : Value} (settled : Settled kind k) :
    kind.cast k.asText = .ok k := by
  rw [KeyKind.cast_eq_ok_iff]
  cases settled with
  | integer n integers =>
    refine Or.inl ⟨integers, n, ?_, rfl⟩
    have read := castInteger_decimalInt (inInt64_toInt n)
    rwa [Int64.ofInt_toInt] at read
  | text s strings left => exact Or.inr ⟨left, strings, s, rfl, rfl⟩

theorem Value.Settled.cast_self {kind : KeyKind} {k : Value} (settled : Settled kind k) :
    kind.cast k = .ok k := by
  cases settled with
  | integer n integers =>
    rw [KeyKind.cast_eq_ok_iff]
    exact Or.inl ⟨integers, n, castInteger_ofInt64 n, rfl⟩
  | text s strings left => exact (Settled.text s strings left).cast_asText

theorem Value.Settled.portable {kind : KeyKind} {k : Value} (settled : Settled kind k)
    (legible : ∀ s, k = .text s → Utf8.valid s = true) : k.portable = true := by
  cases settled with
  | integer n integers => simp [ofInt64, Value.portable, every, portablePart, inInt64_toInt]
  | text s strings left => exact legible s rfl

theorem Value.Settled.isHostKey {kind : KeyKind} {k : Value} (settled : Settled kind k) :
    k.isHostKey = true := by
  cases settled with
  | integer n _ => rfl
  | text s _ _ => rfl

/-- What a conversion gave can be sent, and whatever comes back is converted to the same. -/
structure Stable (convert : Conversion) (w : Value) : Prop where
  portable : w.portable = true
  again : Returns convert Resent w

section Stable

theorem stable_null {convert : Conversion} (fixed : convert .null = .ok .null) :
    Stable convert .null where
  portable := rfl
  again := by
    rintro _ ⟨⟩
    exact ⟨_, fixed, .refl _⟩

theorem stable_bool {convert : Conversion} {b : Bool} (fixed : convert (.bool b) = .ok (.bool b)) :
    Stable convert (.bool b) where
  portable := rfl
  again := by
    rintro _ ⟨⟩
    exact ⟨_, fixed, .refl _⟩

/-- A settled key is stable under whatever leaves it alone. -/
theorem stable_settled {convert : Conversion} {kind : KeyKind} {k : Value} (settled : Settled kind k)
    (legible : ∀ s, k = .text s → Utf8.valid s = true) (fixed : convert k = .ok k) :
    Stable convert k where
  portable := settled.portable legible
  again := by
    intro v' resent
    have same : v' = k := by
      cases settled with
      | integer n _ => rw [Value.ofInt64] at resent ⊢; cases resent; rfl
      | text s _ _ => cases resent; rfl
    rw [same]
    exact ⟨k, fixed, .refl k⟩

theorem stable_list {expected : Bytes} {element : Conversion} {items : List Value}
    (stable : ∀ w ∈ items, Stable element w) :
    Stable (castList expected element) (.list .general items) where
  portable := (Value.portable_list_iff _ items).mpr ⟨rfl, fun w member => (stable w member).portable⟩
  again := by
    intro v' resent
    cases resent with
    | list each => exact castList_returns .general (fun w member => (stable w member).again) each

theorem stable_array {expected : Bytes} {kind : KeyKind} {value : Conversion}
    {pairs : List (Value × Value)} (keys : ∀ p ∈ pairs, Settled kind p.1)
    (legible : ∀ p ∈ pairs, p.1.portable = true) (distinct : (Value.pairTexts pairs).Nodup)
    (stable : ∀ p ∈ pairs, Stable value p.2) :
    Stable (castArray expected kind.cast value) (.map .general pairs) where
  portable := by
    apply (Value.portable_map_iff _ pairs).mpr
    refine ⟨Or.inr rfl, fun p member => (keys p member).isHostKey, distinct, ?_⟩
    intro p member
    exact ⟨legible p member, (stable p member).portable⟩
  again := by
    intro v' resent
    cases resent with
    | map each shuffle =>
      exact castArray_returns Value.keyText_asText .text
        (fun p member => (keys p member).cast_asText) distinct
        (fun p member => (stable p member).again) each shuffle

theorem stable_shape {expected : Bytes} {fields : List (Field Conversion)} {entries : List Entry}
    {pairs : List (Value × Value)} (distinct : (fields.map (·.key)).Nodup)
    (taken : Taken entries fields pairs) (legible : ∀ f ∈ fields, Utf8.valid f.key = true)
    (stable : ∀ p ∈ pairs, ∀ f ∈ fields, p.1 = .text f.key → Stable f.type p.2) :
    Stable (castShape expected fields) (.map .text pairs) where
  portable := by
    apply (Value.portable_map_iff _ pairs).mpr
    refine ⟨Or.inl rfl, ?_, distinct.sublist taken.texts, ?_⟩
    · intro p member
      obtain ⟨f, _, key, _⟩ := taken.pair member
      rw [key]
      rfl
    · intro p member
      obtain ⟨f, inside, key, _⟩ := taken.pair member
      refine ⟨?_, (stable p member f inside key).portable⟩
      rw [key]
      exact legible f inside
  again := by
    intro v' resent
    cases resent with
    | map each shuffle =>
      exact castShape_returns Value.keyText_asText .text distinct taken
        (fun p member f inside key => (stable p member f inside key).again) each shuffle

end Stable

namespace Ty

/-- No part is a union. -/
def unionFree (t : Ty) : Bool := t.every fun
  | .union _ => false
  | _ => true

/-- No part is the type of floats or one of them. -/
def floatFree (t : Ty) : Bool := t.every fun
  | .float => false
  | .floatLit _ => false
  | _ => true

/-- Whatever a received value is converted to is stable. -/
def Sends (t : Ty) : Prop :=
  ∀ {bound : Nat} {v w : Value}, Received bound v → t.cast v = .ok w → Stable t.cast w

theorem stable_integer {convert : Conversion} {n : Int64}
    (fixed : convert (.ofInt64 n) = .ok (.ofInt64 n)) : Stable convert (.ofInt64 n) := by
  have settled : Settled .integer (.ofInt64 n) := .integer n rfl
  refine stable_settled settled ?_ fixed
  intro s same
  contradiction

theorem stable_text {convert : Conversion} {bound : Nat} {v : Value} (received : Received bound v)
    {s : Bytes} (text : v.castText = some s) (fixed : convert (.text s) = .ok (.text s)) :
    Stable convert (.text s) := by
  have converted : KeyKind.string.cast v = .ok (.text s) := by
    rw [KeyKind.cast_eq_ok_iff]
    exact Or.inr ⟨nofun, rfl, s, text, rfl⟩
  have settled : Settled .string (.text s) := .text s rfl nofun
  have host := received.isHostKey_of_cast converted
  exact stable_settled settled (Value.legible_of_cast host received.legibleText converted) fixed

theorem sends_arrayKey (kind : KeyKind) : (Ty.arrayKey kind).Sends := by
  intro bound v w received result
  rw [cast] at result
  have host := received.isHostKey_of_cast result
  have settled := Value.settled_of_cast host result
  refine stable_settled settled (Value.legible_of_cast host received.legibleText result) ?_
  rw [cast]
  exact settled.cast_self

theorem sends_list {value : Ty} (inner : value.Sends) : (Ty.list value).Sends := by
  have unfolded : (Ty.list value).cast = castList (Ty.list value).text value.cast := by
    funext v
    rw [cast]
  intro bound v w received result
  rw [unfolded] at result ⊢
  obtain ⟨kind, items, converted, rfl, rfl, elements⟩ := castList_eq_ok result
  apply stable_list
  intro w member
  obtain ⟨v, inside, read⟩ := exists_left_of_forall₂ elements member
  exact inner (received.item inside) read

theorem sends_array (key : KeyKind) {value : Ty} (inner : value.Sends) :
    (Ty.array key value).Sends := by
  have unfolded : (Ty.array key value).cast =
      castArray (Ty.array key value).text key.cast value.cast := by
    funext v
    rw [cast]
  intro bound v w received result
  rw [unfolded] at result ⊢
  obtain ⟨entries, pairs, contents, rfl, converted⟩ := castArray_eq_ok result
  have hosts : ∀ e ∈ entries, e.key.isHostKey = true := by
    intro e member
    exact Value.decoded_hostKey received.decoded contents member
  have tidy := castEntries_tidy hosts converted
  refine stable_array tidy.keys ?_ tidy.distinct ?_
  · intro p member
    obtain ⟨e, inside, keyed, _⟩ := tidy.origin p member
    apply (tidy.keys p member).portable
    refine Value.legible_of_cast (hosts e inside) ?_ keyed
    exact fun s text => received.legibleKey contents inside text
  · intro p member
    obtain ⟨e, inside, _, valued⟩ := tidy.origin p member
    exact inner (received.entry contents inside) valued

theorem sends_shape {fields : List (Field Ty)} (distinct : (fields.map (·.key)).Nodup)
    (legible : ∀ f ∈ fields, Utf8.valid f.key = true) (inner : ∀ f ∈ fields, f.type.Sends) :
    (Ty.shape fields).Sends := by
  have unfolded : (Ty.shape fields).cast = castShape (Ty.shape fields).text (conversions fields) :=
    funext (cast_shape_eq fields)
  intro bound v w received result
  rw [unfolded] at result ⊢
  obtain ⟨entries, pairs, contents, rfl, converted⟩ := castShape_eq_ok result
  have taken := taken_of_castFields (conversions_unique distinct) converted
  refine stable_shape (conversions_unique distinct) taken ?_ ?_
  · intro c member
    obtain ⟨f, inside, rfl⟩ := mem_conversions.mp member
    exact legible f inside
  · intro p member c declared key
    obtain ⟨f, there, rfl⟩ := mem_conversions.mp declared
    obtain ⟨e, inside, valued⟩ := taken.origin (conversions_unique distinct) member declared key
    exact inner f there (received.entry contents inside) valued

/-- Conversion to a type without unions and floats is stable. -/
theorem Regular.sends {t : Ty} (regular : t.Regular) (unionFree : t.unionFree = true)
    (floatFree : t.floatFree = true) (legible : t.legible = true) : t.Sends := by
  induction t using Ty.induct with
  | mixed =>
    intro bound v w received result
    obtain rfl := Except.ok.inj result
    refine ⟨received.portable, ?_⟩
    intro v' resent
    exact ⟨v', rfl, resent.same received.decoded⟩
  | null =>
    intro bound v w _ result
    obtain ⟨-, rfl⟩ := cast_null_eq_ok_iff.mp result
    exact stable_null rfl
  | bool =>
    intro bound v w _ result
    obtain ⟨b, -, rfl⟩ := cast_bool_eq_ok_iff.mp result
    exact stable_bool rfl
  | integer =>
    intro bound v w _ result
    obtain ⟨n, -, rfl⟩ := cast_integer_eq_ok_iff.mp result
    exact stable_integer (cast_integer_eq_ok_iff.mpr ⟨n, Value.castInteger_ofInt64 n, rfl⟩)
  | float => contradiction
  | string =>
    intro bound v w received result
    obtain ⟨s, text, rfl⟩ := cast_string_eq_ok_iff.mp result
    exact stable_text received text rfl
  | boolLit value =>
    intro bound v w _ result
    obtain ⟨-, rfl⟩ := cast_boolLit_eq_ok_iff.mp result
    exact stable_bool (cast_boolLit_eq_ok_iff.mpr ⟨rfl, rfl⟩)
  | integerLit value =>
    intro bound v w _ result
    obtain ⟨-, rfl⟩ := cast_integerLit_eq_ok_iff.mp result
    exact stable_integer (cast_integerLit_eq_ok_iff.mpr ⟨Value.castInteger_ofInt64 value, rfl⟩)
  | floatLit value => contradiction
  | stringLit value quote =>
    intro bound v w received result
    obtain ⟨text, rfl⟩ := cast_stringLit_eq_ok_iff.mp result
    exact stable_text received text (cast_stringLit_eq_ok_iff.mpr ⟨rfl, rfl⟩)
  | arrayKey kind => exact sends_arrayKey kind
  | union members => contradiction
  | array key value ih =>
    apply sends_array
    exact ih regular.arrayValue (every_arrayValue unionFree) (every_arrayValue floatFree)
      (every_arrayValue legible)
  | list value ih =>
    apply sends_list
    exact ih regular.listValue (every_listValue unionFree) (every_listValue floatFree)
      (every_listValue legible)
  | shape fields ih =>
    refine sends_shape regular.keys_nodup ?_ ?_
    · exact fun f member => List.all_eq_true.mp (every_self legible) f member
    · intro f member
      exact ih f member (regular.field member) (every_field unionFree member)
        (every_field floatFree member) (every_field legible member)
  | unknown name accepted => exact absurd regular (not_regular_unknown name accepted)

/-- What a conversion of a document gives survives being sent: it has a JSON text, and
converting what is read from that text gives the same value. -/
theorem cast_readJson_jsonText {t : Ty} (regular : t.Regular) (unionFree : t.unionFree = true)
    (floatFree : t.floatFree = true) (legible : t.legible = true) {text : Bytes} {v w : Value}
    (read : Value.readJson text = .ok v) (floatFree' : v.floatFree = true)
    (legible' : v.legible = true) (result : t.cast v = .ok w) :
    ∃ sent v' w', w.jsonText = .ok sent ∧ Value.readJson sent = .ok v' ∧ t.cast v' = .ok w' ∧
      w.Same w' := by
  have received : Received text.length v := ⟨Value.readJson_decoded read, floatFree', legible'⟩
  have stable := regular.sends unionFree floatFree legible received result
  obtain ⟨sent, v', encoded, returned, resent⟩ := Value.readJson_jsonText stable.portable
  obtain ⟨w', converted, same⟩ := stable.again v' resent
  exact ⟨sent, v', w', encoded, returned, converted, same⟩

/-- Keys that become integers, indices that become keys, and an object that is left as it is. -/
theorem cast_readJson_jsonText_keys :
    let t : Ty := .shape [⟨"a", false, .array .any (.list .string)⟩, ⟨"b", true, .mixed⟩,
      ⟨"c", true, .array .integer (.arrayKey .any)⟩, ⟨"d", true, .null⟩]
    let document : Json := .object
      [("c", .array [.number (decimalInt 5), .string "q"]),
        ("a", .object [("k", .array []), ("+7", .array [.string "é", .number (decimalInt (-1))])]),
        ("b", .object [("z", .null), ("1", .bool true)])]
    let v : Value := .map .text
      [(.text "c", .list .general [.int .int64 5, .text "q"]),
        (.text "a", .map .text [(.text "k", .list .general []),
          (.text "+7", .list .general [.text "é", .int .int64 (-1)])]),
        (.text "b", .map .text [(.text "z", .null), (.text "1", .bool true)])]
    let w : Value := .map .text
      [(.text "a", .map .general [(.int .int64 7, .list .general [.text "é", .text "-1"]),
          (.text "k", .list .general [])]),
        (.text "b", .map .text [(.text "z", .null), (.text "1", .bool true)]),
        (.text "c", .map .general [(.int .int64 0, .int .int64 5), (.int .int64 1, .text "q")])]
    (t.Regular ∧ t.unionFree = true ∧ t.floatFree = true ∧ t.legible = true ∧
      Value.readJson document.write = .ok v ∧ v.floatFree = true ∧ v.legible = true ∧
      t.cast v = .ok w) ∧
    ∃ sent v' w', w.jsonText = .ok sent ∧ Value.readJson sent = .ok v' ∧ t.cast v' = .ok w' ∧
      w.Same w' := by
  intro t document v w
  have regular : t.Regular := ⟨by decide, by decide⟩
  have unionFree : t.unionFree = true := rfl
  have floatFree : t.floatFree = true := rfl
  have legible : t.legible = true := rfl
  have every : document.Every (fun s => Utf8.valid s = true) Json.Numeral := by
    refine ⟨⟨rfl, ?_⟩, ⟨rfl, ?_⟩, ⟨rfl, ?_⟩, trivial⟩
    · exact ⟨Json.numeral_decimalInt 5, rfl, trivial⟩
    · exact ⟨⟨rfl, trivial⟩, ⟨rfl, rfl, Json.numeral_decimalInt (-1), trivial⟩, trivial⟩
    · exact ⟨⟨rfl, trivial⟩, ⟨rfl, trivial⟩, trivial⟩
  have read : Value.readJson document.write = .ok v := Value.readJson_write every
  have floatFree' : v.floatFree = true := rfl
  have legible' : v.legible = true := rfl
  have result : t.cast v = .ok w := rfl
  exact ⟨⟨regular, unionFree, floatFree, legible, read, floatFree', legible', result⟩,
    cast_readJson_jsonText regular unionFree floatFree legible read floatFree' legible' result⟩

end Ty

end Conform
