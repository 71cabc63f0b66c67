import Conform.Proofs.Ty.CastParts
import Conform.Proofs.Ty.Fits

/-! Conversion and membership. What a conversion gives belongs to the type, as
long as the keys of maps are integers and texts; and whatever belongs to the type
can be converted. The two directions share what a conversion of entries or of
declared fields comes to. -/
namespace Conform

namespace Ty

attribute [local simp] accepts cast

theorem fieldCasts_eq (fields : List (Field Ty)) :
    fieldCasts fields = fields.map fun f => ⟨f.key, f.optional, f.type.cast⟩ := by
  induction fields with
  | nil => rfl
  | cons f rest ih => rw [fieldCasts, ih, List.map_cons]

/-- The conversions of the fields of a shape. -/
def conversions (fields : List (Field Ty)) : List (Field Conversion) :=
  fields.map fun f => ⟨f.key, f.optional, f.type.cast⟩

theorem cast_shape_eq (fields : List (Field Ty)) (v : Value) :
    (Ty.shape fields).cast v = castShape (Ty.shape fields).text (conversions fields) v := by
  rw [cast, fieldCasts_eq, conversions]

theorem conversions_unique {fields : List (Field Ty)} (unique : (fields.map (·.key)).Nodup) :
    ((conversions fields).map (·.key)).Nodup := by
  rwa [conversions, List.map_map]

theorem mem_conversions {fields : List (Field Ty)} {c : Field Conversion} :
    c ∈ conversions fields ↔ ∃ f ∈ fields, ⟨f.key, f.optional, f.type.cast⟩ = c :=
  List.mem_map

theorem declared_conversions {fields : List (Field Ty)} {entries : List Entry}
    (declared : ∀ e ∈ entries, ∃ f ∈ fields, f.key = e.key.keyText) :
    ∀ e ∈ entries, ∃ c ∈ conversions fields, c.key = e.key.keyText := by
  intro e member
  obtain ⟨f, inside, same⟩ := declared e member
  exact ⟨_, mem_conversions.mpr ⟨f, inside, rfl⟩, same⟩

/-! What a scalar type converts, and to what. -/

section Scalars

variable {v w : Value}

theorem cast_null_eq_ok_iff : Ty.null.cast v = .ok w ↔ v.isNull = true ∧ w = .null := by
  rw [cast]
  cases v.isNull <;> simp [eq_comm]

theorem cast_bool_eq_ok_iff : Ty.bool.cast v = .ok w ↔ ∃ b, v.castBool = some b ∧ w = .bool b := by
  rw [cast]
  cases v.castBool <;> simp [eq_comm]

theorem cast_integer_eq_ok_iff :
    Ty.integer.cast v = .ok w ↔ ∃ n, v.castInteger = some n ∧ w = .ofInt64 n := by
  rw [cast]
  cases v.castInteger <;> simp [eq_comm]

theorem cast_float_eq_ok_iff :
    Ty.float.cast v = .ok w ↔ ∃ x, v.castDouble = some x ∧ w = .double x := by
  rw [cast]
  cases v.castDouble <;> simp [eq_comm]

theorem cast_string_eq_ok_iff :
    Ty.string.cast v = .ok w ↔ ∃ s, v.castText = some s ∧ w = .text s := by
  rw [cast]
  cases v.castText <;> simp [eq_comm]

theorem cast_boolLit_eq_ok_iff {value : Bool} :
    (Ty.boolLit value).cast v = .ok w ↔ v.castBool = some value ∧ w = .bool value := by
  rw [cast]
  cases v.castBool with
  | none => simp
  | some b => by_cases same : b = value <;> simp [same, @eq_comm _ w]

theorem cast_integerLit_eq_ok_iff {value : Int64} :
    (Ty.integerLit value).cast v = .ok w ↔ v.castInteger = some value ∧ w = .ofInt64 value := by
  rw [cast]
  cases v.castInteger with
  | none => simp
  | some n => by_cases same : n = value <;> simp [same, @eq_comm _ w]

theorem cast_floatLit_eq_ok_iff {value : Double} : (Ty.floatLit value).cast v = .ok w ↔
    ∃ x, v.castDouble = some x ∧ x.equal value = true ∧ w = .double x := by
  rw [cast]
  cases v.castDouble with
  | none => simp
  | some x => by_cases same : x.equal value = true <;> simp [same, @eq_comm _ w]

theorem cast_stringLit_eq_ok_iff {value : Bytes} {quote : Quote} :
    (Ty.stringLit value quote).cast v = .ok w ↔ v.castText = some value ∧ w = .text value := by
  rw [cast]
  cases v.castText with
  | none => simp
  | some s => by_cases same : s = value <;> simp [same, @eq_comm _ w]

theorem cast_unknown_eq_ok_iff {name : Bytes} {accepted : Bool} :
    (Ty.unknown name accepted).cast v = .ok w ↔ accepted = true ∧ w = v := by
  rw [cast]
  cases accepted <;> simp [eq_comm]

end Scalars

theorem castFirst_eq_ok {members : List Ty} {v w : Value} (result : castFirst members v = .ok w) :
    ∃ m ∈ members, m.cast v = .ok w := by
  induction members with
  | nil => contradiction
  | cons t rest ih =>
    rw [castFirst] at result
    split at result
    · rename_i converted
      obtain rfl := Except.ok.inj result
      exact ⟨t, by simp, converted⟩
    · split at result
      · rename_i found
        obtain ⟨m, member, converted⟩ := ih (found.trans result)
        exact ⟨m, by simp [member], converted⟩
      · contradiction

theorem cast_union_eq_ok {members : List Ty} {v w : Value}
    (result : (Ty.union members).cast v = .ok w) : ∃ m ∈ members, m.cast v = .ok w := by
  rw [cast] at result
  split at result
  · rename_i found
    obtain rfl := Except.ok.inj result
    exact castFirst_eq_ok found
  · contradiction

theorem castFirst_succeeds {members : List Ty} {v : Value}
    (some : ∃ m ∈ members, ∃ w, m.cast v = .ok w) : ∃ w, castFirst members v = .ok w := by
  induction members with
  | nil => simp at some
  | cons t rest ih =>
    rw [castFirst]
    cases converted : t.cast v with
    | ok w => exact ⟨w, rfl⟩
    | error e =>
      obtain ⟨m, member, w, result⟩ := some
      rcases List.mem_cons.mp member with rfl | member
      · rw [converted] at result
        contradiction
      · obtain ⟨w, found⟩ := ih ⟨m, member, w, result⟩
        exact ⟨w, by simp only [found]⟩

theorem anyCanCast_iff (members : List Ty) (v : Value) :
    anyCanCast members v = true ↔ ∃ m ∈ members, m.canCast v = true ∨ m.accepts v = true := by
  induction members with
  | nil => simp [anyCanCast]
  | cons t rest ih => simp [anyCanCast, ih]

/-- Conversion to the type gives members of it. -/
def CastsInto (t : Ty) : Prop :=
  ∀ v w : Value, v.everyKey Value.isHostKey = true → t.cast v = .ok w → t.accepts w = true

theorem castsInto_array (key : KeyKind) {value : Ty} (inner : value.CastsInto) :
    (Ty.array key value).CastsInto := by
  intro v w keys result
  rw [cast] at result
  obtain ⟨entries, pairs, contents, rfl, converted⟩ := castArray_eq_ok result
  have inside : ∀ e ∈ entries, e.key.isHostKey = true ∧
      e.value.everyKey Value.isHostKey = true := by
    intro e member
    exact Value.everyKey_entry (fun _ => rfl) keys contents member
  have tidy := castEntries_tidy (fun e member => (inside e member).1) converted
  obtain ⟨sorted, contents, _, mem⟩ := Value.entries?_map .general tidy.distinct
  rw [accepts, acceptsArray_iff]
  refine ⟨sorted, contents, ?_⟩
  intro e member
  have there := (mem e).mp member
  obtain ⟨x, given, _, valued⟩ := tidy.origin _ there
  exact ⟨(tidy.keys _ there).accepts, inner x.value e.value (inside x given).2 valued⟩

theorem castsInto_list {value : Ty} (inner : value.CastsInto) : (Ty.list value).CastsInto := by
  intro v w keys result
  rw [cast] at result
  obtain ⟨kind, items, converted, rfl, rfl, elements⟩ := castList_eq_ok result
  rw [accepts, acceptsList_iff]
  refine ⟨.general, converted, rfl, ?_⟩
  intro y member
  obtain ⟨x, inside, read⟩ := exists_left_of_forall₂ elements member
  exact inner x y ((Value.everyKeyItems_iff items).mp keys x inside) read

theorem castsInto_shape {fields : List (Field Ty)} (distinct : (fields.map (·.key)).Nodup)
    (inner : ∀ f ∈ fields, f.type.CastsInto) : (Ty.shape fields).CastsInto := by
  intro v w keys result
  rw [cast_shape_eq] at result
  obtain ⟨entries, pairs, contents, rfl, converted⟩ := castShape_eq_ok result
  have unique := conversions_unique distinct
  have taken := taken_of_castFields unique converted
  have texts : (Value.pairTexts pairs).Nodup := unique.sublist taken.texts
  obtain ⟨sorted, contents', perm, mem⟩ := Value.entries?_map .text texts
  rw [accepts_shape_iff distinct]
  refine ⟨sorted, contents', perm.nodup_iff.mpr texts, ?_, ?_⟩
  · intro e member
    obtain ⟨g, inside, key, x, there, read⟩ := taken.pair ((mem e).mp member)
    obtain ⟨f, declared, rfl⟩ := mem_conversions.mp inside
    have keyed := (Value.everyKey_entry (fun _ => rfl) keys contents there).2
    have same : f.key = e.key.keyText := (congrArg Value.keyText key).symm
    exact ⟨f, declared, same, inner f declared x.value e.value keyed read⟩
  · intro f declared
    have required := taken.required (mem_conversions.mpr ⟨f, declared, rfl⟩)
    exact required.imp_right fun there => perm.mem_iff.mpr there

theorem castsInto_arrayKey (kind : KeyKind) : (Ty.arrayKey kind).CastsInto := by
  intro v w _ result
  rcases (kind.cast_eq_ok_iff v w).mp result with ⟨integers, n, _, rfl⟩ | ⟨_, strings, s, _, rfl⟩
  · simp [KeyKind.accepts, integers, Value.isInteger, Value.toInteger?_ofInt64]
  · simp [KeyKind.accepts, strings, Value.isText]

theorem castsInto_union {members : List Ty} (inner : ∀ m ∈ members, m.CastsInto) :
    (Ty.union members).CastsInto := by
  intro v w keys result
  obtain ⟨m, member, converted⟩ := cast_union_eq_ok result
  rw [accepts, anyAccepts_iff]
  exact ⟨m, member, inner m member v w keys converted⟩

/-- Conversion to a regular type gives members of it. The scalar cases read the
result off the conversion, the others come down to the parts. -/
theorem Regular.castsInto {t : Ty} (regular : t.Regular) : t.CastsInto := by
  induction t using Ty.induct with
  | mixed => exact fun _ _ _ _ => rfl
  | null =>
    intro v w _ result
    obtain ⟨-, rfl⟩ := cast_null_eq_ok_iff.mp result
    rfl
  | bool =>
    intro v w _ result
    obtain ⟨b, -, rfl⟩ := cast_bool_eq_ok_iff.mp result
    rfl
  | integer =>
    intro v w _ result
    obtain ⟨n, -, rfl⟩ := cast_integer_eq_ok_iff.mp result
    simp [Value.isInteger, Value.toInteger?_ofInt64]
  | float =>
    intro v w _ result
    obtain ⟨x, -, rfl⟩ := cast_float_eq_ok_iff.mp result
    rfl
  | string =>
    intro v w _ result
    obtain ⟨s, -, rfl⟩ := cast_string_eq_ok_iff.mp result
    rfl
  | boolLit value =>
    intro v w _ result
    obtain ⟨-, rfl⟩ := cast_boolLit_eq_ok_iff.mp result
    simp [Value.equalsBool]
  | integerLit value =>
    intro v w _ result
    obtain ⟨-, rfl⟩ := cast_integerLit_eq_ok_iff.mp result
    simp [Value.equalsInteger, Value.toInteger?_ofInt64]
  | floatLit value =>
    intro v w _ result
    obtain ⟨x, -, same, rfl⟩ := cast_floatLit_eq_ok_iff.mp result
    exact same
  | stringLit value quote =>
    intro v w _ result
    obtain ⟨-, rfl⟩ := cast_stringLit_eq_ok_iff.mp result
    simp [Value.equalsText]
  | arrayKey kind => exact castsInto_arrayKey kind
  | union members ih =>
    exact castsInto_union fun m member => ih m member (regular.member member).1
  | array key value ih => exact castsInto_array key (ih regular.arrayValue)
  | list value ih => exact castsInto_list (ih regular.listValue)
  | shape fields ih =>
    exact castsInto_shape regular.keys_nodup fun f member => ih f member (regular.field member)
  | unknown name accepted => exact absurd regular (not_regular_unknown name accepted)

/-- Conversion gives members: what a value whose maps have integers and texts as
keys is converted to belongs to the type. -/
theorem accepts_of_cast {t : Ty} (regular : t.Regular) {v w : Value}
    (keys : v.everyKey Value.isHostKey = true) (result : t.cast v = .ok w) :
    t.accepts w = true :=
  regular.castsInto v w keys result

/-- A key with blanks around a number, an integer and a word become the keys of an array. -/
theorem accepts_of_cast_keys :
    let t : Ty := .shape [⟨"a", false, .array .any (.union [.integer, .list .string])⟩,
      ⟨"b", true, .bool⟩]
    let v : Value := .map .text [(.text "a", .map .general
      [(.text " 7", .text "12"), (.int .uint8 3, .list .ints [.int .int 1]),
        (.text "x", .int .int 5)])]
    let w : Value := .map .text [(.text "a", .map .general
      [(.int .int64 7, .int .int64 12), (.int .int64 3, .list .general [.text "1"]),
        (.text "x", .int .int64 5)])]
    (t.Regular ∧ v.everyKey Value.isHostKey = true ∧ t.cast v = .ok w) ∧ t.accepts w = true := by
  intro t v w
  have regular : t.Regular := ⟨by decide, by decide⟩
  have keys : v.everyKey Value.isHostKey = true := by decide
  have result : t.cast v = .ok w := by rfl
  exact ⟨⟨regular, keys, result⟩, accepts_of_cast regular keys result⟩

/-- Every member of the type can be converted to it. -/
def CastsMembers (t : Ty) : Prop :=
  ∀ v : Value, t.accepts v = true → ∃ w, t.cast v = .ok w

theorem castsMembers_arrayKey (kind : KeyKind) : (Ty.arrayKey kind).CastsMembers := by
  intro v accepted
  rw [cast]
  exact kind.cast_succeeds accepted

theorem castsMembers_union {members : List Ty} (inner : ∀ m ∈ members, m.CastsMembers) :
    (Ty.union members).CastsMembers := by
  intro v accepted
  rw [accepts, anyAccepts_iff] at accepted
  obtain ⟨m, member, accepted⟩ := accepted
  obtain ⟨w, found⟩ := castFirst_succeeds ⟨m, member, inner m member v accepted⟩
  rw [cast]
  exact ⟨w, by simp only [found]⟩

theorem castsMembers_array (key : KeyKind) {value : Ty} (inner : value.CastsMembers) :
    (Ty.array key value).CastsMembers := by
  intro v accepted
  rw [accepts, acceptsArray_iff] at accepted
  obtain ⟨entries, contents, each⟩ := accepted
  have parts : ∀ e ∈ entries, ∃ p, Converts key.cast value.cast e p := by
    intro e member
    obtain ⟨k, keyed⟩ := key.cast_succeeds (each e member).1
    obtain ⟨w, valued⟩ := inner e.value (each e member).2
    exact ⟨(k, w), keyed, valued⟩
  obtain ⟨converted, converts⟩ := exists_forall₂ parts
  have result : castEntries key.cast value.cast [] entries = .ok (Value.setAll [] converted) :=
    castEntries_eq_ok_iff.mpr ⟨converted, converts, rfl⟩
  rw [cast, castArray, contents]
  exact ⟨.map .general (Value.setAll [] converted), by simp only [result]⟩

theorem castsMembers_list {value : Ty} (inner : value.CastsMembers) :
    (Ty.list value).CastsMembers := by
  intro v accepted
  rw [accepts, acceptsList_iff] at accepted
  obtain ⟨kind, items, rfl, each⟩ := accepted
  obtain ⟨converted, elements⟩ := exists_forall₂ fun x member => inner x (each x member)
  rw [cast, castList, castItems_eq_ok_iff.mpr elements]
  exact ⟨.list .general converted, rfl⟩

theorem castsMembers_shape {fields : List (Field Ty)} (distinct : (fields.map (·.key)).Nodup)
    (inner : ∀ f ∈ fields, f.type.CastsMembers) : (Ty.shape fields).CastsMembers := by
  intro v accepted
  obtain ⟨entries, contents, texts, declared, required⟩ := (accepts_shape_iff distinct v).mp accepted
  have present : ∀ c ∈ conversions fields, ∀ x, lookupText c.key entries = some x →
      ∃ y, c.type x = .ok y := by
    intro c member x found
    obtain ⟨f, inside, rfl⟩ := mem_conversions.mp member
    obtain ⟨e, there, same, rfl⟩ := mem_of_lookupText found
    obtain ⟨f', inside', same', accepted⟩ := declared e there
    obtain rfl := field_unique distinct inside' inside (same'.trans same)
    exact inner f' inside' e.value accepted
  have absent : ∀ c ∈ conversions fields, lookupText c.key entries = none →
      c.optional = true := by
    intro c member missing
    obtain ⟨f, inside, rfl⟩ := mem_conversions.mp member
    exact (required f inside).resolve_right (lookupText_none.mp missing)
  obtain ⟨pairs, taken⟩ := exists_taken present absent
  refine ⟨.map .text pairs, ?_⟩
  rw [cast_shape_eq]
  refine castShape_of_taken _ (conversions_unique distinct) contents taken ?_
  apply declared_conversions
  intro e member
  obtain ⟨f, inside, same, _⟩ := declared e member
  exact ⟨f, inside, same⟩

theorem Regular.castsMembers {t : Ty} (regular : t.Regular) : t.CastsMembers := by
  induction t using Ty.induct with
  | mixed => exact fun v _ => ⟨v, rfl⟩
  | null =>
    intro v accepted
    exact ⟨.null, cast_null_eq_ok_iff.mpr ⟨accepted, rfl⟩⟩
  | bool =>
    intro v accepted
    cases v with
    | bool b => exact ⟨.bool b, rfl⟩
    | _ => contradiction
  | integer =>
    intro v accepted
    obtain ⟨n, found⟩ := Option.isSome_iff_exists.mp accepted
    exact ⟨.ofInt64 n, cast_integer_eq_ok_iff.mpr ⟨n, v.castInteger_of_toInteger? found, rfl⟩⟩
  | float =>
    intro v accepted
    obtain ⟨x, found⟩ := Option.isSome_iff_exists.mp accepted
    exact ⟨.double x, cast_float_eq_ok_iff.mpr ⟨x, v.castDouble_of_toDouble? found, rfl⟩⟩
  | string =>
    intro v accepted
    cases v with
    | text s => exact ⟨.text s, rfl⟩
    | _ => contradiction
  | boolLit value =>
    intro v accepted
    cases v with
    | bool b =>
      obtain rfl : b = value := beq_iff_eq.mp accepted
      exact ⟨.bool b, cast_boolLit_eq_ok_iff.mpr ⟨rfl, rfl⟩⟩
    | _ => contradiction
  | integerLit value =>
    intro v accepted
    have found : v.toInteger? = some value := beq_iff_eq.mp accepted
    exact ⟨.ofInt64 value,
      cast_integerLit_eq_ok_iff.mpr ⟨v.castInteger_of_toInteger? found, rfl⟩⟩
  | floatLit value =>
    intro v accepted
    rw [accepts, Value.equalsDouble] at accepted
    split at accepted
    · rename_i x found
      exact ⟨.double x,
        cast_floatLit_eq_ok_iff.mpr ⟨x, v.castDouble_of_toDouble? found, accepted, rfl⟩⟩
    · contradiction
  | stringLit value quote =>
    intro v accepted
    cases v with
    | text s =>
      obtain rfl : s = value := beq_iff_eq.mp accepted
      exact ⟨.text s, cast_stringLit_eq_ok_iff.mpr ⟨rfl, rfl⟩⟩
    | _ => contradiction
  | arrayKey kind => exact castsMembers_arrayKey kind
  | union members ih =>
    exact castsMembers_union fun m member => ih m member (regular.member member).1
  | array key value ih => exact castsMembers_array key (ih regular.arrayValue)
  | list value ih => exact castsMembers_list (ih regular.listValue)
  | shape fields ih =>
    exact castsMembers_shape regular.keys_nodup fun f member => ih f member (regular.field member)
  | unknown name accepted => exact absurd regular (not_regular_unknown name accepted)

/-- Conversion never rejects a member: what belongs to the type can be converted
to it, whatever its keys and widths. -/
theorem cast_of_accepts {t : Ty} (regular : t.Regular) {v : Value} (accepted : t.accepts v = true) :
    ∃ w, t.cast v = .ok w :=
  regular.castsMembers v accepted

/-- A map under a union whose first member is out of reach, with an optional element left out. -/
theorem cast_of_accepts_map :
    let t : Ty := .union [.list .integer, .array .string .bool,
      .shape [⟨"0", false, .floatLit (.infinite true)⟩, ⟨"b", true, .null⟩, ⟨"c", true, .mixed⟩]]
    let v : Value := .map .general
      [(.int .int8 0, .single (.infinite true)), (.text "c", .foreign ⟨"main.T", "T", false, none⟩)]
    (t.Regular ∧ t.accepts v = true) ∧ ∃ w, t.cast v = .ok w := by
  intro t v
  have regular : t.Regular := ⟨by decide, by decide⟩
  have accepted : t.accepts v = true := by decide
  exact ⟨⟨regular, accepted⟩, cast_of_accepts regular accepted⟩

end Ty

end Conform
