import Conform.Proofs.Ty.Parts
import Conform.Proofs.Value.Keys

/-! Compatibility is inclusion. Where one type without mixed parts fits another,
every value of the one is a value of the other, provided that the text of a key
tells arrays what the key is. A union on the right comes down to one of its
members, so that each pair of variants is compared once. -/
namespace Conform

theorem Binary.equal_trans {f : Format} {x y z : Binary f} (first : x.equal y = true)
    (second : y.equal z = true) : x.equal z = true := by
  cases x <;> cases y <;> cases z <;> simp_all [Binary.equal]
  obtain ⟨rfl, second⟩ := second
  rcases first with rfl | zero
  · exact second
  · exact Or.inr zero

theorem KeyKind.accepts_of_narrower {kind other : KeyKind} (fits : kind.fits other = true) {v : Value}
    (accepted : kind.accepts v = true) : other.accepts v = true := by
  cases kind <;> cases other <;> simp_all [KeyKind.fits, KeyKind.accepts, KeyKind.integers,
    KeyKind.strings]

namespace Ty

attribute [local simp] accepts fits

theorem anyAccepts_iff (members : List Ty) (v : Value) :
    anyAccepts members v = true ↔ ∃ m ∈ members, m.accepts v = true := by
  induction members with
  | nil => simp [anyAccepts]
  | cons t rest ih => simp [anyAccepts, ih]

theorem fieldTests_eq (fields : List (Field Ty)) :
    fieldTests fields = fields.map fun f => ⟨f.key, f.optional, f.type.accepts⟩ := by
  induction fields with
  | nil => rfl
  | cons f rest ih => rw [fieldTests, ih, List.map_cons]

theorem allFit_iff (members : List Ty) (other : Ty) :
    allFit members other = true ↔ ∀ m ∈ members, m.fits other = true := by
  induction members with
  | nil => simp [allFit]
  | cons t rest ih => simp [allFit, ih]

theorem findField_some {key : Bytes} {fields : List (Field Ty)} {f : Field Ty}
    (found : findField key fields = some f) : f ∈ fields ∧ f.key = key := by
  induction fields with
  | nil => contradiction
  | cons g rest ih =>
    rw [findField] at found
    split at found
    · rename_i same
      obtain rfl := Option.some.inj found
      exact ⟨by simp, same⟩
    · obtain ⟨member, same⟩ := ih found
      exact ⟨by simp [member], same⟩

/-- What it takes for the fields of a shape to have counterparts. -/
theorem fieldsFit_iff (fields others : List (Field Ty)) : fieldsFit fields others = true ↔
    ∀ f ∈ fields, ∃ other, findField f.key others = some other ∧
      (f.optional = true → other.optional = true) ∧ f.type.fits other.type = true := by
  induction fields with
  | nil => simp [fieldsFit]
  | cons f rest ih =>
    rw [fieldsFit, Bool.and_eq_true, ih, List.forall_mem_cons]
    refine and_congr_left' ?_
    cases findField f.key others with
    | none => simp
    | some other => cases f.optional <;> simp

theorem fieldsFitArray_iff (fields : List (Field Ty)) (key : KeyKind) (value : Ty) :
    fieldsFitArray fields key value = true ↔
      ∀ f ∈ fields, key.admitsText f.key = true ∧ f.type.fits value = true := by
  induction fields with
  | nil => simp [fieldsFitArray]
  | cons f rest ih => simp [fieldsFitArray, ih, and_assoc]

theorem someOf_iff (test : Ty → Bool) (members : List Ty) :
    someOf test members = true ↔ ∃ m ∈ members, m.someMember test = true := by
  induction members with
  | nil => simp [someOf]
  | cons t rest ih => simp [someOf, ih]

/-- A type passes a test of its members by one that is no union. -/
theorem someMember_iff {t : Ty} (regular : t.Regular) {test : Ty → Bool} :
    t.someMember test = true ↔ ∃ m ∈ t.members, test m = true := by
  have alone : ∀ m : Ty, m.kind? ≠ some .union → m.someMember test = test m := by
    intro m single
    cases m with
    | union => exact absurd rfl single
    | _ => rfl
  by_cases union : t.kind? = some .union
  · cases t with
    | union ms =>
      rw [someMember, someOf_iff, members]
      refine exists_congr fun m => and_congr_right fun member => ?_
      rw [alone m (regular.member member).2.2]
    | _ => simp [kind?] at union
  · simp [alone t union, members_single union]

theorem accepts_of_member {t m : Ty} (member : m ∈ t.members) {v : Value}
    (accepted : m.accepts v = true) : t.accepts v = true := by
  by_cases union : t.kind? = some .union
  · cases t with
    | union ms => exact (anyAccepts_iff ms v).mpr ⟨m, member, accepted⟩
    | _ => simp [kind?] at union
  · rw [members_single union, List.mem_singleton] at member
    exact member ▸ accepted

theorem accepts_of_holdsIntegers {t : Ty} (holds : t.holdsIntegers = true) {v : Value}
    (integer : v.isInteger = true) : t.accepts v = true := by
  cases t <;> simp_all [holdsIntegers, KeyKind.accepts]

theorem accepts_of_holdsStrings {t : Ty} (holds : t.holdsStrings = true) {v : Value}
    (text : v.isText = true) : t.accepts v = true := by
  cases t <;> simp_all [holdsStrings, KeyKind.accepts]

theorem isInteger_of_equals {v : Value} {n : Int64} (same : v.equalsInteger n = true) :
    v.isInteger = true := by
  simp_all [Value.equalsInteger, Value.isInteger]

theorem isText_of_equals {v : Value} {s : Bytes} (same : v.equalsText s = true) :
    v.isText = true := by
  cases v <;> simp_all [Value.equalsText, Value.isText]

theorem isBool_of_equals {v : Value} {b : Bool} (same : v.equalsBool b = true) :
    v.isBool = true := by
  cases v <;> simp_all [Value.equalsBool, Value.isBool]

theorem isFloat_of_equals {v : Value} {x : Double} (same : v.equalsDouble x = true) :
    v.isFloat = true := by
  simp only [Value.equalsDouble] at same
  split at same
  · rename_i found
    simp [Value.isFloat, found]
  · contradiction

/-- The keys of the type, if it is an array, are of a kind that passes. -/
def keyedBy (kinds : KeyKind → Bool) : Ty → Bool
  | .array key _ => kinds key
  | _ => true

theorem every_keyedBy_all (t : Ty) : t.every (keyedBy fun _ => true) = true := by
  apply every_of_all
  intro part
  cases part <;> rfl

/-- Values in which the text of a key tells what the key is: a kind that passes and
admits the text accepts the key. The elements of such values are such values again,
and their lists are ones that a host can index. -/
structure TextsTell (kinds : KeyKind → Bool) (values : Value → Prop) : Prop where
  bounded : ∀ {kind : ListKind} {items : List Value}, values (.list kind items) →
    items.length ≤ 0x8000000000000000
  entry : ∀ {v : Value} {entries : List Entry}, values v → v.entries? = some entries →
    ∀ e ∈ entries, values e.value ∧ ∀ kind : KeyKind, kinds kind = true →
      kind.admitsText e.key.keyText = true → kind.accepts e.key = true

section Inclusion

variable {kinds : KeyKind → Bool} {values : Value → Prop}

/-- The type fits only types that have its values, out of those considered, as long as
the arrays among their parts have keys of the kinds considered. -/
def SoundOn (kinds : KeyKind → Bool) (values : Value → Prop) (s : Ty) : Prop :=
  ∀ t : Ty, t.Regular → t.every (keyedBy kinds) = true → s.fits t = true →
    ∀ v : Value, values v → s.accepts v = true → t.accepts v = true

theorem SoundOn.of_member {s : Ty} {test : Ty → Bool} (same : ∀ t, s.fits t = t.someMember test)
    (included : ∀ m : Ty, m.Regular → m.every (keyedBy kinds) = true → test m = true →
      ∀ v : Value, values v → s.accepts v = true → m.accepts v = true) : s.SoundOn kinds values := by
  intro t regular keyed fits v inside accepted
  rw [same] at fits
  obtain ⟨m, member, passes⟩ := (someMember_iff regular).mp fits
  apply accepts_of_member member
  exact included m (regular.single member).1 (every_members keyed member) passes v inside accepted

theorem sound_arrayKey (kind : KeyKind) : (Ty.arrayKey kind).SoundOn kinds values := by
  intro t regular _ fits v _ accepted
  simp only [Ty.fits, Bool.and_eq_true, Bool.or_eq_true, Bool.not_eq_true'] at fits
  simp only [accepts, KeyKind.accepts, Bool.or_eq_true, Bool.and_eq_true] at accepted
  rcases accepted with ⟨integers, integer⟩ | ⟨strings, text⟩
  · have half := fits.1.resolve_left (by simp [integers])
    obtain ⟨m, member, holds⟩ := (someMember_iff regular).mp half
    exact accepts_of_member member (accepts_of_holdsIntegers holds integer)
  · have half := fits.2.resolve_left (by simp [strings])
    obtain ⟨m, member, holds⟩ := (someMember_iff regular).mp half
    exact accepts_of_member member (accepts_of_holdsStrings holds text)

theorem acceptsArray_iff (key value : Value → Bool) (v : Value) :
    acceptsArray key value v = true ↔ ∃ entries, v.entries? = some entries ∧
      ∀ e ∈ entries, key e.key = true ∧ value e.value = true := by
  rw [acceptsArray]
  cases v.entries? <;> simp

theorem sound_array (tell : TextsTell kinds values) {key : KeyKind} {value : Ty}
    (sound : value.SoundOn kinds values) : (Ty.array key value).SoundOn kinds values := by
  refine SoundOn.of_member (fun _ => by rw [Ty.fits]) ?_
  intro m regular keyed passes v inside accepted
  cases m with
  | array key' value' =>
    simp only [Bool.and_eq_true] at passes
    obtain ⟨entries, contents, each⟩ := (acceptsArray_iff _ _ v).mp accepted
    refine (acceptsArray_iff _ _ v).mpr ⟨entries, contents, fun e member => ?_⟩
    have inner := (tell.entry inside contents e member).1
    exact ⟨KeyKind.accepts_of_narrower passes.1 (each e member).1, sound value' regular.arrayValue
      (every_arrayValue keyed) passes.2 e.value inner (each e member).2⟩
  | mixed => rfl
  | _ => contradiction

theorem acceptsList_iff (element : Value → Bool) (v : Value) : acceptsList element v = true ↔
    ∃ kind items, v = .list kind items ∧ ∀ x ∈ items, element x = true := by
  cases v <;> simp [acceptsList]

theorem sound_list (tell : TextsTell kinds values) {value : Ty}
    (sound : value.SoundOn kinds values) : (Ty.list value).SoundOn kinds values := by
  refine SoundOn.of_member (fun _ => by rw [Ty.fits]) ?_
  intro m regular keyed passes v inside accepted
  obtain ⟨kind, items, rfl, each⟩ := (acceptsList_iff _ v).mp accepted
  have parts : ∀ x ∈ items, values x := by
    intro x member
    obtain ⟨e, there, rfl⟩ := Value.exists_indexed member 0
    exact (tell.entry inside rfl e there).1
  cases m with
  | list value' =>
    refine (acceptsList_iff _ _).mpr ⟨kind, items, rfl, fun x member => ?_⟩
    exact sound value' regular.listValue (every_listValue keyed) passes x (parts x member)
      (each x member)
  | array key' value' =>
    simp only [Bool.and_eq_true] at passes
    refine (acceptsArray_iff _ _ _).mpr ⟨_, rfl, fun e member => ?_⟩
    obtain ⟨j, bound, key, there⟩ := Value.mem_indexed member
    have integer : e.key.isInteger = true := by
      have length := tell.bounded inside
      rw [key]
      exact Value.isInteger_index (by omega)
    refine ⟨by simp [KeyKind.accepts, passes.1, integer], ?_⟩
    exact sound value' regular.arrayValue (every_arrayValue keyed) passes.2 _ (parts _ there)
      (each _ there)
  | mixed => rfl
  | _ => contradiction

theorem accepts_shape_iff {fields : List (Field Ty)} (distinct : (fields.map (·.key)).Nodup)
    (v : Value) : (Ty.shape fields).accepts v = true ↔ ∃ entries, v.entries? = some entries ∧
      (keyTexts entries).Nodup ∧
      (∀ e ∈ entries, ∃ f ∈ fields, f.key = e.key.keyText ∧ f.type.accepts e.value = true) ∧
      ∀ f ∈ fields, f.optional = true ∨ f.key ∈ keyTexts entries := by
  rw [accepts, fieldTests_eq, acceptsShape_iff (by rwa [List.map_map])]
  simp only [List.mem_map, exists_exists_and_eq_and, forall_exists_index, and_imp,
    forall_apply_eq_imp_iff₂]

theorem sound_shape (tell : TextsTell kinds values) {fields : List (Field Ty)}
    (regular : (Ty.shape fields).Regular) (sound : ∀ f ∈ fields, f.type.SoundOn kinds values) :
    (Ty.shape fields).SoundOn kinds values := by
  refine SoundOn.of_member (fun _ => by rw [Ty.fits]) ?_
  intro m mRegular keyed passes v inside accepted
  obtain ⟨entries, contents, texts, declared, required⟩ :=
    (accepts_shape_iff regular.keys_nodup v).mp accepted
  have inner := tell.entry inside contents
  cases m with
  | shape fields' =>
    simp only [Bool.and_eq_true, fieldsFit_iff, List.all_eq_true, Bool.or_eq_true,
      List.any_eq_true, beq_iff_eq] at passes
    obtain ⟨counterparts, covered⟩ := passes
    refine (accepts_shape_iff mRegular.keys_nodup v).mpr ⟨entries, contents, texts, ?_, ?_⟩
    · intro e member
      obtain ⟨f, there, key, accepted⟩ := declared e member
      obtain ⟨other, found, _, fits⟩ := counterparts f there
      obtain ⟨otherMember, otherKey⟩ := findField_some found
      exact ⟨other, otherMember, otherKey.trans key, sound f there other.type
        (mRegular.field otherMember) (every_field keyed otherMember) fits _ (inner e member).1
        accepted⟩
    · intro f' inside'
      rcases covered f' inside' with optional | ⟨g, there, key⟩
      · exact Or.inl optional
      · obtain ⟨other, found, flag, _⟩ := counterparts g there
        obtain ⟨otherMember, otherKey⟩ := findField_some found
        obtain rfl := field_unique mRegular.keys_nodup otherMember inside' (otherKey.trans key)
        exact (required g there).imp flag fun present => key ▸ present
  | array key' value' =>
    have each := (fieldsFitArray_iff fields key' value').mp passes
    refine (acceptsArray_iff _ _ v).mpr ⟨entries, contents, fun e member => ?_⟩
    obtain ⟨f, there, key, accepted⟩ := declared e member
    obtain ⟨admits, fits⟩ := each f there
    rw [key] at admits
    exact ⟨(inner e member).2 key' (every_self keyed) admits, sound f there value'
      mRegular.arrayValue (every_arrayValue keyed) fits _ (inner e member).1 accepted⟩
  | mixed => rfl
  | _ => contradiction

/-- A regular type without mixed parts fits only types that have its values, out of those
in which texts tell what keys are. -/
theorem Regular.soundOn (tell : TextsTell kinds values) {s : Ty} (regular : s.Regular)
    (mixedFree : s.mixedFree = true) : s.SoundOn kinds values := by
  induction s using Ty.induct with
  | mixed => contradiction
  | null | bool | float =>
    refine SoundOn.of_member (fun _ => by rw [Ty.fits]) fun m _ _ passes v _ accepted => ?_
    cases m <;> first | contradiction | rfl | exact accepted
  | integer =>
    exact SoundOn.of_member (fun _ => by rw [Ty.fits]) fun m _ _ passes v _ accepted =>
      accepts_of_holdsIntegers passes accepted
  | string =>
    exact SoundOn.of_member (fun _ => by rw [Ty.fits]) fun m _ _ passes v _ accepted =>
      accepts_of_holdsStrings passes accepted
  | boolLit value =>
    refine SoundOn.of_member (fun _ => by rw [Ty.fits]) fun m _ _ passes v _ accepted => ?_
    cases m with
    | boolLit value' => exact beq_iff_eq.mp passes ▸ accepted
    | bool => exact isBool_of_equals accepted
    | mixed => rfl
    | _ => contradiction
  | integerLit value =>
    refine SoundOn.of_member (fun _ => by rw [Ty.fits]) fun m _ _ passes v _ accepted => ?_
    cases m with
    | integerLit value' => exact beq_iff_eq.mp passes ▸ accepted
    | _ => exact accepts_of_holdsIntegers passes (isInteger_of_equals accepted)
  | floatLit value =>
    refine SoundOn.of_member (fun _ => by rw [Ty.fits]) fun m _ _ passes v _ accepted => ?_
    cases m with
    | floatLit value' =>
      simp only [accepts, Value.equalsDouble] at accepted ⊢
      split at accepted
      · exact Binary.equal_trans accepted passes
      · contradiction
    | float => exact isFloat_of_equals accepted
    | mixed => rfl
    | _ => contradiction
  | stringLit value quote =>
    refine SoundOn.of_member (fun _ => by rw [Ty.fits]) fun m _ _ passes v _ accepted => ?_
    cases m with
    | stringLit value' quote' => exact beq_iff_eq.mp passes ▸ accepted
    | _ => exact accepts_of_holdsStrings passes (isText_of_equals accepted)
  | arrayKey kind => exact sound_arrayKey kind
  | union members ih =>
    intro t tRegular keyed fits v inside accepted
    obtain ⟨m, member, accepted⟩ := (anyAccepts_iff members v).mp accepted
    exact ih m member (regular.member member).1 (every_member mixedFree member) t tRegular keyed
      ((allFit_iff members t).mp fits m member) v inside accepted
  | array key value ih => exact sound_array tell (ih regular.arrayValue (every_arrayValue mixedFree))
  | list value ih => exact sound_list tell (ih regular.listValue (every_listValue mixedFree))
  | shape fields ih =>
    exact sound_shape tell regular fun f member =>
      ih f member (regular.field member) (every_field mixedFree member)
  | unknown name accepted => exact absurd regular (not_regular_unknown name accepted)

end Inclusion

/-- Every plain value of the one type is a value of the other. -/
def Included (s t : Ty) : Prop :=
  ∀ v : Value, v.plainKeys = true → s.accepts v = true → t.accepts v = true

/-- The type fits only types that have its plain values. -/
def Sound (s : Ty) : Prop := ∀ t : Ty, t.Regular → s.fits t = true → Included s t

theorem plainKeys_tell : TextsTell (fun _ => true) fun v => v.plainKeys = true where
  bounded := by
    intro kind items plain
    simp only [Value.plainKeys, Bool.and_eq_true, decide_eq_true_eq] at plain
    exact plain.1
  entry := by
    intro v entries plain contents e member
    obtain ⟨key, value⟩ := Value.plain_of_entry plain contents member
    refine ⟨value, fun kind _ admits => ?_⟩
    rwa [KeyKind.admitsText_keyText kind key] at admits

/-- A regular type without mixed parts fits only types that have its plain values. -/
theorem Regular.sound {s : Ty} (regular : s.Regular) (mixedFree : s.mixedFree = true) :
    s.Sound := by
  intro t tRegular fits v plain accepted
  exact regular.soundOn plainKeys_tell mixedFree t tRegular (every_keyedBy_all t) fits v plain
    accepted

/-- Where a type without mixed parts fits another, its values are values of the
other, as long as the keys of maps are plain. -/
theorem accepts_of_fits {s t : Ty} (sRegular : s.Regular) (tRegular : t.Regular)
    (mixedFree : s.mixedFree = true) (fits : s.fits t = true) {v : Value}
    (plain : v.plainKeys = true) (accepted : s.accepts v = true) : t.accepts v = true :=
  sRegular.sound mixedFree t tRegular fits v plain accepted

/-- A shape with an optional element in an array of a union, at a map with keys of both kinds. -/
theorem accepts_of_fits_shape :
    let s : Ty := .shape [⟨"7", false, .integer⟩, ⟨"b", true, .list (.stringLit "x" .single)⟩]
    let t : Ty := .array .any (.union [.list .string, .arrayKey .integer])
    let v : Value := .map .general
      [(.text "b", .list .general [.text "x"]), (.int .int 7, .int .uint8 1)]
    (s.Regular ∧ t.Regular ∧ s.mixedFree = true ∧ s.fits t = true ∧ v.plainKeys = true ∧
      s.accepts v = true) ∧ t.accepts v = true := by
  intro s t v
  have sRegular : s.Regular := ⟨by decide, by decide⟩
  have tRegular : t.Regular := ⟨by decide, by decide⟩
  have mixedFree : s.mixedFree = true := by decide
  have fits : s.fits t = true := by decide
  have plain : v.plainKeys = true := by decide
  have accepted : s.accepts v = true := by decide
  exact ⟨⟨sRegular, tRegular, mixedFree, fits, plain, accepted⟩,
    accepts_of_fits sRegular tRegular mixedFree fits plain accepted⟩

end Ty

end Conform
