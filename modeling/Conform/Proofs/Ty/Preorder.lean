import Conform.Proofs.Ty.Fits

/-! Compatibility is a preorder away from mixed: a type without a literal that
differs from itself fits itself, and two steps through a type without mixed parts
make one. Whatever fits a union in the middle fits one of its members, except for
an array key, whose two halves may go different ways. -/
namespace Conform

theorem Binary.equal_self {f : Format} {x : Binary f} (number : x ≠ .nan) : x.equal x = true := by
  cases x <;> simp_all [Binary.equal]

namespace KeyKind

theorem fits_self (kind : KeyKind) : kind.fits kind = true := by
  cases kind <;> rfl

theorem fits_trans {first second third : KeyKind} (left : first.fits second = true)
    (right : second.fits third = true) : first.fits third = true := by
  cases first <;> cases second <;> cases third <;> first | rfl | contradiction

theorem integers_of_fits {kind other : KeyKind} (fits : kind.fits other = true)
    (integers : kind.integers = true) : other.integers = true := by
  cases kind <;> cases other <;> first | rfl | contradiction

theorem strings_of_fits {kind other : KeyKind} (fits : kind.fits other = true)
    (strings : kind.strings = true) : other.strings = true := by
  cases kind <;> cases other <;> first | rfl | contradiction

theorem admitsText_of_fits {kind other : KeyKind} (fits : kind.fits other = true) {key : Bytes}
    (admits : kind.admitsText key = true) : other.admitsText key = true := by
  rw [admitsText] at admits ⊢
  split at admits
  · rename_i numeric
    rw [if_pos numeric]
    exact integers_of_fits fits admits
  · rename_i numeric
    rw [if_neg numeric]
    exact strings_of_fits fits admits

end KeyKind

namespace Ty

/-- No literal of the type is the float that differs from itself. -/
def nanFree (t : Ty) : Bool := t.every fun
  | .floatLit .nan => false
  | _ => true

section Members

variable {t : Ty} {test other : Ty → Bool}

theorem someMember_mono (regular : t.Regular) (passes : t.someMember test = true)
    (weaker : ∀ m : Ty, m.Regular → test m = true → other m = true) :
    t.someMember other = true := by
  obtain ⟨m, member, passes⟩ := (someMember_iff regular).mp passes
  exact (someMember_iff regular).mpr ⟨m, member, weaker m (regular.single member).1 passes⟩

theorem fits_members (t u : Ty) : t.fits u = true ↔ ∀ m ∈ t.members, m.fits u = true := by
  by_cases union : t.kind? = some .union
  · cases t with
    | union ms => rw [fits, allFit_iff, members]
    | _ => simp [kind?] at union
  · simp [members_single union]

end Members

/-- What fits a member fits the union. -/
theorem fits_of_member {members : List Ty} {m : Ty} (member : m ∈ members) {s : Ty}
    (fits : s.fits m = true) : s.fits (.union members) = true := by
  have lift : ∀ test : Ty → Bool, m.someMember test = true →
      (Ty.union members).someMember test = true := by
    intro test passes
    exact (someOf_iff test members).mpr ⟨m, member, passes⟩
  induction s using Ty.induct with
  | mixed => rfl
  | arrayKey kind =>
    simp only [Ty.fits, Bool.and_eq_true, Bool.or_eq_true] at fits ⊢
    exact ⟨fits.1.imp_right (lift _), fits.2.imp_right (lift _)⟩
  | union ms ih =>
    rw [Ty.fits, allFit_iff] at fits ⊢
    intro n inside
    exact ih n inside (fits n inside)
  | _ =>
    rw [Ty.fits] at fits ⊢
    exact lift _ fits

theorem findField_of_mem {fields : List (Field Ty)} (distinct : (fields.map (·.key)).Nodup)
    {f : Field Ty} (member : f ∈ fields) : findField f.key fields = some f := by
  induction fields with
  | nil => contradiction
  | cons g rest ih =>
    rw [List.map_cons, List.nodup_cons] at distinct
    rw [findField]
    rcases List.mem_cons.mp member with rfl | inside
    · rw [if_pos rfl]
    · rw [if_neg, ih distinct.2 inside]
      intro same
      exact distinct.1 (same ▸ List.mem_map_of_mem inside)

theorem Regular.fits_self {t : Ty} (regular : t.Regular) (nanFree : t.nanFree = true) :
    t.fits t = true := by
  induction t using Ty.induct with
  | floatLit value =>
    have number : value ≠ .nan := by
      rintro rfl
      contradiction
    rw [fits]
    exact Binary.equal_self number
  | stringLit value quote =>
    rw [fits]
    exact beq_self_eq_true value
  | boolLit value =>
    rw [fits]
    exact beq_self_eq_true value
  | integerLit value =>
    rw [fits]
    exact beq_self_eq_true value
  | arrayKey kind => cases kind <;> rfl
  | union members ih =>
    rw [fits, allFit_iff]
    intro m member
    exact fits_of_member member (ih m member (regular.member member).1 (every_member nanFree member))
  | array key value ih =>
    rw [fits]
    simp only [someMember, key.fits_self, ih regular.arrayValue (every_arrayValue nanFree),
      Bool.and_self]
  | list value ih =>
    rw [fits]
    exact ih regular.listValue (every_listValue nanFree)
  | shape fields ih =>
    rw [fits]
    simp only [someMember, Bool.and_eq_true, fieldsFit_iff, List.all_eq_true, Bool.or_eq_true,
      List.any_eq_true, beq_iff_eq]
    constructor
    · intro f member
      refine ⟨f, findField_of_mem regular.keys_nodup member, id, ?_⟩
      exact ih f member (regular.field member) (every_field nanFree member)
    · intro f member
      exact Or.inr ⟨f, member, rfl⟩
  | unknown name accepted => exact absurd regular (not_regular_unknown name accepted)
  | _ => rfl

/-- What the type fits without mixed parts, it fits together with all that this fits. -/
def Composes (s : Ty) : Prop :=
  ∀ t u : Ty, t.Regular → u.Regular → t.mixedFree = true → s.fits t = true → t.fits u = true →
    s.fits u = true

/-- A type in the middle comes down to the member by which the first type fits it. -/
theorem Composes.of_member {s : Ty} {test : Ty → Bool} (same : ∀ t, s.fits t = t.someMember test)
    (step : ∀ m u : Ty, m.Regular → u.Regular → m.mixedFree = true → test m = true →
      m.fits u = true → u.someMember test = true) : s.Composes := by
  intro t u tRegular uRegular mixedFree first second
  rw [same] at first ⊢
  obtain ⟨m, member, passes⟩ := (someMember_iff tRegular).mp first
  apply step m u (tRegular.single member).1 uRegular (every_members mixedFree member) passes
  exact (fits_members t u).mp second m member

theorem integers_of_fits {m u : Ty} (mixedFree : m.mixedFree = true)
    (holds : m.holdsIntegers = true) (fits : m.fits u = true) :
    u.someMember holdsIntegers = true := by
  cases m with
  | integer => rwa [Ty.fits] at fits
  | mixed => contradiction
  | arrayKey kind =>
    simp only [Ty.fits, Bool.and_eq_true, Bool.or_eq_true, Bool.not_eq_true'] at fits
    rw [holdsIntegers] at holds
    exact fits.1.resolve_left (by simp [holds])
  | _ => contradiction

theorem strings_of_fits {m u : Ty} (mixedFree : m.mixedFree = true)
    (holds : m.holdsStrings = true) (fits : m.fits u = true) :
    u.someMember holdsStrings = true := by
  cases m with
  | string => rwa [Ty.fits] at fits
  | mixed => contradiction
  | arrayKey kind =>
    simp only [Ty.fits, Bool.and_eq_true, Bool.or_eq_true, Bool.not_eq_true'] at fits
    rw [holdsStrings] at holds
    exact fits.2.resolve_left (by simp [holds])
  | _ => contradiction

theorem composes_arrayKey (kind : KeyKind) : (Ty.arrayKey kind).Composes := by
  intro t u tRegular uRegular mixedFree first second
  simp only [Ty.fits, Bool.and_eq_true, Bool.or_eq_true] at first ⊢
  constructor
  · refine first.1.imp_right fun half => ?_
    obtain ⟨m, member, holds⟩ := (someMember_iff tRegular).mp half
    exact integers_of_fits (every_members mixedFree member) holds
      ((fits_members t u).mp second m member)
  · refine first.2.imp_right fun half => ?_
    obtain ⟨m, member, holds⟩ := (someMember_iff tRegular).mp half
    exact strings_of_fits (every_members mixedFree member) holds
      ((fits_members t u).mp second m member)

theorem composes_array {key : KeyKind} {value : Ty} (inner : value.Composes) :
    (Ty.array key value).Composes := by
  refine Composes.of_member (fun _ => by rw [Ty.fits]) ?_
  intro m u mRegular uRegular mixedFree passes second
  cases m with
  | array key' value' =>
    simp only [Bool.and_eq_true] at passes
    rw [Ty.fits] at second
    apply someMember_mono uRegular second
    intro n nRegular step
    cases n with
    | array key'' value'' =>
      simp only [Bool.and_eq_true] at step ⊢
      exact ⟨KeyKind.fits_trans passes.1 step.1, inner value' value'' mRegular.arrayValue
        nRegular.arrayValue (every_arrayValue mixedFree) passes.2 step.2⟩
    | mixed => rfl
    | _ => contradiction
  | _ => contradiction

theorem composes_list {value : Ty} (inner : value.Composes) : (Ty.list value).Composes := by
  refine Composes.of_member (fun _ => by rw [Ty.fits]) ?_
  intro m u mRegular uRegular mixedFree passes second
  cases m with
  | list value' =>
    rw [Ty.fits] at second
    apply someMember_mono uRegular second
    have onward : ∀ value'' : Ty, value''.Regular → value'.fits value'' = true →
        value.fits value'' = true := by
      intro value'' regular step
      exact inner value' value'' mRegular.listValue regular (every_listValue mixedFree) passes step
    intro n nRegular step
    cases n with
    | list value'' => exact onward value'' nRegular.listValue step
    | array key'' value'' =>
      simp only [Bool.and_eq_true] at step ⊢
      exact ⟨step.1, onward value'' nRegular.arrayValue step.2⟩
    | mixed => rfl
    | _ => contradiction
  | array key' value' =>
    simp only [Bool.and_eq_true] at passes
    rw [Ty.fits] at second
    apply someMember_mono uRegular second
    intro n nRegular step
    cases n with
    | array key'' value'' =>
      simp only [Bool.and_eq_true] at step ⊢
      exact ⟨KeyKind.integers_of_fits step.1 passes.1, inner value' value'' mRegular.arrayValue
        nRegular.arrayValue (every_arrayValue mixedFree) passes.2 step.2⟩
    | mixed => rfl
    | _ => contradiction
  | _ => contradiction

/-- Fields with counterparts among fields with counterparts have counterparts. -/
theorem fieldsFit_trans {first second third : List (Field Ty)}
    (inner : ∀ f ∈ first, ∀ g ∈ second, ∀ h ∈ third, f.type.fits g.type = true →
      g.type.fits h.type = true → f.type.fits h.type = true)
    (left : fieldsFit first second = true) (right : fieldsFit second third = true) :
    fieldsFit first third = true := by
  rw [fieldsFit_iff] at left right ⊢
  intro f member
  obtain ⟨g, found, flag, fits⟩ := left f member
  obtain ⟨gMember, gKey⟩ := findField_some found
  obtain ⟨h, found', flag', fits'⟩ := right g gMember
  obtain ⟨hMember, _⟩ := findField_some found'
  refine ⟨h, gKey ▸ found', fun optional => flag' (flag optional), ?_⟩
  exact inner f member g gMember h hMember fits fits'

/-- Every field that the last shape requires is one of the first, since a field that is only
optional in between is optional at the end. -/
theorem required_trans {first second third : List (Field Ty)}
    (distinct : (third.map (·.key)).Nodup) (right : fieldsFit second third = true)
    (covered : ∀ g ∈ second, g.optional = true ∨ ∃ f ∈ first, f.key = g.key)
    (covered' : ∀ h ∈ third, h.optional = true ∨ ∃ g ∈ second, g.key = h.key) :
    ∀ h ∈ third, h.optional = true ∨ ∃ f ∈ first, f.key = h.key := by
  intro h member
  rcases covered' h member with optional | ⟨g, gMember, gKey⟩
  · exact Or.inl optional
  · rcases covered g gMember with optional | ⟨f, fMember, fKey⟩
    · obtain ⟨h', found, flag, _⟩ := (fieldsFit_iff second third).mp right g gMember
      obtain ⟨inside, same⟩ := findField_some found
      obtain rfl := field_unique distinct inside member (same.trans gKey)
      exact Or.inl (flag optional)
    · exact Or.inr ⟨f, fMember, fKey.trans gKey⟩

theorem composes_shape {fields : List (Field Ty)} (inner : ∀ f ∈ fields, f.type.Composes) :
    (Ty.shape fields).Composes := by
  refine Composes.of_member (fun _ => by rw [Ty.fits]) ?_
  intro m u mRegular uRegular mixedFree passes second
  cases m with
  | shape fields' =>
    simp only [Bool.and_eq_true, List.all_eq_true, Bool.or_eq_true, List.any_eq_true,
      beq_iff_eq] at passes
    rw [Ty.fits] at second
    apply someMember_mono uRegular second
    intro n nRegular step
    cases n with
    | shape fields'' =>
      simp only [Bool.and_eq_true, List.all_eq_true, Bool.or_eq_true, List.any_eq_true,
        beq_iff_eq] at step ⊢
      refine ⟨fieldsFit_trans ?_ passes.1 step.1,
        required_trans nRegular.keys_nodup step.1 passes.2 step.2⟩
      intro f fMember g gMember h hMember fits fits'
      exact inner f fMember g.type h.type (mRegular.field gMember) (nRegular.field hMember)
        (every_field mixedFree gMember) fits fits'
    | array key'' value'' =>
      rw [fieldsFitArray_iff] at step ⊢
      intro f fMember
      obtain ⟨g, found, _, fits⟩ := (fieldsFit_iff fields fields').mp passes.1 f fMember
      obtain ⟨gMember, gKey⟩ := findField_some found
      obtain ⟨admits, fits'⟩ := step g gMember
      refine ⟨gKey ▸ admits, ?_⟩
      exact inner f fMember g.type value'' (mRegular.field gMember) nRegular.arrayValue
        (every_field mixedFree gMember) fits fits'
    | mixed => rfl
    | _ => contradiction
  | array key' value' =>
    have each := (fieldsFitArray_iff fields key' value').mp passes
    rw [Ty.fits] at second
    apply someMember_mono uRegular second
    intro n nRegular step
    cases n with
    | array key'' value'' =>
      simp only [Bool.and_eq_true, fieldsFitArray_iff] at step ⊢
      intro f fMember
      obtain ⟨admits, fits⟩ := each f fMember
      refine ⟨KeyKind.admitsText_of_fits step.1 admits, ?_⟩
      exact inner f fMember value' value'' mRegular.arrayValue nRegular.arrayValue
        (every_arrayValue mixedFree) fits step.2
    | mixed => rfl
    | _ => contradiction
  | _ => contradiction

theorem composes_union {members : List Ty} (inner : ∀ m ∈ members, m.Composes) :
    (Ty.union members).Composes := by
  intro t u tRegular uRegular mixedFree first second
  rw [fits, allFit_iff] at first ⊢
  intro m member
  exact inner m member t u tRegular uRegular mixedFree (first m member) second

theorem Regular.composes {s : Ty} (regular : s.Regular) : s.Composes := by
  induction s using Ty.induct with
  | mixed => exact fun _ _ _ _ _ _ _ => rfl
  | null | bool | float =>
    refine Composes.of_member (fun _ => by rw [Ty.fits]) fun m u _ _ mixedFree passes second => ?_
    cases m <;> first | contradiction | rwa [Ty.fits] at second
  | integer =>
    exact Composes.of_member (fun _ => by rw [Ty.fits]) fun m u _ _ mixedFree passes second =>
      integers_of_fits mixedFree passes second
  | string =>
    exact Composes.of_member (fun _ => by rw [Ty.fits]) fun m u _ _ mixedFree passes second =>
      strings_of_fits mixedFree passes second
  | boolLit value =>
    refine Composes.of_member (fun _ => by rw [Ty.fits]) ?_
    intro m u _ uRegular mixedFree passes second
    cases m with
    | boolLit value' =>
      obtain rfl := beq_iff_eq.mp passes
      rwa [Ty.fits] at second
    | bool =>
      rw [Ty.fits] at second
      apply someMember_mono uRegular second
      intro n _ step
      cases n <;> first | rfl | contradiction
    | _ => contradiction
  | integerLit value =>
    refine Composes.of_member (fun _ => by rw [Ty.fits]) ?_
    intro m u _ uRegular mixedFree passes second
    cases m with
    | integerLit value' =>
      obtain rfl := beq_iff_eq.mp passes
      rwa [Ty.fits] at second
    | _ =>
      apply someMember_mono uRegular (integers_of_fits mixedFree passes second)
      intro n _ holds
      cases n <;> first | exact holds | contradiction
  | floatLit value =>
    refine Composes.of_member (fun _ => by rw [Ty.fits]) ?_
    intro m u _ uRegular mixedFree passes second
    cases m with
    | floatLit value' =>
      rw [Ty.fits] at second
      apply someMember_mono uRegular second
      intro n _ step
      cases n with
      | floatLit value'' => exact Binary.equal_trans passes step
      | _ => first | rfl | contradiction
    | float =>
      rw [Ty.fits] at second
      apply someMember_mono uRegular second
      intro n _ step
      cases n <;> first | rfl | contradiction
    | _ => contradiction
  | stringLit value quote =>
    refine Composes.of_member (fun _ => by rw [Ty.fits]) ?_
    intro m u _ uRegular mixedFree passes second
    cases m with
    | stringLit value' quote' =>
      obtain rfl := beq_iff_eq.mp passes
      rwa [Ty.fits] at second
    | _ =>
      apply someMember_mono uRegular (strings_of_fits mixedFree passes second)
      intro n _ holds
      cases n <;> first | exact holds | contradiction
  | arrayKey kind => exact composes_arrayKey kind
  | union members ih =>
    exact composes_union fun m member => ih m member (regular.member member).1
  | array key value ih => exact composes_array (ih regular.arrayValue)
  | list value ih => exact composes_list (ih regular.listValue)
  | shape fields ih => exact composes_shape fun f member => ih f member (regular.field member)
  | unknown name accepted => exact absurd regular (not_regular_unknown name accepted)

/-- Compatibility is reflexive on types without a literal that differs from itself,
and transitive through types without mixed parts. -/
theorem fits_preorder :
    (∀ t : Ty, t.Regular → t.nanFree = true → t.fits t = true) ∧
      ∀ s t u : Ty, s.Regular → t.Regular → u.Regular → t.mixedFree = true →
        s.fits t = true → t.fits u = true → s.fits u = true := by
  constructor
  · intro t regular nanFree
    exact regular.fits_self nanFree
  · intro s t u sRegular tRegular uRegular mixedFree first second
    exact sRegular.composes t u tRegular uRegular mixedFree first second

/-- A shape fits one with more room, which fits an array within a union; the array key of the
first finds its two halves in different members of the second. -/
theorem fits_preorder_shapes :
    let s : Ty := .shape [⟨"7", false, .integerLit 3⟩, ⟨"b", true, .arrayKey .any⟩]
    let t : Ty := .shape [⟨"b", true, .union [.string, .integer, .floatLit (.infinite true)]⟩,
      ⟨"7", false, .integer⟩, ⟨"c", true, .list .null⟩]
    let u : Ty := .union [.null, .array .any (.union [.arrayKey .any, .float, .array .integer .mixed])]
    (s.Regular ∧ t.Regular ∧ u.Regular ∧ t.nanFree = true ∧ t.mixedFree = true ∧
      s.fits t = true ∧ t.fits u = true) ∧ t.fits t = true ∧ s.fits u = true := by
  intro s t u
  have sRegular : s.Regular := ⟨by decide, by decide⟩
  have tRegular : t.Regular := ⟨by decide, by decide⟩
  have uRegular : u.Regular := ⟨by decide, by decide⟩
  have nanFree : t.nanFree = true := by decide
  have mixedFree : t.mixedFree = true := by decide
  have first : s.fits t = true := by decide
  have second : t.fits u = true := by decide
  exact ⟨⟨sRegular, tRegular, uRegular, nanFree, mixedFree, first, second⟩,
    fits_preorder.1 t tRegular nanFree,
    fits_preorder.2 s t u sRegular tRegular uRegular mixedFree first second⟩

-- Mixed fits every type and every type fits it, so that two steps through it prove nothing.
example : Ty.integer.fits .mixed = true ∧ Ty.mixed.fits .string = true ∧
    Ty.integer.fits .string = false := by decide

end Ty

end Conform
