import Conform.Ty.Build
import Conform.Ty.Render

/-! Reasoning over the parts of a type. Unions and shapes hold lists of types, so
the induction principle hands over a hypothesis for each member and each field.
The functions that walk over those lists are the ordinary list operations. -/
namespace Conform

namespace Ty

/-- A property holds of every type once it is inherited from the parts. -/
@[elab_as_elim]
theorem induct {P : Ty → Prop}
    (mixed : P .mixed) (null : P .null) (bool : P .bool) (integer : P .integer)
    (float : P .float) (string : P .string)
    (boolLit : ∀ value, P (.boolLit value)) (integerLit : ∀ value, P (.integerLit value))
    (floatLit : ∀ value, P (.floatLit value))
    (stringLit : ∀ value quote, P (.stringLit value quote))
    (arrayKey : ∀ kind, P (.arrayKey kind))
    (union : ∀ members, (∀ m ∈ members, P m) → P (.union members))
    (array : ∀ key value, P value → P (.array key value))
    (list : ∀ value, P value → P (.list value))
    (shape : ∀ fields : List (Field Ty), (∀ f ∈ fields, P f.type) → P (.shape fields))
    (unknown : ∀ name accepted, P (.unknown name accepted)) (t : Ty) : P t := by
  refine @Ty.rec P (fun members => ∀ m ∈ members, P m) (fun fields => ∀ f ∈ fields, P f.type)
    (fun f => P f.type) mixed null bool integer float string boolLit integerLit floatLit
    stringLit arrayKey union array list shape unknown ?_ ?_ ?_ ?_ ?_ t
  · intro m member
    contradiction
  · intro first rest hfirst hrest m member
    rcases List.mem_cons.mp member with rfl | member
    · exact hfirst
    · exact hrest m member
  · intro f member
    contradiction
  · intro first rest hfirst hrest f member
    rcases List.mem_cons.mp member with rfl | member
    · exact hfirst
    · exact hrest f member
  · intro _ _ _ h
    exact h

theorem renderAll_eq (style : Style) (members : List Ty) :
    renderAll style members = members.map (render style) := by
  induction members with
  | nil => rfl
  | cons t rest ih => simp only [renderAll, ih, List.map_cons]

theorem renderFields_eq (style : Style) (fields : List (Field Ty)) :
    renderFields style fields =
      fields.map fun f => renderField f.key f.optional (f.type.render style) := by
  induction fields with
  | nil => rfl
  | cons f rest ih => simp only [renderFields, ih, List.map_cons]

theorem wellFormedAll_iff (members : List Ty) :
    wellFormedAll members = true ↔ ∀ m ∈ members, m.wellFormed = true := by
  induction members with
  | nil => simp [wellFormedAll]
  | cons t rest ih => simp [wellFormedAll, ih]

theorem wellFormedFields_iff (fields : List (Field Ty)) :
    wellFormedFields fields = true ↔ ∀ f ∈ fields, f.type.wellFormed = true := by
  induction fields with
  | nil => simp [wellFormedFields]
  | cons f rest ih => simp [wellFormedFields, ih]

/-- A union keeps the rules when it has two members or more, none of them mixed
or a union, which keep the rules. -/
theorem wellFormed_union_iff (members : List Ty) :
    (Ty.union members).wellFormed = true ↔
      2 ≤ members.length ∧ (∀ m ∈ members, m.isMixed = false ∧ m.kind? ≠ some .union) ∧
        ∀ m ∈ members, m.wellFormed = true := by
  simp only [wellFormed, Bool.and_eq_true, decide_eq_true_eq, List.all_eq_true, wellFormedAll_iff,
    Bool.not_eq_true', bne_iff_ne, and_assoc]

theorem wellFormed_shape_iff (fields : List (Field Ty)) :
    (Ty.shape fields).wellFormed = true ↔
      (fields.map (·.key)).Nodup ∧ ∀ f ∈ fields, f.type.wellFormed = true := by
  simp only [wellFormed, Bool.and_eq_true, decide_eq_true_eq, wellFormedFields_iff]

mutual

/-- The type and each of its parts, at any depth, pass. -/
def every (test : Ty → Bool) : Ty → Bool
  | .union members => test (.union members) && everyMember test members
  | .array key value => test (.array key value) && value.every test
  | .list value => test (.list value) && value.every test
  | .shape fields => test (.shape fields) && everyField test fields
  | t => test t

def everyMember (test : Ty → Bool) : List Ty → Bool
  | [] => true
  | t :: rest => t.every test && everyMember test rest

def everyField (test : Ty → Bool) : List (Field Ty) → Bool
  | [] => true
  | f :: rest => f.type.every test && everyField test rest

end

attribute [local simp] every everyMember everyField

theorem everyMember_iff (test : Ty → Bool) (members : List Ty) :
    everyMember test members = true ↔ ∀ m ∈ members, m.every test = true := by
  induction members with
  | nil => simp
  | cons t rest ih => simp [ih]

theorem everyField_iff (test : Ty → Bool) (fields : List (Field Ty)) :
    everyField test fields = true ↔ ∀ f ∈ fields, f.type.every test = true := by
  induction fields with
  | nil => simp
  | cons f rest ih => simp [ih]

theorem every_self {test : Ty → Bool} {t : Ty} (h : t.every test = true) : test t = true := by
  cases t <;> simp_all

section EveryPart

variable {test : Ty → Bool}

theorem every_member {members : List Ty} (passes : (Ty.union members).every test = true) {m : Ty}
    (member : m ∈ members) : m.every test = true := by
  simp only [every, Bool.and_eq_true, everyMember_iff] at passes
  exact passes.2 m member

theorem every_arrayValue {key : KeyKind} {value : Ty}
    (passes : (Ty.array key value).every test = true) : value.every test = true := by
  simp only [every, Bool.and_eq_true] at passes
  exact passes.2

theorem every_listValue {value : Ty} (passes : (Ty.list value).every test = true) :
    value.every test = true := by
  simp only [every, Bool.and_eq_true] at passes
  exact passes.2

theorem every_field {fields : List (Field Ty)} (passes : (Ty.shape fields).every test = true)
    {f : Field Ty} (member : f ∈ fields) : f.type.every test = true := by
  simp only [every, Bool.and_eq_true, everyField_iff] at passes
  exact passes.2 f member

theorem every_of_all (all : ∀ part, test part = true) (t : Ty) : t.every test = true := by
  induction t using Ty.induct with
  | union members ih => simpa [all, everyMember_iff] using ih
  | array key value ih => simp [all, ih]
  | list value ih => simp [all, ih]
  | shape fields ih => simpa [all, everyField_iff] using ih
  | _ => exact all _

end EveryPart

/-- No part of the type is of a variant that the algebra does not know. -/
def known (t : Ty) : Bool := t.every fun part => part.kind?.isSome

/-- No part of the type admits every value. -/
def mixedFree (t : Ty) : Bool := t.every fun part => !part.isMixed

/-- The type keeps the rules of the algebra and is made of its variants. -/
structure Regular (t : Ty) : Prop where
  wellFormed : t.wellFormed = true
  known : t.known = true

theorem Regular.member {members : List Ty} (regular : (Ty.union members).Regular) {m : Ty}
    (member : m ∈ members) : m.Regular ∧ m.isMixed = false ∧ m.kind? ≠ some .union := by
  obtain ⟨_, kinds, parts⟩ := (wellFormed_union_iff members).mp regular.wellFormed
  exact ⟨⟨parts m member, every_member regular.known member⟩, kinds m member⟩

theorem Regular.members_length {members : List Ty} (regular : (Ty.union members).Regular) :
    2 ≤ members.length :=
  ((wellFormed_union_iff members).mp regular.wellFormed).1

theorem Regular.arrayValue {key : KeyKind} {value : Ty} (regular : (Ty.array key value).Regular) :
    value.Regular :=
  ⟨by simpa only [Ty.wellFormed] using regular.wellFormed, every_arrayValue regular.known⟩

theorem Regular.listValue {value : Ty} (regular : (Ty.list value).Regular) : value.Regular :=
  ⟨by simpa only [Ty.wellFormed] using regular.wellFormed, every_listValue regular.known⟩

theorem Regular.field {fields : List (Field Ty)} (regular : (Ty.shape fields).Regular)
    {f : Field Ty} (member : f ∈ fields) : f.type.Regular :=
  ⟨((wellFormed_shape_iff fields).mp regular.wellFormed).2 f member,
    every_field regular.known member⟩

theorem Regular.keys_nodup {fields : List (Field Ty)} (regular : (Ty.shape fields).Regular) :
    (fields.map (·.key)).Nodup :=
  ((wellFormed_shape_iff fields).mp regular.wellFormed).1

/-- The members of a union; any other type is its own only member. -/
def members : Ty → List Ty
  | .union members => members
  | t => [t]

theorem members_single {t : Ty} (single : t.kind? ≠ some .union) : t.members = [t] := by
  cases t with
  | union => exact absurd rfl single
  | _ => rfl

theorem Regular.single {t : Ty} (regular : t.Regular) {m : Ty} (member : m ∈ t.members) :
    m.Regular ∧ m.kind? ≠ some .union := by
  by_cases union : t.kind? = some .union
  · cases t with
    | union ms =>
      obtain ⟨part, _, single⟩ := regular.member member
      exact ⟨part, single⟩
    | _ => simp [kind?] at union
  · rw [members_single union, List.mem_singleton] at member
    exact member ▸ ⟨regular, union⟩

theorem every_members {test : Ty → Bool} {t : Ty} (passes : t.every test = true) {m : Ty}
    (member : m ∈ t.members) : m.every test = true := by
  by_cases union : t.kind? = some .union
  · cases t with
    | union ms => exact every_member passes member
    | _ => simp [kind?] at union
  · rw [members_single union, List.mem_singleton] at member
    exact member ▸ passes

theorem not_known_unknown (name : Bytes) (accepted : Bool) :
    (Ty.unknown name accepted).known ≠ true := Bool.false_ne_true

theorem not_regular_unknown (name : Bytes) (accepted : Bool) :
    ¬ (Ty.unknown name accepted).Regular := fun regular =>
  not_known_unknown name accepted regular.known

mutual

/-- The type with the quoting style of every string literal forgotten. -/
def unquoted : Ty → Ty
  | .stringLit value _ => .stringLit value .none
  | .union members => .union (unquotedAll members)
  | .array key value => .array key value.unquoted
  | .list value => .list value.unquoted
  | .shape fields => .shape (unquotedFields fields)
  | t => t

def unquotedAll : List Ty → List Ty
  | [] => []
  | t :: rest => t.unquoted :: unquotedAll rest

def unquotedFields : List (Field Ty) → List (Field Ty)
  | [] => []
  | f :: rest => ⟨f.key, f.optional, f.type.unquoted⟩ :: unquotedFields rest

end

theorem unquotedAll_eq (members : List Ty) : unquotedAll members = members.map unquoted := by
  induction members with
  | nil => rfl
  | cons t rest ih => simp only [unquotedAll, ih, List.map_cons]

theorem unquotedFields_eq (fields : List (Field Ty)) :
    unquotedFields fields = fields.map fun f => ⟨f.key, f.optional, f.type.unquoted⟩ := by
  induction fields with
  | nil => rfl
  | cons f rest ih => simp only [unquotedFields, ih, List.map_cons]

end Ty

end Conform
