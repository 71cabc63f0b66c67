import Conform.Proofs.Ty.Cast
import Conform.Proofs.Value.Same

/-! Answers do not depend on the order in which a host goes through its maps. Every
test and every conversion of a container works on the entries in the order of their
key texts, so equal values are accepted alike, and are converted to equal values or
fail with one error: the first element that cannot be converted is the same one. -/
namespace Conform

open Value (Same SameEntry Renamed)

/-- Two runs end the same: with related results, or with one error. -/
inductive SameOutcome {ε α : Type} (related : α → α → Prop) : Except ε α → Except ε α → Prop
  | ok {x y : α} : related x y → SameOutcome related (.ok x) (.ok y)
  | error (e : ε) : SameOutcome related (.error e) (.error e)

theorem SameOutcome.cases {ε α : Type} {related : α → α → Prop} {r s : Except ε α}
    (same : SameOutcome related r s) :
    (∃ x y, r = .ok x ∧ s = .ok y ∧ related x y) ∨ ∃ e, r = .error e ∧ s = .error e := by
  cases same with
  | ok same => exact .inl ⟨_, _, rfl, rfl, same⟩
  | error e => exact .inr ⟨e, rfl, rfl⟩

theorem SameOutcome.of_eq {ε : Type} {r s : Except ε Value} (equal : r = s) :
    SameOutcome Same r s := by
  obtain rfl := equal
  cases r with
  | ok x => exact .ok (.refl x)
  | error e => exact .error e

/-- Equal values pass the test alike. -/
def TestsSame (test : Value → Bool) : Prop := ∀ v w : Value, v.Same w → test v = test w

/-- Equal values are converted to equal ones, or fail with one error. -/
def CastsSame (convert : Conversion) : Prop :=
  ∀ v w : Value, v.Same w → SameOutcome Same (convert v) (convert w)

section Tests

theorem acceptsList_same {element : Value → Bool} (inner : TestsSame element) :
    TestsSame (acceptsList element) := by
  intro v w same
  cases same with
  | refl => rfl
  | list each => exact all_eq_of_forall₂ inner each
  | map => rfl

theorem acceptsArray_same (key : Value → Bool) {value : Value → Bool} (inner : TestsSame value) :
    TestsSame (acceptsArray key value) := by
  intro v w same
  have contents := same.entries?
  simp only [acceptsArray]
  generalize v.entries? = first, w.entries? = second at contents ⊢
  cases contents with
  | none => rfl
  | some each =>
    refine all_eq_of_forall₂ ?_ each
    intro e e' same
    rw [same.key, inner _ _ same.value]

theorem acceptsShape_same {fields : List (Field (Value → Bool))}
    (inner : ∀ f ∈ fields, TestsSame f.type) : TestsSame (acceptsShape fields) := by
  intro v w same
  have contents := same.entries?
  simp only [acceptsShape]
  generalize v.entries? = first, w.entries? = second at contents ⊢
  cases contents with
  | none => rfl
  | @some entries entries' each =>
    have found : ∀ key, (lookupText key entries).isSome = (lookupText key entries').isSome := by
      intro key
      rw [Bool.eq_iff_iff, lookupText_isSome, lookupText_isSome, Value.keyTexts_same each]
    simp only [each.length_eq, found]
    congr 1
    rw [Bool.eq_iff_iff, List.all_eq_true, List.all_eq_true]
    refine forall₂_congr fun f member => ?_
    have looked := lookupText_same each f.key
    generalize lookupText f.key entries = one, lookupText f.key entries' = other at looked ⊢
    cases looked with
    | none => exact .rfl
    | some same => simp only [inner f member _ _ same]

end Tests

section Containers

variable {convert : Conversion} (inner : CastsSame convert)

include inner

theorem castItems_same (i : Nat) {items items' : List Value} (each : List.Forall₂ Same items items') :
    SameOutcome (List.Forall₂ Same) (castItems convert i items) (castItems convert i items') := by
  induction each generalizing i with
  | nil => exact .ok .nil
  | cons first _ ih =>
    rw [castItems, castItems]
    rcases (inner _ _ first).cases with ⟨x, y, one, other, same⟩ | ⟨e, one, other⟩
    · rcases (ih (i + 1)).cases with ⟨xs, ys, ones, others, alike⟩ | ⟨e, ones, others⟩
      · simp only [one, other, ones, others]
        exact .ok (.cons same alike)
      · simp only [one, other, ones, others]
        exact .error e
    · simp only [one, other]
      exact .error _

theorem castList_same (expected : Bytes) : CastsSame (castList expected convert) := by
  intro v w same
  cases same with
  | refl => exact .of_eq rfl
  | list each =>
    rw [castList, castList]
    rcases (castItems_same inner 0 each).cases with ⟨xs, ys, one, other, alike⟩ | ⟨e, one, other⟩
    · simp only [one, other]
      exact .ok (.list alike)
    · simp only [one, other]
      exact .error e
  | map => exact .error _

/-- Entries are converted in their order, so that of keys that become one the last entry
is the same one. -/
theorem castEntries_same (key : Conversion) {done done' : List (Value × Value)}
    (set : List.Forall₂ (Renamed id Same) done done') {entries entries' : List Entry}
    (each : List.Forall₂ SameEntry entries entries') :
    SameOutcome (List.Forall₂ (Renamed id Same)) (castEntries key convert done entries)
      (castEntries key convert done' entries') := by
  induction each generalizing done done' with
  | nil => exact .ok set
  | @cons e e' _ _ first _ ih =>
    rw [castEntries, castEntries, first.key]
    cases key e.key with
    | error fault => exact .error _
    | ok k =>
      rcases (inner _ _ first.value).cases with ⟨x, y, one, other, same⟩ | ⟨fault, one, other⟩
      · simp only [one, other]
        exact ih (Value.insertEntry_renamed set k same)
      · simp only [one, other]
        exact .error _

theorem castArray_same (expected : Bytes) (key : Conversion) :
    CastsSame (castArray expected key convert) := by
  intro v w same
  have kind : v.kindName = w.kindName := same.eq_of_blind (fun _ _ _ => rfl) fun _ _ _ => rfl
  have contents := same.entries?
  rw [castArray, castArray, kind]
  generalize v.entries? = first, w.entries? = second at contents ⊢
  cases contents with
  | none => exact .error _
  | some each =>
    rcases (castEntries_same inner key .nil each).cases with ⟨xs, ys, one, other, alike⟩ | ⟨e, one, other⟩
    · simp only [one, other]
      exact .ok (.map alike (.refl ys))
    · simp only [one, other]
      exact .error e

end Containers

section Fields

variable {fields : List (Field Conversion)} (inner : ∀ f ∈ fields, CastsSame f.type)

include inner

theorem castFields_same (expected : Bytes) {entries entries' : List Entry}
    (each : List.Forall₂ SameEntry entries entries') :
    SameOutcome (fun r s => List.Forall₂ (Renamed id Same) r.1 s.1 ∧ List.Forall₂ SameEntry r.2 s.2)
      (castFields expected fields entries) (castFields expected fields entries') := by
  induction fields generalizing entries entries' with
  | nil => exact .ok ⟨.nil, each⟩
  | cons f rest ih =>
    obtain ⟨here, others⟩ := List.forall_mem_cons.mp inner
    have looked := lookupText_same each f.key
    rw [castFields, castFields]
    generalize lookupText f.key entries = one, lookupText f.key entries' = other at looked ⊢
    cases looked with
    | none =>
      simp only
      split
      · exact ih others each
      · exact .error _
    | some same =>
      rcases (here _ _ same).cases with ⟨x, y, left, right, same⟩ | ⟨e, left, right⟩
      · rcases (ih others (withoutText_same each f.key)).cases with
          ⟨⟨xs, more⟩, ⟨ys, more'⟩, lefts, rights, alike, remain⟩ | ⟨e, lefts, rights⟩
        · simp only [left, right, lefts, rights]
          exact .ok ⟨.cons (.intro _ same) alike, remain⟩
        · simp only [left, right, lefts, rights]
          exact .error e
      · simp only [left, right]
        exact .error _

theorem castShape_same (expected : Bytes) : CastsSame (castShape expected fields) := by
  intro v w same
  have kind : v.kindName = w.kindName := same.eq_of_blind (fun _ _ _ => rfl) fun _ _ _ => rfl
  have contents := same.entries?
  rw [castShape, castShape, kind]
  generalize v.entries? = first, w.entries? = second at contents ⊢
  cases contents with
  | none => exact .error _
  | some each =>
    rcases (castFields_same inner expected each).cases with
      ⟨⟨xs, left⟩, ⟨ys, left'⟩, one, other, alike, remain⟩ | ⟨e, one, other⟩
    · have texts := Value.keyTexts_same remain
      simp only [one, other]
      cases remain with
      | nil => exact .ok (.map alike (.refl ys))
      | cons =>
        have error := congrArg (fun keys => CastError.unexpected (sortBy id keys) expected) texts
        exact .of_eq (congrArg Except.error error.symm)
    · simp only [one, other]
      exact .error e

end Fields

namespace Ty

theorem accepts_same (t : Ty) : TestsSame t.accepts := by
  induction t using Ty.induct with
  | union members ih =>
    intro v w same
    rw [Bool.eq_iff_iff, accepts, accepts, anyAccepts_iff, anyAccepts_iff]
    exact exists_congr fun m => and_congr_right fun member => by rw [ih m member v w same]
  | array key value ih => exact acceptsArray_same key.accepts ih
  | list value ih => exact acceptsList_same ih
  | shape fields ih =>
    refine acceptsShape_same ?_
    rw [fieldTests_eq]
    intro test member
    obtain ⟨f, declared, rfl⟩ := List.mem_map.mp member
    exact ih f declared
  | _ => exact fun v w same => same.eq_of_blind (fun _ _ _ => rfl) fun _ _ _ => rfl

theorem canCast_same (t : Ty) : TestsSame t.canCast := by
  induction t using Ty.induct with
  | union members ih =>
    intro v w same
    rw [Bool.eq_iff_iff, canCast, canCast, anyCanCast_iff, anyCanCast_iff]
    refine exists_congr fun m => and_congr_right fun member => ?_
    rw [ih m member v w same, accepts_same m v w same]
  | array | shape =>
    intro v w same
    have contents := same.entries?
    rw [canCast, canCast]
    generalize v.entries? = first, w.entries? = second at contents ⊢
    cases contents with
    | none => rfl
    | some => rfl
  | _ => exact fun v w same => same.eq_of_blind (fun _ _ _ => rfl) fun _ _ _ => rfl

theorem castFirst_same {members : List Ty} (inner : ∀ m ∈ members, CastsSame m.cast) {v w : Value}
    (same : v.Same w) : SameOutcome Same (castFirst members v) (castFirst members w) := by
  induction members with
  | nil => exact .error []
  | cons t rest ih =>
    obtain ⟨here, others⟩ := List.forall_mem_cons.mp inner
    rw [castFirst, castFirst]
    rcases (here v w same).cases with ⟨x, y, one, other, alike⟩ | ⟨e, one, other⟩
    · simp only [one, other]
      exact .ok alike
    · rcases (ih others).cases with ⟨x, y, ones, rest, alike⟩ | ⟨es, ones, rest⟩
      · simp only [one, other, ones, rest]
        exact .ok alike
      · simp only [one, other, ones, rest]
        exact .error _

theorem cast_same (t : Ty) : CastsSame t.cast := by
  induction t using Ty.induct with
  | mixed => exact fun v w same => .ok same
  | union members ih =>
    intro v w same
    have kind : v.kindName = w.kindName := same.eq_of_blind (fun _ _ _ => rfl) fun _ _ _ => rfl
    rw [cast, cast, kind]
    rcases (castFirst_same ih same).cases with ⟨x, y, one, other, alike⟩ | ⟨es, one, other⟩
    · simp only [one, other]
      exact .ok alike
    · simp only [one, other]
      exact .error _
  | array key value ih => exact castArray_same ih _ key.cast
  | list value ih => exact castList_same ih _
  | shape fields ih =>
    refine castShape_same ?_ _
    rw [fieldCasts_eq]
    intro c member
    obtain ⟨f, declared, rfl⟩ := List.mem_map.mp member
    exact ih f declared
  | unknown name accepted =>
    intro v w same
    have kind : v.kindName = w.kindName := same.eq_of_blind (fun _ _ _ => rfl) fun _ _ _ => rfl
    rw [cast, cast, kind]
    split
    · exact .ok same
    · exact .error _
  | _ => exact fun v w same => .of_eq (same.eq_of_blind (fun _ _ _ => rfl) fun _ _ _ => rfl)

/-- No answer depends on the order of maps: values that differ only in the order of the
entries of their maps, at any depth, are accepted alike, allow a conversion alike, and are
converted to values that differ in no more than that, or fail with the same error. -/
theorem answers_unordered {v w : Value} (same : v.Same w) (t : Ty) :
    t.accepts v = t.accepts w ∧ t.canCast v = t.canCast w ∧
      SameOutcome Same (t.cast v) (t.cast w) :=
  ⟨accepts_same t v w same, canCast_same t v w same, cast_same t v w same⟩

/-- Two maps whose entries, and those of a map inside, come in the opposite order. The first
member of the union fails at one of the elements, the second one converts both keys. -/
theorem answers_unordered_nested :
    let t : Ty := .union [.array .string .bool, .array .integer (.array .string .mixed)]
    let v : Value := .map .general [(.text " 7", .map .text [(.text "x", .null), (.text "y", .bool true)]),
      (.int .int8 3, .list .general [.text "z"])]
    let w : Value := .map .general [(.int .int8 3, .list .general [.text "z"]),
      (.text " 7", .map .text [(.text "y", .bool true), (.text "x", .null)])]
    v.Same w ∧ t.accepts v = t.accepts w ∧ t.canCast v = t.canCast w ∧
      SameOutcome Same (t.cast v) (t.cast w) := by
  intro t v w
  have inside : (Value.map .text [(.text "x", .null), (.text "y", .bool true)]).Same
      (.map .text [(.text "y", .bool true), (.text "x", .null)]) :=
    .map (.cons (.intro _ (.refl _)) (.cons (.intro _ (.refl _)) .nil)) (.swap _ _ _)
  have same : v.Same w :=
    .map (.cons (.intro _ inside) (.cons (.intro _ (.refl _)) .nil)) (.swap _ _ _)
  exact ⟨same, answers_unordered same t⟩

end Ty

end Conform
