import Conform.Proofs.Ty.Cast
import Conform.Proofs.Value.Order

/-! What a shape declares. Membership is decided by counting the declared keys that are
there, conversion by taking one declared element after another and looking at what is
left. Both come to the same condition on the elements of the container: their keys
have texts of their own, every text is declared, and nothing required is missing. -/
namespace Conform

/-- The elements are as the fields declare them, and each one passes for its type. -/
structure Declares (fields : List (Field Ty)) (passes : Ty → Value → Prop)
    (elements : List Entry) : Prop where
  distinct : (keyTexts elements).Nodup
  declared : ∀ e ∈ elements, ∃ f ∈ fields, f.key = e.key.keyText
  required : ∀ f ∈ fields, f.optional = false → f.key ∈ keyTexts elements
  typed : ∀ f ∈ fields, ∀ e ∈ elements, e.key.keyText = f.key → passes f.type e.value

/-- The value is a list or a map whose elements are as the fields declare them. -/
def DeclaredAs (fields : List (Field Ty)) (passes : Ty → Value → Prop) (v : Value) : Prop :=
  ∃ elements, v.elements? = some elements ∧ Declares fields passes elements

section Declares

variable {fields : List (Field Ty)} {passes : Ty → Value → Prop}

theorem Declares.perm {elements others : List Entry} (perm : elements.Perm others)
    (declares : Declares fields passes elements) : Declares fields passes others := by
  have texts : (keyTexts elements).Perm (keyTexts others) := perm.map _
  refine ⟨texts.nodup_iff.mp declares.distinct, ?_, ?_, ?_⟩
  · exact fun e member => declares.declared e (perm.mem_iff.mpr member)
  · exact fun f declared needed => texts.mem_iff.mp (declares.required f declared needed)
  · exact fun f declared e member => declares.typed f declared e (perm.mem_iff.mpr member)

/-- The order in which the entries are listed makes no difference. -/
theorem declaredAs_iff {v : Value} : DeclaredAs fields passes v ↔
    ∃ entries, v.entries? = some entries ∧ Declares fields passes entries := by
  constructor
  · rintro ⟨elements, listed, declares⟩
    obtain ⟨entries, contents, perm⟩ := Value.exists_entries listed declares.distinct
    exact ⟨entries, contents, declares.perm perm.symm⟩
  · rintro ⟨entries, contents, declares⟩
    obtain ⟨elements, listed, perm⟩ := Value.exists_elements contents
    exact ⟨elements, listed, declares.perm perm⟩

/-- A shape accepts what is declared as its fields say. -/
theorem Ty.accepts_shape_iff_declaredAs (unique : (fields.map (·.key)).Nodup) (v : Value) :
    (Ty.shape fields).accepts v = true ↔
      DeclaredAs fields (fun t x => t.accepts x = true) v := by
  rw [accepts_shape_iff unique, declaredAs_iff]
  refine exists_congr fun entries => and_congr_right fun _ => ?_
  constructor
  · rintro ⟨distinct, declared, required⟩
    refine ⟨distinct, ?_, ?_, ?_⟩
    · intro e member
      obtain ⟨f, inside, same, _⟩ := declared e member
      exact ⟨f, inside, same⟩
    · intro f inside needed
      exact (required f inside).resolve_left (by rw [needed]; exact Bool.false_ne_true)
    · intro f inside e member same
      obtain ⟨g, other, same', accepted⟩ := declared e member
      obtain rfl := field_unique unique other inside (same'.trans same)
      exact accepted
  · rintro ⟨distinct, declared, required, typed⟩
    refine ⟨distinct, ?_, ?_⟩
    · intro e member
      obtain ⟨f, inside, same⟩ := declared e member
      exact ⟨f, inside, same, typed f inside e member same.symm⟩
    · intro f inside
      cases optional : f.optional with
      | true => exact Or.inl rfl
      | false => exact Or.inr (required f inside optional)

end Declares

section Taking

variable {expected : Bytes} {fields : List (Field Conversion)} {entries left : List Entry}
  {pairs : List (Value × Value)}

/-- Where everything declared is taken, what is there was converted and what is not there
may be left out. -/
theorem Taken.each (taken : Taken entries fields pairs) : ∀ f ∈ fields,
    (∀ x, lookupText f.key entries = some x → ∃ y, f.type x = .ok y) ∧
      (lookupText f.key entries = none → f.optional = true) := by
  induction taken with
  | nil => simp
  | absent missing optional _ ih =>
    rw [List.forall_mem_cons]
    exact ⟨⟨by simp [missing], fun _ => optional⟩, ih⟩
  | present found converted _ ih =>
    rw [List.forall_mem_cons]
    exact ⟨⟨by simp [found, converted], by simp [found]⟩, ih⟩

/-- Where every value that is there can be converted, only a missing element fails. -/
theorem missing_of_castFields (unique : (fields.map (·.key)).Nodup)
    (present : ∀ f ∈ fields, ∀ x, lookupText f.key entries = some x → ∃ y, f.type x = .ok y)
    {e : CastError} (failed : castFields expected fields entries = .error e) :
    ∃ key, e = .missing key expected := by
  induction fields generalizing entries with
  | nil => contradiction
  | cons f rest ih =>
    have others := (List.nodup_cons.mp unique).2
    obtain ⟨here, present⟩ := List.forall_mem_cons.mp present
    rw [castFields] at failed
    split at failed
    · split at failed
      · exact ih others present failed
      · exact ⟨f.key, (Except.error.inj failed).symm⟩
    · rename_i x found
      obtain ⟨y, converted⟩ := here x found
      rw [converted] at failed
      simp only at failed
      split at failed
      · rename_i remaining
        obtain rfl := Except.error.inj failed
        refine ih others ?_ remaining
        intro g inside x found
        rw [lookupText_others unique entries g inside] at found
        exact present g inside x found
      · contradiction

end Taking

namespace Ty

variable {fields : List (Field Ty)} {v : Value}

/-- A conversion to a shape takes every declared element and leaves nothing. -/
theorem taken_of_cast_shape (unique : (fields.map (·.key)).Nodup) {w : Value}
    (result : (Ty.shape fields).cast v = .ok w) :
    ∃ entries pairs, v.entries? = some entries ∧ w = .map .text pairs ∧
      Taken entries (conversions fields) pairs ∧
        ∀ e ∈ entries, ∃ f ∈ fields, f.key = e.key.keyText := by
  rw [cast_shape_eq] at result
  obtain ⟨entries, pairs, contents, rfl, converted⟩ := castShape_eq_ok result
  have taken := taken_of_castFields (conversions_unique unique) converted
  refine ⟨entries, pairs, contents, rfl, taken, ?_⟩
  intro e member
  by_contra undeclared
  have left := (mem_left_of_castFields converted e).mpr ⟨member, ?_⟩
  · contradiction
  · intro c inside same
    obtain ⟨f, declared, rfl⟩ := mem_conversions.mp inside
    exact undeclared ⟨f, declared, same⟩

/-- What is taken, in terms of the elements of the container. -/
theorem mem_taken_iff {entries : List Entry} {pairs : List (Value × Value)}
    (distinct : (keyTexts entries).Nodup) (taken : Taken entries (conversions fields) pairs)
    (k y : Value) :
    (k, y) ∈ pairs ↔ ∃ f ∈ fields, k = .text f.key ∧
      ∃ e ∈ entries, e.key.keyText = f.key ∧ f.type.cast e.value = .ok y := by
  rw [taken.mem_iff]
  constructor
  · rintro ⟨c, inside, rfl, x, found, converted⟩
    obtain ⟨f, declared, rfl⟩ := mem_conversions.mp inside
    obtain ⟨e, member, same, rfl⟩ := mem_of_lookupText found
    exact ⟨f, declared, rfl, e, member, same, converted⟩
  · rintro ⟨f, declared, rfl, e, member, same, converted⟩
    refine ⟨_, mem_conversions.mpr ⟨f, declared, rfl⟩, rfl, e.value, ?_, converted⟩
    rw [← same]
    exact lookupText_of_mem distinct member

/-- The present elements can be converted: the same, said by looking texts up. -/
theorem present_conversions {entries : List Entry} (typed : ∀ f ∈ fields, ∀ e ∈ entries,
      e.key.keyText = f.key → ∃ y, f.type.cast e.value = .ok y) :
    ∀ c ∈ conversions fields, ∀ x, lookupText c.key entries = some x → ∃ y, c.type x = .ok y := by
  intro c inside x found
  obtain ⟨f, declared, rfl⟩ := mem_conversions.mp inside
  obtain ⟨e, member, same, rfl⟩ := mem_of_lookupText found
  exact typed f declared e member same

theorem declares_of_taken {entries : List Entry} {pairs : List (Value × Value)}
    (distinct : (keyTexts entries).Nodup) (taken : Taken entries (conversions fields) pairs)
    (declared : ∀ e ∈ entries, ∃ f ∈ fields, f.key = e.key.keyText) :
    Declares fields (fun t x => ∃ y, t.cast x = .ok y) entries := by
  have each : ∀ f ∈ fields, _ := fun f inside =>
    taken.each _ (mem_conversions.mpr ⟨f, inside, rfl⟩)
  refine ⟨distinct, declared, ?_, ?_⟩
  · intro f inside needed
    by_contra missing
    have optional := (each f inside).2 (lookupText_none.mpr missing)
    exact absurd (needed.symm.trans optional) Bool.false_ne_true
  · intro f inside e member same
    apply (each f inside).1
    rw [← same]
    exact lookupText_of_mem distinct member

/-- A shape converts what is declared as its fields say. -/
theorem cast_shape_iff_declaredAs (unique : (fields.map (·.key)).Nodup) (v : Value) :
    (∃ w, (Ty.shape fields).cast v = .ok w) ↔
      DeclaredAs fields (fun t x => ∃ y, t.cast x = .ok y) v := by
  rw [declaredAs_iff]
  constructor
  · rintro ⟨w, result⟩
    obtain ⟨entries, pairs, contents, _, taken, declared⟩ := taken_of_cast_shape unique result
    exact ⟨entries, contents, declares_of_taken (Value.keyTexts_nodup contents) taken declared⟩
  · rintro ⟨entries, contents, declares⟩
    have absent : ∀ c ∈ conversions fields, lookupText c.key entries = none →
        c.optional = true := by
      intro c inside missing
      obtain ⟨f, declared, rfl⟩ := mem_conversions.mp inside
      by_contra needed
      exact lookupText_none.mp missing
        (declares.required f declared (Bool.eq_false_iff.mpr needed))
    obtain ⟨pairs, taken⟩ := exists_taken (present_conversions declares.typed) absent
    refine ⟨.map .text pairs, ?_⟩
    rw [cast_shape_eq]
    exact castShape_of_taken _ (conversions_unique unique) contents taken
      (declared_conversions declares.declared)

/-- Where the elements that are there can be converted, what fails is a missing or an
undeclared element, and the error is that of a wrong value. -/
theorem cast_shape_fails (unique : (fields.map (·.key)).Nodup) {elements : List Entry}
    (listed : v.elements? = some elements) (distinct : (keyTexts elements).Nodup)
    (typed : ∀ f ∈ fields, ∀ e ∈ elements, e.key.keyText = f.key →
      ∃ y, f.type.cast e.value = .ok y) {e : CastError}
    (failed : (Ty.shape fields).cast v = .error e) : e.report.code? = some .invalidValue := by
  obtain ⟨entries, contents, perm⟩ := Value.exists_entries listed distinct
  have present := present_conversions fun f inside e member =>
    typed f inside e (perm.mem_iff.mp member)
  rw [cast_shape_eq, castShape, contents] at failed
  simp only at failed
  split at failed
  · rename_i fault
    obtain rfl := Except.error.inj failed
    obtain ⟨key, rfl⟩ := missing_of_castFields (conversions_unique unique) present fault
    rfl
  · contradiction
  · obtain rfl := Except.error.inj failed
    rfl


/-- What a shape converts a container to: one entry for each declared element that is there. -/
theorem cast_shape_pairs (unique : (fields.map (·.key)).Nodup) {w : Value}
    (result : (Ty.shape fields).cast v = .ok w) :
    ∃ elements pairs, v.elements? = some elements ∧ w = .map .text pairs ∧
      (Value.pairKeys pairs).Nodup ∧ ∀ k y, (k, y) ∈ pairs ↔ ∃ f ∈ fields, k = .text f.key ∧
        ∃ e ∈ elements, e.key.keyText = f.key ∧ f.type.cast e.value = .ok y := by
  obtain ⟨entries, pairs, contents, rfl, taken, _⟩ := taken_of_cast_shape unique result
  obtain ⟨elements, listed, perm⟩ := Value.exists_elements contents
  have texts : (Value.pairTexts pairs).Nodup := taken.texts.nodup (conversions_unique unique)
  refine ⟨elements, pairs, listed, rfl, ?_, ?_⟩
  · refine List.Nodup.of_map Value.keyText ?_
    rwa [Value.pairKeys, List.map_map]
  · intro k y
    rw [mem_taken_iff (Value.keyTexts_nodup contents) taken]
    simp only [perm.mem_iff]

/-- A shape is exactly what it declares. Membership and conversion both ask for a list or a
map whose keys have texts of their own, all of them declared and none that is required left
out; a conversion gives one entry for each declared key that is there; and a container that
differs from the declaration in its keys only is refused for its value, not for its kind. -/
theorem shape_is_declaration (unique : (fields.map (·.key)).Nodup) (v : Value) :
    ((Ty.shape fields).accepts v = true ↔
      DeclaredAs fields (fun t x => t.accepts x = true) v) ∧
    ((∃ w, (Ty.shape fields).cast v = .ok w) ↔
      DeclaredAs fields (fun t x => ∃ y, t.cast x = .ok y) v) ∧
    (∀ w, (Ty.shape fields).cast v = .ok w →
      ∃ elements pairs, v.elements? = some elements ∧ w = .map .text pairs ∧
        (Value.pairKeys pairs).Nodup ∧ ∀ k y, (k, y) ∈ pairs ↔ ∃ f ∈ fields, k = .text f.key ∧
          ∃ e ∈ elements, e.key.keyText = f.key ∧ f.type.cast e.value = .ok y) ∧
    (∀ elements, v.elements? = some elements → (keyTexts elements).Nodup →
      (∀ f ∈ fields, ∀ e ∈ elements, e.key.keyText = f.key →
        ∃ y, f.type.cast e.value = .ok y) →
      (∃ f ∈ fields, f.optional = false ∧ f.key ∉ keyTexts elements) ∨
        (∃ e ∈ elements, ∀ f ∈ fields, f.key ≠ e.key.keyText) →
      ∃ e, (Ty.shape fields).cast v = .error e ∧ e.report.code? = some .invalidValue) := by
  refine ⟨accepts_shape_iff_declaredAs unique v, cast_shape_iff_declaredAs unique v,
    fun w result => cast_shape_pairs unique result, ?_⟩
  intro elements listed distinct typed differs
  cases result : (Ty.shape fields).cast v with
  | error e => exact ⟨e, rfl, cast_shape_fails unique listed distinct typed result⟩
  | ok w =>
    obtain ⟨others, listed', declares⟩ := (cast_shape_iff_declaredAs unique v).mp ⟨w, result⟩
    obtain rfl := Option.some.inj (listed.symm.trans listed')
    rcases differs with ⟨f, inside, needed, missing⟩ | ⟨e, member, undeclared⟩
    · exact absurd (declares.required f inside needed) missing
    · obtain ⟨f, inside, same⟩ := declares.declared e member
      exact absurd same (undeclared f inside)

/-- A list is a shape by the texts of its indices: the first element is converted, and the
second, which no field declares, is the only thing that is wrong with a longer list. -/
theorem shape_is_declaration_list :
    let fields : List (Field Ty) := [⟨"0", false, .integer⟩, ⟨"2", true, .string⟩]
    let short : Value := .list .general [.text " 7"]
    let long : Value := .list .general [.text " 7", .null]
    (fields.map (·.key)).Nodup ∧
    ¬ DeclaredAs fields (fun t x => t.accepts x = true) short ∧
    DeclaredAs fields (fun t x => ∃ y, t.cast x = .ok y) short ∧
    ∃ e, (Ty.shape fields).cast long = .error e ∧ e.report.code? = some .invalidValue := by
  intro fields short long
  have unique : (fields.map (·.key)).Nodup := by decide
  have rejected : ¬ (Ty.shape fields).accepts short = true := by decide
  obtain ⟨accepted, converted, _, _⟩ := shape_is_declaration unique short
  obtain ⟨_, _, _, fails⟩ := shape_is_declaration unique long
  refine ⟨unique, mt accepted.mpr rejected, converted.mp ⟨_, rfl⟩, ?_⟩
  refine fails _ rfl (by decide) ?_ (Or.inr ⟨⟨.int .int64 1, .null⟩, ?_, by decide⟩)
  · intro f inside e member same
    rcases List.mem_pair.mp inside with rfl | rfl <;>
      rcases List.mem_pair.mp member with rfl | rfl
    · exact ⟨_, rfl⟩
    all_goals exact absurd same (by decide)
  · exact List.mem_pair.mpr (Or.inr rfl)

end Ty

end Conform
