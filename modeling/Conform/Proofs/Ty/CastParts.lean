import Conform.Proofs.Matched
import Conform.Proofs.Value.Setting

/-! Conversion of the parts of containers: what it comes to for the items of a list,
for the entries of an array and for the fields of a shape, once all of them could
be converted. -/
namespace Conform

open Value (Settled)

/-- A pair is what an entry is converted to. -/
def Converts (key value : Conversion) (e : Entry) (p : Value × Value) : Prop :=
  key e.key = .ok p.1 ∧ value e.value = .ok p.2

/-- Entries are converted one by one and then set, first to last. -/
theorem castEntries_eq_ok_iff {key value : Conversion} {done pairs : List (Value × Value)}
    {entries : List Entry} : castEntries key value done entries = .ok pairs ↔
      ∃ converted, List.Forall₂ (Converts key value) entries converted ∧
        pairs = Value.setAll done converted := by
  induction entries generalizing done with
  | nil =>
    rw [castEntries]
    constructor
    · intro result
      exact ⟨[], .nil, (Except.ok.inj result).symm⟩
    · rintro ⟨_, ⟨⟩, rfl⟩
      rfl
  | cons e rest ih =>
    rw [castEntries]
    constructor
    · intro result
      split at result
      · contradiction
      · rename_i k keyed
        split at result
        · contradiction
        · rename_i v valued
          obtain ⟨converted, each, rfl⟩ := ih.mp result
          exact ⟨(k, v) :: converted, .cons ⟨keyed, valued⟩ each, rfl⟩
    · rintro ⟨_, ⟨⟩ | @⟨_, p, _, converted, ⟨keyed, valued⟩, each⟩, rfl⟩
      simp only [keyed, valued]
      exact ih.mpr ⟨converted, each, rfl⟩

/-- Pairs as a conversion leaves them: each comes from an entry, and the keys are settled
under texts of their own. -/
structure Tidy (kind : KeyKind) (value : Conversion) (entries : List Entry)
    (pairs : List (Value × Value)) : Prop where
  origin : ∀ p ∈ pairs, ∃ e ∈ entries, Converts kind.cast value e p
  keys : ∀ p ∈ pairs, Settled kind p.1
  distinct : (Value.pairTexts pairs).Nodup

theorem castEntries_tidy {kind : KeyKind} {value : Conversion} {entries : List Entry}
    {pairs : List (Value × Value)} (hosts : ∀ e ∈ entries, e.key.isHostKey = true)
    (result : castEntries kind.cast value [] entries = .ok pairs) :
    Tidy kind value entries pairs := by
  obtain ⟨converted, each, rfl⟩ := castEntries_eq_ok_iff.mp result
  have origin : ∀ p ∈ Value.setAll [] converted, ∃ e ∈ entries, Converts kind.cast value e p := by
    intro p member
    exact exists_left_of_forall₂ each ((Value.mem_setAll member).resolve_left List.not_mem_nil)
  have keys : ∀ p ∈ Value.setAll [] converted, Settled kind p.1 := by
    intro p member
    obtain ⟨e, inside, keyed, _⟩ := origin p member
    exact Value.settled_of_cast (hosts e inside) keyed
  refine ⟨origin, keys, Value.pairTexts_nodup ?_ ?_⟩
  · intro p pMember q qMember same
    exact (keys p pMember).eq_of_keyText (keys q qMember) same
  · refine Value.pairKeys_setAll_nodup (List.forall_mem_nil _) ?_ List.nodup_nil
    intro p member
    obtain ⟨e, _, keyed, _⟩ := exists_left_of_forall₂ each member
    exact KeyKind.isHostKey_of_cast keyed

theorem castItems_eq_ok_iff {element : Conversion} {i : Nat} {items converted : List Value} :
    castItems element i items = .ok converted ↔
      List.Forall₂ (fun v w => element v = .ok w) items converted := by
  induction items generalizing i converted with
  | nil =>
    rw [castItems, List.forall₂_nil_left_iff, Except.ok.injEq]
    exact eq_comm
  | cons v rest ih =>
    rw [castItems, List.forall₂_cons_left_iff]
    constructor
    · intro result
      split at result
      · contradiction
      · rename_i w first
        split at result
        · contradiction
        · rename_i ws others
          exact ⟨w, ws, first, ih.mp others, (Except.ok.inj result).symm⟩
    · rintro ⟨w, ws, first, others, rfl⟩
      simp only [first, ih.mpr others]

section Containers

variable {expected : Bytes} {v w : Value}

theorem castList_eq_ok {element : Conversion} (result : castList expected element v = .ok w) :
    ∃ kind items converted, v = .list kind items ∧ w = .list .general converted ∧
      List.Forall₂ (fun x y => element x = .ok y) items converted := by
  cases v with
  | list kind items =>
    rw [castList] at result
    split at result
    · rename_i converted elements
      exact ⟨kind, items, converted, rfl, (Except.ok.inj result).symm,
        castItems_eq_ok_iff.mp elements⟩
    · contradiction
  | _ => contradiction

theorem castArray_eq_ok {key value : Conversion}
    (result : castArray expected key value v = .ok w) :
    ∃ entries pairs, v.entries? = some entries ∧ w = .map .general pairs ∧
      castEntries key value [] entries = .ok pairs := by
  rw [castArray] at result
  split at result
  · contradiction
  · rename_i entries contents
    split at result
    · rename_i pairs converted
      exact ⟨entries, pairs, contents, (Except.ok.inj result).symm, converted⟩
    · contradiction

theorem castShape_eq_ok {fields : List (Field Conversion)}
    (result : castShape expected fields v = .ok w) :
    ∃ entries pairs, v.entries? = some entries ∧ w = .map .text pairs ∧
      castFields expected fields entries = .ok (pairs, []) := by
  rw [castShape] at result
  split at result
  · contradiction
  · rename_i entries contents
    split at result
    · contradiction
    · rename_i pairs converted
      exact ⟨entries, pairs, contents, (Except.ok.inj result).symm, converted⟩
    · contradiction

end Containers

section Fields

theorem mem_of_lookupText {key : Bytes} {entries : List Entry} {x : Value}
    (found : lookupText key entries = some x) :
    ∃ e ∈ entries, e.key.keyText = key ∧ e.value = x := by
  induction entries with
  | nil => contradiction
  | cons e rest ih =>
    rw [lookupText] at found
    split at found
    · rename_i same
      exact ⟨e, by simp, same, Option.some.inj found⟩
    · obtain ⟨f, member, same⟩ := ih found
      exact ⟨f, by simp [member], same⟩

theorem lookupText_withoutText {key other : Bytes} (different : key ≠ other) (entries : List Entry) :
    lookupText key (withoutText other entries) = lookupText key entries := by
  induction entries with
  | nil => rfl
  | cons e rest ih =>
    rw [withoutText] at ih ⊢
    by_cases removed : e.key.keyText = other
    · have kept : e.key.keyText ≠ key := fun same => different (same.symm.trans removed)
      rw [List.filter_cons_of_neg (by simp [removed]), ih, lookupText, if_neg kept]
    · rw [List.filter_cons_of_pos (by simp [removed]), lookupText, lookupText, ih]

/-- What is taken of entries for fields: the converted value of each field that is there, in
the order of the fields. -/
inductive Taken (entries : List Entry) : List (Field Conversion) → List (Value × Value) → Prop
  | nil : Taken entries [] []
  | absent {f : Field Conversion} {rest : List (Field Conversion)} {pairs : List (Value × Value)} :
      lookupText f.key entries = none → f.optional = true → Taken entries rest pairs →
      Taken entries (f :: rest) pairs
  | present {f : Field Conversion} {rest : List (Field Conversion)} {pairs : List (Value × Value)}
      {x y : Value} : lookupText f.key entries = some x → f.type x = .ok y →
      Taken entries rest pairs → Taken entries (f :: rest) ((.text f.key, y) :: pairs)

variable {expected : Bytes} {fields : List (Field Conversion)} {entries entries' left : List Entry}
  {pairs : List (Value × Value)}

theorem Taken.congr (taken : Taken entries fields pairs)
    (same : ∀ f ∈ fields, lookupText f.key entries' = lookupText f.key entries) :
    Taken entries' fields pairs := by
  induction taken with
  | nil => exact .nil
  | absent missing optional _ ih =>
    obtain ⟨here, others⟩ := List.forall_mem_cons.mp same
    exact .absent (here.trans missing) optional (ih others)
  | present found converted _ ih =>
    obtain ⟨here, others⟩ := List.forall_mem_cons.mp same
    exact .present (here.trans found) converted (ih others)

/-- What was taken for one field is nowhere looked for again. -/
theorem lookupText_others {f : Field Conversion} {rest : List (Field Conversion)}
    (distinct : ((f :: rest).map (·.key)).Nodup) (entries : List Entry) :
    ∀ g ∈ rest, lookupText g.key (withoutText f.key entries) = lookupText g.key entries := by
  intro g inside
  rw [List.map_cons, List.nodup_cons] at distinct
  apply lookupText_withoutText
  intro same
  exact distinct.1 (same ▸ List.mem_map_of_mem inside)

theorem taken_of_castFields (distinct : (fields.map (·.key)).Nodup)
    (result : castFields expected fields entries = .ok (pairs, left)) :
    Taken entries fields pairs := by
  induction fields generalizing entries pairs with
  | nil =>
    obtain ⟨rfl, rfl⟩ := Prod.mk.inj (Except.ok.inj result)
    exact .nil
  | cons f rest ih =>
    have others := (List.nodup_cons.mp distinct).2
    rw [castFields] at result
    split at result
    · rename_i missing
      split at result
      · rename_i optional
        exact .absent missing optional (ih others result)
      · contradiction
    · rename_i x found
      split at result
      · contradiction
      · rename_i y converted
        split at result
        · contradiction
        · rename_i further _ remaining
          obtain ⟨rfl, rfl⟩ := Prod.mk.inj (Except.ok.inj result)
          refine .present found converted ((ih others remaining).congr ?_)
          intro g inside
          exact (lookupText_others distinct entries g inside).symm

/-- What is left are the entries that no field declares. -/
theorem mem_left_of_castFields (result : castFields expected fields entries = .ok (pairs, left))
    (e : Entry) : e ∈ left ↔ e ∈ entries ∧ ∀ f ∈ fields, f.key ≠ e.key.keyText := by
  induction fields generalizing entries pairs with
  | nil =>
    obtain ⟨rfl, rfl⟩ := Prod.mk.inj (Except.ok.inj result)
    simp
  | cons f rest ih =>
    rw [castFields] at result
    rw [List.forall_mem_cons]
    split at result
    · rename_i missing
      split at result
      · rw [ih result]
        refine and_congr_right fun member => (and_iff_right ?_).symm
        intro same
        exact lookupText_none.mp missing (mem_keyTexts.mpr ⟨e, member, same.symm⟩)
      · contradiction
    · split at result
      · contradiction
      · split at result
        · contradiction
        · rename_i remaining
          obtain ⟨rfl, rfl⟩ := Prod.mk.inj (Except.ok.inj result)
          rw [ih remaining, withoutText, List.mem_filter, bne_iff_ne, and_assoc]
          exact and_congr_right fun _ => and_congr_left fun _ => ne_comm

theorem castFields_of_taken (expected : Bytes) (distinct : (fields.map (·.key)).Nodup)
    (taken : Taken entries fields pairs) :
    ∃ left, castFields expected fields entries = .ok (pairs, left) := by
  induction fields generalizing entries pairs with
  | nil =>
    cases taken
    exact ⟨entries, rfl⟩
  | cons f rest ih =>
    have others := (List.nodup_cons.mp distinct).2
    cases taken with
    | absent missing optional taken =>
      obtain ⟨left, converted⟩ := ih others taken
      exact ⟨left, by simp only [castFields, missing, optional, if_true, converted]⟩
    | present found converted taken =>
      obtain ⟨left, remaining⟩ := ih others (taken.congr (lookupText_others distinct entries))
      exact ⟨left, by simp only [castFields, found, converted, remaining]⟩

/-- Where everything declared can be taken and nothing else is there, the shape is converted. -/
theorem castShape_of_taken (expected : Bytes) (distinct : (fields.map (·.key)).Nodup) {v : Value}
    (contents : v.entries? = some entries) (taken : Taken entries fields pairs)
    (declared : ∀ e ∈ entries, ∃ f ∈ fields, f.key = e.key.keyText) :
    castShape expected fields v = .ok (.map .text pairs) := by
  obtain ⟨left, converted⟩ := castFields_of_taken expected distinct taken
  have nothing : left = [] := by
    rw [List.eq_nil_iff_forall_not_mem]
    intro e member
    obtain ⟨there, undeclared⟩ := (mem_left_of_castFields converted e).mp member
    obtain ⟨f, inside, same⟩ := declared e there
    exact undeclared f inside same
  simp only [castShape, contents, converted, nothing]

theorem Taken.texts (taken : Taken entries fields pairs) :
    (Value.pairTexts pairs).Sublist (fields.map (·.key)) := by
  induction taken with
  | nil => exact .slnil
  | absent _ _ _ ih => exact ih.cons _
  | present _ _ _ ih => exact ih.cons_cons _

/-- What is taken are the converted values of the fields that are there. -/
theorem Taken.mem_iff (taken : Taken entries fields pairs) (k y : Value) :
    (k, y) ∈ pairs ↔ ∃ f ∈ fields, k = .text f.key ∧
      ∃ x, lookupText f.key entries = some x ∧ f.type x = .ok y := by
  induction taken with
  | nil => simp
  | absent missing _ _ ih =>
    simp only [ih, List.mem_cons, exists_eq_or_imp, missing, reduceCtorEq, false_and,
      exists_false, and_false, false_or]
  | present found converted _ ih =>
    simp only [ih, List.mem_cons, exists_eq_or_imp, found, Option.some.injEq,
      exists_eq_left', converted, Except.ok.injEq, Prod.mk.injEq, @eq_comm _ y]

/-- Each pair is the converted value of a field. -/
theorem Taken.pair (taken : Taken entries fields pairs) {p : Value × Value} (member : p ∈ pairs) :
    ∃ f ∈ fields, p.1 = .text f.key ∧ ∃ e ∈ entries, f.type e.value = .ok p.2 := by
  obtain ⟨f, inside, key, x, found, converted⟩ := (taken.mem_iff p.1 p.2).mp member
  obtain ⟨e, there, _, rfl⟩ := mem_of_lookupText found
  exact ⟨f, inside, key, e, there, converted⟩

theorem Taken.origin (distinct : (fields.map (·.key)).Nodup) (taken : Taken entries fields pairs)
    {p : Value × Value} (member : p ∈ pairs) {f : Field Conversion} (declared : f ∈ fields)
    (key : p.1 = .text f.key) : ∃ e ∈ entries, f.type e.value = .ok p.2 := by
  obtain ⟨g, inside, key', origin⟩ := taken.pair member
  obtain rfl := field_unique distinct declared inside (Value.text.inj (key.symm.trans key'))
  exact origin

/-- A field that is left out was optional. -/
theorem Taken.required (taken : Taken entries fields pairs) {f : Field Conversion}
    (member : f ∈ fields) : f.optional = true ∨ f.key ∈ Value.pairTexts pairs := by
  induction taken with
  | nil => contradiction
  | absent _ optional _ ih =>
    rcases List.mem_cons.mp member with rfl | inside
    · exact Or.inl optional
    · exact ih inside
  | present _ _ _ ih =>
    rcases List.mem_cons.mp member with rfl | inside
    · exact Or.inr List.mem_cons_self
    · exact (ih inside).imp_right fun there => List.mem_cons_of_mem _ there

theorem exists_taken
    (present : ∀ f ∈ fields, ∀ x, lookupText f.key entries = some x → ∃ y, f.type x = .ok y)
    (absent : ∀ f ∈ fields, lookupText f.key entries = none → f.optional = true) :
    ∃ pairs, Taken entries fields pairs := by
  induction fields with
  | nil => exact ⟨[], .nil⟩
  | cons f rest ih =>
    obtain ⟨here, present⟩ := List.forall_mem_cons.mp present
    obtain ⟨optional, absent⟩ := List.forall_mem_cons.mp absent
    obtain ⟨pairs, taken⟩ := ih present absent
    cases found : lookupText f.key entries with
    | none => exact ⟨pairs, .absent found (optional found) taken⟩
    | some x =>
      obtain ⟨y, converted⟩ := here x found
      exact ⟨(.text f.key, y) :: pairs, .present found converted taken⟩

end Fields

end Conform
