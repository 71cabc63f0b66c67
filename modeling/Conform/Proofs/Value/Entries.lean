import Conform.Proofs.Decimal
import Conform.Ty.Accepts
import Mathlib.Data.List.Nodup
import Mathlib.Data.List.Perm.Subperm

/-! The entries of containers. What is said of shapes by looking up one key after
another and counting what was found is the same as saying it of the entries: no
text stands twice, each entry is declared, and nothing required is missing. -/
namespace Conform

section Sorting

variable {α : Type} (key : α → Bytes)

theorem insertBy_perm (x : α) (list : List α) : (insertBy key x list).Perm (x :: list) := by
  induction list with
  | nil => exact .refl _
  | cons y rest ih =>
    rw [insertBy]
    split
    · exact .refl _
    · exact (ih.cons y).trans (.swap x y rest)

theorem sortBy_perm (list : List α) : (sortBy key list).Perm list := by
  induction list with
  | nil => exact .refl _
  | cons x rest ih => exact (insertBy_perm key x _).trans (ih.cons x)

end Sorting

/-- The texts of the keys. -/
def keyTexts (entries : List Entry) : List Bytes := entries.map fun e => e.key.keyText

theorem mem_keyTexts {entries : List Entry} {text : Bytes} :
    text ∈ keyTexts entries ↔ ∃ e ∈ entries, e.key.keyText = text := List.mem_map

theorem lookupText_isSome (key : Bytes) (entries : List Entry) :
    (lookupText key entries).isSome = true ↔ key ∈ keyTexts entries := by
  induction entries with
  | nil => simp [lookupText, keyTexts]
  | cons e rest ih =>
    rw [lookupText, keyTexts, List.map_cons, List.mem_cons]
    split
    · rename_i same
      simp [same]
    · rename_i other
      rw [ih, keyTexts]
      simp [Ne.symm other]

/-- Where no text stands twice, every entry is found under its own. -/
theorem lookupText_of_mem {entries : List Entry} (distinct : (keyTexts entries).Nodup) {e : Entry}
    (member : e ∈ entries) : lookupText e.key.keyText entries = some e.value := by
  induction entries with
  | nil => contradiction
  | cons first rest ih =>
    rw [keyTexts, List.map_cons, List.nodup_cons] at distinct
    rw [lookupText]
    rcases List.mem_cons.mp member with rfl | member
    · rw [if_pos rfl]
    · rw [if_neg, ih distinct.2 member]
      intro same
      exact distinct.1 (List.mem_map.mpr ⟨e, member, same.symm⟩)

theorem lookupText_none {key : Bytes} {entries : List Entry} :
    lookupText key entries = none ↔ key ∉ keyTexts entries := by
  rw [← lookupText_isSome, Option.isSome_iff_ne_none]
  simp

section Shapes

variable {fields : List (Field (Value → Bool))} {entries : List Entry}

/-- The declared keys that are there. -/
def foundKeys (fields : List (Field (Value → Bool))) (entries : List Entry) : List Bytes :=
  (fields.filter fun f => (lookupText f.key entries).isSome).map (·.key)

theorem mem_foundKeys {key : Bytes} : key ∈ foundKeys fields entries ↔
    (∃ f ∈ fields, f.key = key) ∧ key ∈ keyTexts entries := by
  simp only [foundKeys, List.mem_map, List.mem_filter, lookupText_isSome]
  constructor
  · rintro ⟨f, ⟨member, found⟩, rfl⟩
    exact ⟨⟨f, member, rfl⟩, found⟩
  · rintro ⟨⟨f, member, rfl⟩, found⟩
    exact ⟨f, ⟨member, found⟩, rfl⟩

theorem foundKeys_nodup (distinct : (fields.map (·.key)).Nodup) (entries : List Entry) :
    (foundKeys fields entries).Nodup :=
  distinct.sublist (List.filter_sublist.map _)

/-- As many declared keys were found as there are entries exactly when no text
stands twice and every text is declared. -/
theorem foundKeys_length (distinct : (fields.map (·.key)).Nodup) :
    (foundKeys fields entries).length = entries.length ↔
      (keyTexts entries).Nodup ∧ ∀ text ∈ keyTexts entries, ∃ f ∈ fields, f.key = text := by
  have nodup := foundKeys_nodup distinct entries
  have inside : foundKeys fields entries ⊆ keyTexts entries := fun _ member =>
    (mem_foundKeys.mp member).2
  have length : (keyTexts entries).length = entries.length := List.length_map _
  constructor
  · intro same
    have perm := (List.subperm_of_subset nodup inside).perm_of_length_le (by omega)
    exact ⟨perm.nodup_iff.mp nodup, fun text member => (mem_foundKeys.mp (perm.mem_iff.mpr member)).1⟩
  · rintro ⟨texts, declared⟩
    have perm : (foundKeys fields entries).Perm (keyTexts entries) := by
      refine (List.perm_ext_iff_of_nodup nodup texts).mpr fun text => ?_
      exact ⟨fun member => inside member, fun member => mem_foundKeys.mpr ⟨declared text member, member⟩⟩
    rw [perm.length_eq, length]

/-- The field of a key is the only one. -/
theorem field_unique {α : Type} {fields : List (Field α)} (distinct : (fields.map (·.key)).Nodup)
    {f g : Field α} (fMember : f ∈ fields) (gMember : g ∈ fields) (same : f.key = g.key) : f = g :=
  List.inj_on_of_nodup_map distinct fMember gMember same

/-- A shape accepts the containers in which no key text stands twice, every entry
is declared with a type that accepts it, and no required key is missing. -/
theorem acceptsShape_iff (distinct : (fields.map (·.key)).Nodup) (v : Value) :
    acceptsShape fields v = true ↔ ∃ entries, v.entries? = some entries ∧
      (keyTexts entries).Nodup ∧
      (∀ e ∈ entries, ∃ f ∈ fields, f.key = e.key.keyText ∧ f.type e.value = true) ∧
      ∀ f ∈ fields, f.optional = true ∨ f.key ∈ keyTexts entries := by
  rw [acceptsShape]
  cases v.entries? with
  | none => simp
  | some entries =>
    have count : (fields.filter fun f => (lookupText f.key entries).isSome).length =
        (foundKeys fields entries).length := (List.length_map _).symm
    simp only [Bool.and_eq_true, beq_iff_eq, count, foundKeys_length distinct, Option.some.injEq,
      exists_eq_left', List.all_eq_true]
    constructor
    · rintro ⟨passes, texts, declared⟩
      refine ⟨texts, fun e member => ?_, fun f member => ?_⟩
      · obtain ⟨f, inside, same⟩ := declared _ (mem_keyTexts.mpr ⟨e, member, rfl⟩)
        have test := passes f inside
        rw [same, lookupText_of_mem texts member] at test
        exact ⟨f, inside, same, test⟩
      · have test := passes f member
        split at test
        · rename_i x found
          exact Or.inr ((lookupText_isSome _ _).mp (by rw [found]; rfl))
        · exact Or.inl test
    · rintro ⟨texts, declared, required⟩
      refine ⟨fun f member => ?_, texts, fun text inside => ?_⟩
      · split
        · rename_i x found
          obtain ⟨e, inside, same⟩ := mem_keyTexts.mp
            ((lookupText_isSome f.key entries).mp (by rw [found]; rfl))
          obtain ⟨g, gMember, key, test⟩ := declared e inside
          rw [field_unique distinct member gMember (same.symm.trans key.symm)]
          rw [← same, lookupText_of_mem texts inside] at found
          rwa [← Option.some.inj found]
        · rename_i missing
          exact (required f member).resolve_right (lookupText_none.mp missing)
      · obtain ⟨e, member, rfl⟩ := mem_keyTexts.mp inside
        obtain ⟨f, inside, same, _⟩ := declared e member
        exact ⟨f, inside, same⟩

end Shapes

end Conform
