import Conform.Proofs.Matched
import Conform.Proofs.Value.Conversion
import Mathlib.Data.List.Sort

/-! The order of the elements of a container. A host goes through a map in any order;
its entries are listed by the texts of their keys. Where no text stands twice there
is one such list, and where a text stands twice the sorted list has it twice in a
row, so a map has entries exactly when its keys have texts of their own. -/
namespace Conform

theorem Bytes.notAfter_iff (s t : Bytes) : s.notAfter t = true ↔ s ≤ t := by
  induction s generalizing t with
  | nil => simp [notAfter]
  | cons a s ih =>
    cases t with
    | nil => simp [notAfter]
    | cons b t => simp [notAfter, List.cons_le_cons_iff, ih]

section Sorting

variable {α β : Type} (key : α → Bytes)

theorem insertBy_eq (x : α) (list : List α) :
    insertBy key x list = list.orderedInsert (fun a b => key a ≤ key b) x := by
  induction list with
  | nil => rfl
  | cons y rest ih => simp only [insertBy, Bytes.notAfter_iff, ih, List.orderedInsert_cons]

theorem sortBy_eq (list : List α) :
    sortBy key list = list.insertionSort (fun a b => key a ≤ key b) := by
  induction list with
  | nil => rfl
  | cons x rest ih => rw [sortBy, ih, insertBy_eq, List.insertionSort_cons]

theorem sortBy_sorted (list : List α) : (sortBy key list).Pairwise fun a b => key a ≤ key b := by
  have : Std.Total fun a b => key a ≤ key b := ⟨fun _ _ => List.le_total _ _⟩
  have : IsTrans α fun a b => key a ≤ key b := ⟨fun _ _ _ => List.le_trans⟩
  rw [sortBy_eq]
  exact List.pairwise_insertionSort _ list

/-- Where no key stands twice, the order before sorting does not matter. -/
theorem sortBy_eq_of_perm {list other : List α} (perm : list.Perm other)
    (distinct : (list.map key).Nodup) : sortBy key list = sortBy key other := by
  have order : (sortBy key list).Perm (sortBy key other) :=
    (sortBy_perm key list).trans (perm.trans (sortBy_perm key other).symm)
  refine order.eq_of_pairwise ?_ (sortBy_sorted key list) (sortBy_sorted key other)
  intro a b aMember bMember before after
  have aInside := (sortBy_perm key list).mem_iff.mp aMember
  have bInside := (sortBy_perm key list).mem_iff.mp (order.mem_iff.mpr bMember)
  exact List.inj_on_of_nodup_map distinct aInside bInside (List.le_antisymm before after)

variable {key} {key' : β → Bytes} {R : α → β → Prop}

theorem insertBy_forall₂ (agree : ∀ a b, R a b → key a = key' b) {x : α} {y : β} (first : R x y)
    {list : List α} {other : List β} (each : List.Forall₂ R list other) :
    List.Forall₂ R (insertBy key x list) (insertBy key' y other) := by
  induction each with
  | nil => exact .cons first .nil
  | cons here rest ih =>
    rw [insertBy, insertBy, agree _ _ first, agree _ _ here]
    split
    · exact .cons first (.cons here rest)
    · exact .cons here ih

/-- Elements that correspond under one key are sorted alike. -/
theorem sortBy_forall₂ (agree : ∀ a b, R a b → key a = key' b) {list : List α} {other : List β}
    (each : List.Forall₂ R list other) :
    List.Forall₂ R (sortBy key list) (sortBy key' other) := by
  induction each with
  | nil => exact .nil
  | cons first _ ih => exact insertBy_forall₂ agree first ih

end Sorting

namespace Value

/-- A text that stands twice in a sorted list stands twice in a row. -/
theorem nodup_of_sorted {entries : List Entry}
    (sorted : entries.Pairwise fun a b => a.key.keyText ≤ b.key.keyText)
    (unrepeated : repeatsText entries = false) : (keyTexts entries).Nodup := by
  fun_induction repeatsText entries with
  | case1 => exact List.nodup_nil
  | case2 e => exact List.nodup_singleton _
  | case3 a b rest ih =>
    rw [Bool.or_eq_false_iff, beq_eq_false_iff_ne] at unrepeated
    obtain ⟨below, further⟩ := List.pairwise_cons.mp sorted
    rw [keyTexts, List.map_cons, List.nodup_cons]
    refine ⟨?_, ih further unrepeated.2⟩
    intro again
    obtain ⟨c, inside, same⟩ := List.mem_map.mp again
    have between : b.key.keyText ≤ c.key.keyText := by
      rcases List.mem_cons.mp inside with rfl | inside
      · exact List.le_refl _
      · exact (List.pairwise_cons.mp further).1 c inside
    rw [same] at between
    exact unrepeated.1 (List.le_antisymm (below b List.mem_cons_self) between)

theorem repeatsText_sortBy (entries : List Entry) :
    repeatsText (sortBy (fun e : Entry => e.key.keyText) entries) = false ↔
      (keyTexts entries).Nodup := by
  have texts := (sortBy_perm (fun e : Entry => e.key.keyText) entries).map fun e => e.key.keyText
  rw [← keyTexts, ← keyTexts] at texts
  rw [← texts.nodup_iff]
  exact ⟨nodup_of_sorted (sortBy_sorted _ entries), repeatsText_of_nodup⟩

/-- A map has entries exactly when no two keys have one text. -/
theorem entries?_map_eq (kind : MapKind) (pairs : List (Value × Value)) :
    (Value.map kind pairs).entries? =
      if (pairTexts pairs).Nodup then
        some (sortBy (fun e : Entry => e.key.keyText) (pairs.map toEntry))
      else none := by
  have repeats := repeatsText_sortBy (pairs.map toEntry)
  rw [keyTexts_toEntry] at repeats
  have listed : (Value.map kind pairs).entries? =
      if repeatsText (sortBy (fun e : Entry => e.key.keyText) (pairs.map toEntry)) then none
      else some (sortBy (fun e : Entry => e.key.keyText) (pairs.map toEntry)) := rfl
  rw [listed]
  split
  · rename_i again
    rw [if_neg (by rw [← repeats, again]; exact Bool.noConfusion)]
  · rename_i unrepeated
    rw [if_pos (repeats.mp (Bool.eq_false_iff.mpr unrepeated))]

theorem keyTexts_indexed (i : Nat) (items : List Value) :
    keyTexts (indexed i items) = (List.range' i items.length).map decimalNat := by
  induction items generalizing i with
  | nil => rfl
  | cons v rest ih =>
    have index : (Value.int .int64 i).keyText = decimalNat i := decimalInt_natCast i
    rw [indexed, keyTexts, List.map_cons, ← keyTexts, ih, index, List.length_cons,
      List.range'_succ, List.map_cons]

/-- The indices of a list have texts of their own. -/
theorem keyTexts_indexed_nodup (i : Nat) (items : List Value) :
    (keyTexts (indexed i items)).Nodup := by
  have readable : Function.LeftInverse (digitsValue 0) decimalNat := digitsValue_decimalNat
  rw [keyTexts_indexed]
  exact (List.nodup_range').map readable.injective

/-- The elements of a list or a map as a host goes through them. -/
def elements? : Value → Option (List Entry)
  | .list _ items => some (indexed 0 items)
  | .map _ pairs => some (pairs.map toEntry)
  | _ => none

/-- No text stands twice among the entries of a container. -/
theorem keyTexts_nodup {v : Value} {entries : List Entry} (contents : v.entries? = some entries) :
    (keyTexts entries).Nodup := by
  cases v with
  | list kind items =>
    obtain rfl := Option.some.inj contents
    exact keyTexts_indexed_nodup 0 items
  | map kind pairs =>
    rw [entries?_map_eq] at contents
    split at contents
    · rename_i distinct
      obtain rfl := Option.some.inj contents
      have texts := (sortBy_perm (fun e : Entry => e.key.keyText) (pairs.map toEntry)).map
        fun e => e.key.keyText
      rw [← keyTexts, ← keyTexts, keyTexts_toEntry] at texts
      exact texts.nodup_iff.mpr distinct
    · contradiction
  | _ => contradiction

/-- The entries are the elements, in an order of their own. -/
theorem exists_elements {v : Value} {entries : List Entry} (contents : v.entries? = some entries) :
    ∃ elements, v.elements? = some elements ∧ entries.Perm elements := by
  cases v with
  | list kind items =>
    obtain rfl := Option.some.inj contents
    exact ⟨_, rfl, .refl _⟩
  | map kind pairs =>
    rw [entries?_map_eq] at contents
    split at contents
    · obtain rfl := Option.some.inj contents
      exact ⟨_, rfl, sortBy_perm _ _⟩
    · contradiction
  | _ => contradiction

/-- A container whose keys have texts of their own has its elements as entries. -/
theorem exists_entries {v : Value} {elements : List Entry} (listed : v.elements? = some elements)
    (distinct : (keyTexts elements).Nodup) :
    ∃ entries, v.entries? = some entries ∧ entries.Perm elements := by
  cases v with
  | list kind items =>
    obtain rfl := Option.some.inj listed
    exact ⟨_, rfl, .refl _⟩
  | map kind pairs =>
    obtain rfl := Option.some.inj listed
    rw [keyTexts_toEntry] at distinct
    exact entries?_perm kind distinct
  | _ => contradiction

/-- The elements of a container in the order of their conversion: those of a list by their
indices, those of a map by the texts of their keys, of which none stands twice. -/
inductive Listed : Value → List Entry → Prop
  | list (kind : ListKind) (items : List Value) : Listed (.list kind items) (indexed 0 items)
  | map (kind : MapKind) {pairs : List (Value × Value)} {entries : List Entry} :
      entries.Perm (pairs.map toEntry) →
      (entries.Pairwise fun a b => a.key.keyText < b.key.keyText) →
      Listed (.map kind pairs) entries

/-- Entries under ascending texts are sorted already, and their texts are distinct. -/
theorem sortBy_ascending {entries : List Entry}
    (ascending : entries.Pairwise fun a b => a.key.keyText < b.key.keyText) :
    sortBy (fun e : Entry => e.key.keyText) entries = entries ∧ (keyTexts entries).Nodup := by
  constructor
  · rw [sortBy_eq]
    exact List.Pairwise.insertionSort_eq (ascending.imp fun below => List.le_of_lt below)
  · rw [keyTexts, List.Nodup, List.pairwise_map]
    apply ascending.imp
    intro a b below same
    rw [same] at below
    exact List.lt_irrefl _ below

/-- The entries of a container are its elements in the order of their conversion. -/
theorem listed_iff {v : Value} {entries : List Entry} :
    v.Listed entries ↔ v.entries? = some entries := by
  constructor
  · rintro (⟨kind, items⟩ | ⟨kind, perm, ascending⟩)
    · rfl
    · obtain ⟨sorted, distinct⟩ := sortBy_ascending ascending
      have texts := perm.map fun e : Entry => e.key.keyText
      rw [← keyTexts, ← keyTexts, keyTexts_toEntry] at texts
      rw [entries?_map_eq, if_pos (texts.nodup_iff.mp distinct),
        ← sortBy_eq_of_perm _ perm distinct, sorted]
  · intro contents
    have distinct := keyTexts_nodup contents
    cases v with
    | list kind items =>
      obtain rfl := Option.some.inj contents
      exact .list kind items
    | map kind pairs =>
      rw [entries?_map_eq] at contents
      split at contents
      · obtain rfl := Option.some.inj contents
        rw [keyTexts, List.Nodup, List.pairwise_map] at distinct
        refine .map kind (sortBy_perm _ _) ?_
        apply (sortBy_sorted _ _).imp₂ _ distinct
        intro a b before different
        by_contra notBelow
        exact different (List.le_antisymm before (List.not_lt.mp notBelow))
      · contradiction
    | _ => contradiction

end Value

end Conform
