import Conform.Proofs.Value.Order
import Conform.Proofs.Value.Setting

/-! Equality of host values. A map has no order, so equal values may list the entries
of their maps differently, at any depth. The kind of a value, what it is as a scalar
and, element by element, its entries are the same for equal values. -/
namespace Conform

namespace Value

/-- Entries under a new name of the key, with related values. -/
inductive Renamed (name : Value → Value) (related : Value → Value → Prop) :
    Value × Value → Value × Value → Prop
  | intro (k : Value) {v w : Value} : related v w → Renamed name related (k, v) (name k, w)

/-- Equality of host values. A map has no order: the other one is a shuffle of
entries with the same keys and equal values. -/
inductive Same : Value → Value → Prop
  | refl (v : Value) : Same v v
  | list {kind : ListKind} {items items' : List Value} : List.Forall₂ Same items items' →
      Same (.list kind items) (.list kind items')
  | map {kind : MapKind} {pairs pairs' shuffled : List (Value × Value)} :
      List.Forall₂ (Renamed id Same) pairs pairs' → pairs'.Perm shuffled →
      Same (.map kind pairs) (.map kind shuffled)

section Renamed

variable {related : Value → Value → Prop} {pairs pairs' : List (Value × Value)}

theorem pairKeys_renamed (each : List.Forall₂ (Renamed id related) pairs pairs') :
    pairKeys pairs' = pairKeys pairs := by
  induction each with
  | nil => rfl
  | cons first _ ih =>
    cases first
    exact congrArg (_ :: ·) ih

/-- New names that are known by the same texts leave the texts. -/
theorem pairTexts_renamed {name : Value → Value} (keeps : ∀ k, (name k).keyText = k.keyText)
    (each : List.Forall₂ (Renamed name related) pairs pairs') :
    pairTexts pairs' = pairTexts pairs := by
  induction each with
  | nil => rfl
  | cons first _ ih =>
    cases first with
    | intro k => exact congrArg₂ List.cons (keeps k) ih

/-- Setting one key to equal values leaves equal entries. -/
theorem insertEntry_renamed (each : List.Forall₂ (Renamed id related) pairs pairs') (key : Value)
    {v w : Value} (first : related v w) :
    List.Forall₂ (Renamed id related) (insertEntry key v pairs) (insertEntry key w pairs') := by
  induction each with
  | nil => exact .cons (.intro key first) .nil
  | cons here rest ih =>
    cases here with
    | intro k inner =>
      simp only [insertEntry, id]
      split
      · exact .cons (.intro key first) rest
      · exact .cons (.intro k inner) ih

end Renamed

/-- Entries of one key with equal values. -/
structure SameEntry (e e' : Entry) : Prop where
  key : e'.key = e.key
  value : e.value.Same e'.value

theorem indexed_same {items items' : List Value} (each : List.Forall₂ Same items items') (i : Nat) :
    List.Forall₂ SameEntry (indexed i items) (indexed i items') := by
  induction each generalizing i with
  | nil => exact .nil
  | cons first _ ih => exact .cons ⟨rfl, first⟩ (ih (i + 1))

theorem toEntry_same {pairs pairs' : List (Value × Value)}
    (each : List.Forall₂ (Renamed id Same) pairs pairs') :
    List.Forall₂ SameEntry (pairs.map toEntry) (pairs'.map toEntry) := by
  rw [List.forall₂_map_left_iff, List.forall₂_map_right_iff]
  refine each.imp ?_
  rintro _ _ ⟨k, same⟩
  exact ⟨rfl, same⟩

theorem sameEntry_refl (entries : List Entry) : List.Forall₂ SameEntry entries entries :=
  List.forall₂_same.mpr fun e _ => ⟨rfl, .refl e.value⟩

theorem keyTexts_same {entries entries' : List Entry}
    (each : List.Forall₂ SameEntry entries entries') : keyTexts entries' = keyTexts entries := by
  induction each with
  | nil => rfl
  | cons first _ ih => simp only [keyTexts, List.map_cons, first.key] at ih ⊢; rw [ih]

variable {v w : Value}

/-- The entries of equal values are equal one by one, or there are none. Sorting takes
the order out that the two maps may differ in. -/
theorem Same.entries? (same : v.Same w) :
    Option.Rel (List.Forall₂ SameEntry) v.entries? w.entries? := by
  cases same with
  | refl =>
    cases v.entries? with
    | none => exact .none
    | some entries => exact .some (sameEntry_refl entries)
  | list each => exact .some (indexed_same each 0)
  | @map kind pairs pairs' shuffled each shuffle =>
    have texts : (pairTexts pairs').Perm (pairTexts shuffled) := shuffle.map _
    have unchanged : pairTexts pairs' = pairTexts pairs := pairTexts_renamed (fun _ => rfl) each
    rw [unchanged] at texts
    rw [entries?_map_eq, entries?_map_eq]
    by_cases distinct : (pairTexts pairs).Nodup
    · have apart : ((pairs'.map toEntry).map fun e => e.key.keyText).Nodup := by
        rw [← keyTexts, keyTexts_toEntry, unchanged]
        exact distinct
      rw [if_pos distinct, if_pos (texts.nodup_iff.mp distinct),
        ← sortBy_eq_of_perm _ (shuffle.map toEntry) apart]
      refine .some (sortBy_forall₂ ?_ (toEntry_same each))
      exact fun e e' same => congrArg keyText same.key.symm
    · rw [if_neg distinct, if_neg (texts.nodup_iff.not.mp distinct)]
      exact .none

/-- What looks at neither the items of a list nor the entries of a map is the same for
equal values. -/
theorem Same.eq_of_blind (same : v.Same w) {α : Type} {f : Value → α}
    (lists : ∀ kind items items', f (.list kind items) = f (.list kind items'))
    (maps : ∀ kind pairs pairs', f (.map kind pairs) = f (.map kind pairs')) : f v = f w := by
  cases same with
  | refl => rfl
  | list => exact lists _ _ _
  | map => exact maps _ _ _

end Value

/-- What is found under a text is equal where the entries are. -/
theorem lookupText_same {entries entries' : List Entry}
    (each : List.Forall₂ Value.SameEntry entries entries') (key : Bytes) :
    Option.Rel Value.Same (lookupText key entries) (lookupText key entries') := by
  induction each with
  | nil => exact .none
  | cons first _ ih =>
    rw [lookupText, lookupText, first.key]
    split
    · exact .some first.value
    · exact ih

theorem withoutText_same {entries entries' : List Entry}
    (each : List.Forall₂ Value.SameEntry entries entries') (key : Bytes) :
    List.Forall₂ Value.SameEntry (withoutText key entries) (withoutText key entries') := by
  induction each with
  | nil => exact .nil
  | cons first _ ih =>
    simp only [withoutText, List.filter_cons, first.key] at ih ⊢
    split
    · exact .cons first ih
    · exact ih

end Conform
