import Conform.Proofs.Ty.Encoding
import Mathlib

/-! The names of members. A document has texts as names where a map has keys of any kind,
so two keys of one map could fall together, and which of their values stays would depend on
the order of the map. After a conversion they never do: a key that stays a text does not
read as an integer, so its name is not that of an integer key. -/
namespace Conform

namespace Value

/-- A key as the name of a member. -/
def asName (key : Value) : Value := .text key.memberName

/-- A value under member names. The items of a list and the entries of a map are there one
by one, those of a map in an order of their own, and no name stands twice. -/
inductive Rekeyed : Value → Value → Prop
  | scalar {v : Value} : v.elements? = none → Rekeyed v v
  | list {kind : ListKind} {items items' : List Value} : List.Forall₂ Rekeyed items items' →
      Rekeyed (.list kind items) (.list .general items')
  | map {kind : MapKind} {pairs pairs' entries : List (Value × Value)} :
      List.Forall₂ (Renamed asName Rekeyed) pairs pairs' → pairs'.Perm entries →
      (pairTexts entries).Nodup → Rekeyed (.map kind pairs) (.map .text entries)

section Distinct

variable {pairs : List (Value × Value)} (hosts : HostKeys pairs)

include hosts

theorem pairTexts_named : pairTexts (pairs.map named) = pairTexts pairs := by
  rw [pairTexts, pairTexts, List.map_map]
  refine List.map_congr_left ?_
  intro p member
  exact memberName_eq_keyText (hosts p member)

/-- Where keys have texts of their own, each map keeps its entries. -/
theorem rekeyed_map {kind : MapKind} (general : kind = .text ∨ kind = .general)
    (distinct : (pairTexts pairs).Nodup) (inner : ∀ p ∈ pairs, p.2.Rekeyed p.2.withTextKeys) :
    (Value.map kind pairs).Rekeyed (Value.map kind pairs).withTextKeys := by
  rw [withTextKeys_map general, entriesWithTextKeys_of_distinct hosts distinct]
  refine .map ?_ (List.reverse_perm _).symm ?_
  · rw [List.forall₂_map_right_iff, List.forall₂_same]
    intro p member
    exact .intro p.1 (inner p member)
  · rw [pairTexts, List.map_reverse, List.nodup_reverse, ← pairTexts, pairTexts_named hosts]
    exact distinct

end Distinct

theorem rekeyed_of_orderly {v : Value} (orderly : v.orderly = true) : v.Rekeyed v.withTextKeys := by
  induction v using Value.induct with
  | list kind items ih =>
    obtain ⟨rfl, inner⟩ := (orderly_list_iff kind items).mp orderly
    rw [withTextKeys, itemsWithTextKeys_eq]
    refine .list ?_
    rw [List.forall₂_map_right_iff, List.forall₂_same]
    exact fun v member => ih v member (inner v member)
  | map kind pairs ih =>
    obtain ⟨general, hosts, distinct, inner⟩ := (orderly_map_iff kind pairs).mp orderly
    exact rekeyed_map hosts general distinct fun p member => (ih p member).2 (inner p member).2
  | _ => exact .scalar rfl

/-- The order in which the entries of maps come does not matter for the names of members. -/
theorem withTextKeys_same {v w : Value} (orderly : v.orderly = true) (same : v.Same w) :
    v.withTextKeys.Same w.withTextKeys := by
  induction v using Value.induct generalizing w with
  | list kind items ih =>
    obtain ⟨rfl, inner⟩ := (orderly_list_iff kind items).mp orderly
    cases same with
    | refl => exact .refl _
    | list each =>
      rw [withTextKeys, withTextKeys, itemsWithTextKeys_eq, itemsWithTextKeys_eq]
      refine .list ?_
      rw [List.forall₂_map_left_iff, List.forall₂_map_right_iff]
      exact forall₂_of_mem (fun v member w same => ih v member (inner v member) same) each
  | map kind pairs ih =>
    obtain ⟨general, hosts, distinct, inner⟩ := (orderly_map_iff kind pairs).mp orderly
    cases same with
    | refl => exact .refl _
    | @map _ _ pairs' shuffled each shuffle =>
      have keys : (pairKeys shuffled).Perm (pairKeys pairs) := by
        rw [← pairKeys_renamed each]
        exact (shuffle.map _).symm
      have texts : (pairTexts shuffled).Perm (pairTexts pairs) := by
        rw [← pairTexts_renamed (fun _ => rfl) each]
        exact (shuffle.map _).symm
      have hosts' : HostKeys shuffled := by
        intro p member
        obtain ⟨q, inside, same⟩ := List.mem_map.mp (keys.mem_iff.mp (List.mem_map_of_mem member))
        exact same ▸ hosts q inside
      rw [withTextKeys_map general, withTextKeys_map general,
        entriesWithTextKeys_of_distinct hosts distinct,
        entriesWithTextKeys_of_distinct hosts' (texts.nodup_iff.mpr distinct)]
      have renamed : List.Forall₂ (Renamed id Same) (pairs.map named).reverse
          (pairs'.map named).reverse := by
        rw [List.forall₂_reverse_iff, List.forall₂_map_left_iff, List.forall₂_map_right_iff]
        refine forall₂_of_mem ?_ each
        rintro _ member _ ⟨k, same⟩
        exact .intro _ ((ih _ member).2 (inner _ member).2 same)
      refine .map renamed ?_
      exact (List.reverse_perm _).trans ((shuffle.map named).trans (List.reverse_perm _).symm)
  | _ =>
    cases same
    exact .refl _

end Value

namespace Ty

/-- Member names merge no keys of a conversion: whatever a decoded value is converted to,
under member names every map has its entries one by one, and the order in which they come
does not matter. -/
theorem cast_keeps_entries {t : Ty} {text : Bytes} {v w : Value}
    (read : Value.readJson text = .ok v) (result : t.cast v = .ok w) :
    w.Rekeyed w.withTextKeys ∧ ∀ w', w.Same w' → w.withTextKeys.Same w'.withTextKeys := by
  have orderly := t.cast_orderly (Value.readJson_decoded read) result
  exact ⟨Value.rekeyed_of_orderly orderly, fun _ same => Value.withTextKeys_same orderly same⟩

/-- A map with keys of both kinds, of which one is an integer only after the conversion. -/
theorem cast_keeps_entries_mixed :
    let t : Ty := .union [.list .integer, .shape [⟨"a", false, .array .any .mixed⟩]]
    let v : Value := .map .text [(.text "a", .map .text
      [(.text " 8", .null), (.text "07", .bool true), (.text "7", .list .general [])])]
    let w : Value := .map .text [(.text "a", .map .general
      [(.int .int64 8, .null), (.text "07", .bool true), (.int .int64 7, .list .general [])])]
    (Value.readJson "\x7b\"a\":\x7b\" 8\":null,\"07\":true,\"7\":[]\x7d\x7d" = .ok v ∧
      t.cast v = .ok w) ∧ w.Rekeyed w.withTextKeys := by
  intro t v w
  have read : Value.readJson "\x7b\"a\":\x7b\" 8\":null,\"07\":true,\"7\":[]\x7d\x7d" = .ok v := by
    cbv
  have result : t.cast v = .ok w := by rfl
  exact ⟨⟨read, result⟩, (cast_keeps_entries read result).1⟩

end Ty

end Conform
