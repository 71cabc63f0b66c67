import Conform.Proofs.Ty.CastParts
import Conform.Proofs.Value.Same

/-! Converting what a conversion gave. The value may stand there in another form: its
parts stand for those of the result, the keys of its maps have other names, and the
entries are in another order. Whatever the form is, a container is converted to the
same result again once its parts are. -/
namespace Conform

open Value (Same Renamed)

/-- Whatever stands for the value is converted to it. -/
def Returns (convert : Conversion) (stands : Value → Value → Prop) (w : Value) : Prop :=
  ∀ v, stands w v → ∃ w', convert v = .ok w' ∧ Same w w'

variable {expected : Bytes} {stands : Value → Value → Prop}

theorem castList_returns {element : Conversion} {items returned : List Value} (kind : ListKind)
    (inner : ∀ w ∈ items, Returns element stands w) (each : List.Forall₂ stands items returned) :
    ∃ w', castList expected element (.list kind returned) = .ok w' ∧
      Same (.list .general items) w' := by
  have converted : ∃ again, List.Forall₂ (fun v w => element v = .ok w) returned again ∧
      List.Forall₂ Same items again := by
    induction each with
    | nil => exact ⟨[], .nil, .nil⟩
    | cons first _ ih =>
      obtain ⟨here, others⟩ := List.forall_mem_cons.mp inner
      obtain ⟨w, converted, same⟩ := here _ first
      obtain ⟨ws, further, alike⟩ := ih others
      exact ⟨w :: ws, .cons converted further, .cons same alike⟩
  obtain ⟨again, converted, alike⟩ := converted
  refine ⟨.list .general again, ?_, .list alike⟩
  rw [castList, castItems_eq_ok_iff.mpr converted]

section Maps

variable {name : Value → Value} (keeps : ∀ k, (name k).keyText = k.keyText)
  {pairs returned shuffled : List (Value × Value)}

theorem converts_again {kind : KeyKind} {value : Conversion}
    (keys : ∀ p ∈ pairs, kind.cast (name p.1) = .ok p.1)
    (inner : ∀ p ∈ pairs, Returns value stands p.2)
    (each : List.Forall₂ (Renamed name stands) pairs returned) :
    ∃ again, List.Forall₂ (Converts kind.cast value) (returned.map Value.toEntry) again ∧
      List.Forall₂ (Renamed id Same) pairs again := by
  induction each with
  | nil => exact ⟨[], .nil, .nil⟩
  | cons first _ ih =>
    obtain ⟨key, keys⟩ := List.forall_mem_cons.mp keys
    obtain ⟨here, others⟩ := List.forall_mem_cons.mp inner
    obtain ⟨again, converted, alike⟩ := ih keys others
    cases first with
    | intro k returned =>
      obtain ⟨w, value, same⟩ := here _ returned
      exact ⟨(k, w) :: again, .cons ⟨key, value⟩ converted, .cons (.intro k same) alike⟩

include keeps in
/-- The entries of what comes back are in another order, and so is what they are converted to. -/
theorem castArray_returns {kind : KeyKind} {value : Conversion} (mapKind : MapKind)
    (keys : ∀ p ∈ pairs, kind.cast (name p.1) = .ok p.1) (distinct : (Value.pairTexts pairs).Nodup)
    (inner : ∀ p ∈ pairs, Returns value stands p.2)
    (each : List.Forall₂ (Renamed name stands) pairs returned) (shuffle : returned.Perm shuffled) :
    ∃ w', castArray expected kind.cast value (.map mapKind shuffled) = .ok w' ∧
      Same (.map .general pairs) w' := by
  obtain ⟨again, converted, alike⟩ := converts_again keys inner each
  have texts : (Value.pairTexts shuffled).Nodup := by
    rw [← Value.pairTexts_renamed keeps each] at distinct
    exact (shuffle.map _).nodup_iff.mp distinct
  obtain ⟨entries, contents, perm⟩ := Value.entries?_perm mapKind texts
  obtain ⟨result, converts, order⟩ :=
    List.perm_comp_forall₂ (perm.trans (shuffle.symm.map Value.toEntry)) converted
  have hosts : Value.HostKeys result := by
    intro p member
    obtain ⟨e, _, keyed, _⟩ := exists_left_of_forall₂ converts member
    exact KeyKind.isHostKey_of_cast keyed
  have unique : (Value.pairKeys result).Nodup := by
    refine (order.map _).nodup_iff.mpr ?_
    rw [← Value.pairKeys, Value.pairKeys_renamed alike]
    refine List.Nodup.of_map Value.keyText ?_
    rwa [Value.pairKeys, List.map_map]
  have set : Value.setAll [] result = result :=
    Value.setAll_of_distinct (List.forall_mem_nil _) hosts unique
  refine ⟨.map .general result, ?_, .map alike order.symm⟩
  simp only [castArray, contents, castEntries_eq_ok_iff.mpr ⟨result, converts, set.symm⟩]

variable {fields : List (Field Conversion)} {entries back : List Entry}

theorem taken_again (distinct : (fields.map (·.key)).Nodup) (taken : Taken entries fields pairs)
    (found : ∀ p ∈ pairs, ∃ x, lookupText p.1.keyText back = some x ∧ stands p.2 x)
    (gone : ∀ f ∈ fields, f.key ∉ Value.pairTexts pairs → lookupText f.key back = none)
    (inner : ∀ p ∈ pairs, ∀ f ∈ fields, p.1 = .text f.key → Returns f.type stands p.2) :
    ∃ again, Taken back fields again ∧ List.Forall₂ (Renamed id Same) pairs again := by
  induction taken with
  | nil => exact ⟨[], .nil, .nil⟩
  | absent _ optional taken ih =>
    rw [List.map_cons, List.nodup_cons] at distinct
    obtain ⟨here, others⟩ := List.forall_mem_cons.mp gone
    obtain ⟨again, further, alike⟩ := ih distinct.2 found others
      fun p member f inside => inner p member f (List.mem_cons_of_mem _ inside)
    have missing := here fun member => distinct.1 (taken.texts.subset member)
    exact ⟨again, .absent missing optional further, alike⟩
  | @present f rest pairs x y _ _ taken ih =>
    rw [List.map_cons, List.nodup_cons] at distinct
    obtain ⟨⟨x', there, returned⟩, found⟩ := List.forall_mem_cons.mp found
    obtain ⟨here, inner⟩ := List.forall_mem_cons.mp inner
    obtain ⟨y', converted, same⟩ := here f List.mem_cons_self rfl x' returned
    have others : ∀ g ∈ rest, g.key ∉ Value.pairTexts pairs → lookupText g.key back = none := by
      intro g inside missing
      refine gone g (List.mem_cons_of_mem _ inside) ?_
      rw [Value.pairTexts, List.map_cons, List.mem_cons, not_or]
      refine ⟨?_, missing⟩
      intro same
      have key : g.key = f.key := same
      exact distinct.1 (key ▸ List.mem_map_of_mem inside)
    obtain ⟨again, further, alike⟩ := ih distinct.2 found others
      fun p member f inside => inner p member f (List.mem_cons_of_mem _ inside)
    exact ⟨(.text f.key, y') :: again, .present there converted further, .cons (.intro _ same) alike⟩

include keeps in
theorem castShape_returns (mapKind : MapKind) (distinct : (fields.map (·.key)).Nodup)
    (taken : Taken entries fields pairs)
    (inner : ∀ p ∈ pairs, ∀ f ∈ fields, p.1 = .text f.key → Returns f.type stands p.2)
    (each : List.Forall₂ (Renamed name stands) pairs returned) (shuffle : returned.Perm shuffled) :
    ∃ w', castShape expected fields (.map mapKind shuffled) = .ok w' ∧
      Same (.map .text pairs) w' := by
  have texts : (Value.pairTexts shuffled).Perm (Value.pairTexts pairs) := by
    rw [← Value.pairTexts_renamed keeps each]
    exact shuffle.symm.map _
  have unique := texts.nodup_iff.mpr (distinct.sublist taken.texts)
  obtain ⟨back, contents, backTexts, mem⟩ := Value.entries?_map mapKind unique
  have found : ∀ p ∈ pairs, ∃ x, lookupText p.1.keyText back = some x ∧ stands p.2 x := by
    intro p member
    obtain ⟨q, inside, renamed⟩ := exists_left_of_forall₂ each.flip member
    cases renamed with
    | @intro k _ x returned =>
      have there := (mem ⟨name k, x⟩).mpr (shuffle.mem_iff.mp inside)
      have lookup := lookupText_of_mem (backTexts.nodup_iff.mpr unique) there
      rw [keeps k] at lookup
      exact ⟨x, lookup, returned⟩
  have gone : ∀ f ∈ fields, f.key ∉ Value.pairTexts pairs → lookupText f.key back = none := by
    intro f _ missing
    rw [lookupText_none, (backTexts.trans texts).mem_iff]
    exact missing
  obtain ⟨again, taken', alike⟩ := taken_again distinct taken found gone inner
  refine ⟨.map .text again, ?_, .map alike (.refl _)⟩
  refine castShape_of_taken expected distinct contents taken' ?_
  intro e member
  have declared := taken.texts.subset
    ((backTexts.trans texts).mem_iff.mp (mem_keyTexts.mpr ⟨e, member, rfl⟩))
  exact List.mem_map.mp declared

end Maps

end Conform
