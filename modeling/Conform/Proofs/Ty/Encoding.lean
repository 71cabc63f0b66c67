import Conform.Proofs.Ty.Cast
import Conform.Proofs.Value.Encoding

/-! Conversions give values that can be sent, floats aside: whatever type a decoded
value is converted to, the lists and maps of the result are general ones and the
keys of each map are told apart as texts. -/
namespace Conform

theorem Value.orderly_of_decoded {bound : Nat} {v : Value} (decoded : v.decoded bound = true) :
    v.orderly = true := by
  refine every_of_both (fun part decoded _ => ?_) decoded decoded
  cases part with
  | list kind items => exact (Bool.and_eq_true_iff.mp decoded).1
  | map kind pairs =>
    simp only [decodedPart, orderlyPart, Bool.and_eq_true, Bool.or_eq_true, List.all_eq_true]
      at decoded ⊢
    refine ⟨⟨Or.inl decoded.1.1, ?_⟩, decoded.2⟩
    intro p member
    obtain ⟨s, text⟩ := isText_iff.mp (decoded.1.2 p member)
    rw [text]
    rfl
  | single x => contradiction
  | foreign v => contradiction
  | _ => rfl

theorem Value.orderly_hostKey {key : Value} (host : key.isHostKey = true) : key.orderly = true := by
  cases key with
  | int | text => rfl
  | _ => contradiction

/-- Whatever the conversion makes of a decoded value can be sent, floats aside. -/
def GivesOrderly (convert : Conversion) : Prop :=
  ∀ {bound : Nat} {v w : Value}, v.decoded bound = true → convert v = .ok w → w.orderly = true

theorem castList_orderly {convert : Conversion} (inner : GivesOrderly convert) (expected : Bytes) :
    GivesOrderly (castList expected convert) := by
  intro bound v w decoded result
  cases v with
  | list kind items =>
    rw [castList] at result
    split at result
    · rename_i converted elements
      obtain rfl := Except.ok.inj result
      apply (Value.orderly_list_iff _ converted).mpr
      refine ⟨rfl, ?_⟩
      intro w member
      obtain ⟨v, inside, read⟩ := exists_left_of_forall₂ (castItems_eq_ok_iff.mp elements) member
      exact inner (((Value.every_list_iff kind items).mp decoded).2 v inside) read
    · contradiction
  | _ => contradiction

theorem castArray_orderly (key : KeyKind) {convert : Conversion} (inner : GivesOrderly convert)
    (expected : Bytes) : GivesOrderly (castArray expected key.cast convert) := by
  intro bound v w decoded result
  rw [castArray] at result
  split at result
  · contradiction
  · rename_i entries contents
    split at result
    · rename_i pairs converts
      obtain rfl := Except.ok.inj result
      have tidy := castEntries_tidy
        (fun e member => Value.decoded_hostKey decoded contents member) converts
      have hosts : Value.HostKeys pairs := by
        intro p member
        obtain ⟨e, _, keyed, _⟩ := tidy.origin p member
        exact KeyKind.isHostKey_of_cast keyed
      apply (Value.orderly_map_iff _ pairs).mpr
      refine ⟨Or.inr rfl, hosts, tidy.distinct, ?_⟩
      intro p member
      obtain ⟨e, inside, _, valued⟩ := tidy.origin p member
      exact ⟨Value.orderly_hostKey (hosts p member),
        inner (Value.every_entry decoded contents inside) valued⟩
    · contradiction

/-- What is drawn from entries for fields, whether or not their keys are distinct: a key is
gone once its entry is taken. -/
structure Drawn (fields : List (Field Conversion)) (entries : List Entry)
    (pairs : List (Value × Value)) : Prop where
  origin : ∀ p ∈ pairs, ∃ f ∈ fields, p.1 = .text f.key ∧
    ∃ e ∈ entries, e.key.keyText = f.key ∧ f.type e.value = .ok p.2
  distinct : (Value.pairTexts pairs).Nodup

theorem Drawn.later {f : Field Conversion} {fields : List (Field Conversion)}
    {entries : List Entry} {pairs : List (Value × Value)} (drawn : Drawn fields entries pairs) :
    Drawn (f :: fields) entries pairs := by
  refine ⟨?_, drawn.distinct⟩
  intro p member
  obtain ⟨g, inside, rest⟩ := drawn.origin p member
  exact ⟨g, List.mem_cons_of_mem f inside, rest⟩

theorem Drawn.taken {f : Field Conversion} {fields : List (Field Conversion)}
    {entries : List Entry} {pairs : List (Value × Value)} {x y : Value}
    (found : lookupText f.key entries = some x) (converted : f.type x = .ok y)
    (drawn : Drawn fields (withoutText f.key entries) pairs) :
    Drawn (f :: fields) entries ((.text f.key, y) :: pairs) := by
  constructor
  · intro p member
    rcases List.mem_cons.mp member with rfl | member
    · obtain ⟨e, there, key, rfl⟩ := mem_of_lookupText found
      exact ⟨f, List.mem_cons_self, rfl, e, there, key, converted⟩
    · obtain ⟨g, inside, key, e, there, rest⟩ := drawn.origin p member
      exact ⟨g, List.mem_cons_of_mem f inside, key, e, List.mem_of_mem_filter there, rest⟩
  · refine List.nodup_cons.mpr ⟨?_, drawn.distinct⟩
    intro again
    obtain ⟨p, member, same⟩ := List.mem_map.mp again
    obtain ⟨g, _, key, e, there, text, _⟩ := drawn.origin p member
    rw [key] at same
    have gone : e.key.keyText = f.key := text.trans same
    exact bne_iff_ne.mp (List.mem_filter.mp there).2 gone

theorem drawn_of_castFields {expected : Bytes} {fields : List (Field Conversion)}
    {entries left : List Entry} {pairs : List (Value × Value)}
    (result : castFields expected fields entries = .ok (pairs, left)) :
    Drawn fields entries pairs := by
  induction fields generalizing entries pairs with
  | nil =>
    obtain ⟨rfl, rfl⟩ := Prod.mk.inj (Except.ok.inj result)
    exact ⟨nofun, List.nodup_nil⟩
  | cons f rest ih =>
    rw [castFields] at result
    split at result
    · split at result
      · exact (ih result).later
      · contradiction
    · rename_i x found
      split at result
      · contradiction
      · rename_i y converted
        split at result
        · contradiction
        · rename_i remaining
          obtain ⟨rfl, rfl⟩ := Prod.mk.inj (Except.ok.inj result)
          exact (ih remaining).taken found converted

theorem castShape_orderly {fields : List (Field Conversion)}
    (inner : ∀ f ∈ fields, GivesOrderly f.type) (expected : Bytes) :
    GivesOrderly (castShape expected fields) := by
  intro bound v w decoded result
  rw [castShape] at result
  split at result
  · contradiction
  · rename_i entries contents
    split at result
    · contradiction
    · rename_i pairs converted
      obtain rfl := Except.ok.inj result
      have drawn := drawn_of_castFields converted
      apply (Value.orderly_map_iff _ pairs).mpr
      refine ⟨Or.inl rfl, ?_, drawn.distinct, ?_⟩
      · intro p member
        obtain ⟨_, _, key, _⟩ := drawn.origin p member
        rw [key]
        rfl
      · intro p member
        obtain ⟨f, declared, key, e, inside, _, valued⟩ := drawn.origin p member
        refine ⟨by rw [key]; rfl, ?_⟩
        exact inner f declared (Value.every_entry decoded contents inside) valued
    · contradiction

theorem Ty.cast_orderly (t : Ty) : GivesOrderly t.cast := by
  induction t using Ty.induct with
  | mixed =>
    intro bound v w decoded result
    obtain rfl := Except.ok.inj result
    exact Value.orderly_of_decoded decoded
  | null | bool | integer | float | string =>
    intro bound v w _ result
    rw [cast] at result
    split at result
    · obtain rfl := Except.ok.inj result
      rfl
    · contradiction
  | boolLit value | integerLit value | floatLit value | stringLit value quote =>
    intro bound v w _ result
    rw [cast] at result
    split at result
    · contradiction
    · split at result
      · obtain rfl := Except.ok.inj result
        rfl
      · contradiction
  | arrayKey kind =>
    intro bound v w _ result
    exact Value.orderly_hostKey (KeyKind.isHostKey_of_cast result)
  | union members ih =>
    intro bound v w decoded result
    obtain ⟨m, member, converted⟩ := cast_union_eq_ok result
    exact ih m member decoded converted
  | array key value ih => exact castArray_orderly key ih _
  | list value ih => exact castList_orderly ih _
  | shape fields ih =>
    refine castShape_orderly ?_ _
    rw [fieldCasts_eq]
    intro c member
    obtain ⟨f, declared, rfl⟩ := List.mem_map.mp member
    exact ih f declared
  | unknown name accepted =>
    intro bound v w decoded result
    obtain ⟨-, rfl⟩ := cast_unknown_eq_ok_iff.mp result
    exact Value.orderly_of_decoded decoded

end Conform
