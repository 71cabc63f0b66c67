import Conform.Proofs.Ty.CastParts
import Conform.Proofs.Ty.Parts
import Conform.Proofs.Value.Decoded
import Conform.Proofs.Value.Order
import Conform.Proofs.Value.Written

/-! Conversion into arrays, entry by entry. The keys of a document are told apart by
their texts, but integer keys are told apart by the numbers that the texts read
as: "1" and "+1" are two keys before a conversion and one key after it, and only
the later element is left. A conversion into an array has as many elements as it
was given exactly when no two keys that become integers read as one number. -/
namespace Conform

namespace Value

/-- The number of elements of a container. -/
def size : Value → Nat
  | .list _ items => items.length
  | .map _ pairs => pairs.length
  | _ => 0

theorem length_indexed (i : Nat) (items : List Value) : (indexed i items).length = items.length := by
  induction items generalizing i with
  | nil => rfl
  | cons v rest ih => rw [indexed, List.length_cons, ih, List.length_cons]

theorem length_entries {v : Value} {entries : List Entry} (contents : v.entries? = some entries) :
    entries.length = v.size := by
  cases v with
  | list kind items =>
    obtain rfl := Option.some.inj contents
    exact length_indexed 0 items
  | map kind pairs =>
    simp only [entries?] at contents
    split at contents
    · contradiction
    · obtain rfl := Option.some.inj contents
      rw [(sortBy_perm _ _).length_eq, List.length_map, size]
  | _ => contradiction

theorem ofInt64_inj {m n : Int64} : ofInt64 m = ofInt64 n ↔ m = n := by
  rw [ofInt64, ofInt64, Value.int.injEq, Int64.toInt_inj]
  exact and_iff_right rfl

end Value

/-- Both keys read as one integer, and the kind has integers. -/
def KeyKind.Merges (kind : KeyKind) (k l : Value) : Prop :=
  kind.integers = true ∧ ∃ n, k.castInteger = some n ∧ l.castInteger = some n

/-- Keys of different texts become one key exactly when they read as one integer. -/
theorem KeyKind.cast_eq_iff_merges {kind : KeyKind} {k l k' l' : Value}
    (host : k.isHostKey = true) (host' : l.isHostKey = true)
    (converted : kind.cast k = .ok k') (converted' : kind.cast l = .ok l')
    (apart : k.keyText ≠ l.keyText) : k' = l' ↔ kind.Merges k l := by
  rcases (kind.cast_eq_ok_iff k k').mp converted with
    ⟨integers, m, first, rfl⟩ | ⟨left, _, s, text, rfl⟩
  · rcases (kind.cast_eq_ok_iff l l').mp converted' with
      ⟨_, n, second, rfl⟩ | ⟨left, _, t, _, rfl⟩
    · rw [Value.ofInt64_inj, KeyKind.Merges, first, second]
      simp [integers, eq_comm]
    · simp [KeyKind.Merges, Value.ofInt64, left integers]
  · rcases (kind.cast_eq_ok_iff l l').mp converted' with
      ⟨integers, n, second, rfl⟩ | ⟨_, _, t, text', rfl⟩
    · simp [KeyKind.Merges, Value.ofInt64, left integers]
    · have different : s ≠ t := by
        rw [← Value.keyText_of_castText host text, ← Value.keyText_of_castText host' text']
        exact apart
      constructor
      · intro same
        exact absurd (Value.text.inj same) different
      · rintro ⟨integers, n, first, _⟩
        rw [left integers] at first
        contradiction

namespace Ty

/-- A conversion of what was read into an array gives as many elements as there were
exactly when no two keys are merged. -/
theorem length_cast_array_iff {key : KeyKind} {value : Ty} {text : Bytes} {v w : Value}
    (read : Value.readJson text = .ok v) (result : (Ty.array key value).cast v = .ok w) :
    ∃ entries pairs, v.entries? = some entries ∧ w = .map .general pairs ∧
      (pairs.length = v.size ↔ entries.Pairwise fun a b => ¬ key.Merges a.key b.key) := by
  have decoded := Value.readJson_decoded read
  rw [cast, castArray] at result
  split at result
  · contradiction
  · rename_i entries contents
    split at result
    · rename_i pairs converts
      refine ⟨entries, pairs, contents, (Except.ok.inj result).symm, ?_⟩
      obtain ⟨converted, each, rfl⟩ := castEntries_eq_ok_iff.mp converts
      have hosts : Value.HostKeys converted := by
        intro p member
        obtain ⟨e, _, converts⟩ := exists_left_of_forall₂ each member
        exact KeyKind.isHostKey_of_cast converts.1
      have keyed : ∀ e ∈ entries, e.key.isHostKey = true := by
        intro e member
        exact Value.decoded_hostKey decoded contents member
      have apart : entries.Pairwise fun a b => (a.key.isHostKey = true ∧ b.key.isHostKey = true) ∧
          a.key.keyText ≠ b.key.keyText := by
        have texts := List.pairwise_map.mp (Value.keyTexts_nodup contents)
        refine texts.imp_of_mem ?_
        intro a b aMember bMember different
        exact ⟨⟨keyed a aMember, keyed b bMember⟩, different⟩
      rw [← Value.length_entries contents, each.length_eq, Value.length_setAll_iff hosts,
        Value.pairKeys, List.Nodup, List.pairwise_map]
      refine pairwise_iff_of_forall₂ ?_ each apart
      intro a b p q first second given
      exact not_congr (KeyKind.cast_eq_iff_merges given.1.1 given.1.2 first.1 second.1 given.2)
    · contradiction

/-- Three keys of which two read as one number: two elements are left, and with keys that
stay texts all three. -/
theorem length_cast_array_signed :
    let document : Json := .object [("1", .string "a"), ("x", .null), (" +1", .number (decimalInt 7))]
    let v : Value := .map .text [(.text "1", .text "a"), (.text "x", .null), (.text " +1", .int .int64 7)]
    let w : Value := .map .general [(.int .int64 1, .text "a"), (.text "x", .null)]
    let w' : Value := .map .general
      [(.text " +1", .int .int64 7), (.text "1", .text "a"), (.text "x", .null)]
    (Value.readJson document.write = .ok v ∧ (Ty.array .any .mixed).cast v = .ok w ∧
      (Ty.array .string .mixed).cast v = .ok w') ∧
    (∃ entries pairs, v.entries? = some entries ∧ w = .map .general pairs ∧
      (pairs.length = v.size ↔ entries.Pairwise fun a b => ¬ KeyKind.any.Merges a.key b.key)) ∧
    ∃ entries pairs, v.entries? = some entries ∧ w' = .map .general pairs ∧
      (pairs.length = v.size ↔ entries.Pairwise fun a b => ¬ KeyKind.string.Merges a.key b.key) := by
  intro document v w w'
  have read : Value.readJson document.write = .ok v :=
    Value.readJson_write ⟨⟨rfl, rfl⟩, ⟨rfl, trivial⟩, ⟨rfl, Json.numeral_decimalInt 7⟩, trivial⟩
  have merged : (Ty.array .any .mixed).cast v = .ok w := by rfl
  have kept : (Ty.array .string .mixed).cast v = .ok w' := by rfl
  exact ⟨⟨read, merged, kept⟩, length_cast_array_iff read merged, length_cast_array_iff read kept⟩

/-- Two elements of a document become one, without an error. -/
theorem cast_array_loses_element :
    ∃ v w, Value.readJson (Json.object [("1", .string "a"), ("+1", .string "b")]).write = .ok v ∧
      (Ty.array .integer .string).Regular ∧ (Ty.array .integer .string).cast v = .ok w ∧
      v.size = 2 ∧ w.size = 1 := by
  refine ⟨.map .text [(.text "1", .text "a"), (.text "+1", .text "b")],
    .map .general [(.int .int64 1, .text "a")], ?_, ⟨by decide, by decide⟩, by rfl, rfl, rfl⟩
  exact Value.readJson_write ⟨⟨rfl, rfl⟩, ⟨rfl, rfl⟩, trivial⟩

end Ty

end Conform
