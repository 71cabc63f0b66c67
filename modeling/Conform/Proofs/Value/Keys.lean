import Conform.Proofs.Value.Entries
import Conform.Ty.Fits

/-! Plain keys. Shapes know a key by its text, arrays by its kind. The two agree
on the keys that are integers or texts that do not read as one. -/
namespace Conform

namespace Value

/-- An integer, or a text that does not read as one. -/
def isPlainKey : Value → Bool
  | .text s => (integerLiteral? s).isNone
  | v => v.isInteger

mutual

/-- Every map within the value has plain keys only, and every list is one that a
host can index. -/
def plainKeys : Value → Bool
  | .list _ items => items.length ≤ 0x8000000000000000 && plainItems items
  | .map _ entries => plainEntries entries
  | _ => true

def plainItems : List Value → Bool
  | [] => true
  | v :: rest => v.plainKeys && plainItems rest

def plainEntries : List (Value × Value) → Bool
  | [] => true
  | (k, v) :: rest => k.isPlainKey && v.plainKeys && plainEntries rest

end

theorem plainItems_iff (items : List Value) :
    plainItems items = true ↔ ∀ v ∈ items, v.plainKeys = true := by
  induction items with
  | nil => simp [plainItems]
  | cons v rest ih => simp [plainItems, ih]

theorem plainEntries_iff (entries : List (Value × Value)) : plainEntries entries = true ↔
    ∀ e ∈ entries, e.1.isPlainKey = true ∧ e.2.plainKeys = true := by
  induction entries with
  | nil => simp [plainEntries]
  | cons e rest ih => rw [plainEntries, Bool.and_eq_true, Bool.and_eq_true, ih, List.forall_mem_cons]

theorem mem_indexed {i : Nat} {items : List Value} {e : Entry} (member : e ∈ indexed i items) :
    ∃ j, j < i + items.length ∧ e.key = .int .int64 j ∧ e.value ∈ items := by
  induction items generalizing i with
  | nil => contradiction
  | cons v rest ih =>
    rcases List.mem_cons.mp member with rfl | member
    · exact ⟨i, by simp, rfl, by simp⟩
    · obtain ⟨j, bound, key, value⟩ := ih member
      exact ⟨j, by rw [List.length_cons]; omega, key, by simp [value]⟩

theorem exists_indexed {v : Value} {items : List Value} (member : v ∈ items) (i : Nat) :
    ∃ e ∈ indexed i items, e.value = v := by
  induction items generalizing i with
  | nil => contradiction
  | cons w rest ih =>
    rcases List.mem_cons.mp member with rfl | inside
    · exact ⟨_, List.mem_cons_self, rfl⟩
    · obtain ⟨e, there, same⟩ := ih inside (i + 1)
      exact ⟨e, List.mem_cons_of_mem _ there, same⟩

theorem isInteger_index {j : Nat} (bound : j < 0x8000000000000000) :
    (Value.int .int64 j).isInteger = true := by
  have range : inInt64 (j : Int) = true := by
    simp only [inInt64, Bool.and_eq_true, decide_eq_true_eq]
    omega
  simp [isInteger, toInteger?, range]

/-- An entry of a value is an item of a list under its index, or a pair of a map. -/
theorem mem_entries {v : Value} {entries : List Entry} (contents : v.entries? = some entries)
    {e : Entry} (member : e ∈ entries) :
    (∃ kind items, v = .list kind items ∧
      ∃ j : Nat, j < items.length ∧ e.key = .int .int64 j ∧ e.value ∈ items) ∨
    ∃ kind pairs, v = .map kind pairs ∧ (e.key, e.value) ∈ pairs := by
  cases v with
  | list kind items =>
    obtain rfl := Option.some.inj contents
    obtain ⟨j, bound, key, value⟩ := mem_indexed member
    rw [Nat.zero_add] at bound
    exact Or.inl ⟨kind, items, rfl, j, bound, key, value⟩
  | map kind pairs =>
    simp only [entries?] at contents
    split at contents
    · contradiction
    · obtain rfl := Option.some.inj contents
      obtain ⟨pair, inside, rfl⟩ := List.mem_map.mp ((sortBy_perm _ _).mem_iff.mp member)
      exact Or.inr ⟨kind, pairs, rfl, inside⟩
  | _ => contradiction

/-- The entries of a value with plain keys have plain keys, at any depth. -/
theorem plain_of_entry {v : Value} (plain : v.plainKeys = true) {entries : List Entry}
    (contents : v.entries? = some entries) {e : Entry} (member : e ∈ entries) :
    e.key.isPlainKey = true ∧ e.value.plainKeys = true := by
  rcases mem_entries contents member with
    ⟨kind, items, rfl, j, bound, key, value⟩ | ⟨kind, pairs, rfl, pair⟩
  · simp only [plainKeys, Bool.and_eq_true, decide_eq_true_eq, plainItems_iff] at plain
    refine ⟨?_, plain.2 _ value⟩
    rw [key, isPlainKey]
    · exact isInteger_index (by omega)
    · exact fun _ same => Value.noConfusion same
  · exact (plainEntries_iff pairs).mp plain _ pair

end Value

/-- On plain keys, what a kind says of the text is what it says of the key. -/
theorem KeyKind.admitsText_keyText (kind : KeyKind) {key : Value} (plain : key.isPlainKey = true) :
    kind.admitsText key.keyText = kind.accepts key := by
  cases key with
  | text s =>
    have none : (integerLiteral? s).isSome = false := by
      simpa [Value.isPlainKey] using plain
    simp [admitsText, accepts, Value.keyText, Value.shown, none, Value.isInteger, Value.toInteger?,
      Value.isText]
  | int width n =>
    have range : inInt64 n = true := by
      simpa [Value.isPlainKey, Value.isInteger, Value.toInteger?] using plain
    simp [admitsText, accepts, Value.keyText, Value.shown, integerLiteral?_decimalInt range, range,
      Value.isInteger, Value.toInteger?, Value.isText]
  | _ => contradiction

end Conform
