import Conform.Proofs.Json.Reading
import Conform.Proofs.Value.Parts
import Conform.Proofs.Value.Setting
import Conform.Value.Json

/-! What can be read from a JSON text: null, booleans, texts, integers of 64 bits,
floats, lists that are no longer than the text, and maps from distinct texts. -/
namespace Conform

namespace Json

/-- No array of the document is longer than the bound. -/
inductive Within (bound : Nat) : Json → Prop
  | null : Within bound .null
  | bool (b : Bool) : Within bound (.bool b)
  | number (text : Bytes) : Within bound (.number text)
  | string (text : Bytes) : Within bound (.string text)
  | array {items : List Json} : items.length ≤ bound → (∀ item ∈ items, Within bound item) →
      Within bound (.array items)
  | object {members : List (Bytes × Json)} : (∀ m ∈ members, Within bound m.2) →
      Within bound (.object members)

theorem value_within {text : List StringUnit → Bytes} {length depth : Nat} {input rest : Bytes}
    {j : Json} (read : value text length depth input = some (j, rest)) : j.Within length := by
  refine value_gives (P := fun _ j => j.Within length) ?_ ?_ ?_ read
  · intro _ j plain
    cases j <;> first | contradiction | constructor
  · exact fun _ _ bound each => .array bound each
  · exact fun _ _ each => .object each

theorem read?_within {text : List StringUnit → Bytes} {depth : Nat} {input : Bytes} {j : Json}
    (read : read? text depth input = some j) : j.Within input.length := by
  rw [read?] at read
  split at read
  · rename_i found
    split at read
    · obtain rfl := Option.some.inj read
      exact value_within found
    · contradiction
  · contradiction

end Json

namespace Value

/-- A part of a value that was read, its own parts aside. -/
def decodedPart (bound : Nat) : Value → Bool
  | .int kind n => kind == .int64 && inInt64 n
  | .list kind items => kind == .general && decide (items.length ≤ bound)
  | .map kind pairs =>
    kind == .text && pairs.all (fun p => p.1.isText) && decide (pairTexts pairs).Nodup
  | .single _ => false
  | .foreign _ => false
  | _ => true

/-- A value as a JSON text gives it, with lists up to a length. -/
def decoded (bound : Nat) (v : Value) : Bool := v.every (decodedPart bound)

theorem ofJsonItems_eq (items : List Json) : ofJsonItems items = items.map ofJson := by
  induction items with
  | nil => rfl
  | cons item rest ih => rw [ofJsonItems, ih, List.map_cons]

/-- A member of a document as an entry of a map. -/
def ofMember (m : Bytes × Json) : Value × Value := (.text m.1, ofJson m.2)

theorem ofJsonMembers_eq (done : List (Value × Value)) (members : List (Bytes × Json)) :
    ofJsonMembers done members = setAll done (members.map ofMember) := by
  induction members generalizing done with
  | nil => rfl
  | cons m rest ih => rw [ofJsonMembers, ih, List.map_cons, setAll_cons, ofMember]

theorem hostKeys_ofMember (members : List (Bytes × Json)) : HostKeys (members.map ofMember) := by
  intro p member
  obtain ⟨m, _, rfl⟩ := List.mem_map.mp member
  rfl

theorem ofNumeral_decoded (bound : Nat) (numeral : Bytes) :
    (ofNumeral numeral).decoded bound = true := by
  rw [ofNumeral]
  split
  · rename_i n _
    simp [decoded, every, decodedPart, ofInt64, inInt64_toInt]
  · split
    split <;> rfl

theorem isText_iff {v : Value} : v.isText = true ↔ ∃ s, v = .text s := by
  cases v <;> simp [isText]

theorem ofJson_decoded {bound : Nat} {j : Json} (within : j.Within bound) :
    (ofJson j).decoded bound = true := by
  induction within with
  | null => rfl
  | bool b => rfl
  | number text => exact ofNumeral_decoded bound text
  | string text => rfl
  | @array items length _ ih =>
    rw [ofJson, ofJsonItems_eq, decoded, every_list_iff]
    refine ⟨by simp [decodedPart, length], ?_⟩
    intro v member
    obtain ⟨item, inside, rfl⟩ := List.mem_map.mp member
    exact ih item inside
  | @object members _ ih =>
    rw [ofJson, ofJsonMembers_eq, decoded, every_map_iff]
    have given : ∀ p ∈ setAll [] (members.map ofMember), ∃ m ∈ members, ofMember m = p := by
      intro p member
      exact List.mem_map.mp ((mem_setAll member).resolve_left List.not_mem_nil)
    have texts : ∀ p ∈ setAll [] (members.map ofMember), p.1.isText = true := by
      intro p member
      obtain ⟨m, _, rfl⟩ := given p member
      rfl
    have distinct : (pairTexts (setAll [] (members.map ofMember))).Nodup := by
      refine pairTexts_nodup ?_
        (pairKeys_setAll_nodup (List.forall_mem_nil _) (hostKeys_ofMember members) List.nodup_nil)
      intro p pMember q qMember same
      obtain ⟨m, _, rfl⟩ := given p pMember
      obtain ⟨n, _, rfl⟩ := given q qMember
      exact congrArg Value.text same
    constructor
    · simp only [decodedPart, distinct, decide_true, List.all_eq_true.mpr texts, beq_self_eq_true,
        Bool.and_self]
    · intro p member
      obtain ⟨m, inside, rfl⟩ := given p member
      exact ⟨rfl, ih m inside⟩

/-- What is read from a text is decoded, and no list of it is longer than the text. -/
theorem readJson_decoded {text : Bytes} {v : Value} (read : readJson text = .ok v) :
    v.decoded text.length = true := by
  rw [readJson] at read
  split at read
  · contradiction
  · split at read
    · rename_i found
      obtain rfl := Except.ok.inj read
      exact ofJson_decoded (Json.read?_within found)
    · contradiction

section Decoded

variable {bound : Nat} {v : Value}

theorem decoded_map {kind : MapKind} {pairs : List (Value × Value)}
    (decoded : (Value.map kind pairs).decoded bound = true) :
    kind = .text ∧ (∀ p ∈ pairs, p.1.isText = true) ∧ (pairTexts pairs).Nodup := by
  have part := ((every_map_iff kind pairs).mp decoded).1
  simp only [decodedPart, Bool.and_eq_true, beq_iff_eq, List.all_eq_true, decide_eq_true_eq] at part
  exact ⟨part.1.1, part.1.2, part.2⟩

theorem decoded_list {kind : ListKind} {items : List Value}
    (decoded : (Value.list kind items).decoded bound = true) :
    kind = .general ∧ items.length ≤ bound := by
  have part := ((every_list_iff kind items).mp decoded).1
  simpa only [decodedPart, Bool.and_eq_true, beq_iff_eq, decide_eq_true_eq] using part

/-- The entries of a decoded value have an index or a text as key. -/
theorem decoded_entry (decoded : v.decoded bound = true) {entries : List Entry}
    (contents : v.entries? = some entries) {e : Entry} (member : e ∈ entries) :
    ((∃ j : Nat, j < bound ∧ e.key = .int .int64 j) ∨ ∃ s, e.key = .text s) ∧
      e.value.decoded bound = true := by
  refine ⟨?_, every_entry decoded contents member⟩
  rcases mem_entries contents member with
    ⟨kind, items, rfl, j, below, key, _⟩ | ⟨kind, pairs, rfl, pair⟩
  · exact Or.inl ⟨j, Nat.lt_of_lt_of_le below (decoded_list decoded).2, key⟩
  · exact Or.inr (isText_iff.mp ((decoded_map decoded).2.1 _ pair))

theorem decoded_hostKey (decoded : v.decoded bound = true) {entries : List Entry}
    (contents : v.entries? = some entries) {e : Entry} (member : e ∈ entries) :
    e.key.isHostKey = true := by
  rcases (decoded_entry decoded contents member).1 with ⟨j, _, key⟩ | ⟨s, key⟩
  · rw [key]
    rfl
  · rw [key]
    rfl

end Decoded

end Value

end Conform
