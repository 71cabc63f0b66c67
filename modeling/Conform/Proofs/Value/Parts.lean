import Conform.Proofs.Value.Keys

/-! Reasoning over the parts of a value: the items of lists, the keys and the
values of maps, at any depth. -/
namespace Conform.Value

/-- A property holds of every value once it is inherited from the parts. -/
@[elab_as_elim]
theorem induct {P : Value → Prop} (null : P .null) (bool : ∀ b, P (.bool b))
    (int : ∀ kind n, P (.int kind n)) (double : ∀ x, P (.double x)) (single : ∀ x, P (.single x))
    (text : ∀ s, P (.text s))
    (list : ∀ kind items, (∀ v ∈ items, P v) → P (.list kind items))
    (map : ∀ kind pairs, (∀ p ∈ pairs, P p.1 ∧ P p.2) → P (.map kind pairs))
    (foreign : ∀ v, P (.foreign v)) (v : Value) : P v := by
  refine @Value.rec P (fun items => ∀ v ∈ items, P v) (fun pairs => ∀ p ∈ pairs, P p.1 ∧ P p.2)
    (fun p => P p.1 ∧ P p.2) null bool int double single text list map foreign ?_ ?_ ?_ ?_ ?_ v
  · intro v member
    contradiction
  · intro first rest hfirst hrest v member
    rcases List.mem_cons.mp member with rfl | member
    · exact hfirst
    · exact hrest v member
  · intro p member
    contradiction
  · intro first rest hfirst hrest p member
    rcases List.mem_cons.mp member with rfl | member
    · exact hfirst
    · exact hrest p member
  · intro key value hkey hvalue
    exact ⟨hkey, hvalue⟩

mutual

/-- The value and each of its parts, at any depth, pass. -/
def every (test : Value → Bool) : Value → Bool
  | .list kind items => test (.list kind items) && everyItem test items
  | .map kind pairs => test (.map kind pairs) && everyPair test pairs
  | v => test v

def everyItem (test : Value → Bool) : List Value → Bool
  | [] => true
  | v :: rest => v.every test && everyItem test rest

def everyPair (test : Value → Bool) : List (Value × Value) → Bool
  | [] => true
  | (k, v) :: rest => k.every test && v.every test && everyPair test rest

end

section Every

variable {test : Value → Bool}

theorem everyItem_iff (items : List Value) :
    everyItem test items = true ↔ ∀ v ∈ items, v.every test = true := by
  induction items with
  | nil => simp [everyItem]
  | cons v rest ih => simp [everyItem, ih]

theorem everyPair_iff (pairs : List (Value × Value)) : everyPair test pairs = true ↔
    ∀ p ∈ pairs, p.1.every test = true ∧ p.2.every test = true := by
  induction pairs with
  | nil => simp [everyPair]
  | cons p rest ih => rw [everyPair, Bool.and_eq_true, Bool.and_eq_true, ih, List.forall_mem_cons]

theorem every_list_iff (kind : ListKind) (items : List Value) :
    (Value.list kind items).every test = true ↔
      test (.list kind items) = true ∧ ∀ v ∈ items, v.every test = true := by
  rw [every, Bool.and_eq_true, everyItem_iff]

theorem every_map_iff (kind : MapKind) (pairs : List (Value × Value)) :
    (Value.map kind pairs).every test = true ↔ test (.map kind pairs) = true ∧
      ∀ p ∈ pairs, p.1.every test = true ∧ p.2.every test = true := by
  rw [every, Bool.and_eq_true, everyPair_iff]

/-- What two tests say of every part, a third one that they imply says too. -/
theorem every_of_both {first second third : Value → Bool}
    (both : ∀ v, first v = true → second v = true → third v = true) {v : Value}
    (left : v.every first = true) (right : v.every second = true) : v.every third = true := by
  induction v using Value.induct with
  | list kind items ih =>
    rw [every_list_iff] at left right ⊢
    refine ⟨both _ left.1 right.1, ?_⟩
    intro v member
    exact ih v member (left.2 v member) (right.2 v member)
  | map kind pairs ih =>
    rw [every_map_iff] at left right ⊢
    refine ⟨both _ left.1 right.1, ?_⟩
    intro p member
    exact ⟨(ih p member).1 (left.2 p member).1 (right.2 p member).1,
      (ih p member).2 (left.2 p member).2 (right.2 p member).2⟩
  | _ => exact both _ left right

/-- The elements of a container inherit what its parts pass. -/
theorem every_entry {v : Value} (passes : v.every test = true) {entries : List Entry}
    (contents : v.entries? = some entries) {e : Entry} (member : e ∈ entries) :
    e.value.every test = true := by
  rcases mem_entries contents member with ⟨kind, items, rfl, j, _, _, item⟩ | ⟨kind, pairs, rfl, pair⟩
  · exact ((every_list_iff kind items).mp passes).2 _ item
  · exact (((every_map_iff kind pairs).mp passes).2 _ pair).2

end Every

end Conform.Value
