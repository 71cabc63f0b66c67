import Conform.Recent

/-! What holds of all entries of a bounded memory. Whatever is forgotten, an
entry that is there was put there; so a property of every value that is put in
is one of every value that is found. -/
namespace Conform.Recent

variable {α β ε : Type} {P : α → β → Prop}

/-- Every remembered value has the property with its key. -/
def All (P : α → β → Prop) (r : Recent α β) : Prop := ∀ e ∈ r.entries, P e.1 e.2

theorem all_empty (capacity : Nat) : All P (empty capacity) := nofun

variable [DecidableEq α] {r : Recent α β}

theorem All.add (all : All P r) {key : α} {value : β} (holds : P key value) :
    All P (r.add key value) := by
  intro e member
  rcases List.mem_cons.mp (List.mem_of_mem_take member) with rfl | member
  · exact holds
  · exact all e (List.mem_filter.mp member).1

theorem All.find? (all : All P r) {key : α} {value : β} (found : r.find? key = some value) :
    P key value := by
  obtain ⟨⟨k, v⟩, first, rfl⟩ := Option.map_eq_some_iff.mp found
  have same : k = key := by simpa using List.find?_some first
  rw [← same]
  exact all (k, v) (List.mem_of_find?_eq_some first)

/-- Looking a key up keeps the property, and what is found has it. -/
theorem All.get (all : All P r) (key : α) :
    All P (r.get key).2 ∧ ∀ value, (r.get key).1 = some value → P key value := by
  rw [Recent.get]
  cases found : r.find? key with
  | none => exact ⟨all, nofun⟩
  | some value =>
    refine ⟨all.add (all.find? found), ?_⟩
    rintro _ ⟨⟩
    exact all.find? found

theorem capacity_get (r : Recent α β) (key : α) : (r.get key).2.capacity = r.capacity := by
  rw [get]
  cases r.find? key <;> rfl

/-- A key that is there moves to the front. -/
theorem get_of_found {key : α} {value : β} (found : (r.get key).1 = some value) :
    (r.get key).2 = r.add key value := by
  rw [get] at found ⊢
  cases sought : r.find? key with
  | none =>
    rw [sought] at found
    contradiction
  | some x =>
    rw [sought] at found
    obtain rfl : x = value := Option.some.inj found
    rfl

/-- What was put in last is found. -/
theorem get_add (room : 0 < r.capacity) (key : α) (value : β) :
    ((r.add key value).get key).1 = some value := by
  have found : (r.add key value).find? key = some value := by
    obtain ⟨n, full⟩ := Nat.exists_eq_add_of_lt room
    rw [Nat.zero_add] at full
    simp only [find?, add, full, List.take_succ_cons, List.find?_cons, decide_true, Option.map_some]
  rw [get, found]

/-! ### Keys -/

/-- The remembered keys, the one used last first. -/
def keys (r : Recent α β) : List α := r.entries.map Prod.fst

omit [DecidableEq α] in
theorem size_eq (r : Recent α β) : r.size = r.keys.length := (List.length_map Prod.fst).symm

theorem keys_add (r : Recent α β) (key : α) (value : β) :
    (r.add key value).keys = (key :: r.keys.filter (· ≠ key)).take r.capacity := by
  rw [keys, add, List.map_take, List.map_cons, keys, List.filter_map]
  rfl

theorem mem_keys_iff {key : α} : key ∈ r.keys ↔ ∃ value, r.find? key = some value := by
  rw [← Option.isSome_iff_exists, find?, Option.isSome_map, List.find?_isSome, keys, List.mem_map]
  simp only [decide_eq_true_eq]

theorem mem_of_find? {key : α} {value : β} (found : r.find? key = some value) :
    (key, value) ∈ r.entries := by
  have all : r.All fun k v => (k, v) ∈ r.entries := fun _ member => member
  exact all.find? found

/-- Every key is there once, and there is room for all. -/
structure Proper (r : Recent α β) : Prop where
  distinct : r.keys.Nodup
  bounded : r.size ≤ r.capacity

omit [DecidableEq α] in
theorem proper_empty (capacity : Nat) : (empty capacity : Recent α β).Proper :=
  ⟨List.nodup_nil, Nat.zero_le capacity⟩

namespace Proper

theorem add (proper : r.Proper) (key : α) (value : β) : (r.add key value).Proper := by
  refine ⟨?_, ?_⟩
  · rw [keys_add]
    refine (List.nodup_cons.mpr ⟨?_, proper.distinct.filter _⟩).sublist (List.take_sublist _ _)
    simp
  · exact List.length_take_le _ _

/-- A key that is moved to the front takes its own place. -/
theorem add_perm (proper : r.Proper) {key : α} {value : β} (found : r.find? key = some value) :
    (r.add key value).entries.Perm r.entries := by
  obtain ⟨before, after, split⟩ := List.append_of_mem (mem_of_find? found)
  have distinct := proper.distinct
  have bounded := proper.bounded
  rw [keys, split, List.map_append, List.map_cons] at distinct
  obtain ⟨_, later, apart⟩ := List.nodup_append.mp distinct
  have others : r.entries.filter (fun e => e.1 ≠ key) = before ++ after := by
    have front : before.filter (fun e => e.1 ≠ key) = before :=
      List.filter_eq_self.mpr fun e member => decide_eq_true
        (apart e.1 (List.mem_map_of_mem member) key List.mem_cons_self)
    have back : after.filter (fun e => e.1 ≠ key) = after := by
      refine List.filter_eq_self.mpr fun e member => decide_eq_true fun same => ?_
      have inside : e.1 ∈ after.map Prod.fst := List.mem_map_of_mem member
      rw [same] at inside
      exact (List.nodup_cons.mp later).1 inside
    rw [split, List.filter_append, front, List.filter_cons_of_neg (by simp), back]
  have perm : ((key, value) :: (before ++ after)).Perm r.entries := by
    rw [split]
    exact List.perm_middle.symm
  have room := Nat.le_trans (Nat.le_of_eq perm.length_eq) bounded
  rw [Recent.add, others, List.take_of_length_le room]
  exact perm

theorem get_perm (proper : r.Proper) (key : α) : (r.get key).2.entries.Perm r.entries := by
  rw [Recent.get]
  cases found : r.find? key with
  | none => exact .refl _
  | some value => exact proper.add_perm found

theorem get (proper : r.Proper) (key : α) : (r.get key).2.Proper := by
  rw [Recent.get]
  cases r.find? key with
  | none => exact proper
  | some value => exact proper.add key value

end Proper

/-! ### Values on demand -/

/-- A value that is there is used, and nothing is made. -/
theorem rememberM_of_find? {m : Type → Type} [Monad m] {make : α → m (Except ε β)} {key : α}
    {value : β} (found : r.find? key = some value) :
    r.rememberM make key = pure (.ok value, r.add key value) := by
  rw [rememberM, get, found]

/-- A value that is not there is made, and remembered unless that fails. -/
theorem rememberM_of_absent {m : Type → Type} [Monad m] {make : α → m (Except ε β)} {key : α}
    (absent : r.find? key = none) :
    r.rememberM make key = (do
      match ← make key with
      | .ok value => pure (.ok value, r.add key value)
      | .error e => pure (.error e, r)) := by
  rewrite [rememberM, get, absent]
  rfl

/-- A memory of a function's results answers as the function does. -/
theorem All.remember {make : α → Except ε β} (all : All (fun k v => make k = .ok v) r) (key : α) :
    (r.remember make key).1 = make key ∧
      All (fun k v => make k = .ok v) (r.remember make key).2 := by
  rw [Recent.remember]
  cases sought : r.find? key with
  | some value =>
    rw [rememberM_of_find? sought]
    exact ⟨(all.find? sought).symm, all.add (all.find? sought)⟩
  | none =>
    rw [rememberM_of_absent sought]
    cases result : make key with
    | ok value => exact ⟨rfl, all.add result⟩
    | error e => exact ⟨rfl, all⟩

end Conform.Recent
