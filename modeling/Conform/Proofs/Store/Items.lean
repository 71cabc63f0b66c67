import Conform.Store
import Mathlib.Logic.Function.Basic

/-! Named pieces of data as a map from names: what is set is found from then on,
and a selection of names is set, kept and removed like a map of its own. -/
namespace Conform

theorem Items.mem_of_find? {items : Items} {key data : Bytes} (found : items.find? key = some data) :
    ∃ name, (name, data) ∈ items := by
  induction items with
  | nil => contradiction
  | cons item rest ih =>
    obtain ⟨name, old⟩ := item
    rw [Items.find?] at found
    split at found
    · obtain rfl := Option.some.inj found
      exact ⟨name, by simp⟩
    · obtain ⟨other, member⟩ := ih found
      exact ⟨other, by simp [member]⟩

theorem Items.mem_set {items : Items} {key data : Bytes} {item : Bytes × Bytes}
    (member : item ∈ items.set key data) : item = (key, data) ∨ item ∈ items := by
  induction items with
  | nil => exact .inl (List.mem_singleton.mp member)
  | cons first rest ih =>
    obtain ⟨name, old⟩ := first
    rw [Items.set] at member
    split at member
    · rcases List.mem_cons.mp member with rfl | member
      · exact .inl rfl
      · exact .inr (by simp [member])
    · rcases List.mem_cons.mp member with rfl | member
      · exact .inr (by simp)
      · rcases ih member with rfl | member
        · exact .inl rfl
        · exact .inr (by simp [member])

theorem Items.find?_set (items : Items) (name data : Bytes) :
    (items.set name data).find? = Function.update items.find? name (some data) := by
  funext other
  induction items with
  | nil =>
    rw [Items.set, Function.update_apply]
    simp only [Items.find?, @eq_comm _ name]
  | cons item rest ih =>
    obtain ⟨first, old⟩ := item
    rw [Items.set]
    split
    · rename_i same
      subst same
      rw [Function.update_apply, Items.find?, Items.find?]
      by_cases found : first = other
      · simp [found]
      · simp [found, Ne.symm found]
    · rename_i different
      rw [Function.update_apply, Items.find?, ih, Function.update_apply, Items.find?]
      by_cases found : first = other
      · subst found
        simp [different]
      · simp [found]

namespace Items

/-- The items whose names pass a test. -/
def selected (test : Bytes → Bool) (items : Items) : Items := items.filter fun item => test item.1

variable {test : Bytes → Bool} {name : Bytes}

theorem find?_selected (passes : test name = true) (items : Items) :
    (items.selected test).find? name = items.find? name := by
  induction items with
  | nil => rfl
  | cons item rest ih =>
    obtain ⟨first, data⟩ := item
    rw [selected, List.filter_cons, Items.find?]
    by_cases same : first = name
    · subst same
      rw [if_pos passes, Items.find?, if_pos rfl, if_pos rfl]
    · rw [if_neg same, ← ih]
      split
      · rw [Items.find?, if_neg same, selected]
      · rfl

theorem selected_set (passes : test name = true) (items : Items) (data : Bytes) :
    (items.set name data).selected test = (items.selected test).set name data := by
  induction items with
  | nil => simp [Items.set, selected, passes]
  | cons item rest ih =>
    obtain ⟨first, old⟩ := item
    rw [selected] at ih
    rw [Items.set, selected, selected, List.filter_cons]
    by_cases same : first = name
    · subst same
      simp [passes, Items.set]
    · rw [if_neg same, List.filter_cons]
      split
      · rw [ih, Items.set, if_neg same, selected]
      · rw [ih, selected]

theorem selected_set_other (fails : test name = false) (items : Items) (data : Bytes) :
    (items.set name data).selected test = items.selected test := by
  induction items with
  | nil => simp [Items.set, selected, fails]
  | cons item rest ih =>
    obtain ⟨first, old⟩ := item
    rw [selected, selected] at ih
    rw [Items.set, selected, selected]
    split
    · rename_i same
      subst same
      simp [fails]
    · rw [List.filter_cons, List.filter_cons, ih]

theorem selected_remove (fails : test name = false) (items : Items) :
    (items.remove name).selected test = items.selected test := by
  rw [selected, selected, remove, List.filter_filter]
  apply List.filter_congr
  intro item _
  by_cases same : item.1 = name
  · simp [same, fails]
  · simp [same]

end Items

end Conform
