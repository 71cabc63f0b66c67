import Conform.Declaration.Parse

/-! The built-in words: which types they stand for, and how the words for arrays
and lists are told from the others. -/
namespace Conform.Declaration

/-- A choice is the first one whose condition holds. -/
theorem ite_eq_some {α : Type} {p : Prop} [Decidable p] {a b : α} {rest : Option α}
    (found : (if p then some a else rest) = some b) : (p ∧ a = b) ∨ rest = some b := by
  by_cases holds : p
  · rw [if_pos holds] at found
    exact Or.inl ⟨holds, Option.some.inj found⟩
  · rw [if_neg holds] at found
    exact Or.inr found

/-- The types that have a word of their own. -/
def wordTypes : List Ty :=
  [.integer, .string, .float, .bool, .mixed, .null, .boolLit true, .boolLit false, .arrayKey .any]

theorem keyword?_type {name : Bytes} {t : Ty} (found : keyword? name = some (.type t)) :
    t ∈ wordTypes := by
  rw [keyword?] at found
  iterate 9
    rcases ite_eq_some found with ⟨_, same⟩ | found
    · cases same
      simp [wordTypes]
  rcases ite_eq_some found with ⟨_, other⟩ | found
  · cases other
  · rcases ite_eq_some found with ⟨_, other⟩ | other <;> cases other

theorem keyword?_array (name : Bytes) :
    keyword? name = some .array ↔ Utf8.lower name = utf8 "array" := by
  constructor
  · intro found
    rw [keyword?] at found
    -- nine words for types come before the word for arrays
    iterate 9
      rcases ite_eq_some found with ⟨_, other⟩ | found
      · cases other
    rcases ite_eq_some found with ⟨same, _⟩ | found
    · exact same
    · rcases ite_eq_some found with ⟨_, other⟩ | other <;> cases other
  · intro same
    rw [keyword?, same]
    rfl

theorem keyword?_list (name : Bytes) :
    keyword? name = some .list ↔ Utf8.lower name = utf8 "list" := by
  constructor
  · intro found
    rw [keyword?] at found
    iterate 10
      rcases ite_eq_some found with ⟨_, other⟩ | found
      · cases other
    rcases ite_eq_some found with ⟨same, _⟩ | other
    · exact same
    · cases other
  · intro same
    rw [keyword?, same]
    rfl

/-- A name of a built-in type is neither the word for arrays nor that for lists. -/
theorem plain_of_keyword {name : Bytes} (array : keyword? name ≠ some .array)
    (list : keyword? name ≠ some .list) :
    Utf8.lower name ≠ utf8 "array" ∧ Utf8.lower name ≠ utf8 "list" := by
  constructor
  · intro same
    exact array ((keyword?_array name).mpr same)
  · intro same
    exact list ((keyword?_list name).mpr same)

end Conform.Declaration
