import Mathlib.Data.List.Forall2

/-! Lists whose elements correspond one by one. -/
namespace Conform

variable {α β : Type} {R : α → β → Prop} {as : List α} {bs : List β}

theorem exists_forall₂ (each : ∀ a ∈ as, ∃ b, R a b) : ∃ bs, List.Forall₂ R as bs := by
  induction as with
  | nil => exact ⟨[], .nil⟩
  | cons a as ih =>
    obtain ⟨⟨b, first⟩, others⟩ := List.forall_mem_cons.mp each
    obtain ⟨bs, rest⟩ := ih others
    exact ⟨b :: bs, .cons first rest⟩

theorem exists_left_of_forall₂ (each : List.Forall₂ R as bs) {b : β} (member : b ∈ bs) :
    ∃ a ∈ as, R a b := by
  induction each with
  | nil => contradiction
  | cons first rest ih =>
    rcases List.mem_cons.mp member with rfl | inside
    · exact ⟨_, List.mem_cons_self, first⟩
    · obtain ⟨a, there, related⟩ := ih inside
      exact ⟨a, List.mem_cons_of_mem _ there, related⟩

theorem forall₂_of_mem {S : α → β → Prop} (gives : ∀ a ∈ as, ∀ b, R a b → S a b)
    (each : List.Forall₂ R as bs) : List.Forall₂ S as bs := by
  induction each with
  | nil => exact .nil
  | cons first rest ih =>
    obtain ⟨here, others⟩ := List.forall_mem_cons.mp gives
    exact .cons (here _ first) (ih others)

/-- A test that elements pass like their counterparts is passed by all of them alike. -/
theorem all_eq_of_forall₂ {p : α → Bool} {q : β → Bool} (agree : ∀ a b, R a b → p a = q b)
    (each : List.Forall₂ R as bs) : as.all p = bs.all q := by
  induction each with
  | nil => rfl
  | cons first _ ih => rw [List.all_cons, List.all_cons, agree _ _ first, ih]

/-- What holds of every element holds of every counterpart. -/
theorem forall_mem_iff_of_forall₂ {D P : α → Prop} {Q : β → Prop}
    (agree : ∀ {a b}, R a b → D a → (Q b ↔ P a)) (each : List.Forall₂ R as bs)
    (given : ∀ a ∈ as, D a) : (∀ b ∈ bs, Q b) ↔ ∀ a ∈ as, P a := by
  induction each with
  | nil => simp
  | cons first rest ih =>
    obtain ⟨here, given⟩ := List.forall_mem_cons.mp given
    rw [List.forall_mem_cons, List.forall_mem_cons, agree first here, ih given]

/-- What holds of any two elements holds of their counterparts. -/
theorem pairwise_iff_of_forall₂ {D P : α → α → Prop} {Q : β → β → Prop}
    (agree : ∀ {a a' b b'}, R a b → R a' b' → D a a' → (Q b b' ↔ P a a'))
    (each : List.Forall₂ R as bs) (given : as.Pairwise D) : bs.Pairwise Q ↔ as.Pairwise P := by
  induction each with
  | nil => simp
  | cons first rest ih =>
    rw [List.pairwise_cons] at given
    rw [List.pairwise_cons, List.pairwise_cons, ih given.2,
      forall_mem_iff_of_forall₂ (fun second => agree first second) rest given.1]

end Conform
