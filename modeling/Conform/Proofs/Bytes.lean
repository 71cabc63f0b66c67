import Conform.Bytes
import Mathlib.Tactic.Common

/-! Facts about octets and texts that the other developments share. -/
namespace Conform

/-- A property of octets can be checked on the numbers of two hexadecimal digits. -/
theorem octet_cases {P : UInt8 → Prop} [DecidablePred P]
    (checked : ((List.range 16).all fun h => (List.range 16).all fun l =>
      decide (P (h * 16 + l).toUInt8)) = true) (b : UInt8) : P b := by
  have bound := b.toNat_lt
  simp only [List.all_eq_true, List.mem_range, decide_eq_true_eq] at checked
  have value := checked (b.toNat / 16) (by omega) (b.toNat % 16) (by omega)
  rwa [Nat.div_add_mod', Nat.toUInt8_eq, UInt8.ofNat_toNat] at value

theorem isUpper_of_digit {b : UInt8} (digit : isDigit b = true) : isUpper b = false :=
  octet_cases (P := fun b => isDigit b = true → isUpper b = false) (by decide) b digit

/-- A run of octets that pass a test is split off up to the first one that does not. -/
theorem split_run {test : UInt8 → Bool} {run rest : Bytes} (all : run.all test = true)
    (stop : ∀ b ∈ rest.head?, test b = false) :
    (run ++ rest).takeWhile test = run ∧ (run ++ rest).dropWhile test = rest := by
  have each : ∀ b ∈ run, test b = true := List.all_eq_true.mp all
  rw [List.takeWhile_append_of_pos each, List.dropWhile_append_of_pos each]
  cases rest with
  | nil => simp
  | cons b tail =>
    have none := stop b rfl
    simp [none]

/-- Two runs that end where they can end are the same when their texts are. -/
theorem run_cancel {test : UInt8 → Bool} {run run' rest rest' : Bytes} (all : run.all test = true)
    (all' : run'.all test = true) (stop : ∀ b ∈ rest.head?, test b = false)
    (stop' : ∀ b ∈ rest'.head?, test b = false) (same : run ++ rest = run' ++ rest') :
    run = run' ∧ rest = rest' := by
  obtain ⟨taken, dropped⟩ := split_run all stop
  obtain ⟨taken', dropped'⟩ := split_run all' stop'
  rw [same] at taken dropped
  exact ⟨taken.symm.trans taken', dropped.symm.trans dropped'⟩

/-- The text is empty or starts with an octet that passes. -/
def Starts (test : UInt8 → Bool) (text : Bytes) : Prop := ∀ b ∈ text.head?, test b = true

theorem Starts.nil (test : UInt8 → Bool) : Starts test [] := by
  intro b member
  contradiction

theorem Starts.cons {test : UInt8 → Bool} {b : UInt8} (rest : Bytes) (passes : test b = true) :
    Starts test (b :: rest) := by
  intro c member
  obtain rfl := Option.some.inj member
  exact passes

theorem Starts.head {test : UInt8 → Bool} {b : UInt8} {rest : Bytes}
    (starts : Starts test (b :: rest)) : test b = true := starts b rfl

theorem Bytes.join_cons (separator part : Bytes) (parts : List Bytes) :
    Bytes.join separator (part :: parts) = part ++ parts.flatMap (separator ++ ·) := by
  induction parts generalizing part with
  | nil => simp [Bytes.join]
  | cons next rest ih =>
    rw [Bytes.join, ih, List.flatMap_cons, List.append_assoc, List.append_assoc]
    exact List.cons_ne_nil next rest

theorem Bytes.join_concat (separator last : Bytes) {parts : List Bytes} (nonempty : parts ≠ []) :
    Bytes.join separator (parts ++ [last]) = Bytes.join separator parts ++ (separator ++ last) := by
  obtain ⟨first, rest, rfl⟩ := List.exists_cons_of_ne_nil nonempty
  rw [List.cons_append, Bytes.join_cons, Bytes.join_cons]
  simp

theorem Bytes.infix_join (separator : Bytes) {part : Bytes} {parts : List Bytes}
    (member : part ∈ parts) : part <:+: Bytes.join separator parts := by
  cases parts with
  | nil => contradiction
  | cons first rest =>
    rw [Bytes.join_cons]
    rcases List.mem_cons.mp member with rfl | member
    · exact (List.prefix_append _ _).isInfix
    · obtain ⟨before, after, rfl⟩ := List.append_of_mem member
      rw [List.flatMap_append, List.flatMap_cons]
      exact ⟨first ++ before.flatMap (separator ++ ·) ++ separator, after.flatMap (separator ++ ·),
        by simp only [List.append_assoc]⟩

theorem Bytes.length_le_join (separator : Bytes) {part : Bytes} {parts : List Bytes}
    (member : part ∈ parts) : part.length ≤ (Bytes.join separator parts).length :=
  (Bytes.infix_join separator member).length_le

theorem Bytes.count_le_join (separator : Bytes) (nonempty : separator ≠ []) (parts : List Bytes) :
    parts.length ≤ (Bytes.join separator parts).length + 1 := by
  cases parts with
  | nil => simp
  | cons first rest =>
    rw [Bytes.join_cons, List.length_append, List.length_cons]
    have positive := List.length_pos_iff.mpr nonempty
    have tail : rest.length ≤ (rest.flatMap (separator ++ ·)).length := by
      induction rest with
      | nil => simp
      | cons next rest ih =>
        rw [List.flatMap_cons, List.length_append, List.length_append, List.length_cons]
        omega
    omega

theorem Bytes.splitAt_ne_nil (separator : UInt8) (text : Bytes) : splitAt separator text ≠ [] := by
  cases text with
  | nil => exact List.cons_ne_nil _ _
  | cons b rest =>
    rw [splitAt]
    split
    · exact List.cons_ne_nil _ _
    · split <;> exact List.cons_ne_nil _ _

theorem Bytes.splitAt_whole {separator : UInt8} {name : Bytes} (whole : separator ∉ name) :
    splitAt separator name = [name] := by
  induction name with
  | nil => rfl
  | cons b rest ih =>
    rw [List.mem_cons, not_or] at whole
    rw [splitAt, if_neg (Ne.symm whole.1), ih whole.2]

theorem Bytes.splitAt_append {separator : UInt8} {name : Bytes} (whole : separator ∉ name)
    (front : Bytes) : splitAt separator (front ++ separator :: name) =
      splitAt separator front ++ [name] := by
  induction front with
  | nil => simp [splitAt, splitAt_whole whole]
  | cons b rest ih =>
    rw [List.cons_append, splitAt, splitAt, ih]
    split
    · rfl
    · cases split : splitAt separator rest with
      | nil => exact absurd split (splitAt_ne_nil separator rest)
      | cons part parts => rfl

/-- The parts between the occurrences of an octet, with it between them, are the text. -/
theorem Bytes.join_splitAt (separator : UInt8) (text : Bytes) :
    Bytes.join [separator] (Bytes.splitAt separator text) = text := by
  induction text with
  | nil => rfl
  | cons b rest ih =>
    rw [splitAt]
    cases split : splitAt separator rest with
    | nil => exact absurd split (splitAt_ne_nil separator rest)
    | cons part parts =>
      rw [split, join_cons] at ih
      split
      · rename_i found
        rw [join_cons, List.flatMap_cons, List.append_assoc, ih, found]
        rfl
      · rw [join_cons, List.cons_append, ih]

theorem Bytes.not_mem_splitAt {separator : UInt8} {text part : Bytes}
    (member : part ∈ Bytes.splitAt separator text) : separator ∉ part := by
  induction text generalizing part with
  | nil => simp_all [splitAt]
  | cons b rest ih =>
    rw [splitAt] at member
    split at member
    · rcases List.mem_cons.mp member with rfl | member
      · simp
      · exact ih member
    · rename_i other
      cases split : splitAt separator rest with
      | nil => exact absurd split (splitAt_ne_nil separator rest)
      | cons first parts =>
        rw [split] at member ih
        rcases List.mem_cons.mp member with rfl | member
        · simp [Ne.symm other, ih List.mem_cons_self]
        · exact ih (List.mem_cons_of_mem first member)

theorem Bytes.after?_append (word rest : Bytes) : Bytes.after? word (word ++ rest) = some rest := by
  induction word with
  | nil => rfl
  | cons b word ih => simp [Bytes.after?, ih]

theorem Bytes.append_of_after? {word text rest : Bytes} (found : Bytes.after? word text = some rest) :
    word ++ rest = text := by
  fun_induction Bytes.after? word text with
  | case1 text => exact (Option.some.inj found).symm
  | case2 => contradiction
  | case3 b word text ih => rw [List.cons_append, ih found]
  | case4 => contradiction

end Conform
