import Conform.Proofs.Bytes
import Conform.Source.Text

/-! Texts that end no block comment. A text in which the end of a comment stands
nowhere is clean, and so are its parts. Clean texts are clean together when a word
stands between them that holds neither of the two octets of the end. -/
namespace Conform.Source

/-- The end of a block comment stands nowhere in the text. -/
def Clean (text : Bytes) : Prop := ¬ [0x2A, 0x2F] <:+: text

theorem Clean.part {part whole : Bytes} (clean : Clean whole) (inside : part <:+: whole) :
    Clean part := fun found => clean (found.trans inside)

theorem clean_nil : Clean [] := by simp [Clean]

theorem clean_cons {b : UInt8} {rest : Bytes} :
    Clean (b :: rest) ↔ (b = 0x2A → rest.head? ≠ some 0x2F) ∧ Clean rest := by
  rw [Clean, List.infix_cons_iff, not_or, Clean]
  refine and_congr_left fun _ => ?_
  cases rest with
  | nil => simp
  | cons c rest => simp [List.cons_prefix_cons, eq_comm]

theorem containsCommentEnd_iff (text : Bytes) : containsCommentEnd text = false ↔ Clean text := by
  fun_induction containsCommentEnd text with
  | case1 rest => simp [clean_cons]
  | case2 b rest other ih =>
    rw [ih, clean_cons, and_iff_right]
    rintro rfl
    cases rest with
    | nil => simp
    | cons c rest => simpa using other rest
  | case3 => simp [clean_nil]

/-- Two clean texts are clean together unless the end of a comment stands across them. -/
theorem Clean.append {first second : Bytes} (left : Clean first) (right : Clean second)
    (apart : first.getLast? = some 0x2A → second.head? ≠ some 0x2F) : Clean (first ++ second) := by
  induction first with
  | nil => exact right
  | cons b rest ih =>
    obtain ⟨next, clean⟩ := clean_cons.mp left
    rw [List.cons_append, clean_cons]
    cases rest with
    | nil => exact ⟨fun star => apart (by rw [star]; rfl), right⟩
    | cons c tail => exact ⟨next, ih clean (by rwa [List.getLast?_cons_cons] at apart)⟩

/-- A word that is no part of the end of a comment. -/
def isApart (word : Bytes) : Bool := !word.isEmpty && word.all fun b => b != 0x2A && b != 0x2F

theorem clean_of_apart {word : Bytes} (plain : word.all (fun b => b != 0x2A && b != 0x2F) = true) :
    Clean word := by
  induction word with
  | nil => exact clean_nil
  | cons b rest ih =>
    simp only [List.all_cons, Bool.and_eq_true, bne_iff_ne, ne_eq] at plain
    exact clean_cons.mpr ⟨fun star => absurd star plain.1.1, ih (by simpa using plain.2)⟩

theorem clean_around {first second : Bytes} (word : Bytes) (apart : isApart word = true) (left : Clean first)
    (right : Clean second) : Clean (first ++ (word ++ second)) := by
  simp only [isApart, Bool.and_eq_true, Bool.not_eq_true', List.isEmpty_eq_false_iff] at apart
  obtain ⟨nonempty, plain⟩ := apart
  have each : ∀ b ∈ word, b ≠ 0x2A ∧ b ≠ 0x2F := by simpa using plain
  refine left.append ((clean_of_apart plain).append right ?_) ?_
  · intro last
    exact absurd rfl (each _ (List.mem_of_getLast? last)).1
  · obtain ⟨b, rest, rfl⟩ := List.exists_cons_of_ne_nil nonempty
    rintro - slash
    exact (each b List.mem_cons_self).2 (Option.some.inj slash)

/-- A text after which any clean text may follow. -/
def Closed (text : Bytes) : Prop := ∀ rest, Clean rest → Clean (text ++ rest)

theorem Closed.clean {text : Bytes} (closed : Closed text) : Clean text := by
  simpa using closed [] clean_nil

theorem closed_nil : Closed [] := fun _ clean => clean

theorem Closed.append {first second : Bytes} (left : Closed first) (right : Closed second) :
    Closed (first ++ second) := by
  intro rest clean
  rw [List.append_assoc]
  exact left _ (right rest clean)

/-- A word that is no part of the end of a comment closes the text before it. -/
theorem closed_before {text : Bytes} (clean : Clean text) (word : Bytes) (apart : isApart word = true) :
    Closed (text ++ word) := by
  intro rest after
  rw [List.append_assoc]
  exact clean_around word apart clean after

theorem closed_of_apart (word : Bytes) (apart : isApart word = true) : Closed word :=
  closed_before clean_nil word apart

theorem closed_flatMap {α : Type} {text : α → Bytes} {parts : List α}
    (each : ∀ part ∈ parts, Closed (text part)) : Closed (parts.flatMap text) := by
  induction parts with
  | nil => exact closed_nil
  | cons part parts ih =>
    rw [List.forall_mem_cons] at each
    rw [List.flatMap_cons]
    exact each.1.append (ih each.2)

theorem closed_join {separator : Bytes} (closed : Closed separator) {parts : List Bytes}
    (each : ∀ part ∈ parts, Closed part) : Closed (Bytes.join separator parts) := by
  cases parts with
  | nil => exact closed_nil
  | cons part parts =>
    rw [List.forall_mem_cons] at each
    rw [Bytes.join_cons]
    exact each.1.append (closed_flatMap fun next member => closed.append (each.2 next member))

theorem clean_join {separator : Bytes} (apart : isApart separator = true) {parts : List Bytes}
    (each : ∀ part ∈ parts, Clean part) : Clean (Bytes.join separator parts) := by
  induction parts with
  | nil => exact clean_nil
  | cons part parts ih =>
    rw [List.forall_mem_cons] at each
    cases parts with
    | nil => exact each.1
    | cons next rest =>
      rw [Bytes.join, List.append_assoc]
      · exact clean_around separator apart each.1 (ih each.2)
      · exact List.cons_ne_nil next rest

end Conform.Source
