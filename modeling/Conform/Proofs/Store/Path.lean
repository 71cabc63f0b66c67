import Conform.Proofs.Decimal
import Conform.Proofs.Utf8
import Conform.Store.Directory

/-! Where keys lead. A key is made of ASCII letters, digits and a few marks, starts
with no dot and has no separator in it, so its path under a directory is the path
of the directory and one step more, which is the key itself. The lock and the
temporary files have such paths too, but their names start with a dot. -/
namespace Conform

/-! ### Keys -/

theorem isKeyCode_small {code : Nat} (allowed : isKeyCode code = true) : code < 0x80 := by
  simp only [isKeyCode, Bool.or_eq_true, Bool.and_eq_true, decide_eq_true_eq, beq_iff_eq] at allowed
  omega

/-- A character below 128 is one octet. -/
theorem Utf8.octets_small {text : Bytes} {p : Piece} (member : p ∈ pieces text)
    (small : p.code < 0x80) {b : UInt8} (inside : b ∈ p.octets) : b.toNat = p.code := by
  have proper := pieces_proper text p member
  cases p with
  | stray => simp [Piece.code] at small
  | char code octets =>
    obtain ⟨_, rfl⟩ := proper
    rw [Piece.code] at small ⊢
    rw [Piece.octets, encodeRune, if_pos small, List.mem_singleton] at inside
    obtain ⟨c, same, octet⟩ := exists_octet (Nat.lt_trans small (by decide))
    rw [inside, octet, same]

theorem checkKey_ok {key : Bytes} (checked : checkKey key = .ok ()) :
    key ≠ [] ∧ key.head? ≠ some 0x2E ∧ ∀ b ∈ key, isKeyCode b.toNat = true := by
  rw [checkKey.eq_def] at checked
  split at checked
  · contradiction
  · rename_i first rest
    split at checked
    · contradiction
    · rename_i dotless
      split at checked
      · contradiction
      · rename_i none
        refine ⟨List.cons_ne_nil _ _, fun dot => dotless (Option.some.inj dot), ?_⟩
        intro b member
        rw [← Utf8.pieces_octets (first :: rest)] at member
        obtain ⟨p, piece, inside⟩ := List.mem_flatMap.mp member
        have allowed := List.find?_eq_none.mp none p.code (List.mem_map_of_mem piece)
        rw [Bool.not_eq_true', Bool.not_eq_false] at allowed
        rwa [Utf8.octets_small piece (isKeyCode_small allowed) inside]

/-! ### Names -/

/-- A name that is one step of a path. -/
structure IsStep (name : Bytes) : Prop where
  ne_nil : name ≠ []
  ne_dot : name ≠ utf8 "."
  ne_dots : name ≠ utf8 ".."
  whole : 0x2F ∉ name

theorem isStep_of_key {key : Bytes} (checked : checkKey key = .ok ()) : IsStep key := by
  obtain ⟨ne_nil, dotless, allowed⟩ := checkKey_ok checked
  refine ⟨ne_nil, ?_, ?_, fun slash => ?_⟩
  · rintro rfl
    exact dotless rfl
  · rintro rfl
    exact dotless rfl
  · exact absurd (allowed _ slash) (by decide)

theorem isStep_lockName : IsStep lockName := ⟨by decide, by decide, by decide, by decide⟩

theorem isStep_temporaryName (number : Nat) : IsStep (temporaryName number) := by
  have start : utf8 ".valtype-" = 0x2E :: 0x76 :: utf8 "altype-" := by decide
  refine ⟨?_, ?_, ?_, fun slash => ?_⟩
  · simp [temporaryName, start]
  · simp [temporaryName, start, show utf8 "." = [0x2E] from rfl]
  · simp [temporaryName, start, show utf8 ".." = [0x2E, 0x2E] from rfl]
  · rw [temporaryName, List.append_assoc, List.mem_append, List.mem_append] at slash
    rcases slash with slash | slash | slash
    · exact absurd slash (by decide)
    · exact absurd (List.all_eq_true.mp (decimalNat_all_digits number) _ slash) (by decide)
    · exact absurd slash (by decide)

/-- The name starts with a dot, so that its file holds no data. -/
def isHidden (name : Bytes) : Bool := name.head? == some 0x2E

theorem isHidden_of_key {key : Bytes} (checked : checkKey key = .ok ()) : isHidden key = false := by
  simpa [isHidden] using (checkKey_ok checked).2.1

theorem isHidden_lockName : isHidden lockName = true := by decide

theorem isHidden_temporaryName (number : Nat) : isHidden (temporaryName number) = true := by
  have start : utf8 ".valtype-" = 0x2E :: utf8 "valtype-" := by decide
  rw [isHidden, temporaryName, start]
  rfl

theorem ne_of_isHidden {name other : Bytes} (one : isHidden name = false)
    (two : isHidden other = true) : name ≠ other := by
  rintro rfl
  rw [one] at two
  contradiction

/-! ### Paths -/

namespace Path

/-- The path of a name in the directory that the path leads to. -/
def child (p : Path) (name : Bytes) : Path := { p with steps := p.steps ++ [name] }

@[simp] theorem parent_child (p : Path) (name : Bytes) : (p.child name).parent = p := by
  simp [child, parent]

@[simp] theorem name?_child (p : Path) (name : Bytes) : (p.child name).name? = some name := by
  simp [child, name?]

theorem go_step {name : Bytes} (step : IsStep name) (p : Path) : p.go name = p.child name := by
  rw [go, if_neg (not_or.mpr ⟨step.ne_nil, step.ne_dot⟩), if_neg step.ne_dots, child]

/-- A name leads directly into the directory under which it is sought. -/
theorem under_step {name : Bytes} (step : IsStep name) (root : Bytes) :
    under root name = (ofText root).child name := by
  cases root with
  | nil =>
    have relative : (name.head? == some 0x2F) = false := by
      cases name with
      | nil => rfl
      | cons b rest => simpa using fun same => step.whole (by simp [same])
    rw [under, if_pos List.isEmpty_nil, ofText, Bytes.splitAt_whole step.whole, relative,
      List.foldl_cons, List.foldl_nil, go_step step]
    rfl
  | cons b rest =>
    rw [under, if_neg (by simp), ofText, Bytes.splitAt_append step.whole, List.foldl_append,
      List.foldl_cons, List.foldl_nil, go_step step, ofText]
    rfl

end Path

end Conform
