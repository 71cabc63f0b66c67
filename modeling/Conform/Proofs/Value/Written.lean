import Conform.Proofs.Json.Numerals
import Conform.Proofs.Value.Conversion
import Conform.Value.Json

/-! Written documents as values. A document of well-formed texts whose numbers are
numerals is read back as its value, however deep it nests, since its text is
longer than it is deep. -/
namespace Conform

namespace Json

/-- Every bracket that opens is written, so no document is deeper than its text is long. -/
theorem depth_le_length (j : Json) : j.depth ≤ j.write.length := by
  induction j using Json.induct with
  | array items ih =>
    have inner : depthItems items ≤ (Bytes.join (utf8 ",") (items.map write)).length := by
      rw [depthItems_le]
      intro item member
      exact (ih item member).trans (Bytes.length_le_join _ (List.mem_map_of_mem member))
    have bracket : (utf8 "[").length = 1 := rfl
    simp only [depth, write, writeItems_eq, List.length_append, bracket]
    omega
  | object members ih =>
    have inner : depthMembers members ≤ (Bytes.join (utf8 ",") (members.map memberText)).length := by
      rw [depthMembers_le]
      intro m member
      have part : m.2.write.length ≤ (memberText m).length := by
        rw [memberText, List.length_append]
        exact Nat.le_add_left _ _
      exact (ih m member).trans
        (part.trans (Bytes.length_le_join _ (List.mem_map_of_mem member)))
    have brace : (utf8 "\x7b").length = 1 := rfl
    simp only [depth, write, writeMembers_eq, List.length_append, brace]
    omega
  | _ => exact Nat.zero_le _

/-- The text of a document starts with an octet that is seen. -/
theorem write_visible {j : Json} (sound : j.Sound) :
    ∃ b rest, j.write = b :: rest ∧ Utf8.isVisible b = true := by
  cases j with
  | number text =>
    obtain ⟨b, rest, written, digit | rfl⟩ := Numeral.first sound
    · exact ⟨b, rest, written, Utf8.isVisible_of_digit digit⟩
    · exact ⟨_, rest, written, by decide⟩
  | bool b => cases b <;> exact ⟨_, _, rfl, by decide⟩
  | _ => exact ⟨_, _, rfl, by decide⟩

end Json

/-- A text that starts with an octet that is seen is more than blanks. -/
theorem Utf8.trim_ne_nil {b : UInt8} (visible : isVisible b = true) (rest : Bytes) :
    trim (b :: rest) ≠ [] := by
  simp only [isVisible, Bool.and_eq_true, decide_eq_true_eq, Bool.not_eq_true'] at visible
  have first : (Piece.char b.toNat [b]).isBlank = false := visible.2
  rw [trim, pieces_ascii visible.1, List.dropWhile_cons_of_neg (by simp [first]),
    List.reverse_cons]
  intro empty
  -- the first character stands last in the reversed text, where nothing drops it
  have kept : Piece.char b.toNat [b] ∈
      ((pieces rest).reverse ++ [Piece.char b.toNat [b]]).dropWhile Piece.isBlank := by
    rw [List.dropWhile_append]
    split
    · simp [first]
    · exact List.mem_append_right _ List.mem_cons_self
  have octets := List.flatMap_eq_nil_iff.mp empty _ (List.mem_reverse.mpr kept)
  contradiction

namespace Value

/-- A written document is read as its value. -/
theorem readJson_write {j : Json}
    (written : j.Every (fun s => Utf8.valid s = true) Json.Numeral) :
    readJson j.write = .ok (ofJson j) := by
  have sound : j.Sound := written.mono (fun _ _ => trivial) fun _ numeral => numeral
  obtain ⟨b, rest, text, visible⟩ := Json.write_visible sound
  have more : (Utf8.trim j.write).isEmpty = false := by
    rw [text, List.isEmpty_eq_false_iff]
    exact Utf8.trim_ne_nil visible rest
  have read := Json.read?_write Json.greedyText_joins.stringUnits sound j.depth_le_length
  rw [Json.repaired_of_valid written] at read
  simp only [readJson, more, read, Bool.false_eq_true, if_false]

end Value

end Conform
