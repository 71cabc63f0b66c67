import Conform.Proofs.Declaration.Pieces

/-! Shapes read back from their written form, whatever their keys. A key is written
bare where it is a word or an integer, and between quotes otherwise; a bare integer in
range is read as its number. So a shape is read back field by field, and a key keeps its
text unless it is an integer in range that is written in another way than its number. -/
namespace Conform.Declaration

/-- The keys that keep their text when they are written and read again. -/
theorem keyRead_eq_self_iff (key : Bytes) : keyRead key = key ↔
    ¬ ((integerLiteral? key).isSome = true ∧ (key.head? = some (octet '+') ∨ key = utf8 "-0")) := by
  constructor
  · rintro same ⟨literal, plus | zero⟩
    · obtain ⟨n, literal⟩ := Option.isSome_iff_exists.mp literal
      rw [keyRead, literal] at same
      rw [← same] at plus
      exact decimalInt_head _ plus
    · rw [zero] at same
      contradiction
  · intro other
    apply keyRead_of_keepsText
    rw [keepsText]
    cases literal : integerLiteral? key with
    | none => rfl
    | some n =>
      have written : ¬ (key.head? = some (octet '+') ∨ key = utf8 "-0") := fun either =>
        other ⟨by rw [literal]; rfl, either⟩
      obtain ⟨noPlus, noZero⟩ := not_or.mp written
      simp only [Option.isNone_some, Bool.false_or, Bool.and_eq_true, bne_iff_ne]
      exact ⟨noPlus, noZero⟩

section Reading

variable {aliases : Aliases} (known : ∀ name t, aliases.find? name = some t → t ≠ .union [])

include known

/-- A shape is read back from its written form if its fields have types that are, and keys
that remain distinct. -/
theorem parse_shape_text {fields : List (Field Ty)}
    (distinct : ((fields.map Field.readBack).map (·.key)).Nodup)
    (each : ∀ f ∈ fields, parse aliases f.type.text = .ok f.type) :
    parse aliases (Ty.shape fields).text = .ok (.shape (fields.map Field.readBack)) := by
  have spelled : ∀ f ∈ fields, Spelled aliases f.type.text f.type := fun f member =>
    (parse_eq_ok_iff_spelled known).mp (each f member)
  obtain ⟨atom, denotes, spells⟩ := spells_shape distinct spelled
  exact (parse_eq_ok_iff_spelled known).mpr (AtomTree.spelled denotes spells)

theorem parse_field_text (f : Field Ty) (roundTrip : parse aliases f.type.text = .ok f.type) :
    parse aliases (Ty.shape [f]).text = .ok (.shape [f.readBack]) := by
  have distinct : ([f.readBack].map (·.key)).Nodup := by simp
  exact parse_shape_text known distinct (List.forall_mem_singleton.mpr roundTrip)

/-- A shape of one field is read back with the same flag and type, and with the same key
unless this is an integer in range with a plus or a negative zero. -/
theorem parse_shape_key (key : Bytes) (optional : Bool) {t : Ty}
    (roundTrip : parse aliases t.text = .ok t) :
    parse aliases (Ty.shape [⟨key, optional, t⟩]).text =
        .ok (.shape [⟨keyRead key, optional, t⟩]) ∧
      (keyRead key = key ↔ ¬ ((integerLiteral? key).isSome = true ∧
        (key.head? = some (octet '+') ∨ key = utf8 "-0"))) := by
  constructor
  · exact parse_field_text known ⟨key, optional, t⟩ roundTrip
  · exact keyRead_eq_self_iff key

end Reading

theorem no_aliases (name : Bytes) (t : Ty) (found : Aliases.find? [] name = some t) :
    t ≠ .union [] := by
  rw [Aliases.find?] at found
  contradiction

/-- A numeral with a zero in front is no integer literal and keeps its plus. -/
theorem parse_shape_key_padded :
    (∀ name t, Aliases.find? [] name = some t → t ≠ .union []) ∧
      parse [] (Ty.list .integer).text = .ok (.list .integer) ∧
      parse [] (Ty.shape [⟨utf8 "+01", true, .list .integer⟩]).text =
        .ok (.shape [⟨utf8 "+01", true, .list .integer⟩]) := by
  have written : Writes (.list .integer) := (writes ⟨rfl, rfl⟩ rfl).1
  have roundTrip := (parse_eq_ok_iff_spelled no_aliases).mpr written
  obtain ⟨read, keeps⟩ := parse_shape_key no_aliases (utf8 "+01") true roundTrip
  rw [keeps.mpr (by decide)] at read
  exact ⟨no_aliases, roundTrip, read⟩

/-- A plus before an integer in range is lost, since the key is written without quotes. -/
theorem shape_key_loses_plus :
    (Ty.shape [⟨utf8 "+1", false, .integer⟩]).text = utf8 "array\x7b+1: int\x7d" ∧
      parse [] (utf8 "array\x7b+1: int\x7d") = .ok (.shape [⟨utf8 "1", false, .integer⟩]) := by
  have text : (Ty.shape [⟨utf8 "+1", false, .integer⟩]).text = utf8 "array\x7b+1: int\x7d" := by
    decide +kernel
  have written : Writes .integer := (writes ⟨rfl, rfl⟩ rfl).1
  have roundTrip := (parse_eq_ok_iff_spelled no_aliases).mpr written
  have read := parse_field_text no_aliases ⟨utf8 "+1", false, .integer⟩ roundTrip
  rw [text] at read
  exact ⟨text, read⟩

end Conform.Declaration
