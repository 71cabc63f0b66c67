import Conform.Proofs.Declaration.Numeral
import Conform.Proofs.Value.Conversion

/-! The filters of scalar conversions. Each conversion has a filter that reads the value
on its own: one checks the form of a text and whether a reader takes it, the other
computes the number. A value passes the filter exactly when it is converted. -/
namespace Conform

theorem toBool_eq_isSome {ε α : Type} (result : Except ε α) :
    result.toBool = result.toOption.isSome := by
  cases result <;> rfl

namespace Binary

/-- A text in the form of a number is read as that number, whatever else the reader
knows: it has no underscores, is not hexadecimal and is no word. -/
theorem read_of_form {f : Format} {text : Bytes} {form : DecimalForm}
    (formed : decimalForm? (splitSign text).2 = some form) :
    (read text : Except NumberError (Binary f)) =
      checked (ofDecimal (splitSign text).1 form.digits form.exponent) := by
  obtain ⟨sign, signed, join⟩ := Declaration.splitSign_parts text
  obtain ⟨n, written⟩ := Declaration.numeral_of_form formed signed
  rw [join] at written
  have split := n.splitSign
  rw [written] at split
  rw [split] at formed ⊢
  exact read_decimal split n.plain n.body_head formed

end Binary

namespace Value

theorem castInteger_isSome (v : Value) : v.castInteger.isSome = v.canCastInteger := by
  cases v with
  | int kind n => rw [castInteger, canCastInteger]; split <;> simp_all
  | text s =>
    rw [castInteger, canCastInteger, integerLiteral?, toBool_eq_isSome]
    cases isIntegerForm (Utf8.trim s) <;> simp
  | _ => rfl

theorem castDouble_isSome (v : Value) : v.castDouble.isSome = v.canCastDouble := by
  cases v with
  | int kind n => rw [castDouble, canCastDouble]; split <;> simp_all
  | text s =>
    rw [castDouble, canCastDouble, numericLiteral?, isNumericForm]
    cases formed : decimalForm? (splitSign (Utf8.trim s)).2 with
    | none => simp only [formed, Option.isSome_none, Bool.false_and]
    | some form =>
      simp only [formed, Binary.read_of_form formed, toBool_eq_isSome, Option.isSome_some,
        Bool.true_and]
  | _ => rfl

theorem castText_isSome (v : Value) : v.castText.isSome = v.canCastText := by
  cases v with
  | int kind n => rw [castText, canCastText]; split <;> simp_all
  | foreign v => rw [castText, canCastText]; split <;> simp_all
  | _ => rfl

theorem castBool_isSome (v : Value) : v.castBool.isSome = v.canCastBool := by
  cases v with
  | int kind n => rw [castBool, canCastBool]; split <;> [skip; split] <;> simp_all
  | text s =>
    simp only [castBool, canCastBool, truthWord?]
    generalize Utf8.lower (Utf8.trim s) = word
    rw [Bool.eq_iff_iff]
    simp only [Bool.or_eq_true, beq_iff_eq]
    split
    · rename_i yes
      simp only [Option.isSome_some, true_iff]
      tauto
    · split
      · rename_i no
        simp only [Option.isSome_some, true_iff]
        tauto
      · simp only [Option.isSome_none, Bool.false_eq_true, false_iff]
        tauto
  | _ => rfl

end Value

/-- A kind of keys lets a value through exactly when it converts it. -/
theorem KeyKind.canCast_iff (kind : KeyKind) (v : Value) :
    kind.canCast v = true ↔ ∃ w, kind.cast v = .ok w := by
  rw [KeyKind.canCast, KeyKind.cast, ← Value.castInteger_isSome, ← Value.castText_isSome]
  cases kind <;> cases v.castInteger <;> cases v.castText <;>
    simp [KeyKind.integers, KeyKind.strings]

end Conform
