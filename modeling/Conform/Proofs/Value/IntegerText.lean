import Conform.Proofs.Value.Filters
import Mathlib.Data.Nat.Digits.Defs

/-! Texts that convert to integers. The form of such a text and the number it denotes are given
as relations, with the number as a sum over the digits; the readers go through a text from the
left and stop where a number gets too large. A text between blanks converts exactly when it has
the form and its number is one of 64 bits, and to that number. -/
namespace Conform

/-- A text of the form `0|[1-9][0-9]*` and the number that it denotes. -/
inductive MagnitudeText : Bytes → Nat → Prop where
  | zero : MagnitudeText [0x30] 0
  | digits {first : UInt8} {rest : Bytes} (leading : 0x31 ≤ first ∧ first ≤ 0x39)
      (others : ∀ b ∈ rest, 0x30 ≤ b ∧ b ≤ 0x39) :
      MagnitudeText (first :: rest)
        (Nat.ofDigits 10 ((first :: rest).reverse.map fun b => b.toNat - 0x30))

/-- A text of the form `[+-]?(0|[1-9][0-9]*)` and the number that it denotes. -/
inductive IntegerText : Bytes → Int → Prop where
  | unsigned {digits : Bytes} {n : Nat} (magnitude : MagnitudeText digits n) : IntegerText digits n
  | plus {digits : Bytes} {n : Nat} (magnitude : MagnitudeText digits n) :
      IntegerText (0x2B :: digits) n
  | minus {digits : Bytes} {n : Nat} (magnitude : MagnitudeText digits n) :
      IntegerText (0x2D :: digits) (-n)

/-! ### Magnitudes -/

theorem isDigit_iff {b : UInt8} : isDigit b = true ↔ 0x30 ≤ b ∧ b ≤ 0x39 := by
  rw [isDigit, Bool.and_eq_true, decide_eq_true_eq, decide_eq_true_eq]
  rfl

theorem digitValue_eq_sub {b : UInt8} (digit : isDigit b = true) : digitValue b = b.toNat - 0x30 :=
  octet_cases (P := fun b => isDigit b = true → digitValue b = b.toNat - 0x30) (by decide) b digit

/-- Reading digits from the left sums them up with their weights. -/
theorem digitsValue_eq_ofDigits {digits : Bytes} (all : digits.all isDigit = true) (n : Nat) :
    digitsValue n digits =
      n * 10 ^ digits.length + Nat.ofDigits 10 (digits.reverse.map fun b => b.toNat - 0x30) := by
  induction digits generalizing n with
  | nil => simp [digitsValue]
  | cons b rest ih =>
    rw [List.all_cons, Bool.and_eq_true] at all
    rw [digitsValue, ih all.2, digitValue_eq_sub all.1, List.reverse_cons, List.map_append,
      Nat.ofDigits_append, List.length_map, List.length_reverse, List.length_cons]
    simp only [List.map_cons, List.map_nil, Nat.ofDigits_singleton]
    ring

theorem MagnitudeText.of_digits {digits : Bytes} (form : digits = [0x30] ∨
    digits.all isDigit = true ∧ ∃ b rest, digits = b :: rest ∧ b ≠ 0x30) :
    MagnitudeText digits (digitsValue 0 digits) := by
  rcases form with rfl | ⟨all, b, rest, rfl, nonzero⟩
  · exact .zero
  · rw [digitsValue_eq_ofDigits all, Nat.zero_mul, Nat.zero_add]
    rw [List.all_cons, Bool.and_eq_true] at all
    have leading : 0x31 ≤ b ∧ b ≤ 0x39 :=
      octet_cases (P := fun b => isDigit b = true ∧ b ≠ 0x30 → 0x31 ≤ b ∧ b ≤ 0x39) (by decide) b
        ⟨all.1, nonzero⟩
    exact .digits leading fun c member => isDigit_iff.mp (List.all_eq_true.mp all.2 c member)

namespace MagnitudeText

variable {digits : Bytes} {n : Nat} (magnitude : MagnitudeText digits n)

include magnitude

theorem all_digits : digits.all isDigit = true := by
  cases magnitude with
  | zero => rfl
  | @digits first rest leading others =>
    have first : isDigit first = true :=
      octet_cases (P := fun b => 0x31 ≤ b ∧ b ≤ 0x39 → isDigit b = true) (by decide) first leading
    rw [List.all_cons, first, Bool.true_and, List.all_eq_true]
    exact fun b member => isDigit_iff.mpr (others b member)

theorem value : digitsValue 0 digits = n := by
  have all := magnitude.all_digits
  cases magnitude with
  | zero => rfl
  | digits leading others =>
    rw [digitsValue_eq_ofDigits all, Nat.zero_mul, Nat.zero_add]

theorem ne_nil : digits ≠ [] := by
  cases magnitude with
  | zero => exact List.cons_ne_nil _ _
  | digits leading others => exact List.cons_ne_nil _ _

theorem isIntegerForm {text : Bytes} (split : (splitSign text).2 = digits) :
    isIntegerForm text = true := by
  have all := magnitude.all_digits
  rw [Conform.isIntegerForm, split]
  cases magnitude with
  | zero => rfl
  | @digits first rest leading others =>
    have nonzero : first ≠ 0x30 := by
      rintro rfl
      exact absurd leading.1 (by decide)
    simp only [nonzero, if_false]
    exact all

/-- A magnitude after its sign is a literal of the signed number, if that has 64 bits. -/
theorem literal {text : Bytes} {negative : Bool} (split : splitSign text = (negative, digits))
    {m : Int64} (value : m.toInt = if negative then -(n : Int) else n) :
    Conform.isIntegerForm text = true ∧ readInt64 text = .ok m := by
  refine ⟨magnitude.isIntegerForm (congrArg Prod.snd split), ?_⟩
  have range := inInt64_toInt m
  have small : n < 18446744073709551616 := by
    have bounds := range
    simp only [inInt64, Bool.and_eq_true, decide_eq_true_eq] at bounds
    cases negative <;> simp only [Bool.false_eq_true, if_false, if_true] at value <;> omega
  rw [← magnitude.value] at small value
  have read := readUnsigned_digits magnitude.all_digits small
  rw [readInt64, split]
  cases digits with
  | nil => exact absurd rfl magnitude.ne_nil
  | cons b rest => simp only [read, ← value, range, if_true, Int64.ofInt_toInt]

theorem head_ne_plus : digits.head? ≠ some 0x2B := by
  intro plus
  have digit := List.all_eq_true.mp magnitude.all_digits _ (List.mem_of_mem_head? plus)
  exact absurd digit (by decide)

end MagnitudeText

/-! ### Integers -/

theorem integerLiteral?_iff {text : Bytes} {n : Int64} :
    integerLiteral? text = some n ↔ IntegerText text n.toInt := by
  rw [integerLiteral?_eq_some_iff]
  constructor
  · rintro ⟨form, read⟩
    have magnitude := MagnitudeText.of_digits (isIntegerForm_digits form)
    cases text with
    | nil => contradiction
    | cons b rest =>
      by_cases minus : b = 0x2D
      · subst minus
        rw [readInt64_value rfl read]
        exact .minus magnitude
      · by_cases plus : b = 0x2B
        · subst plus
          rw [readInt64_value rfl read]
          exact .plus magnitude
        · have split : splitSign (b :: rest) = (false, b :: rest) := by
            rw [splitSign, if_neg minus, if_neg plus]
          rw [split] at magnitude
          rw [readInt64_value split read]
          exact .unsigned magnitude
  · intro denotes
    generalize whole : n.toInt = value at denotes
    cases denotes with
    | unsigned magnitude => exact magnitude.literal (splitSign_digits magnitude.all_digits) whole
    | @plus digits n magnitude =>
      have split : splitSign (0x2B :: digits) = (false, digits) := rfl
      exact magnitude.literal split whole
    | @minus digits n magnitude =>
      have split : splitSign (0x2D :: digits) = (true, digits) := rfl
      exact magnitude.literal split whole

/-- A text without its leading plus. -/
def withoutPlus (text : Bytes) : Bytes := if text.head? = some 0x2B then text.tail else text

theorem IntegerText.withoutPlus {text : Bytes} {n : Int} (denotes : IntegerText text n) :
    IntegerText (Conform.withoutPlus text) n ∧ (Conform.withoutPlus text).head? ≠ some 0x2B := by
  cases denotes with
  | unsigned magnitude =>
    rw [Conform.withoutPlus, if_neg magnitude.head_ne_plus]
    exact ⟨.unsigned magnitude, magnitude.head_ne_plus⟩
  | plus magnitude => exact ⟨.unsigned magnitude, magnitude.head_ne_plus⟩
  | minus magnitude => exact ⟨.minus magnitude, by simp [Conform.withoutPlus]⟩

/-- A converter that reads integers of 64 bits in decimal, without a plus or leading zeros, as
their numbers. Nothing is said of what else it reads. -/
def ReadsPlain (convert : Bytes → Option Int64) : Prop :=
  ∀ text n, IntegerText text n.toInt → text.head? ≠ some 0x2B → convert text = some n

namespace Value

/-- The text that the filter of integers lets through, for a converter to read. -/
def filteredInteger? (s : Bytes) : Option Bytes :=
  if (Value.text s).canCastInteger then some (withoutPlus (Utf8.trim s)) else none

theorem castInteger_text_iff {s : Bytes} {n : Int64} :
    (Value.text s).castInteger = some n ↔ IntegerText (Utf8.trim s) n.toInt := integerLiteral?_iff

theorem filteredInteger?_bind {convert : Bytes → Option Int64} (reads : ReadsPlain convert)
    (s : Bytes) : (filteredInteger? s).bind convert = (Value.text s).castInteger := by
  rw [filteredInteger?, ← castInteger_isSome]
  cases found : (Value.text s).castInteger with
  | none => rfl
  | some n =>
    obtain ⟨denotes, plain⟩ := (castInteger_text_iff.mp found).withoutPlus
    exact reads _ n denotes plain

/-- Converting texts to integers is exact to the limits of 64 bits. A text converts to a number
exactly when, between blanks, it is a decimal numeral of that number and the number is in range;
the conversion is that of any converter of plain numerals behind the filter; and the text of an
integer converts back to it. -/
theorem castInteger_exact :
    (∀ (s : Bytes) (n : Int), (Value.text s).castInteger.map Int64.toInt = some n ↔
      IntegerText (Utf8.trim s) n ∧ -2 ^ 63 ≤ n ∧ n < 2 ^ 63) ∧
    (∀ (s : Bytes) (convert : Bytes → Option Int64), ReadsPlain convert →
      (filteredInteger? s).bind convert = (Value.text s).castInteger) ∧
    ∀ n : Int64, ∃ text, (ofInt64 n).castText = some text ∧
      (Value.text text).castInteger = some n := by
  refine ⟨fun s n => ?_, fun s convert reads => filteredInteger?_bind reads s, fun n => ?_⟩
  · rw [Option.map_eq_some_iff]
    constructor
    · rintro ⟨m, found, rfl⟩
      exact ⟨castInteger_text_iff.mp found, m.le_toInt, m.toInt_lt⟩
    · rintro ⟨denotes, lower, upper⟩
      have same : (Int64.ofInt n).toInt = n := Int64.toInt_ofInt_of_le lower upper
      exact ⟨Int64.ofInt n, castInteger_text_iff.mpr (same.symm ▸ denotes), same⟩
  · refine ⟨decimalInt n.toInt, ?_, ?_⟩
    · rw [ofInt64, castText, if_pos (inInt64_toInt n)]
    · rw [castInteger_decimalInt (inInt64_toInt n), Int64.ofInt_toInt]

/-- The lowest number between blanks goes through the filter and its sign to the converter. -/
theorem castInteger_exact_lowest : ReadsPlain (fun text => (readInt64 text).toOption) ∧
    (filteredInteger? "\t-9223372036854775808 ").bind (fun text => (readInt64 text).toOption) =
      some Int64.minValue := by
  have reads : ReadsPlain fun text => (readInt64 text).toOption := by
    intro text n denotes _
    simp only [(integerLiteral?_eq_some_iff.mp (integerLiteral?_iff.mpr denotes)).2]
    rfl
  refine ⟨reads, (castInteger_exact.2.1 _ _ reads).trans ?_⟩
  decide +kernel

end Value

end Conform
