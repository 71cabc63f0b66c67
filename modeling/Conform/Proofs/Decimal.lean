import Conform.Decimal
import Conform.Proofs.Bytes
import Mathlib.Data.List.Induction
import Mathlib.Tactic.Ring

/-! Decimal numbers read back as they were written. The writer puts digits before
what it has already written and bounds their count by fuel; here its result is
described by its last digit, which is what the readers are proved against. -/
namespace Conform

/-- The octet of a digit. -/
def digitOctet (d : Nat) : UInt8 := (48 + d).toUInt8

theorem isDigit_digitOctet {d : Nat} (bound : d < 10) : isDigit (digitOctet d) = true := by
  revert d
  decide

theorem digitValue_digitOctet {d : Nat} (bound : d < 10) : digitValue (digitOctet d) = d := by
  revert d
  decide

theorem digitOctet_eq_zero {d : Nat} (bound : d < 10) : digitOctet d = 0x30 ↔ d = 0 := by
  revert d
  decide

theorem digitsBefore_append (fuel n : Nat) (rest : Bytes) :
    digitsBefore fuel n rest = digitsBefore fuel n [] ++ rest := by
  induction fuel generalizing n rest with
  | zero => rfl
  | succ fuel ih =>
    simp only [digitsBefore]
    split
    · rfl
    · rw [ih (n / 10) (_ :: rest), ih (n / 10) [_], List.append_assoc, List.singleton_append]

/-- Fuel beyond the number itself changes nothing. -/
theorem digitsBefore_fuel {fuel n : Nat} (enough : n < fuel) (rest : Bytes) :
    digitsBefore fuel n rest = digitsBefore (n + 1) n rest := by
  induction fuel using Nat.strongRecOn generalizing n rest with
  | ind fuel ih =>
    obtain ⟨fuel, rfl⟩ : ∃ k, fuel = k + 1 := ⟨fuel - 1, by omega⟩
    simp only [digitsBefore]
    split
    · rfl
    · have smaller : n / 10 < n := by omega
      rw [ih fuel (by omega) (by omega), ih n (by omega) smaller]

theorem decimalNat_small {n : Nat} (small : n < 10) : decimalNat n = [digitOctet n] := by
  simp only [decimalNat, digitsBefore, if_pos small, Nat.mod_eq_of_lt small, digitOctet]

/-- The last digit stands at the end, the others before it. -/
theorem decimalNat_large {n : Nat} (large : ¬ n < 10) :
    decimalNat n = decimalNat (n / 10) ++ [digitOctet (n % 10)] := by
  simp only [decimalNat]
  rw [digitsBefore]
  simp only [if_neg large]
  rw [digitsBefore_append, digitsBefore_fuel (by omega)]
  rfl

theorem decimalNat_ne_nil (n : Nat) : decimalNat n ≠ [] := by
  by_cases small : n < 10
  · simp [decimalNat_small small]
  · simp [decimalNat_large small]

theorem decimalNat_all_digits (n : Nat) : (decimalNat n).all isDigit = true := by
  induction n using Nat.strongRecOn with
  | ind n ih =>
    by_cases small : n < 10
    · simp [decimalNat_small small, isDigit_digitOctet small]
    · have last := isDigit_digitOctet (Nat.mod_lt n (by decide : 0 < 10))
      simp [decimalNat_large small, ih (n / 10) (by omega), last]

theorem digitsValue_append (n : Nat) (front back : Bytes) :
    digitsValue n (front ++ back) = digitsValue (digitsValue n front) back := by
  induction front generalizing n with
  | nil => rfl
  | cons b rest ih => simp only [List.cons_append, digitsValue, ih]

theorem digitsValue_decimalNat (n : Nat) : digitsValue 0 (decimalNat n) = n := by
  induction n using Nat.strongRecOn with
  | ind n ih =>
    by_cases small : n < 10
    · simp [decimalNat_small small, digitsValue, digitValue_digitOctet small]
    · have last := digitValue_digitOctet (Nat.mod_lt n (by decide : 0 < 10))
      rw [decimalNat_large small, digitsValue_append, ih (n / 10) (by omega)]
      simp only [digitsValue, last]
      omega

/-- Zero is one digit, and no other number starts with a zero. -/
theorem decimalNat_head {n : Nat} (positive : 0 < n) : (decimalNat n).head? ≠ some 0x30 := by
  induction n using Nat.strongRecOn with
  | ind n ih =>
    by_cases small : n < 10
    · have nonzero := (digitOctet_eq_zero small).not.mpr (by omega)
      simpa [decimalNat_small small] using nonzero
    · have front := ih (n / 10) (by omega) (by omega)
      rw [decimalNat_large small]
      cases written : decimalNat (n / 10) with
      | nil => exact absurd written (decimalNat_ne_nil _)
      | cons b rest => simpa [written] using front

theorem digitsValue_ge (n : Nat) (digits : Bytes) : n ≤ digitsValue n digits := by
  induction digits generalizing n with
  | nil => exact Nat.le_refl n
  | cons b rest ih =>
    have bound := ih (n * 10 + digitValue b)
    simp only [digitsValue]
    omega

/-- Digits are read whole or refused for their size. The number only grows with each digit,
so that it is too large on the way only if it is at the end. -/
theorem readUnsigned_eq {digits : Bytes} (all : digits.all isDigit = true) {n : Nat}
    (small : n < 18446744073709551616) :
    readUnsigned n digits =
      if digitsValue n digits < 18446744073709551616 then .ok (digitsValue n digits)
      else .error .outOfRange := by
  induction digits generalizing n with
  | nil => rw [readUnsigned, digitsValue, if_pos small]
  | cons b rest ih =>
    rw [List.all_cons, Bool.and_eq_true] at all
    have grown := digitsValue_ge (n * 10 + digitValue b) rest
    simp only [readUnsigned, all.1, Bool.not_true, Bool.false_eq_true, if_false]
    split
    · rename_i fits
      exact ih all.2 fits
    · rename_i large
      rw [digitsValue, if_neg (by omega)]

theorem readUnsigned_digits {n : Nat} {digits : Bytes} (all : digits.all isDigit = true)
    (fits : digitsValue n digits < 18446744073709551616) :
    readUnsigned n digits = .ok (digitsValue n digits) := by
  rw [readUnsigned_eq all ((digitsValue_ge n digits).trans_lt fits), if_pos fits]

theorem splitSign_digits {digits : Bytes} (all : digits.all isDigit = true) :
    splitSign digits = (false, digits) := by
  cases digits with
  | nil => rfl
  | cons b rest =>
    simp only [List.all_cons, Bool.and_eq_true] at all
    have minus : b ≠ 0x2D := by rintro rfl; exact absurd all.1 (by decide)
    have plus : b ≠ 0x2B := by rintro rfl; exact absurd all.1 (by decide)
    simp only [splitSign, if_neg minus, if_neg plus]

theorem splitSign_decimalInt (n : Int) :
    splitSign (decimalInt n) = (decide (n < 0), decimalNat n.natAbs) := by
  by_cases negative : n < 0
  · have octetMinus : octet '-' = 0x2D := by decide
    simp only [decimalInt, splitSign, octetMinus, if_true, decide_true, negative]
  · simp only [decimalInt, decide_false, negative]
    exact splitSign_digits (decimalNat_all_digits _)

theorem inInt64_toInt (n : Int64) : inInt64 n.toInt = true := by
  have lower := n.le_toInt
  have upper := n.toInt_lt
  simp only [inInt64, Bool.and_eq_true, decide_eq_true_eq]
  omega

theorem signed_natAbs (n : Int) :
    (if decide (n < 0) = true then -(n.natAbs : Int) else n.natAbs) = n := by
  by_cases negative : n < 0 <;> simp only [negative, decide_true, decide_false, if_true,
    Bool.false_eq_true, if_false] <;> omega

theorem readInt64_decimalInt {n : Int} (range : inInt64 n = true) :
    readInt64 (decimalInt n) = .ok (Int64.ofInt n) := by
  have bounds := range
  simp only [inInt64, Bool.and_eq_true, decide_eq_true_eq] at bounds
  have digits := readUnsigned_digits (decimalNat_all_digits n.natAbs)
    (by rw [digitsValue_decimalNat]; omega)
  rw [digitsValue_decimalNat] at digits
  simp only [readInt64, splitSign_decimalInt]
  cases written : decimalNat n.natAbs with
  | nil => exact absurd written (decimalNat_ne_nil _)
  | cons b rest =>
    rw [written] at digits
    simp only [digits, signed_natAbs, range, if_true]

theorem isIntegerForm_decimalInt (n : Int) : isIntegerForm (decimalInt n) = true := by
  have all := decimalNat_all_digits n.natAbs
  simp only [isIntegerForm, splitSign_decimalInt]
  cases written : decimalNat n.natAbs with
  | nil => exact absurd written (decimalNat_ne_nil _)
  | cons b rest =>
    rw [written] at all
    by_cases zero : b = 0x30
    · have none : n.natAbs = 0 := by
        by_contra positive
        have head := decimalNat_head (Nat.pos_of_ne_zero positive)
        exact head (by rw [written, zero]; rfl)
      rw [none, decimalNat_small (by decide)] at written
      simp [← (List.cons.inj written).2, zero]
    · simpa [zero] using all

/-- An integer of 64 bits reads as itself. -/
theorem integerLiteral?_decimalInt {n : Int} (range : inInt64 n = true) :
    integerLiteral? (decimalInt n) = some (Int64.ofInt n) := by
  simp only [integerLiteral?, isIntegerForm_decimalInt, if_true, readInt64_decimalInt range]
  rfl

/-- Digits without a zero in front are the digits of their number. -/
theorem decimalNat_digitsValue {digits : Bytes} (all : digits.all isDigit = true)
    (first : ∃ b rest, digits = b :: rest ∧ b ≠ 0x30) :
    0 < digitsValue 0 digits ∧ decimalNat (digitsValue 0 digits) = digits := by
  induction digits using List.reverseRecOn with
  | nil =>
    obtain ⟨_, _, empty, _⟩ := first
    contradiction
  | append_singleton front last ih =>
    rw [List.all_append, Bool.and_eq_true] at all
    have digit : isDigit last = true := by simpa using all.2
    have octet : digitOctet (digitValue last) = last ∧ digitValue last < 10 ∧
        (last ≠ 0x30 → 0 < digitValue last) :=
      octet_cases (P := fun b => isDigit b = true → digitOctet (digitValue b) = b ∧
        digitValue b < 10 ∧ (b ≠ 0x30 → 0 < digitValue b)) (by decide) last digit
    rw [digitsValue_append]
    simp only [digitsValue]
    cases front with
    | nil =>
      obtain ⟨b, rest, same, nonzero⟩ := first
      obtain ⟨rfl, rfl⟩ := List.cons.inj same
      simp only [digitsValue, Nat.zero_mul, Nat.zero_add]
      exact ⟨octet.2.2 nonzero, by rw [decimalNat_small octet.2.1, octet.1]; rfl⟩
    | cons c tail =>
      obtain ⟨b, rest, same, nonzero⟩ := first
      rw [← (List.cons.inj same).1] at nonzero
      obtain ⟨positive, written⟩ := ih all.1 ⟨c, tail, rfl, nonzero⟩
      generalize digitsValue 0 (c :: tail) = value at positive written
      refine ⟨by omega, ?_⟩
      rw [decimalNat_large (by omega), Nat.mul_comm, Nat.mul_add_div (by decide), Nat.mul_add_mod,
        Nat.div_eq_of_lt octet.2.1, Nat.mod_eq_of_lt octet.2.1, Nat.add_zero, written, octet.1]

theorem decimalInt_natCast (n : Nat) : decimalInt (n : Int) = decimalNat n := by
  rw [decimalInt, if_neg (by omega), Int.natAbs_natCast]

theorem decimalInt_neg {n : Nat} (positive : 0 < n) :
    decimalInt (-(n : Int)) = octet '-' :: decimalNat n := by
  rw [decimalInt, if_pos (by omega), Int.natAbs_neg, Int.natAbs_natCast]

theorem readUnsigned_value {n value : Nat} {digits : Bytes}
    (read : readUnsigned n digits = .ok value) : value = digitsValue n digits := by
  induction digits generalizing n with
  | nil => exact (Except.ok.inj read).symm
  | cons b rest ih =>
    simp only [readUnsigned] at read
    split at read
    · contradiction
    · split at read
      · exact ih read
      · contradiction

/-- The number of a signed text of digits that could be read. -/
theorem readInt64_value {text digits : Bytes} {negative : Bool} {n : Int64}
    (split : splitSign text = (negative, digits)) (read : readInt64 text = .ok n) :
    n.toInt = if negative then -(digitsValue 0 digits : Int) else digitsValue 0 digits := by
  simp only [readInt64, split] at read
  cases digits with
  | nil => contradiction
  | cons b rest =>
    simp only at read
    split at read
    · contradiction
    · rename_i value found
      rw [readUnsigned_value found] at read
      generalize (if negative = true then -(digitsValue 0 (b :: rest) : Int)
        else digitsValue 0 (b :: rest)) = signed at read ⊢
      split at read
      · rename_i range
        obtain rfl := Except.ok.inj read
        simp only [inInt64, Bool.and_eq_true, decide_eq_true_eq] at range
        exact Int64.toInt_ofInt_of_le range.1 range.2
      · contradiction

/-- The digits of an integer literal: zero, or no zero in front. -/
theorem isIntegerForm_digits {text : Bytes} (form : isIntegerForm text = true) :
    (splitSign text).2 = [0x30] ∨ (splitSign text).2.all isDigit = true ∧
      ∃ b rest, (splitSign text).2 = b :: rest ∧ b ≠ 0x30 := by
  rw [isIntegerForm] at form
  split at form
  · contradiction
  · rename_i b rest digits
    rw [digits]
    split at form
    · rename_i zero
      rw [zero, List.isEmpty_iff.mp form]
      exact Or.inl rfl
    · rename_i nonzero
      exact Or.inr ⟨form, b, rest, rfl, nonzero⟩

theorem integerLiteral?_eq_some_iff {text : Bytes} {n : Int64} :
    integerLiteral? text = some n ↔ isIntegerForm text = true ∧ readInt64 text = .ok n := by
  rw [integerLiteral?]
  cases isIntegerForm text <;> cases readInt64 text <;> simp [Except.toOption]

/-- The text of a number has no plus. -/
theorem decimalInt_head (n : Int) : (decimalInt n).head? ≠ some (octet '+') := by
  intro plus
  cases written : decimalInt n with
  | nil =>
    rw [written] at plus
    contradiction
  | cons b rest =>
    rw [written] at plus
    obtain rfl : b = 0x2B := Option.some.inj plus
    have split := splitSign_decimalInt n
    rw [written] at split
    obtain ⟨natural, digits⟩ := Prod.mk.inj split
    have natural : ¬ n < 0 := of_decide_eq_false natural.symm
    rw [decimalInt, if_neg natural, ← digits] at written
    exact List.cons_ne_self _ _ written.symm

/-- An integer literal in range is the text of its number, unless a plus stands
before it or it is a negative zero. -/
theorem decimalInt_of_integerLiteral? {text : Bytes} {n : Int64}
    (literal : integerLiteral? text = some n) (noPlus : text.head? ≠ some 0x2B)
    (noZero : text ≠ [0x2D, 0x30]) : decimalInt n.toInt = text := by
  obtain ⟨form, read⟩ := integerLiteral?_eq_some_iff.mp literal
  have digits := isIntegerForm_digits form
  cases text with
  | nil => contradiction
  | cons b rest =>
    by_cases minus : b = 0x2D
    · subst minus
      have split : splitSign (0x2D :: rest) = (true, rest) := rfl
      rw [split] at digits
      rcases digits with zero | ⟨all, first⟩
      · exact absurd (congrArg (0x2D :: ·) zero) noZero
      · obtain ⟨positive, written⟩ := decimalNat_digitsValue all first
        rw [readInt64_value split read, if_pos rfl, decimalInt_neg positive, written]
        rfl
    · have plus : b ≠ 0x2B := fun same => noPlus (by rw [same]; rfl)
      have split : splitSign (b :: rest) = (false, b :: rest) := by
        rw [splitSign, if_neg minus, if_neg plus]
      rw [split] at digits
      rw [readInt64_value split read, if_neg Bool.false_ne_true, decimalInt_natCast]
      rcases digits with zero | ⟨all, first⟩
      · have zero : b :: rest = [0x30] := zero
        rw [zero]
        rfl
      · exact (decimalNat_digitsValue all first).2

end Conform
