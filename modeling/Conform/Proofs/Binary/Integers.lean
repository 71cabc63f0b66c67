import Conform.Proofs.Binary.Text
import Conform.Value.Scalar

/-! Integers among the numbers of a format. The number nearest to an integer is an
integer, and not beyond the next power of two. So a number whose plain text reads as
an integer of 64 bits is an integer of 64 bits, the power of two just above them
apart; and of double width the text of that one is out of range. -/
namespace Conform

theorem le_divEven (a b : Nat) : a / b ≤ divEven a b := by
  simp only [divEven]
  split_ifs <;> omega

theorem divEven_le (a b : Nat) : divEven a b ≤ a / b + 1 := by
  simp only [divEven]
  split_ifs <;> omega

theorem log2_mul_two_pow {m : Nat} (positive : 0 < m) (n : Nat) :
    (m * 2 ^ n).log2 = m.log2 + n := by
  have nonzero : m * 2 ^ n ≠ 0 := Nat.mul_ne_zero (by omega) (Nat.ne_of_gt (Nat.two_pow_pos n))
  refine (Nat.log2_eq_iff nonzero).mpr ⟨?_, ?_⟩
  · rw [Nat.pow_add]
    exact Nat.mul_le_mul_right _ (Nat.log2_self_le (by omega))
  · rw [show m.log2 + n + 1 = m.log2 + 1 + n by omega, Nat.pow_add]
    exact Nat.mul_lt_mul_of_pos_right Nat.lt_log2_self (Nat.two_pow_pos n)

namespace Binary

variable {f : Format}

theorem units_zero (f : Format) : units f 0 = 0 := by
  simp [units]

/-- The units of a rank whose binade and significand are known; a significand of the
next binade counts as the first one there. -/
theorem units_significand (f : Format) (shift : Nat) {significand : Nat}
    (lower : 2 ^ f.fraction ≤ significand) (upper : significand ≤ 2 ^ (f.fraction + 1)) :
    units f (shift * 2 ^ f.fraction + significand) = significand * 2 ^ shift := by
  have positive := Nat.two_pow_pos f.fraction
  rw [Nat.pow_succ] at upper
  simp only [units, Nat.pow_eq]
  rcases Nat.lt_or_eq_of_le upper with inside | edge
  · obtain ⟨rest, rfl⟩ := Nat.exists_eq_add_of_le lower
    have small : rest < 2 ^ f.fraction := by omega
    have regroup : shift * 2 ^ f.fraction + (2 ^ f.fraction + rest) =
        rest + 2 ^ f.fraction * (shift + 1) := by ring
    rw [regroup, Nat.add_mul_div_left _ _ positive, Nat.add_mul_mod_self_left,
      Nat.div_eq_of_lt small, Nat.mod_eq_of_lt small, if_neg (by omega)]
    congr 2
    omega
  · have regroup : shift * 2 ^ f.fraction + significand = 2 ^ f.fraction * (shift + 2) := by
      rw [edge]
      ring
    rw [regroup, Nat.mul_div_cancel_left _ positive, Nat.mul_mod_right, if_neg (by omega), edge]
    rw [Nat.add_zero, show shift + 2 - 1 = shift + 1 by omega]
    ring

section Nearest

variable {m : Nat} (positive : 0 < m)

include positive

theorem nearestRank_integer (deep : f.fraction ≤ f.unit) :
    nearestRank f m 1 = (m.log2 + (f.unit - f.fraction)) * 2 ^ f.fraction +
      divEven (m * 2 ^ f.fraction) (2 ^ m.log2) := by
  obtain ⟨d, unit⟩ := Nat.exists_eq_add_of_le deep
  have shift : (m * 2 ^ f.unit).log2 - f.fraction = m.log2 + d := by
    rw [log2_mul_two_pow positive]
    omega
  have scaled : m * 2 ^ f.unit = 2 ^ d * (m * 2 ^ f.fraction) := by
    rw [unit]
    ring
  have divisor : 2 ^ (m.log2 + d) = 2 ^ d * 2 ^ m.log2 := by ring
  simp only [nearestRank, Nat.pow_eq, Nat.div_one, Nat.one_mul, shift]
  rw [scaled, divisor, divEven_scale (Nat.two_pow_pos d), unit, Nat.add_sub_cancel_left]

theorem significand_bounds (fraction : Nat) :
    2 ^ fraction ≤ divEven (m * 2 ^ fraction) (2 ^ m.log2) ∧
      divEven (m * 2 ^ fraction) (2 ^ m.log2) ≤ 2 ^ (fraction + 1) := by
  have low : 2 ^ fraction ≤ m * 2 ^ fraction / 2 ^ m.log2 := by
    rw [Nat.le_div_iff_mul_le (Nat.two_pow_pos _), Nat.mul_comm]
    exact Nat.mul_le_mul_right _ (Nat.log2_self_le (Nat.ne_of_gt positive))
  have high : m * 2 ^ fraction / 2 ^ m.log2 < 2 ^ (fraction + 1) := by
    rw [Nat.div_lt_iff_lt_mul (Nat.two_pow_pos _)]
    calc m * 2 ^ fraction < 2 ^ (m.log2 + 1) * 2 ^ fraction :=
          Nat.mul_lt_mul_of_pos_right Nat.lt_log2_self (Nat.two_pow_pos _)
      _ = 2 ^ (fraction + 1) * 2 ^ m.log2 := by ring
  exact ⟨low.trans (le_divEven _ _), (divEven_le _ _).trans high⟩

/-- The number nearest to an integer is an integer, at most the next power of two. What
fits the significand is exact, anything above is a multiple of a power of two. -/
theorem units_nearestRank (deep : f.fraction ≤ f.unit) :
    ∃ k, units f (nearestRank f m 1) = k * 2 ^ f.unit ∧ k ≤ 2 ^ (m.log2 + 1) := by
  obtain ⟨lower, upper⟩ := significand_bounds positive f.fraction
  obtain ⟨d, unit⟩ := Nat.exists_eq_add_of_le deep
  rw [nearestRank_integer positive deep, units_significand f _ lower upper, unit,
    Nat.add_sub_cancel_left]
  rcases Nat.lt_or_ge m.log2 f.fraction with fits | above
  · obtain ⟨spare, fraction⟩ := Nat.exists_eq_add_of_lt fits
    refine ⟨m, ?_, Nat.le_of_lt Nat.lt_log2_self⟩
    have whole : m * 2 ^ f.fraction = m * 2 ^ (spare + 1) * 2 ^ m.log2 := by
      rw [fraction]
      ring
    rw [whole, divEven_exact (Nat.two_pow_pos _), fraction]
    ring
  · obtain ⟨extra, size⟩ := Nat.exists_eq_add_of_le above
    refine ⟨divEven (m * 2 ^ f.fraction) (2 ^ m.log2) * 2 ^ extra, ?_, ?_⟩
    · generalize divEven (m * 2 ^ f.fraction) (2 ^ m.log2) = significand
      rw [size]
      ring
    · calc divEven (m * 2 ^ f.fraction) (2 ^ m.log2) * 2 ^ extra
          ≤ 2 ^ (f.fraction + 1) * 2 ^ extra := Nat.mul_le_mul_right _ upper
        _ = 2 ^ (m.log2 + 1) := by
          rw [size]
          ring

end Nearest

section Literal

variable {negative : Bool} {rank : Fin f.ranks} {k : Nat}

theorem integer?_of_units (whole : units f rank = k * 2 ^ f.unit) :
    (finite negative rank : Binary f).integer? = some (if negative then -(k : Int) else k) := by
  simp only [integer?, Nat.pow_eq, whole, Nat.mul_mod_left, if_true,
    Nat.mul_div_cancel _ (Nat.two_pow_pos f.unit)]

theorem eq_ofRatio_of_units (whole : units f rank = k * 2 ^ f.unit) :
    (finite negative rank : Binary f) = ofRatio negative k 1 := by
  have scaled := ofRatio_scale (f := f) negative (Nat.two_pow_pos f.unit) k 1
  rw [Nat.mul_one, Nat.mul_comm, ← whole, ofRatio_units] at scaled
  exact scaled

/-- A number whose text reads as an integer is the number nearest to that integer. -/
theorem nearest_of_integerLiteral? (moderate : f.Moderate) {layout : Layout} {n : Int64}
    (literal : integerLiteral? ((finite negative rank : Binary f).text layout) = some n) :
    ∃ m : Nat, (ofDecimal negative m 0 : Binary f) = .finite negative rank ∧
      n.toInt = if negative then -(m : Int) else m := by
  have number := magnitudeText_number layout negative rank
  obtain ⟨form, formed, value⟩ := magnitudeText_form moderate layout negative rank
  have sign := splitSign_signed negative number
  rw [← text_finite] at sign
  obtain ⟨integer, read⟩ := integerLiteral?_eq_some_iff.mp literal
  have digits : (magnitudeText layout negative rank).all isDigit = true := by
    have written := isIntegerForm_digits integer
    simp only [sign] at written
    rcases written with zero | ⟨all, _⟩
    · rw [zero]
      decide
    · exact all
  obtain ⟨b, rest, written, _⟩ := number.first
  have whole := decimalForm?_whole digits (by rw [written]; exact List.cons_ne_nil b rest)
    (by simp : ∀ b ∈ ([] : Bytes).head?, _)
  rw [List.append_nil, formed] at whole
  cases Option.some.inj whole
  refine ⟨_, ?_, readInt64_value sign read⟩
  simpa using value 0

end Literal

theorem toInt64?_isSome {x : Double} {n : Int} (integer : x.integer? = some n)
    (range : inInt64 n = true) : x.toInt64?.isSome = true := by
  simp only [toInt64?, integer, range, if_true, Option.isSome_some]

theorem ofRank_eq_finite {m : Nat} {negative : Bool} {rank : Fin f.ranks}
    (same : (ofRank negative m : Binary f) = .finite negative rank) : m = rank := by
  rw [ofRank] at same
  split at same
  · exact congrArg Fin.val (Binary.finite.inj same).2
  · contradiction

/-- The number nearest to an integer of less than 64 bits is an integer, and at most the
first one beyond them. -/
theorem units_of_nearest {m : Nat} {negative : Bool} {rank : Fin Format.double.ranks}
    (nearest : (ofDecimal negative m 0 : Double) = .finite negative rank) (fits : m < 2 ^ 63) :
    ∃ k, units .double rank = k * 2 ^ Format.double.unit ∧ k ≤ 2 ^ 63 := by
  by_cases zero : m = 0
  · rw [zero, ofDecimal_zero] at nearest
    rw [← ofRank_eq_finite nearest]
    exact ⟨0, by rw [units_zero, Nat.zero_mul], Nat.zero_le _⟩
  · rw [ofDecimal_cases Format.double_moderate negative zero, if_neg (Int.lt_irrefl 0)] at nearest
    simp only [Int.natAbs_zero, Nat.pow_zero, Nat.mul_one, ofRatio] at nearest
    obtain ⟨k, whole, bound⟩ :=
      units_nearestRank (f := .double) (Nat.pos_of_ne_zero zero) (by decide)
    refine ⟨k, by rw [← ofRank_eq_finite nearest, whole], bound.trans ?_⟩
    exact Nat.pow_le_pow_right (by decide) ((Nat.log2_lt zero).mpr fits)

/-- A number of double width whose plain text reads as an integer of 64 bits is one. The
text of the first power of two beyond them is out of range. -/
theorem toInt64?_of_integerLiteral? {x : Double} {n : Int64}
    (literal : integerLiteral? (x.text .plain) = some n) : x.toInt64?.isSome = true := by
  cases x with
  | nan => contradiction
  | infinite negative => cases negative <;> contradiction
  | finite negative rank =>
    obtain ⟨m, nearest, value⟩ := nearest_of_integerLiteral? Format.double_moderate literal
    have range := inInt64_toInt n
    simp only [value, inInt64, Bool.and_eq_true, decide_eq_true_eq] at range
    by_cases fits : m < 2 ^ 63
    · obtain ⟨k, whole, bound⟩ := units_of_nearest nearest fits
      rcases Nat.lt_or_eq_of_le bound with below | edge
      · refine toInt64?_isSome (integer?_of_units whole) ?_
        cases negative <;> simp [inInt64] <;> omega
      · rw [edge] at whole
        cases negative with
        | true => exact toInt64?_isSome (integer?_of_units whole) (by decide)
        | false =>
          rw [eq_ofRatio_of_units whole] at literal
          have beyond : integerLiteral? ((ofRatio false (2 ^ 63) 1 : Double).text .plain) = none := by
            decide +kernel
          rw [beyond] at literal
          contradiction
    · -- only the least integer is left
      cases negative with
      | true =>
        rw [if_pos rfl] at range
        have least : m = 2 ^ 63 := by omega
        rw [← nearest, least]
        decide +kernel
      | false =>
        rw [if_neg Bool.false_ne_true] at range
        omega

end Binary

end Conform
