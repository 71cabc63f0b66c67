import Conform.Binary.Shortest
import Mathlib.Tactic.Ring

/-! Rounding of ratios. The rank nearest to a ratio depends on the ratio alone,
and every finite magnitude is its own nearest rank. A decimal is rounded as the
ratio it denotes: the two cases that its size decides give what the division
would give, for every format between those of single and double width. -/
namespace Conform

theorem divEven_scale {k : Nat} (positive : 0 < k) (a b : Nat) :
    divEven (k * a) (k * b) = divEven a b := by
  have below : 2 * (k * (a % b)) < k * b ↔ 2 * (a % b) < b := by
    rw [Nat.mul_left_comm, Nat.mul_lt_mul_left positive]
  have above : k * b < 2 * (k * (a % b)) ↔ b < 2 * (a % b) := by
    rw [Nat.mul_left_comm, Nat.mul_lt_mul_left positive]
  simp only [divEven, Nat.mul_div_mul_left a b positive, Nat.mul_mod_mul_left, below, above]

theorem divEven_exact {b : Nat} (positive : 0 < b) (a : Nat) : divEven (a * b) b = a := by
  simp only [divEven, Nat.mul_div_cancel a positive, Nat.mul_mod_left, Nat.mul_zero, if_pos positive]

/-- Less than half of the divisor rounds to nothing. -/
theorem divEven_small {a b : Nat} (small : 2 * a < b) : divEven a b = 0 := by
  have less : a < b := by omega
  simp only [divEven, Nat.div_eq_of_lt less, Nat.mod_eq_of_lt less, if_pos small]

/-- The limits within which the size of a decimal decides its rounding. -/
structure Format.Moderate (f : Format) : Prop where
  unit : f.unit < 1202
  ceiling : f.binades + f.fraction ≤ 1203 + f.unit

theorem Format.double_moderate : Format.double.Moderate := ⟨by decide, by decide⟩

namespace Binary

variable {f : Format}

theorem nearestRank_scale (f : Format) {k : Nat} (positive : 0 < k) (num den : Nat) :
    nearestRank f (k * num) (k * den) = nearestRank f num den := by
  have quotient : k * num * 2 ^ f.unit / (k * den) = num * 2 ^ f.unit / den := by
    rw [Nat.mul_assoc, Nat.mul_div_mul_left _ _ positive]
  simp only [nearestRank, Nat.pow_eq, quotient]
  rw [Nat.mul_assoc k num, Nat.mul_assoc k den, divEven_scale positive]

theorem ofRatio_scale (negative : Bool) {k : Nat} (positive : 0 < k) (num den : Nat) :
    (ofRatio negative (k * num) (k * den) : Binary f) = ofRatio negative num den := by
  simp only [ofRatio, nearestRank_scale f positive]

/-- A finite magnitude is its own nearest one. Below the first binade the rank
counts units; above it the leading bit gives the binade back. -/
theorem nearestRank_units (f : Format) (rank : Nat) :
    nearestRank f (units f rank) (2 ^ f.unit) = rank := by
  have unitPositive := Nat.two_pow_pos f.unit
  have fractionPositive := Nat.two_pow_pos f.fraction
  simp only [nearestRank, Nat.pow_eq, Nat.mul_div_cancel _ unitPositive]
  by_cases first : rank / 2 ^ f.fraction = 0
  · have small : rank < 2 ^ f.fraction := by
      rcases Nat.div_eq_zero_iff.mp first with none | small
      · omega
      · exact small
    have shift : rank.log2 - f.fraction = 0 := by
      by_cases zero : rank = 0
      · simp [zero]
      · have := (Nat.log2_lt zero).mpr small
        omega
    simp only [units, Nat.pow_eq, first, if_true, shift, Nat.pow_zero, Nat.mul_one, Nat.zero_mul, Nat.zero_add]
    exact divEven_exact unitPositive rank
  · obtain ⟨binade, hbinade⟩ := Nat.exists_eq_succ_of_ne_zero first
    have remainder := Nat.mod_lt rank fractionPositive
    have whole := Nat.div_add_mod rank (2 ^ f.fraction)
    rw [hbinade] at whole
    simp only [units, Nat.pow_eq, hbinade, Nat.succ_eq_add_one, Nat.add_one_ne_zero, if_false,
      Nat.add_sub_cancel]
    have leading : ((2 ^ f.fraction + rank % 2 ^ f.fraction) * 2 ^ binade).log2 =
        f.fraction + binade := by
      have nonzero : (2 ^ f.fraction + rank % 2 ^ f.fraction) * 2 ^ binade ≠ 0 :=
        Nat.mul_ne_zero (by omega) (Nat.ne_of_gt (Nat.two_pow_pos binade))
      refine (Nat.log2_eq_iff nonzero).mpr ⟨?_, ?_⟩
      · rw [Nat.pow_add]
        exact Nat.mul_le_mul_right _ (Nat.le_add_right _ _)
      · rw [show f.fraction + binade + 1 = f.fraction + 1 + binade by omega, Nat.pow_add]
        apply Nat.mul_lt_mul_of_pos_right _ (Nat.two_pow_pos binade)
        rw [Nat.pow_succ]
        omega
    rw [leading, Nat.add_sub_cancel_left, Nat.mul_assoc, Nat.mul_comm (2 ^ binade) (2 ^ f.unit),
      divEven_exact (Nat.mul_pos unitPositive (Nat.two_pow_pos binade))]
    calc binade * 2 ^ f.fraction + (2 ^ f.fraction + rank % 2 ^ f.fraction)
        = 2 ^ f.fraction * (binade + 1) + rank % 2 ^ f.fraction := by ring
      _ = rank := whole

theorem ofRank_finite (negative : Bool) (rank : Fin f.ranks) :
    (ofRank negative rank.val : Binary f) = .finite negative rank := by
  simp only [ofRank, dif_pos rank.isLt]

theorem ofRatio_units (negative : Bool) (rank : Fin f.ranks) :
    (ofRatio negative (units f rank) (2 ^ f.unit) : Binary f) = .finite negative rank := by
  simp only [ofRatio, nearestRank_units, ofRank_finite]

theorem two_pow_le_ten_pow (n : Nat) : 2 ^ (3 * n) ≤ 10 ^ n := by
  rw [Nat.pow_mul]
  exact Nat.pow_le_pow_left (by decide) n

/-- A ratio of more than four hundred decimal digits is beyond the finite range. -/
theorem ofRatio_large (moderate : f.Moderate) (negative : Bool) {num den size : Nat}
    (positive : 0 < den) (large : 10 ^ size * den ≤ num) (limit : 400 < size) :
    (ofRatio negative num den : Binary f) = .infinite negative := by
  have quotient : 2 ^ (3 * size + f.unit) ≤ num * 2 ^ f.unit / den := by
    refine (Nat.le_div_iff_mul_le positive).mpr ?_
    calc 2 ^ (3 * size + f.unit) * den = 2 ^ (3 * size) * den * 2 ^ f.unit := by ring
      _ ≤ 10 ^ size * den * 2 ^ f.unit :=
        Nat.mul_le_mul_right _ (Nat.mul_le_mul_right _ (two_pow_le_ten_pow size))
      _ ≤ num * 2 ^ f.unit := Nat.mul_le_mul_right _ large
  have nonzero : num * 2 ^ f.unit / den ≠ 0 := by
    have := Nat.two_pow_pos (3 * size + f.unit)
    omega
  have leading := (Nat.le_log2 nonzero).mpr quotient
  have ceiling := moderate.ceiling
  have shift : f.binades ≤ (num * 2 ^ f.unit / den).log2 - f.fraction := by omega
  have beyond : ¬ nearestRank f num den < f.ranks := by
    simp only [nearestRank, Format.ranks, Nat.pow_eq, Nat.not_lt]
    exact Nat.le_trans (Nat.mul_le_mul_right _ shift) (Nat.le_add_right _ _)
  simp only [ofRatio, ofRank, dif_neg beyond]

/-- A ratio below a power of ten that no unit reaches rounds to zero. -/
theorem ofRatio_small (moderate : f.Moderate) (negative : Bool) {num den size : Nat}
    (positive : 0 < num) (small : num * 10 ^ size ≤ den) (limit : 400 < size) :
    (ofRatio negative num den : Binary f) = ofRank negative 0 := by
  have unit := moderate.unit
  have power : 2 ^ (f.unit + 1) < 10 ^ size :=
    Nat.lt_of_lt_of_le (Nat.pow_lt_pow_right (by decide) (by omega)) (two_pow_le_ten_pow size)
  have half : 2 * (num * 2 ^ f.unit) < den := by
    calc 2 * (num * 2 ^ f.unit) = num * 2 ^ (f.unit + 1) := by ring
      _ < num * 10 ^ size := Nat.mul_lt_mul_of_pos_left power positive
      _ ≤ den := small
  have quotient : num * 2 ^ f.unit / den = 0 := Nat.div_eq_of_lt (by omega)
  simp only [ofRatio, nearestRank, Nat.pow_eq, quotient, Nat.log2_zero, Nat.zero_sub, Nat.zero_mul, Nat.pow_zero,
    Nat.mul_one, Nat.zero_add, divEven_small half]

theorem digits_lt_ten_pow (digits : Nat) : digits < 10 ^ (digits.log2 / 3 + 1) := by
  refine Nat.lt_of_lt_of_le Nat.lt_log2_self (Nat.le_trans ?_ (two_pow_le_ten_pow _))
  exact Nat.pow_le_pow_right (by decide) (by omega)

theorem ofDecimal_cases (moderate : f.Moderate) (negative : Bool) {digits : Nat}
    (nonzero : digits ≠ 0) (exponent : Int) :
    (ofDecimal negative digits exponent : Binary f) =
      if exponent < 0 then ofRatio negative digits (10 ^ exponent.natAbs)
      else ofRatio negative (digits * 10 ^ exponent.natAbs) 1 := by
  simp only [ofDecimal, Nat.pow_eq, if_neg nonzero]
  split
  · have large : 10 ^ exponent.natAbs * 1 ≤ digits * 10 ^ exponent.natAbs := by
      rw [Nat.mul_one]
      exact Nat.le_mul_of_pos_left _ (Nat.pos_of_ne_zero nonzero)
    rw [if_neg (by omega), ofRatio_large moderate negative (by decide) large (by omega)]
  · split
    · obtain ⟨extra, size⟩ : ∃ extra, exponent.natAbs = digits.log2 / 3 + 1 + extra :=
        ⟨exponent.natAbs - (digits.log2 / 3 + 1), by omega⟩
      have small : digits * 10 ^ extra ≤ 10 ^ exponent.natAbs := by
        rw [size, Nat.pow_add]
        exact Nat.mul_le_mul_right _ (Nat.le_of_lt (digits_lt_ten_pow digits))
      rw [if_pos (by omega),
        ofRatio_small moderate negative (Nat.pos_of_ne_zero nonzero) small (by omega)]
    · rfl

/-- A decimal is rounded as the ratio of any two powers of ten that give its
exponent. -/
theorem ofDecimal_eq_ofRatio (moderate : f.Moderate) (negative : Bool) {digits : Nat}
    (nonzero : digits ≠ 0) {exponent : Int} {m n : Nat} (same : exponent = (m : Int) - n) :
    (ofDecimal negative digits exponent : Binary f) =
      ofRatio negative (digits * 10 ^ m) (10 ^ n) := by
  rw [ofDecimal_cases moderate negative nonzero]
  split
  · obtain ⟨k, rfl⟩ : ∃ k, n = m + k := ⟨n - m, by omega⟩
    have size : exponent.natAbs = k := by omega
    rw [size, Nat.mul_comm digits, Nat.pow_add, ofRatio_scale _ (Nat.pow_pos (by decide))]
  · obtain ⟨k, rfl⟩ : ∃ k, m = n + k := ⟨m - n, by omega⟩
    have size : exponent.natAbs = k := by omega
    have shared : digits * 10 ^ (n + k) = 10 ^ n * (digits * 10 ^ k) := by ring
    have scaled := ofRatio_scale (f := f) negative (Nat.pow_pos (by decide) : 0 < 10 ^ n)
      (digits * 10 ^ k) 1
    rw [size, shared, ← scaled, Nat.mul_one]

/-- Zeros at the end of the digits may stand in the exponent instead. -/
theorem ofDecimal_shift (moderate : f.Moderate) (negative : Bool) {digits : Nat}
    (nonzero : digits ≠ 0) (zeros : Nat) (exponent : Int) :
    (ofDecimal negative (digits * 10 ^ zeros) exponent : Binary f) =
      ofDecimal negative digits (exponent + zeros) := by
  have power : digits * 10 ^ zeros ≠ 0 :=
    Nat.mul_ne_zero nonzero (Nat.ne_of_gt (Nat.pow_pos (by decide)))
  rw [ofDecimal_eq_ofRatio moderate negative power
      (show exponent = (exponent.toNat : Int) - (-exponent).toNat by omega),
    ofDecimal_eq_ofRatio moderate negative nonzero
      (show exponent + zeros = ((zeros + exponent.toNat : Nat) : Int) - (-exponent).toNat by omega),
    Nat.mul_assoc, ← Nat.pow_add]

end Binary

end Conform
