import Conform.Proofs.Binary.Integers
import Mathlib.Algebra.Order.Field.Power
import Mathlib.Tactic.Linarith

/-! The finite range of a format. It ends in the middle between the largest magnitude and the
power of two that would come next: what is nearer to that power, or just as near, is rounded up to
it, since the largest magnitude is odd. So reading a decimal fails exactly from that middle on. -/
namespace Conform

/-- A tie below an even number is rounded up to it. -/
theorem divEven_lt_iff {a b m : Nat} (positive : 0 < b) (even : m % 2 = 0) (some : 0 < m) :
    divEven a b < m ↔ 2 * a < (2 * m - 1) * b := by
  obtain ⟨k, rfl⟩ := Nat.exists_eq_add_of_le' some
  have split := Nat.div_add_mod a b
  have less := Nat.mod_lt a positive
  have edge : (2 * (k + 1) - 1) * b = 2 * (b * k) + b := by
    rw [show 2 * (k + 1) - 1 = 2 * k + 1 by omega]
    ring
  rw [edge]
  rcases Nat.lt_trichotomy (a / b) k with below | same | above
  · have rounded := divEven_le a b
    have scaled : b * (a / b + 1) ≤ b * k := Nat.mul_le_mul_left b below
    rw [Nat.mul_succ] at scaled
    exact iff_of_true (by omega) (by omega)
  · rw [same] at split
    simp only [divEven, same]
    split_ifs <;> omega
  · have rounded := le_divEven a b
    have scaled : b * (k + 1) ≤ b * (a / b) := Nat.mul_le_mul_left b above
    rw [Nat.mul_succ] at scaled
    exact iff_of_false (by omega) (by omega)

/-- Where the finite range ends, in least units: half a step above the largest magnitude. -/
def Format.limit (f : Format) : Nat := (2 ^ (f.fraction + 2) - 1) * 2 ^ (f.binades - 3)

theorem Format.limit_eq {f : Format} {k m : Nat} (binades : f.binades = k + f.unit + 3)
    (next : m = f.fraction + 2 + k) : (f.limit / 2 ^ f.unit : ℚ) = 2 ^ m - 2 ^ k := by
  have one : 1 ≤ 2 ^ (f.fraction + 2) := Nat.one_le_two_pow
  have unit : (2 : ℚ) ^ f.unit ≠ 0 := by positivity
  rw [limit, binades, next, Nat.add_sub_cancel, pow_add 2 k, pow_add 2 (f.fraction + 2)]
  push_cast [Nat.cast_sub one]
  rw [← mul_assoc, mul_div_assoc, div_self unit, mul_one, sub_mul, one_mul]

theorem Format.double_limit : (double.limit / 2 ^ double.unit : ℚ) = 2 ^ 1024 - 2 ^ 970 :=
  limit_eq rfl rfl

namespace Binary

variable {f : Format}

/-- The step of the binade of a ratio leaves a significand of one bit before its fraction, or
less of it in the first binade. -/
theorem significand_range (scaled : Nat) {den : Nat} (positive : 0 < den) (fraction : Nat) :
    scaled < 2 ^ (fraction + 1) * (den * 2 ^ ((scaled / den).log2 - fraction)) ∧
      (0 < (scaled / den).log2 - fraction →
        2 ^ fraction * (den * 2 ^ ((scaled / den).log2 - fraction)) ≤ scaled) := by
  constructor
  · have above : scaled / den < 2 ^ (fraction + 1 + ((scaled / den).log2 - fraction)) :=
      Nat.lt_log2_self.trans_le (Nat.pow_le_pow_right (by decide) (by omega))
    rw [Nat.div_lt_iff_lt_mul positive, Nat.pow_add] at above
    calc scaled < _ := above
      _ = _ := by ring
  · intro shifted
    have nonzero : scaled / den ≠ 0 := by
      intro zero
      simp [zero] at shifted
    have below : 2 ^ (fraction + ((scaled / den).log2 - fraction)) ≤ scaled / den := by
      rw [Nat.add_sub_cancel' (by omega)]
      exact Nat.log2_self_le nonzero
    rw [Nat.le_div_iff_mul_le positive, Nat.pow_add] at below
    calc _ = _ := by ring
      _ ≤ scaled := below

/-- In the last binade of the format the significand decides, in every other the binade alone. -/
theorem nearestRank_lt_ranks_iff (wide : 3 ≤ f.binades) (num : Nat) {den : Nat}
    (positive : 0 < den) :
    nearestRank f num den < f.ranks ↔ num * 2 ^ f.unit < f.limit * den := by
  obtain ⟨c, binades⟩ := Nat.exists_eq_add_of_le' wide
  simp only [nearestRank, Format.ranks, Format.limit, Nat.pow_eq, binades, Nat.add_sub_cancel]
  generalize num * 2 ^ f.unit = scaled
  obtain ⟨upper, lower⟩ := significand_range scaled positive f.fraction
  generalize (scaled / den).log2 - f.fraction = shift at upper lower ⊢
  have step : 0 < den * 2 ^ shift := Nat.mul_pos positive (Nat.two_pow_pos shift)
  have one := Nat.two_pow_pos f.fraction
  have double : 2 ^ (f.fraction + 1) = 2 * 2 ^ f.fraction := by ring
  have last : 2 ^ (f.fraction + 2) = 4 * 2 ^ f.fraction := by ring
  rcases Nat.lt_trichotomy shift (c + 1) with below | rfl | above
  · refine iff_of_true ?_ ?_
    · have rounded : divEven scaled (den * 2 ^ shift) ≤ 2 * 2 ^ f.fraction :=
        (divEven_le _ _).trans (double ▸ (Nat.div_lt_iff_lt_mul step).mpr upper)
      calc shift * 2 ^ f.fraction + divEven scaled (den * 2 ^ shift)
          ≤ c * 2 ^ f.fraction + 2 * 2 ^ f.fraction :=
            Nat.add_le_add (Nat.mul_le_mul_right _ (Nat.le_of_lt_succ below)) rounded
        _ < c * 2 ^ f.fraction + 3 * 2 ^ f.fraction := by omega
        _ = (c + 3) * 2 ^ f.fraction := (Nat.add_mul c 3 _).symm
    · calc scaled < 2 ^ (f.fraction + 1) * (den * 2 ^ shift) := upper
        _ ≤ (2 ^ (f.fraction + 2) - 1) * (den * 2 ^ c) :=
          Nat.mul_le_mul (by omega) (Nat.mul_le_mul_left den
            (Nat.pow_le_pow_right (by decide) (Nat.le_of_lt_succ below)))
        _ = (2 ^ (f.fraction + 2) - 1) * 2 ^ c * den := by ring
  · have rounded := divEven_lt_iff (a := scaled) (m := 2 ^ (f.fraction + 1)) step
      (by rw [double]; exact Nat.mul_mod_right 2 _) (Nat.two_pow_pos _)
    have sum : (c + 3) * 2 ^ f.fraction = (c + 1) * 2 ^ f.fraction + 2 ^ (f.fraction + 1) := by ring
    have edge : (2 * 2 ^ (f.fraction + 1) - 1) * (den * 2 ^ (c + 1)) =
        2 * ((2 ^ (f.fraction + 2) - 1) * 2 ^ c * den) := by
      rw [show 2 * 2 ^ (f.fraction + 1) = 2 ^ (f.fraction + 2) by ring]
      ring
    rw [sum, Nat.add_lt_add_iff_left, rounded, edge, Nat.mul_lt_mul_left (by decide)]
  · have reached := lower (by omega)
    refine iff_of_false (Nat.not_lt.mpr ?_) (Nat.not_lt.mpr ?_)
    · have rounded : 2 ^ f.fraction ≤ divEven scaled (den * 2 ^ shift) :=
        ((Nat.le_div_iff_mul_le step).mpr reached).trans (le_divEven _ _)
      calc (c + 3) * 2 ^ f.fraction = (c + 2) * 2 ^ f.fraction + 2 ^ f.fraction := by ring
        _ ≤ shift * 2 ^ f.fraction + divEven scaled (den * 2 ^ shift) :=
          Nat.add_le_add (Nat.mul_le_mul_right _ above) rounded
    · calc (2 ^ (f.fraction + 2) - 1) * 2 ^ c * den
          ≤ 2 ^ (f.fraction + 2) * 2 ^ c * den :=
            Nat.mul_le_mul_right _ (Nat.mul_le_mul_right _ (Nat.sub_le _ _))
        _ = 2 ^ f.fraction * (den * 2 ^ (c + 2)) := by ring
        _ ≤ 2 ^ f.fraction * (den * 2 ^ shift) :=
          Nat.mul_le_mul_left _ (Nat.mul_le_mul_left _ (Nat.pow_le_pow_right (by decide) above))
        _ ≤ scaled := reached

theorem checked_ofRank_eq_error_iff (negative : Bool) (rank : Nat) (e : NumberError) :
    checked (ofRank negative rank : Binary f) = .error e ↔ e = .outOfRange ∧ ¬ rank < f.ranks := by
  rw [ofRank]
  split
  · rename_i inside
    simp [checked, inside]
  · rename_i beyond
    simp [checked, beyond, eq_comm]

/-- A ratio is too large exactly from the end of the finite range on. -/
theorem checked_ofRatio_eq_error_iff (wide : 3 ≤ f.binades) (negative : Bool) (num : Nat)
    {den : Nat} (positive : 0 < den) (e : NumberError) :
    checked (ofRatio negative num den : Binary f) = .error e ↔
      e = .outOfRange ∧ (f.limit / 2 ^ f.unit : ℚ) ≤ num / den := by
  have unit : (0 : ℚ) < 2 ^ f.unit := by positivity
  have ratio : (0 : ℚ) < den := by exact_mod_cast positive
  rw [ofRatio, checked_ofRank_eq_error_iff, nearestRank_lt_ranks_iff wide num positive, Nat.not_lt,
    div_le_div_iff₀ unit ratio]
  norm_cast

/-- Reading a decimal fails only for its size, and exactly when it is beyond the finite range. -/
theorem checked_ofDecimal_eq_error_iff (moderate : f.Moderate) (wide : 3 ≤ f.binades)
    (negative : Bool) (digits : Nat) (exponent : Int) (e : NumberError) :
    checked (ofDecimal negative digits exponent : Binary f) = .error e ↔
      e = .outOfRange ∧ (f.limit / 2 ^ f.unit : ℚ) ≤ digits * 10 ^ exponent := by
  by_cases zero : digits = 0
  · have ranks : 0 < f.ranks := Nat.mul_pos (by omega) (Nat.two_pow_pos f.fraction)
    have limit : 0 < f.limit :=
      Nat.mul_pos (Nat.sub_pos_of_lt (Nat.one_lt_two_pow (by omega))) (Nat.two_pow_pos _)
    have positive : (0 : ℚ) < f.limit / 2 ^ f.unit :=
      div_pos (by exact_mod_cast limit) (by positivity)
    rw [ofDecimal, if_pos zero, checked_ofRank_eq_error_iff, zero, Nat.cast_zero, zero_mul]
    exact and_congr_right fun _ => iff_of_false (not_not.mpr ranks) (not_le.mpr positive)
  · have parts : exponent = (exponent.toNat : Int) - (-exponent).toNat := by omega
    have power : (10 : ℚ) ^ exponent = 10 ^ exponent.toNat / 10 ^ (-exponent).toNat := by
      rw [← zpow_natCast, ← zpow_natCast, ← zpow_sub₀ (by norm_num), ← parts]
    rw [ofDecimal_eq_ofRatio moderate negative zero parts,
      checked_ofRatio_eq_error_iff wide negative _ (Nat.pow_pos (by decide)), power, ← mul_div_assoc]
    push_cast
    rfl

end Binary

end Conform
