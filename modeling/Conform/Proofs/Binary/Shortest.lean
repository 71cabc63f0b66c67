import Conform.Proofs.Binary.Rounding
import Conform.Proofs.Decimal

/-! The shortest decimal of a finite number denotes that number. The search only
returns digits that it has read back; when it finds none, the exact decimal of
the number stands in, and dropping zeros at the end changes no value. -/
namespace Conform

namespace Binary

variable {f : Format}

/-- The decimal is not zero and rounds to the number. -/
def Denoted (s : Scientific) (negative : Bool) (x : Binary f) : Prop :=
  s.digits ≠ 0 ∧ ofDecimal negative s.digits s.exponent = x

theorem trimmed_denoted (moderate : f.Moderate) {negative : Bool} {x : Binary f} (fuel : Nat)
    {s : Scientific} (denoted : Denoted s negative x) :
    Denoted (s.trimmed fuel) negative x := by
  induction fuel generalizing s with
  | zero => exact denoted
  | succ fuel ih =>
    simp only [Scientific.trimmed]
    split
    · rename_i ends
      apply ih
      have tens : s.digits = s.digits / 10 * 10 ^ 1 := by omega
      have nonzero : s.digits / 10 ≠ 0 := by omega
      refine ⟨nonzero, ?_⟩
      have value := denoted.2
      rw [tens, ofDecimal_shift moderate negative nonzero] at value
      exact value
    · exact denoted

theorem ofDecimal_zero (negative : Bool) (exponent : Int) :
    (ofDecimal negative 0 exponent : Binary f) = ofRank negative 0 := rfl

theorem readingNeighbour?_denoted {x : Binary f} {negative : Bool} {num den : Nat} {exponent : Int}
    {s : Scientific} (nonzero : x ≠ ofRank negative 0)
    (found : readingNeighbour? x negative num den exponent = some s) : Denoted s negative x := by
  have value : ofDecimal negative s.digits s.exponent = x := by
    simp only [readingNeighbour?, Nat.pow_eq] at found
    generalize (if exponent < 0 then num * 10 ^ exponent.natAbs else num) = a at found
    generalize (if exponent < 0 then den else den * 10 ^ exponent.natAbs) = b at found
    split at found
    · rename_i lower
      simp only [Bool.and_eq_true, decide_eq_true_eq] at lower
      cases found
      exact lower.1
    · split at found
      · rename_i upper
        cases found
        exact of_decide_eq_true upper
      · contradiction
  refine ⟨?_, value⟩
  intro zero
  rw [zero, ofDecimal_zero] at value
  exact nonzero value.symm

theorem searchGrids_denoted {x : Binary f} {negative : Bool} {num den : Nat} {point : Int}
    {fuel count : Nat} {s : Scientific} (nonzero : x ≠ ofRank negative 0)
    (found : searchGrids x negative num den point fuel count = some s) :
    Denoted s negative x := by
  induction fuel generalizing count with
  | zero => contradiction
  | succ fuel ih =>
    simp only [searchGrids] at found
    split at found
    · rename_i hit
      cases found
      exact readingNeighbour?_denoted nonzero hit
    · exact ih found

theorem units_ne_zero {rank : Nat} (nonzero : rank ≠ 0) : units f rank ≠ 0 := by
  simp only [units, Nat.pow_eq]
  split
  · exact nonzero
  · exact Nat.mul_ne_zero (Nat.ne_of_gt (Nat.add_pos_left (Nat.two_pow_pos _) _))
      (Nat.ne_of_gt (Nat.two_pow_pos _))

/-- The exact decimal spreads the units over a power of ten instead of two. -/
theorem exactDecimal_denoted (moderate : f.Moderate) (negative : Bool) {rank : Fin f.ranks}
    (nonzero : rank.val ≠ 0) :
    Denoted (exactDecimal f rank) negative (.finite negative rank : Binary f) := by
  have digits : units f rank * 5 ^ f.unit ≠ 0 :=
    Nat.mul_ne_zero (units_ne_zero nonzero) (Nat.ne_of_gt (Nat.pow_pos (by decide)))
  refine ⟨digits, ?_⟩
  have spread : 10 ^ f.unit = 5 ^ f.unit * 2 ^ f.unit := by rw [← Nat.mul_pow]
  simp only [exactDecimal, Nat.pow_eq]
  rw [ofDecimal_eq_ofRatio moderate negative digits (show -(f.unit : Int) = (0 : Nat) - f.unit by omega),
    Nat.pow_zero, Nat.mul_one, spread, Nat.mul_comm (units f rank),
    ofRatio_scale negative (Nat.pow_pos (by decide)), ofRatio_units]

theorem shortest_denoted (moderate : f.Moderate) (negative : Bool) {rank : Fin f.ranks}
    (nonzero : rank.val ≠ 0) :
    Denoted (shortest negative rank) negative (.finite negative rank : Binary f) := by
  have other : (.finite negative rank : Binary f) ≠ ofRank negative 0 := by
    intro same
    have positive : 0 < f.ranks := Nat.lt_of_le_of_lt (Nat.zero_le _) rank.isLt
    simp only [ofRank, dif_pos positive, Binary.finite.injEq] at same
    exact nonzero (congrArg Fin.val same.2)
  apply trimmed_denoted moderate
  cases search : searchGrids (.finite negative rank : Binary f) negative (units f rank) (2 ^ f.unit)
      (pointPosition (units f rank) (2 ^ f.unit)) 17 1 with
  | none => exact exactDecimal_denoted moderate negative nonzero
  | some s => exact searchGrids_denoted other search

end Binary

end Conform
