import Conform.Proofs.Binary.Text
import Conform.Proofs.Json.Documents

/-! The numbers of documents. A numeral is a whole part that starts with zero only
if it is zero, then a fraction and an exponent, each of which may be left out. The
reader takes a numeral whole wherever a value can end, and the texts of integers and
of finite binary numbers are numerals in every layout. -/
namespace Conform.Json

inductive WholeText : Bytes → Prop
  | zero : WholeText [0x30]
  | digits {b : UInt8} {rest : Bytes} (nonzero : b ≠ 0x30) (all : (b :: rest).all isDigit = true) :
      WholeText (b :: rest)

inductive FractionText : Bytes → Prop
  | absent : FractionText []
  | present {digits : Bytes} (all : digits.all isDigit = true) (full : digits ≠ []) :
      FractionText (0x2E :: digits)

inductive ExponentText : Bytes → Prop
  | absent : ExponentText []
  | present {sign : UInt8} {digits : Bytes} (signed : sign = 0x2B ∨ sign = 0x2D)
      (all : digits.all isDigit = true) (full : digits ≠ []) : ExponentText (0x65 :: sign :: digits)

/-! ### Reading -/

/-- An octet that no part of a number goes on with. -/
def endsNumeral (b : UInt8) : Bool :=
  !isDigit b && b != 0x2E && b != octet 'e' && b != octet 'E'

theorem endsNumeral_of_stop {b : UInt8} (stop : isStop b = true) : endsNumeral b = true :=
  octet_cases (P := fun b => isStop b = true → endsNumeral b = true) (by decide) b stop

theorem digitsOf_run {digits rest : Bytes} (all : digits.all isDigit = true) (full : digits ≠ [])
    (stop : ∀ b ∈ rest.head?, isDigit b = false) : digitsOf (digits ++ rest) = some (digits, rest) := by
  obtain ⟨taken, dropped⟩ := split_run all stop
  simp only [digitsOf, taken, dropped, List.isEmpty_eq_false_iff.mpr full, Bool.false_eq_true,
    if_false]

section Parts

variable {whole fraction exponent rest : Bytes}

theorem WholeText.reads (text : WholeText whole) (stop : ∀ b ∈ rest.head?, isDigit b = false) :
    wholePart (whole ++ rest) = some (whole, rest) := by
  cases text with
  | zero => rfl
  | digits nonzero all =>
    rw [List.cons_append, wholePart, if_neg nonzero, ← List.cons_append]
    exact digitsOf_run all (List.cons_ne_nil _ _) stop

theorem WholeText.first (text : WholeText whole) :
    ∃ b tail, whole = b :: tail ∧ isDigit b = true := by
  cases text with
  | zero => exact ⟨_, _, rfl, rfl⟩
  | digits _ all => exact ⟨_, _, rfl, (Bool.and_eq_true_iff.mp all).1⟩

theorem FractionText.reads (text : FractionText fraction)
    (stop : ∀ b ∈ rest.head?, isDigit b = false ∧ b ≠ 0x2E) :
    fractionPart (fraction ++ rest) = some (fraction, rest) := by
  cases text with
  | absent =>
    cases rest with
    | nil => rfl
    | cons b tail => rw [List.nil_append, fractionPart, if_neg (stop b rfl).2]
  | present all full =>
    rw [List.cons_append, fractionPart, if_pos rfl,
      digitsOf_run all full fun b member => (stop b member).1]

theorem ExponentText.reads (text : ExponentText exponent) (stop : Starts endsNumeral rest) :
    exponentPart (exponent ++ rest) = some (exponent, rest) := by
  cases text with
  | absent =>
    cases rest with
    | nil => rfl
    | cons b tail =>
      have ends := stop.head
      simp only [endsNumeral, Bool.and_eq_true, bne_iff_ne] at ends
      rw [List.nil_append, exponentPart, if_neg (not_or.mpr ⟨ends.1.2, ends.2⟩)]
  | @present sign digits signed all full =>
    have isSign : (sign == 0x2B || sign == 0x2D) = true := by
      rcases signed with rfl | rfl <;> rfl
    have digit : ∀ b ∈ rest.head?, isDigit b = false := by
      intro b member
      have ends := stop b member
      simp only [endsNumeral, Bool.and_eq_true, Bool.not_eq_true'] at ends
      exact ends.1.1.1
    rw [List.cons_append, List.cons_append, exponentPart,
      if_pos (by decide : (0x65 : UInt8) = octet 'e' ∨ (0x65 : UInt8) = octet 'E')]
    simp only [List.take_succ_cons, List.take_zero, List.filter_cons, isSign, if_true,
      List.filter_nil, List.length_singleton, List.drop_succ_cons, List.drop_zero,
      digitsOf_run all full digit, List.cons_append, List.nil_append]

/-- What follows the whole part and what follows the fraction. -/
theorem ExponentText.stops (text : ExponentText exponent) (stop : Starts endsNumeral rest) :
    ∀ b ∈ (exponent ++ rest).head?, isDigit b = false ∧ b ≠ 0x2E := by
  intro b member
  cases text with
  | absent =>
    have ends := stop b member
    simp only [endsNumeral, Bool.and_eq_true, Bool.not_eq_true', bne_iff_ne] at ends
    exact ends.1.1
  | present =>
    obtain rfl := Option.some.inj member
    decide

theorem FractionText.stops (text : FractionText fraction)
    (stop : ∀ b ∈ rest.head?, isDigit b = false) :
    ∀ b ∈ (fraction ++ rest).head?, isDigit b = false := by
  intro b member
  cases text with
  | absent => exact stop b member
  | present =>
    obtain rfl := Option.some.inj member
    decide

/-- A minus sign or none, then the parts. -/
theorem numeral_of_parts (minus : Bool) (text : WholeText whole) (pointed : FractionText fraction)
    (scaled : ExponentText exponent) :
    Numeral ((if minus then [0x2D] else []) ++ (whole ++ (fraction ++ exponent))) where
  first := by
    obtain ⟨b, tail, rfl, digit⟩ := text.first
    cases minus with
    | true => exact ⟨_, _, rfl, Or.inr rfl⟩
    | false => exact ⟨b, _, rfl, Or.inl digit⟩
  reads := by
    intro rest ends
    have stop : Starts endsNumeral rest := fun b member => endsNumeral_of_stop (ends b member)
    have afterFraction := scaled.stops stop
    have readWhole := text.reads (pointed.stops fun b member => (afterFraction b member).1)
    have readFraction := pointed.reads afterFraction
    have readExponent := scaled.reads stop
    simp only [List.append_assoc]
    cases minus with
    | true =>
      simp only [numeral, if_true, List.cons_append, List.nil_append, List.take_succ_cons,
        List.take_zero, List.filter_cons, beq_self_eq_true, List.filter_nil, List.length_singleton,
        List.drop_succ_cons, List.drop_zero, readWhole, readFraction, readExponent,
        List.append_assoc]
    | false =>
      obtain ⟨b, tail, rfl, digit⟩ := text.first
      have noMinus : (b == 0x2D) = false := by
        rw [beq_eq_false_iff_ne]
        rintro rfl
        contradiction
      have noSign : ((b :: tail ++ (fraction ++ (exponent ++ rest))).take 1).filter
          (fun b => b == 0x2D) = [] := by
        simp [noMinus]
      simp only [numeral, Bool.false_eq_true, if_false, List.nil_append, noSign, List.length_nil,
        List.drop_zero, readWhole, readFraction, readExponent, List.append_assoc]

end Parts

/-! ### Writing -/

theorem wholeText_of_head {digits : Bytes} (all : digits.all isDigit = true) (full : digits ≠ [])
    (nonzero : digits.head? ≠ some 0x30) : WholeText digits := by
  cases digits with
  | nil => contradiction
  | cons b rest => exact .digits (fun zero => nonzero (by rw [zero]; rfl)) all

theorem wholeText_digit {digits : Bytes} (all : digits.all isDigit = true) (full : digits ≠ []) :
    WholeText (digits.take 1) := by
  cases digits with
  | nil => contradiction
  | cons b rest =>
    by_cases zero : b = 0x30
    · subst zero
      exact .zero
    · exact .digits zero (take_all_digits all 1)

theorem wholeText_decimalNat (n : Nat) : WholeText (decimalNat n) := by
  rcases Nat.eq_zero_or_pos n with rfl | positive
  · exact .zero
  · exact wholeText_of_head (decimalNat_all_digits n) (decimalNat_ne_nil n) (decimalNat_head positive)

theorem numeral_decimalInt (n : Int) : Numeral (decimalInt n) := by
  have parts := numeral_of_parts (decide (n < 0)) (wholeText_decimalNat n.natAbs) .absent .absent
  rw [List.append_nil, List.append_nil] at parts
  rw [decimalInt]
  split
  · rename_i negative
    rwa [decide_eq_true negative] at parts
  · rename_i negative
    rwa [decide_eq_false negative] at parts

/-- Digits that start with zero only if there are no others, with the point among them or
around them. -/
theorem positionalText_parts {digits : Bytes} (all : digits.all isDigit = true)
    (full : digits ≠ []) (nonzero : digits.head? ≠ some 0x30) (point : Int) :
    ∃ whole fraction, positionalText digits point = whole ++ fraction ∧ WholeText whole ∧
      FractionText fraction := by
  rw [positionalText]
  split
  · refine ⟨[0x30], 0x2E :: (zeros point.natAbs ++ digits), below_one_text _ _, .zero,
      .present ?_ fun empty => full (List.append_eq_nil_iff.mp empty).2⟩
    rw [List.all_append, zeros_all_digits, all]
    rfl
  · split
    · refine ⟨_, [], (List.append_nil _).symm, wholeText_of_head ?_ ?_ ?_, .absent⟩
      · rw [List.all_append, zeros_all_digits, all]
        rfl
      · exact fun empty => full (List.append_eq_nil_iff.mp empty).1
      · rwa [List.head?_append, Option.or_of_isSome (by simpa using full)]
    · rename_i positive inside
      refine ⟨digits.take point.natAbs, 0x2E :: digits.drop point.natAbs, rfl,
        wholeText_of_head (take_all_digits all _) (take_ne_nil full (by omega)) ?_,
        .present (drop_all_digits all _) ?_⟩
      · rwa [List.head?_take, if_neg (by omega)]
      · rw [Ne, List.drop_eq_nil_iff]
        exact inside

theorem exponentText_parts {digits : Bytes} (all : digits.all isDigit = true) (width : Nat)
    (x : Int) : ∃ fraction exponent, exponentText width digits x = digits.take 1 ++ (fraction ++ exponent) ∧
      FractionText fraction ∧ ExponentText exponent := by
  refine ⟨_, _, exponentText_eq width digits x, ?_, .present ?_ ?_ ?_⟩
  · split
    · exact .absent
    · rename_i several
      refine .present (drop_all_digits all 1) ?_
      rw [Ne, List.drop_eq_nil_iff]
      exact several
  · split
    · exact Or.inr rfl
    · exact Or.inl rfl
  · rw [List.all_append, zeros_all_digits, decimalNat_all_digits]
    rfl
  · exact fun empty => decimalNat_ne_nil _ (List.append_eq_nil_iff.mp empty).2

theorem scientific_parts (layout : Layout) {s : Scientific} (nonzero : s.digits ≠ 0) :
    ∃ whole fraction exponent, s.text layout = whole ++ (fraction ++ exponent) ∧
      WholeText whole ∧ FractionText fraction ∧ ExponentText exponent := by
  have all := decimalNat_all_digits s.digits
  have full := decimalNat_ne_nil s.digits
  have head := decimalNat_head (Nat.pos_of_ne_zero nonzero)
  rw [Scientific.text]
  split
  · obtain ⟨whole, fraction, same, text, pointed⟩ := positionalText_parts all full head
      (s.exponent + (decimalNat s.digits).length)
    exact ⟨whole, fraction, [], by rw [same, List.append_nil], text, pointed, .absent⟩
  · obtain ⟨fraction, exponent, same, pointed, scaled⟩ := exponentText_parts all
      layout.exponentWidth (s.exponent + (decimalNat s.digits).length - 1)
    exact ⟨_, fraction, exponent, same, wholeText_digit all full, pointed, scaled⟩

/-- The text of a finite number is a numeral, whatever its layout. -/
theorem numeral_text {f : Format} (moderate : f.Moderate) (layout : Layout) {x : Binary f}
    (finite : x.isFinite = true) : Numeral (x.text layout) := by
  cases x with
  | nan => contradiction
  | infinite negative => contradiction
  | finite negative rank =>
    rw [Binary.text_finite, Binary.magnitudeText]
    by_cases zero : rank.val = 0
    · rw [if_pos zero]
      exact numeral_of_parts negative .zero .absent .absent
    · rw [if_neg zero]
      obtain ⟨whole, fraction, exponent, same, text, pointed, scaled⟩ :=
        scientific_parts layout (Binary.shortest_denoted moderate negative zero).1
      rw [same]
      exact numeral_of_parts negative text pointed scaled

end Conform.Json
