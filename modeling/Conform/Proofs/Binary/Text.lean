import Conform.Binary.Text
import Conform.Proofs.Binary.Shortest
import Conform.Proofs.Bytes

/-! Every number reads back from its text, in every layout. A layout only moves
the point and the zeros about: the digits of the text denote the shortest
decimal, up to zeros that may stand at its end. -/
namespace Conform

/-- The octets that the text of a finite number is made of. -/
def isNumberOctet (b : UInt8) : Bool :=
  isDigit b || b == 0x2E || b == 0x65 || b == 0x2B || b == 0x2D

theorem isNumberOctet_of_digit {b : UInt8} (digit : isDigit b = true) : isNumberOctet b = true := by
  simp only [isNumberOctet, digit, Bool.true_or]

theorem all_numberOctets {digits : Bytes} (all : digits.all isDigit = true) :
    digits.all isNumberOctet = true := by
  simp only [List.all_eq_true] at all ⊢
  exact fun b member => isNumberOctet_of_digit (all b member)

theorem zeros_all_digits (n : Nat) : (zeros n).all isDigit = true := by
  simp only [zeros, List.all_replicate]
  split <;> decide

theorem digitsValue_zeros (n : Nat) (digits : Bytes) :
    digitsValue 0 (zeros n ++ digits) = digitsValue 0 digits := by
  induction n with
  | zero => rfl
  | succ n ih =>
    have zero : digitValue 0x30 = 0 := by decide
    simpa only [zeros, List.replicate_succ, List.cons_append, digitsValue, zero] using ih

theorem digitsValue_then_zeros (value n : Nat) : digitsValue value (zeros n) = value * 10 ^ n := by
  induction n generalizing value with
  | zero => simp [zeros, digitsValue]
  | succ n ih =>
    have zero : digitValue 0x30 = 0 := by decide
    have step := ih (value * 10)
    simp only [zeros, List.replicate_succ, digitsValue, zero, Nat.add_zero] at step ⊢
    rw [step]
    ring

/-- What the reader makes of the text after the digits, of which so many belong
to the fraction. -/
def exponentForm? (digits fraction : Nat) : Bytes → Option DecimalForm
  | [] => some ⟨digits, -(fraction : Int)⟩
  | b :: tail =>
    if b = 0x65 ∨ b = 0x45 then (readExponent? tail).map fun e => ⟨digits, e - fraction⟩ else none

theorem decimalForm?_whole {digits rest : Bytes} (all : digits.all isDigit = true)
    (some : digits ≠ []) (stop : ∀ b ∈ rest.head?, isDigit b = false ∧ b ≠ 0x2E) :
    decimalForm? (digits ++ rest) = exponentForm? (digitsValue 0 digits) 0 rest := by
  obtain ⟨taken, dropped⟩ := split_run all fun b member => (stop b member).1
  have full : digits.isEmpty = false := List.isEmpty_eq_false_iff.mpr some
  simp only [decimalForm?, taken, dropped]
  cases rest with
  | nil => simp [full, exponentForm?]
  | cons b tail =>
    have point := (stop b rfl).2
    simp [full, point, exponentForm?]

theorem decimalForm?_fraction {whole fraction rest : Bytes} (allWhole : whole.all isDigit = true)
    (allFraction : fraction.all isDigit = true) (some : whole ≠ [] ∨ fraction ≠ [])
    (stop : ∀ b ∈ rest.head?, isDigit b = false) :
    decimalForm? (whole ++ 0x2E :: (fraction ++ rest)) =
      exponentForm? (digitsValue 0 (whole ++ fraction)) fraction.length rest := by
  have pointStops : ∀ b ∈ (0x2E :: (fraction ++ rest) : Bytes).head?, isDigit b = false := by
    intro b member
    cases Option.some.inj member
    decide
  obtain ⟨taken, dropped⟩ := split_run allWhole pointStops
  obtain ⟨takenAfter, droppedAfter⟩ := split_run allFraction stop
  have full : (whole.isEmpty && fraction.isEmpty) = false := by
    rw [Bool.and_eq_false_iff, List.isEmpty_eq_false_iff, List.isEmpty_eq_false_iff]
    exact some
  simp only [decimalForm?, taken, dropped, if_true, takenAfter, droppedAfter, full,
    Bool.false_eq_true, if_false]
  cases rest <;> rfl

theorem readExponent?_digits {text digits : Bytes} {negative : Bool}
    (split : splitSign text = (negative, digits)) (all : digits.all isDigit = true)
    (full : digits ≠ []) : readExponent? text =
      some (if negative then -(digitsValue 0 digits : Int) else digitsValue 0 digits) := by
  have nonempty : digits.isEmpty = false := List.isEmpty_eq_false_iff.mpr full
  simp [readExponent?, split, all, nonempty]

theorem readExponent?_text (x : Int) (width : Nat) :
    readExponent? ((if x < 0 then 0x2D else 0x2B) :: (zeros width ++ decimalNat x.natAbs)) =
      some x := by
  have all : (zeros width ++ decimalNat x.natAbs).all isDigit = true := by
    rw [List.all_append, zeros_all_digits, decimalNat_all_digits]
    rfl
  have value : digitsValue 0 (zeros width ++ decimalNat x.natAbs) = x.natAbs := by
    rw [digitsValue_zeros, digitsValue_decimalNat]
  have sign : splitSign ((if x < 0 then 0x2D else 0x2B) :: (zeros width ++ decimalNat x.natAbs)) =
      (decide (x < 0), zeros width ++ decimalNat x.natAbs) := by
    by_cases negative : x < 0 <;> simp [splitSign, negative]
  rw [readExponent?_digits sign all (List.append_ne_nil_of_right_ne_nil _ (decimalNat_ne_nil _)), value]
  exact congrArg some (signed_natAbs x)

theorem below_one_text (n : Nat) (digits : Bytes) :
    ("0." ++ zeros n ++ digits : Bytes) = [0x30] ++ 0x2E :: (zeros n ++ digits) := by
  rw [List.append_assoc]
  rfl

/-- The sign and the digits of an exponent. -/
def exponentTail (width : Nat) (x : Int) : Bytes :=
  (if x < 0 then 0x2D else 0x2B) ::
    (zeros (width - (decimalNat x.natAbs).length) ++ decimalNat x.natAbs)

theorem exponentText_eq (width : Nat) (digits : Bytes) (x : Int) :
    exponentText width digits x =
      digits.take 1 ++ ((if digits.length ≤ 1 then [] else 0x2E :: digits.drop 1) ++
        0x65 :: exponentTail width x) := by
  simp only [exponentText, exponentTail, List.append_assoc, List.cons_append, List.nil_append]

theorem exponentTail_octets (width : Nat) (x : Int) :
    (exponentTail width x).all isNumberOctet = true := by
  have sign : isNumberOctet (if x < 0 then 0x2D else 0x2B) = true := by split <;> decide
  rw [exponentTail, List.all_cons, sign, List.all_append, all_numberOctets (zeros_all_digits _),
    all_numberOctets (decimalNat_all_digits _)]
  rfl

theorem take_ne_nil {digits : Bytes} {n : Nat} (full : digits ≠ []) (inside : 0 < n) :
    digits.take n ≠ [] := by
  rw [Ne, List.take_eq_nil_iff]
  rintro (none | empty)
  · omega
  · exact full empty

section Digits

variable {digits : Bytes} (all : digits.all isDigit = true) (some : digits ≠ [])
include all

theorem take_all_digits (n : Nat) : (digits.take n).all isDigit = true :=
  List.all_eq_true.mpr fun b member => List.all_eq_true.mp all b (List.mem_of_mem_take member)

theorem drop_all_digits (n : Nat) : (digits.drop n).all isDigit = true :=
  List.all_eq_true.mpr fun b member => List.all_eq_true.mp all b (List.mem_of_mem_drop member)

/-- All digits stand after the point. -/
theorem decimalForm?_below_one (n : Nat) :
    decimalForm? ("0." ++ zeros n ++ digits) =
      Option.some ⟨digitsValue 0 digits, -((n + digits.length : Nat) : Int)⟩ := by
  have fraction : (zeros n ++ digits).all isDigit = true := by
    rw [List.all_append, zeros_all_digits, all]
    rfl
  have value : digitsValue 0 ([0x30] ++ (zeros n ++ digits)) = digitsValue 0 digits :=
    digitsValue_zeros (n + 1) digits
  have read := decimalForm?_fraction (by decide : ([0x30] : Bytes).all isDigit = true) fraction
    (Or.inl (by decide)) (by simp : ∀ b ∈ ([] : Bytes).head?, _)
  rw [List.append_nil, value] at read
  rw [below_one_text, read]
  simp only [exponentForm?, List.length_append, zeros, List.length_replicate]

include some

/-- All digits stand before the point, with zeros between them and it. -/
theorem decimalForm?_integer (n : Nat) :
    decimalForm? (digits ++ zeros n) = Option.some ⟨digitsValue 0 digits * 10 ^ n, 0⟩ := by
  have whole : (digits ++ zeros n).all isDigit = true := by
    rw [List.all_append, zeros_all_digits, all]
    rfl
  have full : digits ++ zeros n ≠ [] := fun empty => some (List.append_eq_nil_iff.mp empty).1
  have read := decimalForm?_whole whole full (by simp : ∀ b ∈ ([] : Bytes).head?, _)
  rw [List.append_nil, digitsValue_append, digitsValue_then_zeros] at read
  exact read

/-- The point stands among the digits. -/
theorem decimalForm?_between {n : Nat} (inside : 0 < n) :
    decimalForm? (digits.take n ++ 0x2E :: digits.drop n) =
      Option.some ⟨digitsValue 0 digits, -((digits.length - n : Nat) : Int)⟩ := by
  have read := decimalForm?_fraction (take_all_digits all n) (drop_all_digits all n)
    (Or.inl (take_ne_nil some inside)) (by simp : ∀ b ∈ ([] : Bytes).head?, _)
  rw [List.append_nil, List.take_append_drop, List.length_drop] at read
  exact read

/-- One digit stands before the point, and the exponent says where it belongs. -/
theorem decimalForm?_exponentText (width : Nat) (x : Int) :
    decimalForm? (exponentText width digits x) =
      Option.some ⟨digitsValue 0 digits, x - ((digits.length - 1 : Nat) : Int)⟩ := by
  have exponent : readExponent? (exponentTail width x) = Option.some x := readExponent?_text x _
  have mark : ∀ b ∈ (0x65 :: exponentTail width x : Bytes).head?, isDigit b = false ∧ b ≠ 0x2E := by
    intro b member
    cases Option.some.inj member
    decide
  rw [exponentText_eq]
  split
  · rename_i single
    have whole : digits.take 1 = digits := List.take_of_length_le single
    rw [whole, List.nil_append, decimalForm?_whole all some mark]
    simp only [exponentForm?, true_or, if_true, exponent, Option.map_some, Option.some.injEq,
      DecimalForm.mk.injEq, true_and]
    omega
  · rw [List.cons_append, decimalForm?_fraction (take_all_digits all 1) (drop_all_digits all 1)
      (Or.inl (take_ne_nil some (by decide))) fun b member => (mark b member).1,
      List.take_append_drop, List.length_drop]
    simp only [exponentForm?, true_or, if_true, exponent, Option.map_some]

end Digits

/-- The text of a decimal reads as its digits, with the zeros that stand between
them and the point, if any. -/
theorem decimalForm?_text (layout : Layout) (s : Scientific) :
    ∃ n : Nat, decimalForm? (s.text layout) = some ⟨s.digits * 10 ^ n, s.exponent - n⟩ := by
  have all := decimalNat_all_digits s.digits
  have full := decimalNat_ne_nil s.digits
  have value := digitsValue_decimalNat s.digits
  simp only [Scientific.text]
  generalize decimalNat s.digits = digits at all full value
  have size : 0 < digits.length := List.length_pos_iff.mpr full
  by_cases positional : layout.positional (s.exponent + digits.length - 1) = true
  · simp only [positional, if_true, positionalText]
    split
    · refine ⟨0, ?_⟩
      rw [decimalForm?_below_one all, value]
      simp only [Nat.pow_zero, Nat.mul_one, Option.some.injEq, DecimalForm.mk.injEq, true_and]
      omega
    · split
      · refine ⟨(s.exponent + digits.length).natAbs - digits.length, ?_⟩
        rw [decimalForm?_integer all full, value]
        simp only [Option.some.injEq, DecimalForm.mk.injEq, true_and]
        omega
      · refine ⟨0, ?_⟩
        rw [decimalForm?_between all full (by omega), value]
        simp only [Nat.pow_zero, Nat.mul_one, Option.some.injEq, DecimalForm.mk.injEq, true_and]
        omega
  · simp only [positional, Bool.false_eq_true, if_false]
    refine ⟨0, ?_⟩
    rw [decimalForm?_exponentText all full, value]
    simp only [Nat.pow_zero, Nat.mul_one, Option.some.injEq, DecimalForm.mk.injEq, true_and]
    omega

/-- The text of a decimal starts with a digit and goes on with digits, points,
marks of exponents and signs; without a point and a mark it is all digits. -/
structure NumberText (text : Bytes) : Prop where
  octets : text.all isNumberOctet = true
  first : ∃ b rest, text = b :: rest ∧ isDigit b = true
  marked : text.any (fun b => b == 0x2E || b == 0x65) = true ∨ text.all isDigit = true

theorem numberText_digits {digits : Bytes} (all : digits.all isDigit = true) (full : digits ≠ []) :
    NumberText digits := by
  refine ⟨all_numberOctets all, ?_, Or.inr all⟩
  cases digits with
  | nil => contradiction
  | cons b rest =>
    simp only [List.all_cons, Bool.and_eq_true] at all
    exact ⟨b, rest, rfl, all.1⟩

/-- Digits stay the text of a number when a mark and number octets follow. -/
theorem numberText_marked {digits rest : Bytes} {mark : UInt8} (all : digits.all isDigit = true)
    (full : digits ≠ []) (isMark : (mark == 0x2E || mark == 0x65) = true)
    (octets : rest.all isNumberOctet = true) : NumberText (digits ++ mark :: rest) := by
  obtain ⟨b, tail, written, digit⟩ := (numberText_digits all full).first
  have number : isNumberOctet mark = true := by
    rcases Bool.or_eq_true _ _ |>.mp isMark with point | exponent
    · rw [eq_of_beq point]; decide
    · rw [eq_of_beq exponent]; decide
  refine ⟨?_, ⟨b, tail ++ mark :: rest, by rw [written]; rfl, digit⟩, Or.inl ?_⟩
  · rw [List.all_append, List.all_cons, all_numberOctets all, number, octets]
    rfl
  · rw [List.any_append, List.any_cons, isMark]
    simp only [Bool.true_or, Bool.or_true]

theorem numberText_text (layout : Layout) (s : Scientific) : NumberText (s.text layout) := by
  have all := decimalNat_all_digits s.digits
  have full := decimalNat_ne_nil s.digits
  simp only [Scientific.text]
  generalize decimalNat s.digits = digits at all full
  by_cases positional : layout.positional (s.exponent + digits.length - 1) = true
  · simp only [positional, if_true, positionalText]
    split
    · rw [below_one_text]
      refine numberText_marked (by decide) (by decide) (by decide) ?_
      rw [List.all_append, all_numberOctets all, all_numberOctets (zeros_all_digits _)]
      rfl
    · split
      · refine numberText_digits ?_ fun empty => full (List.append_eq_nil_iff.mp empty).1
        rw [List.all_append, all, zeros_all_digits]
        rfl
      · exact numberText_marked (take_all_digits all _) (take_ne_nil full (by omega)) (by decide)
          (all_numberOctets (drop_all_digits all _))
  · have tail := exponentTail_octets layout.exponentWidth (s.exponent + digits.length - 1)
    simp only [positional, Bool.false_eq_true, if_false, exponentText_eq]
    split
    · exact numberText_marked (take_all_digits all 1) (take_ne_nil full (by decide)) (by decide) tail
    · rw [List.cons_append]
      refine numberText_marked (take_all_digits all 1) (take_ne_nil full (by decide)) (by decide) ?_
      rw [List.all_append, all_numberOctets (drop_all_digits all 1), List.all_cons, tail]
      rfl

/-- Without a mark of floats the text of a number is all digits after the sign. -/
theorem NumberText.digits_of_unmarked {sign text : Bytes} (number : NumberText text)
    (unmarked : ¬ (sign ++ text).any
      (fun b => b == 0x2E || b == 0x65 || b == 0x45 || b == 0x6E || b == 0x4E) = true) :
    text.all isDigit = true ∧ text ≠ [] := by
  refine ⟨number.marked.resolve_left fun marked => unmarked ?_, ?_⟩
  · obtain ⟨b, member, mark⟩ := List.any_eq_true.mp marked
    refine List.any_eq_true.mpr ⟨b, List.mem_append_right _ member, ?_⟩
    simp only [mark, Bool.true_or]
  · obtain ⟨b, rest, rfl, _⟩ := number.first
    exact List.cons_ne_nil b rest

theorem isNumberOctet_ne {b c : UInt8} (number : isNumberOctet b = true)
    (other : isNumberOctet c = false) : b ≠ c := by
  rintro rfl
  simp [other] at number

/-- A text without underscores and without the mark of hexadecimal. -/
def PlainDigits (text : Bytes) : Prop := ∀ b ∈ text, b ≠ 0x5F ∧ b ≠ 0x78 ∧ b ≠ 0x58

theorem plainDigits_of_number {text : Bytes} (octets : text.all isNumberOctet = true) :
    PlainDigits text := by
  intro b member
  have number := List.all_eq_true.mp octets b member
  exact ⟨isNumberOctet_ne number (by decide), isNumberOctet_ne number (by decide),
    isNumberOctet_ne number (by decide)⟩

theorem PlainDigits.append {text more : Bytes} (first : PlainDigits text)
    (second : PlainDigits more) : PlainDigits (text ++ more) :=
  List.forall_mem_append.mpr ⟨first, second⟩

theorem plainDigits_of_digits {digits : Bytes} (all : digits.all isDigit = true) :
    PlainDigits digits := plainDigits_of_number (all_numberOctets all)

theorem separatesDigits_plain {text : Bytes} (plain : PlainDigits text) (test : UInt8 → Bool)
    (after : Bool) : separatesDigits test after text = true := by
  induction text generalizing after with
  | nil => rfl
  | cons b rest ih =>
    obtain ⟨first, others⟩ := List.forall_mem_cons.mp plain
    simp only [separatesDigits, if_neg first.1, ih others]

theorem withoutUnderscores?_plain {text : Bytes} (plain : PlainDigits text) :
    withoutUnderscores? text = some text := by
  have kept : text.filter (· != 0x5F) = text :=
    List.filter_eq_self.mpr fun b member => bne_iff_ne.mpr (plain b member).1
  have separated := separatesDigits_plain plain
  simp only [withoutUnderscores?, kept]
  split
  · obtain ⟨_, lower, upper⟩ := plain _ (List.mem_cons_of_mem _ List.mem_cons_self)
    simp only [lower, upper, or_self, if_false, separated, if_true]
  · simp only [separated, if_true]

namespace Binary

variable {f : Format}

/-- A plain text is never taken for a hexadecimal number. -/
theorem readUnsigned_decimal (negative : Bool) {text : Bytes} {form : DecimalForm}
    (plain : PlainDigits text) (formed : decimalForm? text = some form) :
    (readUnsigned negative text : Except NumberError (Binary f)) =
      checked (ofDecimal negative form.digits form.exponent) := by
  unfold readUnsigned
  split
  · obtain ⟨_, lower, upper⟩ := plain _ (List.mem_cons_of_mem _ List.mem_cons_self)
    simp only [lower, upper, or_self, if_false, formed]
  · simp only [formed]

/-- A text that starts with a digit or a point is no word, whatever its sign. -/
theorem read_decimal {text body : Bytes} {negative : Bool} {form : DecimalForm}
    (sign : splitSign text = (negative, body)) (plain : PlainDigits body)
    (first : ∃ b rest, body = b :: rest ∧ (isDigit b = true ∨ b = 0x2E))
    (formed : decimalForm? body = some form) :
    (read text : Except NumberError (Binary f)) =
      checked (ofDecimal negative form.digits form.exponent) := by
  obtain ⟨b, rest, written, head⟩ := first
  have noWord (word : Bytes) (letter : word.head?.all (fun c => !isDigit c && c != 0x2E) = true) :
      body.map (fun b => if isUpper b then b + 32 else b) ≠ word := by
    rintro rfl
    rcases head with digit | rfl
    · simp [written, isUpper_of_digit digit, digit] at letter
    · simp [written, isUpper] at letter
      exact absurd letter (by decide)
  have inf := noWord "inf" (by decide)
  have infinity := noWord "infinity" (by decide)
  have nan := noWord "nan" (by decide)
  simp only [read, sign, inf, infinity, nan, or_self, false_and, if_false,
    withoutUnderscores?_plain plain, readUnsigned_decimal negative plain formed]

theorem splitSign_signed (negative : Bool) {text : Bytes} (number : NumberText text) :
    splitSign ((if negative then [0x2D] else []) ++ text) = (negative, text) := by
  obtain ⟨b, rest, written, digit⟩ := number.first
  cases negative with
  | true => rfl
  | false =>
    have noMinus : b ≠ 0x2D := by rintro rfl; exact absurd digit (by decide)
    have noPlus : b ≠ 0x2B := by rintro rfl; exact absurd digit (by decide)
    simp only [written, Bool.false_eq_true, if_false, List.nil_append, splitSign, if_neg noMinus,
      if_neg noPlus]

theorem read_signed (negative : Bool) {text : Bytes} {form : DecimalForm}
    (number : NumberText text) (formed : decimalForm? text = some form) :
    (read ((if negative then [0x2D] else []) ++ text) : Except NumberError (Binary f)) =
      checked (ofDecimal negative form.digits form.exponent) := by
  obtain ⟨b, rest, written, digit⟩ := number.first
  exact read_decimal (splitSign_signed negative number) (plainDigits_of_number number.octets)
    ⟨b, rest, written, Or.inl digit⟩ formed

/-- The text of the magnitude of a finite number. -/
def magnitudeText (layout : Layout) (negative : Bool) (rank : Fin f.ranks) : Bytes :=
  if rank.val = 0 then [0x30] else (shortest negative rank).text layout

theorem text_finite (layout : Layout) (negative : Bool) (rank : Fin f.ranks) :
    (Binary.finite negative rank : Binary f).text layout =
      (if negative then [0x2D] else []) ++ magnitudeText layout negative rank := rfl

theorem magnitudeText_number (layout : Layout) (negative : Bool) (rank : Fin f.ranks) :
    NumberText (magnitudeText layout negative rank) := by
  unfold magnitudeText
  split
  · exact numberText_digits (by decide) (by decide)
  · exact numberText_text layout _

/-- The magnitude reads back, also with zeros put at the end of its digits. -/
theorem magnitudeText_form (moderate : f.Moderate) (layout : Layout) (negative : Bool)
    (rank : Fin f.ranks) :
    ∃ form, decimalForm? (magnitudeText layout negative rank) = some form ∧
      ∀ n : Nat, (ofDecimal negative (form.digits * 10 ^ n) (form.exponent - n) : Binary f) =
        .finite negative rank := by
  unfold magnitudeText
  split
  · rename_i zero
    refine ⟨⟨0, 0⟩, by decide, fun n => ?_⟩
    rw [Nat.zero_mul, ofDecimal_zero, ← zero, ofRank_finite]
  · rename_i nonzero
    have denoted := shortest_denoted moderate negative nonzero
    obtain ⟨moved, read⟩ := decimalForm?_text layout (shortest negative rank)
    refine ⟨_, read, fun n => ?_⟩
    rw [Nat.mul_assoc, ← Nat.pow_add, ofDecimal_shift moderate negative denoted.1]
    have exponent : (shortest negative rank).exponent - moved - n + ((moved + n : Nat) : Int) =
        (shortest negative rank).exponent := by omega
    rw [exponent]
    exact denoted.2

theorem read_magnitude (moderate : f.Moderate) (layout : Layout) (negative : Bool)
    (rank : Fin f.ranks) :
    (read ((if negative then [0x2D] else []) ++ magnitudeText layout negative rank) :
      Except NumberError (Binary f)) = .ok (.finite negative rank) := by
  obtain ⟨form, formed, value⟩ := magnitudeText_form moderate layout negative rank
  have exact := value 0
  rw [Nat.pow_zero, Nat.mul_one, Int.natCast_zero, Int.sub_zero] at exact
  rw [read_signed negative (magnitudeText_number layout negative rank) formed, exact]
  rfl

/-- Every number reads back from its text. -/
theorem read_text (moderate : f.Moderate) (layout : Layout) (x : Binary f) :
    read (x.text layout) = .ok x := by
  cases x with
  | nan => rfl
  | infinite negative => cases negative <;> rfl
  | finite negative rank => exact read_magnitude moderate layout negative rank

/-- Every number reads back from its literal, with or without the mark. -/
theorem read_literalText (x : Double) : read x.literalText = .ok x := by
  simp only [literalText]
  split
  · exact read_text Format.double_moderate .general x
  · rename_i unmarked
    cases x with
    | nan => exact absurd rfl unmarked
    | infinite negative => cases negative <;> exact absurd rfl unmarked
    | finite negative rank =>
      have number := magnitudeText_number .general negative rank
      obtain ⟨form, formed, value⟩ :=
        magnitudeText_form Format.double_moderate .general negative rank
      rw [text_finite] at unmarked ⊢
      obtain ⟨digits, full⟩ := number.digits_of_unmarked unmarked
      generalize magnitudeText .general negative rank = text at number formed digits full
      have whole := decimalForm?_whole digits full (by simp : ∀ b ∈ ([] : Bytes).head?, _)
      rw [List.append_nil, formed] at whole
      cases Option.some.inj whole
      have marked := decimalForm?_fraction digits (by decide : ([0x30] : Bytes).all isDigit = true)
        (Or.inl full) (by simp : ∀ b ∈ ([] : Bytes).head?, _)
      have longer : NumberText (text ++ 0x2E :: [0x30]) :=
        numberText_marked digits full (by decide) (by decide)
      have tens : digitsValue (digitsValue 0 text) [0x30] = digitsValue 0 text * 10 ^ 1 :=
        digitsValue_then_zeros _ 1
      rw [List.append_nil, digitsValue_append, tens] at marked
      have point : utf8 ".0" = 0x2E :: [0x30] := by decide
      rw [List.append_assoc, point, read_signed negative longer marked]
      exact congrArg checked (value 1)

end Binary

end Conform
