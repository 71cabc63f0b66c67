import Conform.Declaration.Scan
import Conform.Proofs.Binary.Text

/-! The numbers of declarations: an optional sign, digits with a point among them
or none, and an optional exponent. Numerals are what is cut off a text where a
number starts, and a numeral is cut off whole before any octet that cannot
continue it. -/
namespace Conform.Declaration

inductive SignText : Bytes → Prop where
  | none : SignText []
  | one {b : UInt8} (sign : isSign b = true) : SignText [b]

/-- A point and the digits after it, of which there may be none. -/
inductive FractionText : Bytes → Prop where
  | none : FractionText []
  | some {digits : Bytes} (all : digits.all isDigit = true) : FractionText (0x2E :: digits)

inductive ExponentText : Bytes → Prop where
  | none : ExponentText []
  | some {mark : UInt8} {sign digits : Bytes} (isMark : mark = 0x65 ∨ mark = 0x45)
      (signed : SignText sign) (all : digits.all isDigit = true)
      (full : startsWith isDigit digits = true) : ExponentText (mark :: (sign ++ digits))

/-- A number as it is written, in its parts, with a digit before the exponent. -/
structure Numeral where
  sign : Bytes
  whole : Bytes
  fraction : Bytes
  exponent : Bytes
  signed : SignText sign
  digits : whole.all isDigit = true
  pointed : FractionText fraction
  scaled : ExponentText exponent
  full : startsWith isDigit whole = true ∨ startsWith isDigit fraction.tail = true

/-- An octet that cannot continue a number. -/
def endsNumber (b : UInt8) : Bool := !(isDigit b || b == 0x2E || b == 0x65 || b == 0x45)

/-! ### Splitting -/

theorem splitOne_join (test : UInt8 → Bool) (text : Bytes) :
    (splitOne test text).1 ++ (splitOne test text).2 = text := by
  cases text with
  | nil => rfl
  | cons b rest =>
    rw [splitOne]
    split <;> rfl

theorem splitOne_stop {test : UInt8 → Bool} {text : Bytes}
    (stop : ∀ b ∈ text.head?, test b = false) : splitOne test text = ([], text) := by
  cases text with
  | nil => rfl
  | cons b rest => rw [splitOne, stop b rfl]; rfl

theorem splitSign_text (text : Bytes) : SignText (splitOne isSign text).1 := by
  cases text with
  | nil => exact .none
  | cons b rest =>
    rw [splitOne]
    split
    · rename_i sign
      exact .one sign
    · exact .none

theorem SignText.isSign_of_mem {sign : Bytes} (signed : SignText sign) {b : UInt8}
    (member : b ∈ sign) : isSign b = true := by
  cases signed with
  | none => contradiction
  | one isSign => rwa [List.mem_singleton.mp member]

theorem SignText.split {sign rest : Bytes} (signed : SignText sign)
    (stop : ∀ b ∈ rest.head?, isSign b = false) : splitOne isSign (sign ++ rest) = (sign, rest) := by
  cases signed with
  | none => exact splitOne_stop stop
  | one isSign => rw [List.cons_append, splitOne, if_pos isSign, List.nil_append]

theorem splitFraction_text (text : Bytes) : FractionText (splitFraction text).1 ∧
    (splitFraction text).1 ++ (splitFraction text).2 = text := by
  cases text with
  | nil => exact ⟨.none, rfl⟩
  | cons b rest =>
    by_cases point : b = 0x2E
    · subst point
      exact ⟨.some List.all_takeWhile, by simp [splitFraction, splitOne]⟩
    · have split : splitFraction (b :: rest) = ([], b :: rest) := by
        simp [splitFraction, splitOne, point]
      rw [split]
      exact ⟨.none, rfl⟩

theorem FractionText.split {fraction rest : Bytes} (pointed : FractionText fraction)
    (stop : ∀ b ∈ rest.head?, isDigit b = false ∧ b ≠ 0x2E) :
    splitFraction (fraction ++ rest) = (fraction, rest) := by
  cases pointed with
  | none =>
    have none : ∀ b ∈ rest.head?, (b == 0x2E) = false := by
      intro b member
      simpa using (stop b member).2
    rw [List.nil_append, splitFraction, splitOne_stop none]
  | some all =>
    obtain ⟨taken, dropped⟩ := split_run all fun b member => (stop b member).1
    simp [splitFraction, splitOne, taken, dropped]

theorem isSign_of_digit {b : UInt8} (digit : isDigit b = true) : isSign b = false :=
  octet_cases (P := fun b => isDigit b = true → isSign b = false) (by decide) b digit

/-- A text that starts with a digit starts with no sign. -/
theorem not_sign_of_startsWith {text : Bytes} (starts : startsWith isDigit text = true) :
    ∀ b ∈ text.head?, isSign b = false := by
  intro b member
  cases text with
  | nil => contradiction
  | cons c rest =>
    obtain rfl := Option.some.inj member
    exact isSign_of_digit starts

theorem startsWith_takeWhile {text : Bytes} (starts : startsWith isDigit text = true) :
    startsWith isDigit (text.takeWhile isDigit) = true := by
  cases text with
  | nil => contradiction
  | cons b rest =>
    have digit : isDigit b = true := starts
    rw [List.takeWhile_cons_of_pos digit]
    exact digit

theorem startsWith_of_all {digits : Bytes} (all : digits.all isDigit = true) (full : digits ≠ []) :
    startsWith isDigit digits = true := by
  cases digits with
  | nil => contradiction
  | cons b rest =>
    rw [List.all_cons, Bool.and_eq_true] at all
    exact all.1

theorem startsWith_append {test : UInt8 → Bool} {text : Bytes} (starts : startsWith test text = true)
    (rest : Bytes) : startsWith test (text ++ rest) = true := by
  cases text with
  | nil => contradiction
  | cons b tail => exact starts

theorem splitExponent_of_not_mark {text : Bytes} (stop : ∀ b ∈ text.head?, b ≠ 0x65 ∧ b ≠ 0x45) :
    splitExponent text = ([], text) := by
  rw [splitExponent, splitOne_stop fun b member => by simpa using stop b member]
  rfl

theorem splitExponent_of_mark {mark : UInt8} (isMark : mark = 0x65 ∨ mark = 0x45) (rest : Bytes) :
    splitExponent (mark :: rest) =
      if startsWith isDigit (splitOne isSign rest).2 then
        (mark :: ((splitOne isSign rest).1 ++ (splitOne isSign rest).2.takeWhile isDigit),
          (splitOne isSign rest).2.dropWhile isDigit)
      else ([], mark :: rest) := by
  rcases isMark with rfl | rfl <;> rfl

theorem splitExponent_text (text : Bytes) : ExponentText (splitExponent text).1 ∧
    (splitExponent text).1 ++ (splitExponent text).2 = text := by
  cases text with
  | nil => exact ⟨.none, rfl⟩
  | cons b rest =>
    by_cases isMark : b = 0x65 ∨ b = 0x45
    · rw [splitExponent_of_mark isMark]
      split
      · rename_i starts
        have full := startsWith_takeWhile starts
        refine ⟨.some isMark (splitSign_text rest) List.all_takeWhile full, ?_⟩
        rw [List.cons_append, List.append_assoc, List.takeWhile_append_dropWhile, splitOne_join]
      · exact ⟨.none, rfl⟩
    · rw [splitExponent_of_not_mark (by simpa using isMark)]
      exact ⟨.none, rfl⟩

theorem endsNumber_iff (b : UInt8) :
    endsNumber b = true ↔ isDigit b = false ∧ b ≠ 0x2E ∧ b ≠ 0x65 ∧ b ≠ 0x45 := by
  simp [endsNumber, and_assoc]

theorem ExponentText.split {exponent rest : Bytes} (scaled : ExponentText exponent)
    (stop : Starts endsNumber rest) : splitExponent (exponent ++ rest) = (exponent, rest) := by
  have ends : ∀ b ∈ rest.head?, isDigit b = false ∧ b ≠ 0x2E ∧ b ≠ 0x65 ∧ b ≠ 0x45 := by
    intro b member
    exact (endsNumber_iff b).mp (stop b member)
  cases scaled with
  | none => exact splitExponent_of_not_mark fun b member => (ends b member).2.2
  | @some mark sign digits isMark signed all full =>
    have starts := startsWith_append full rest
    obtain ⟨taken, dropped⟩ := split_run all fun b member => (ends b member).1
    rw [List.cons_append, splitExponent_of_mark isMark, List.append_assoc,
      signed.split (not_sign_of_startsWith starts), if_pos starts, taken, dropped]

/-! ### Numerals -/

namespace Numeral

/-- The part after the sign. -/
def body (n : Numeral) : Bytes := n.whole ++ (n.fraction ++ n.exponent)

def text (n : Numeral) : Bytes := n.sign ++ n.body

/-- A number with a fraction or an exponent is a float. -/
def kind (n : Numeral) : TokenKind :=
  if n.fraction.isEmpty && n.exponent.isEmpty then .integer else .float

theorem parts_of_integer {n : Numeral} (integer : n.kind = .integer) :
    n.fraction = [] ∧ n.exponent = [] := by
  rw [kind] at integer
  split at integer
  · rename_i both
    simpa using both
  · contradiction

theorem kind_cases (n : Numeral) : n.kind = .integer ∨ n.kind = .float := by
  rw [kind]
  split
  · exact Or.inl rfl
  · exact Or.inr rfl

theorem body_head (n : Numeral) : ∃ b rest, n.body = b :: rest ∧ (isDigit b = true ∨ b = 0x2E) := by
  rw [body]
  cases whole : n.whole with
  | cons b rest =>
    have digits := n.digits
    rw [whole, List.all_cons, Bool.and_eq_true] at digits
    exact ⟨b, _, rfl, Or.inl digits.1⟩
  | nil =>
    have full := n.full
    cases fraction : n.fraction with
    | nil => rw [whole, fraction] at full; simp [startsWith] at full
    | cons b rest =>
      have pointed := n.pointed
      rw [fraction] at pointed
      cases pointed with
      | some all => exact ⟨_, _, rfl, Or.inr rfl⟩

end Numeral

/-- Where a number starts there is a digit before the exponent. -/
theorem startsNumber_full {text : Bytes}
    (starts : startsWith isDigit (splitOne (· == 0x2E) text).2 = true) :
    startsWith isDigit (text.takeWhile isDigit) = true ∨
      startsWith isDigit (splitFraction (text.dropWhile isDigit)).1.tail = true := by
  cases text with
  | nil => contradiction
  | cons b rest =>
    by_cases point : b = 0x2E
    · subst point
      exact Or.inr (startsWith_takeWhile starts)
    · have split : splitOne (· == 0x2E) (b :: rest) = ([], b :: rest) := by simp [splitOne, point]
      rw [split] at starts
      exact Or.inl (startsWith_takeWhile starts)

/-- What is cut off where a number starts is a numeral. -/
theorem splitNumber_numeral {text : Bytes} (starts : startsNumber text = true) :
    ∃ (n : Numeral) (rest : Bytes), splitNumber text = (n.kind, n.text, rest) ∧
      n.text ++ rest = text := by
  rcases front : splitOne isSign text with ⟨sign, afterSign⟩
  rcases middle : splitFraction (afterSign.dropWhile isDigit) with ⟨fraction, afterFraction⟩
  rcases back : splitExponent afterFraction with ⟨exponent, rest⟩
  have signed := splitSign_text text
  have signJoin := splitOne_join isSign text
  obtain ⟨pointed, fractionJoin⟩ := splitFraction_text (afterSign.dropWhile isDigit)
  obtain ⟨scaled, exponentJoin⟩ := splitExponent_text afterFraction
  rw [startsNumber, front] at starts
  have full := startsNumber_full starts
  rw [middle] at full pointed fractionJoin
  rw [front] at signed signJoin
  rw [back] at scaled exponentJoin
  refine ⟨⟨sign, afterSign.takeWhile isDigit, fraction, exponent, signed, List.all_takeWhile,
    pointed, scaled, full⟩, rest, ?_, ?_⟩
  · simp only [splitNumber, front, middle, back, Numeral.kind, Numeral.text, Numeral.body,
      List.append_assoc]
  · simp only at signJoin fractionJoin exponentJoin
    rw [Numeral.text, Numeral.body]
    simp only [List.append_assoc]
    rw [exponentJoin, fractionJoin, List.takeWhile_append_dropWhile, signJoin]

theorem FractionText.head {fraction rest : Bytes} (pointed : FractionText fraction)
    (stop : ∀ b ∈ rest.head?, isDigit b = false) :
    ∀ b ∈ (fraction ++ rest).head?, isDigit b = false := by
  intro b member
  cases pointed with
  | none => exact stop b member
  | some all =>
    obtain rfl := Option.some.inj member
    decide

theorem ExponentText.head {exponent rest : Bytes} (scaled : ExponentText exponent)
    (stop : Starts endsNumber rest) :
    ∀ b ∈ (exponent ++ rest).head?, isDigit b = false ∧ b ≠ 0x2E := by
  intro b member
  cases scaled with
  | none =>
    obtain ⟨digit, point, _⟩ := (endsNumber_iff b).mp (stop b member)
    exact ⟨digit, point⟩
  | some isMark signed all full =>
    obtain rfl := Option.some.inj member
    rcases isMark with rfl | rfl <;> decide

namespace Numeral

variable (n : Numeral)

theorem body_not_sign (rest : Bytes) : ∀ b ∈ (n.body ++ rest).head?, isSign b = false := by
  intro b member
  obtain ⟨c, tail, written, head⟩ := n.body_head
  rw [written] at member
  obtain rfl := Option.some.inj member
  rcases head with digit | rfl
  · exact isSign_of_digit digit
  · decide

theorem split_sign (rest : Bytes) :
    splitOne isSign (n.text ++ rest) = (n.sign, n.body ++ rest) := by
  rw [text, List.append_assoc]
  exact n.signed.split (n.body_not_sign rest)

theorem starts (rest : Bytes) : startsNumber (n.text ++ rest) = true := by
  rw [startsNumber, n.split_sign, body]
  have full := n.full
  cases whole : n.whole with
  | cons b tail =>
    have digit : isDigit b = true := by
      have digits := n.digits
      rw [whole, List.all_cons, Bool.and_eq_true] at digits
      exact digits.1
    have point : b ≠ 0x2E := by rintro rfl; exact absurd digit (by decide)
    simp [splitOne, point, startsWith, digit]
  | nil =>
    have pointed := n.pointed
    rw [whole] at full
    cases fraction : n.fraction with
    | nil => simp [fraction, startsWith] at full
    | cons b tail =>
      rw [fraction] at pointed full
      cases pointed with
      | some all =>
        have digit := full.resolve_left (by simp [startsWith])
        simp only [List.nil_append, List.cons_append, List.append_assoc, splitOne,
          beq_self_eq_true, if_true]
        exact startsWith_append digit _

/-- A numeral is cut off whole before an octet that cannot continue it. -/
theorem split {rest : Bytes} (stop : Starts endsNumber rest) :
    splitNumber (n.text ++ rest) = (n.kind, n.text, rest) := by
  have last := n.scaled.head stop
  have next := n.pointed.head fun b member => (last b member).1
  obtain ⟨taken, dropped⟩ := split_run n.digits next
  simp only [splitNumber, n.split_sign, body, List.append_assoc, taken, dropped,
    n.pointed.split last, n.scaled.split stop]
  simp only [kind, text, body]

end Numeral

/-! ### Reading -/

theorem SignText.splitSign {sign rest : Bytes} (signed : SignText sign)
    (stop : ∀ b ∈ rest.head?, isSign b = false) :
    Conform.splitSign (sign ++ rest) = (sign == [0x2D], rest) := by
  cases signed with
  | none =>
    cases rest with
    | nil => rfl
    | cons b tail =>
      have other := stop b rfl
      simp only [isSign, Bool.or_eq_false_iff, beq_eq_false_iff_ne] at other
      simp [Conform.splitSign, other.1, other.2]
  | @one b sign =>
    simp only [isSign, Bool.or_eq_true, beq_iff_eq] at sign
    rcases sign with rfl | rfl <;> rfl

/-- The power of ten that an exponent gives. -/
def exponentPower (exponent : Bytes) : Int :=
  let digits := (Conform.splitSign exponent.tail).2
  if (Conform.splitSign exponent.tail).1 then -(digitsValue 0 digits : Int) else digitsValue 0 digits

theorem ExponentText.form {exponent : Bytes} (scaled : ExponentText exponent)
    (digits fraction : Nat) : exponentForm? digits fraction exponent =
      Option.some ⟨digits, exponentPower exponent - fraction⟩ := by
  cases scaled with
  | none => simp [exponentForm?, exponentPower, Conform.splitSign, digitsValue]
  | @some mark sign ds isMark signed all full =>
    have split := signed.splitSign (not_sign_of_startsWith full)
    have some : ds ≠ [] := by
      rintro rfl
      contradiction
    simp only [exponentForm?, isMark, if_true, readExponent?_digits split all some, exponentPower,
      List.tail_cons, split, Option.map_some]

theorem FractionText.plain {fraction : Bytes} (pointed : FractionText fraction) :
    PlainDigits fraction := by
  cases pointed with
  | none => exact nofun
  | @some digits all =>
    have point : PlainDigits [0x2E] := by simp [PlainDigits]
    exact point.append (plainDigits_of_digits all)

theorem SignText.plain {sign : Bytes} (signed : SignText sign) : PlainDigits sign := by
  cases signed with
  | none => exact nofun
  | @one b sign =>
    simp only [isSign, Bool.or_eq_true, beq_iff_eq] at sign
    rcases sign with rfl | rfl <;> simp [PlainDigits]

theorem ExponentText.plain {exponent : Bytes} (scaled : ExponentText exponent) :
    PlainDigits exponent := by
  cases scaled with
  | none => exact nofun
  | @some mark sign digits isMark signed all full =>
    have first : PlainDigits [mark] := by rcases isMark with rfl | rfl <;> simp [PlainDigits]
    exact first.append (signed.plain.append (plainDigits_of_digits all))

namespace Numeral

variable (n : Numeral)

theorem splitSign : Conform.splitSign n.text = (n.sign == [0x2D], n.body) :=
  n.signed.splitSign (by simpa using n.body_not_sign [])

theorem form : decimalForm? n.body = some ⟨digitsValue 0 (n.whole ++ n.fraction.tail),
    exponentPower n.exponent - n.fraction.tail.length⟩ := by
  obtain ⟨sign, whole, fraction, exponent, signed, digits, pointed, scaled, full⟩ := n
  have stop : ∀ b ∈ exponent.head?, isDigit b = false ∧ b ≠ 0x2E := by
    simpa using scaled.head (Starts.nil endsNumber)
  cases pointed with
  | none =>
    have some : whole ≠ [] := by
      rintro rfl
      simp [startsWith] at full
    rw [body, List.nil_append, decimalForm?_whole digits some stop, scaled.form, List.tail_nil,
      List.append_nil]
    rfl
  | @some ds all =>
    have some : whole ≠ [] ∨ ds ≠ [] := by
      refine full.imp ?_ ?_ <;> rintro starts rfl <;> contradiction
    rw [body, List.cons_append,
      decimalForm?_fraction digits all some fun b member => (stop b member).1, scaled.form,
      List.tail_cons]

theorem plain : PlainDigits n.body :=
  (plainDigits_of_digits n.digits).append (n.pointed.plain.append n.scaled.plain)

/-- The integer that the sign and the digits before a point give. -/
def integer (n : Numeral) : Int :=
  if n.sign == [0x2D] then -(digitsValue 0 n.whole : Int) else digitsValue 0 n.whole

theorem readInt64_text (integer : n.kind = .integer) :
    readInt64 n.text =
      if inInt64 n.integer then .ok (Int64.ofInt n.integer) else .error .outOfRange := by
  obtain ⟨b, rest, written, _⟩ := n.body_head
  have whole : n.whole = b :: rest := by
    obtain ⟨fraction, exponent⟩ := parts_of_integer integer
    rw [← written, body, fraction, exponent, List.append_nil, List.append_nil]
  have read := readUnsigned_eq n.digits (show 0 < 18446744073709551616 by decide)
  rw [readInt64, n.splitSign, written, Numeral.integer]
  rw [whole] at read ⊢
  simp only [read]
  by_cases fits : digitsValue 0 (b :: rest) < 18446744073709551616
  · rw [if_pos fits]
  · have beyond : inInt64 (if (n.sign == [0x2D]) = true then -(digitsValue 0 (b :: rest) : Int)
        else digitsValue 0 (b :: rest)) = false := by
      rw [inInt64, Bool.and_eq_false_iff, decide_eq_false_iff_not, decide_eq_false_iff_not]
      split <;> omega
    simp only [if_neg fits, beyond, Bool.false_eq_true, if_false]

/-- An integer is refused only for its size. -/
theorem readInt64_not_malformed (integer : n.kind = .integer) :
    readInt64 n.text ≠ .error .malformed := by
  rw [n.readInt64_text integer]
  split <;> simp

/-- A number of a format is refused only for its size. -/
theorem read_not_malformed {f : Format} :
    (Binary.read n.text : Except NumberError (Binary f)) ≠ .error .malformed := by
  rw [Binary.read_decimal n.splitSign n.plain n.body_head n.form]
  generalize (Binary.ofDecimal _ _ _ : Binary f) = x
  cases x <;> exact nofun

end Numeral

/-! ### Numbers that can be read -/

theorem splitSign_parts (text : Bytes) :
    ∃ sign, SignText sign ∧ sign ++ (Conform.splitSign text).2 = text := by
  cases text with
  | nil => exact ⟨[], .none, rfl⟩
  | cons b rest =>
    rw [Conform.splitSign]
    split
    · exact ⟨[b], .one (by simp_all [isSign]), rfl⟩
    · split
      · exact ⟨[b], .one (by simp_all [isSign]), rfl⟩
      · exact ⟨[], .none, rfl⟩

theorem exponentText_of_form {digits fraction : Nat} {text : Bytes} {form : DecimalForm}
    (formed : exponentForm? digits fraction text = some form) : ExponentText text := by
  cases text with
  | nil => exact .none
  | cons b tail =>
    rw [exponentForm?] at formed
    split at formed
    · rename_i isMark
      obtain ⟨e, read, _⟩ := Option.map_eq_some_iff.mp formed
      obtain ⟨sign, signed, join⟩ := splitSign_parts tail
      rw [readExponent?] at read
      simp only at read
      split at read
      · contradiction
      · rename_i digits
        simp only [Bool.or_eq_true, List.isEmpty_iff, Bool.not_eq_true', not_or,
          Bool.not_eq_false] at digits
        rw [← join]
        exact .some isMark signed digits.2 (startsWith_of_all digits.2 digits.1)
    · contradiction

/-- Whatever reads as a decimal number is a numeral. -/
theorem numeral_of_form {body : Bytes} {form : DecimalForm} (formed : decimalForm? body = some form)
    {sign : Bytes} (signed : SignText sign) : ∃ n : Numeral, n.text = sign ++ body := by
  have join := List.takeWhile_append_dropWhile (p := isDigit) (l := body)
  have digits : (body.takeWhile isDigit).all isDigit = true := List.all_takeWhile
  rw [decimalForm?] at formed
  generalize body.takeWhile isDigit = whole at join digits formed
  generalize body.dropWhile isDigit = rest at join formed
  by_cases pointed : ∃ tail, rest = 0x2E :: tail
  · obtain ⟨tail, rfl⟩ := pointed
    simp only [if_true] at formed
    split at formed
    · contradiction
    · rename_i some
      have scaled : ExponentText (tail.dropWhile isDigit) := by
        refine @exponentText_of_form (digitsValue 0 (whole ++ tail.takeWhile isDigit))
          (tail.takeWhile isDigit).length _ form ?_
        rw [exponentForm?.eq_def]
        exact formed
      refine ⟨⟨sign, whole, 0x2E :: tail.takeWhile isDigit, tail.dropWhile isDigit, signed, digits,
        .some List.all_takeWhile, scaled, ?_⟩, by simp [Numeral.text, Numeral.body, ← join]⟩
      rw [Bool.and_eq_true, not_and_or, List.isEmpty_iff, List.isEmpty_iff] at some
      exact some.imp (startsWith_of_all digits) (startsWith_of_all List.all_takeWhile)
  · have formed : whole ≠ [] ∧ exponentForm? (digitsValue 0 whole) 0 rest = some form := by
      cases rest with
      | nil => simpa [exponentForm?] using formed
      | cons b tail =>
        have point : b ≠ 0x2E := fun same => pointed ⟨tail, by rw [same]⟩
        simpa [point, exponentForm?] using formed
    exact ⟨⟨sign, whole, [], rest, signed, digits, .none, exponentText_of_form formed.2,
      Or.inl (startsWith_of_all digits formed.1)⟩, by simp [Numeral.text, Numeral.body, ← join]⟩

theorem numeral_of_integerForm {text : Bytes} (form : isIntegerForm text = true) :
    ∃ n : Numeral, n.text = text ∧ n.kind = .integer := by
  obtain ⟨sign, signed, join⟩ := splitSign_parts text
  have digits : (Conform.splitSign text).2.all isDigit = true ∧ (Conform.splitSign text).2 ≠ [] := by
    rcases isIntegerForm_digits form with zero | ⟨all, b, rest, written, _⟩
    · rw [zero]
      decide
    · exact ⟨all, by rw [written]; exact List.cons_ne_nil b rest⟩
  have full := startsWith_of_all digits.1 digits.2
  exact ⟨⟨sign, _, [], [], signed, digits.1, .none, .none, Or.inl full⟩,
    by simp [Numeral.text, Numeral.body, join], rfl⟩

/-- A numeral with a mark of floats in it is no integer. -/
theorem Numeral.kind_of_marked (n : Numeral)
    (marked : n.text.any (fun b => b == 0x2E || b == 0x65 || b == 0x45 || b == 0x6E || b == 0x4E)) :
    n.kind = .float := by
  refine n.kind_cases.resolve_left fun integer => ?_
  obtain ⟨fraction, exponent⟩ := Numeral.parts_of_integer integer
  obtain ⟨b, member, mark⟩ := List.any_eq_true.mp marked
  rw [text, body, fraction, exponent, List.append_nil, List.append_nil, List.mem_append] at member
  have octet : isSign b = true ∨ isDigit b = true :=
    member.imp n.signed.isSign_of_mem (List.all_eq_true.mp n.digits b)
  exact octet_cases (P := fun b => isSign b = true ∨ isDigit b = true →
    ¬ (b == 0x2E || b == 0x65 || b == 0x45 || b == 0x6E || b == 0x4E) = true)
    (by decide) b octet mark

theorem numeral_of_finite (negative : Bool) (rank : Fin Format.double.ranks) :
    ∃ n : Numeral, n.text = (Binary.finite negative rank : Double).literalText ∧ n.kind = .float := by
  have signed : SignText (if negative then [0x2D] else []) := by
    cases negative
    · exact .none
    · exact .one rfl
  rw [Binary.literalText, Binary.text_finite]
  generalize (if negative = true then [0x2D] else [] : Bytes) = sign at signed ⊢
  split
  · rename_i marked
    obtain ⟨form, formed, _⟩ :=
      Binary.magnitudeText_form Format.double_moderate .general negative rank
    obtain ⟨n, same⟩ := numeral_of_form formed signed
    rw [← same] at marked ⊢
    exact ⟨n, rfl, n.kind_of_marked marked⟩
  · rename_i unmarked
    obtain ⟨digits, full⟩ :=
      (Binary.magnitudeText_number .general negative rank).digits_of_unmarked unmarked
    exact ⟨⟨_, _, [0x2E, 0x30], [], signed, digits, .some rfl, .none,
      Or.inl (startsWith_of_all digits full)⟩, by simp [Numeral.text, Numeral.body]; rfl, rfl⟩

end Conform.Declaration
