import Conform.Proofs.Binary.Range
import Conform.Proofs.Declaration.Scan
import Mathlib.Computability.RegularExpressions

/-! The numbers among the tokens. Where a number starts and how far it reaches are decided apart
from each other, the first by a look ahead, the second by what is cut off. The form that comes out
is given by regular expressions, and every number of that form is read: what fails to be read has
a value that is out of range. -/
namespace Conform

/-! ### Patterns -/

namespace Pattern

open RegularExpression

/-- One of the octets of a text. -/
def oneOf (octets : Bytes) : RegularExpression UInt8 := (octets.map char).sum

/-- The pattern or nothing. -/
def maybe (pattern : RegularExpression UInt8) : RegularExpression UInt8 := 1 + pattern

/-- The pattern once or more often. -/
def repeated (pattern : RegularExpression UInt8) : RegularExpression UInt8 := pattern * pattern.star

def digit : RegularExpression UInt8 := oneOf "0123456789"

def sign : RegularExpression UInt8 := oneOf "+-"

/-- The form `[+-]?[0-9]+`. -/
def integer : RegularExpression UInt8 := maybe sign * repeated digit

/-- The form `[0-9]+(\.[0-9]*)?|\.[0-9]+`. -/
def mantissa : RegularExpression UInt8 :=
  repeated digit * maybe (oneOf "." * digit.star) + oneOf "." * repeated digit

/-- The form `[eE][+-]?[0-9]+`. -/
def exponent : RegularExpression UInt8 := oneOf "eE" * maybe sign * repeated digit

/-- The form `[+-]?([0-9]+(\.[0-9]*)?|\.[0-9]+)([eE][+-]?[0-9]+)?`. -/
def numeric : RegularExpression UInt8 := maybe sign * mantissa * maybe exponent

theorem mem_oneOf {octets : Bytes} {b : UInt8} (member : b ∈ octets) :
    [b] ∈ (oneOf octets).matches' := by
  induction octets with
  | nil => contradiction
  | cons c rest ih =>
    rcases List.mem_cons.mp member with rfl | inside
    · exact Or.inl rfl
    · exact Or.inr (ih inside)

theorem nil_mem_maybe (pattern : RegularExpression UInt8) : [] ∈ (maybe pattern).matches' :=
  Or.inl rfl

theorem mem_maybe {pattern : RegularExpression UInt8} {text : Bytes}
    (member : text ∈ pattern.matches') : text ∈ (maybe pattern).matches' :=
  Or.inr member

theorem mem_digit {b : UInt8} (isDigit : isDigit b = true) : [b] ∈ digit.matches' :=
  mem_oneOf (octet_cases (P := fun b => Conform.isDigit b = true → b ∈ ("0123456789" : Bytes))
    (by decide) b isDigit)

theorem mem_digits {digits : Bytes} (all : digits.all isDigit = true) :
    digits ∈ digit.star.matches' := by
  refine Language.mem_kstar.mpr ⟨digits.map ([·]), (List.flatMap_singleton' digits).symm, ?_⟩
  intro part member
  obtain ⟨b, inside, rfl⟩ := List.mem_map.mp member
  exact mem_digit (List.all_eq_true.mp all b inside)

theorem mem_repeated_digit {digits : Bytes} (all : digits.all isDigit = true) (full : digits ≠ []) :
    digits ∈ (repeated digit).matches' := by
  cases digits with
  | nil => contradiction
  | cons b rest =>
    rw [List.all_cons, Bool.and_eq_true] at all
    exact Language.append_mem_mul (mem_digit all.1) (mem_digits all.2)

end Pattern

namespace Declaration

theorem ne_nil_of_startsWith {test : UInt8 → Bool} {text : Bytes}
    (starts : startsWith test text = true) : text ≠ [] := by
  rintro rfl
  contradiction

theorem SignText.mem_pattern {sign : Bytes} (signed : SignText sign) :
    sign ∈ (Pattern.maybe Pattern.sign).matches' := by
  cases signed with
  | none => exact Pattern.nil_mem_maybe _
  | @one b isSign =>
    have octet : b ∈ ("+-" : Bytes) :=
      octet_cases (P := fun b => Declaration.isSign b = true → b ∈ ("+-" : Bytes)) (by decide) b isSign
    exact Pattern.mem_maybe (Pattern.mem_oneOf octet)

theorem ExponentText.mem_pattern {exponent : Bytes} (scaled : ExponentText exponent) :
    exponent ∈ (Pattern.maybe Pattern.exponent).matches' := by
  cases scaled with
  | none => exact Pattern.nil_mem_maybe _
  | @some mark sign digits isMark signed all full =>
    have octet : mark ∈ ("eE" : Bytes) := by rcases isMark with rfl | rfl <;> decide
    have front := Language.append_mem_mul (Pattern.mem_oneOf octet) signed.mem_pattern
    have size := Pattern.mem_repeated_digit all (ne_nil_of_startsWith full)
    exact Pattern.mem_maybe (Language.append_mem_mul front size)

/-- The digits before the exponent start before the point or right after it. -/
theorem FractionText.mem_pattern {whole fraction : Bytes} (pointed : FractionText fraction)
    (digits : whole.all isDigit = true)
    (full : startsWith isDigit whole = true ∨ startsWith isDigit fraction.tail = true) :
    whole ++ fraction ∈ Pattern.mantissa.matches' := by
  have point : [0x2E] ∈ (Pattern.oneOf ".").matches' := Pattern.mem_oneOf (by decide)
  by_cases before : whole = []
  · subst before
    have behind := full.resolve_left (by simp [startsWith])
    cases pointed with
    | none => contradiction
    | some all =>
      have size := Pattern.mem_repeated_digit all (ne_nil_of_startsWith behind)
      have written := Language.append_mem_mul point size
      exact Or.inr written
  · refine Or.inl (Language.append_mem_mul (Pattern.mem_repeated_digit digits before) ?_)
    cases pointed with
    | none => exact Pattern.nil_mem_maybe _
    | some all => exact Pattern.mem_maybe (Language.append_mem_mul point (Pattern.mem_digits all))

namespace Numeral

variable (n : Numeral)

theorem mem_integer_pattern (integer : n.kind = .integer) : n.text ∈ Pattern.integer.matches' := by
  obtain ⟨fraction, exponent⟩ := parts_of_integer integer
  have full : startsWith isDigit n.whole = true := by
    have full := n.full
    rw [fraction] at full
    exact full.resolve_right (by simp [startsWith])
  rw [text, body, fraction, exponent, List.append_nil, List.append_nil]
  exact Language.append_mem_mul n.signed.mem_pattern
    (Pattern.mem_repeated_digit n.digits (ne_nil_of_startsWith full))

theorem mem_numeric_pattern : n.text ∈ Pattern.numeric.matches' := by
  have mantissa := n.pointed.mem_pattern n.digits n.full
  rw [text, body, ← List.append_assoc n.whole, ← List.append_assoc n.sign]
  exact Language.append_mem_mul (Language.append_mem_mul n.signed.mem_pattern mantissa)
    n.scaled.mem_pattern

/-- What makes a number a float is its point or its exponent. -/
theorem marked_of_float (float : n.kind = .float) :
    0x2E ∈ n.text ∨ 0x65 ∈ n.text ∨ 0x45 ∈ n.text := by
  obtain ⟨sign, whole, fraction, exponent, signed, digits, pointed, scaled, full⟩ := n
  cases pointed with
  | some all => exact Or.inl (by simp [text, body])
  | none =>
    cases scaled with
    | some isMark signed all full =>
      rcases isMark with rfl | rfl
      · exact Or.inr (Or.inl (by simp [text, body]))
      · exact Or.inr (Or.inr (by simp [text, body]))
    | none => simp [kind] at float

/-! ### Values -/

/-- The number that is written. -/
def value : ℚ :=
  (if n.sign = [0x2D] then -1 else 1) * digitsValue 0 (n.whole ++ n.fraction.tail) *
    10 ^ (exponentPower n.exponent - n.fraction.tail.length)

/-- The value is no integer of 64 bits. -/
def BeyondInt64 : Prop := n.value < -2 ^ 63 ∨ 2 ^ 63 ≤ n.value

/-- The value is half a step or more above the largest number of double width, or below the
least. -/
def BeyondDouble : Prop := 2 ^ 1024 - 2 ^ 970 ≤ |n.value|

theorem value_of_integer (integer : n.kind = .integer) : n.value = n.integer := by
  obtain ⟨fraction, exponent⟩ := parts_of_integer integer
  have power : exponentPower [] = 0 := rfl
  rw [value, Numeral.integer, fraction, exponent, power]
  by_cases negative : n.sign = [0x2D] <;> simp [negative]

theorem readInt64_eq_error_iff (integer : n.kind = .integer) (e : NumberError) :
    readInt64 n.text = .error e ↔ e = .outOfRange ∧ n.BeyondInt64 := by
  have range : inInt64 n.integer = false ↔ n.BeyondInt64 := by
    rw [BeyondInt64, n.value_of_integer integer, inInt64, Bool.and_eq_false_iff,
      decide_eq_false_iff_not, decide_eq_false_iff_not, not_le, not_lt]
    norm_cast
  rw [n.readInt64_text integer, ← range]
  cases inInt64 n.integer <;> simp [eq_comm]

theorem abs_value : |n.value| = digitsValue 0 (n.whole ++ n.fraction.tail) *
    10 ^ (exponentPower n.exponent - n.fraction.tail.length) := by
  have magnitude : (0 : ℚ) ≤ digitsValue 0 (n.whole ++ n.fraction.tail) *
      10 ^ (exponentPower n.exponent - n.fraction.tail.length) := by positivity
  rw [value, mul_assoc]
  split
  · rw [neg_one_mul, abs_neg, abs_of_nonneg magnitude]
  · rw [one_mul, abs_of_nonneg magnitude]

end Numeral

theorem Numeral.read_eq_error_iff (n : Numeral) (e : NumberError) :
    (Binary.read n.text : Except NumberError Double) = .error e ↔
      e = .outOfRange ∧ n.BeyondDouble := by
  rw [Binary.read_decimal n.splitSign n.plain n.body_head n.form,
    Binary.checked_ofDecimal_eq_error_iff Format.double_moderate (by decide),
    Format.double_limit, Numeral.BeyondDouble, n.abs_value]

/-! ### Tokens -/

section Atoms

variable {token : Token} (ctx : Context) (inner : Reader Ty) (rest : List Token)
  (e : DeclarationError)

/-- The atom of an integer fails where the integer cannot be read, whatever the reason. -/
theorem atom_integer_eq_error_iff (integer : token.kind = .integer) :
    atom ctx inner (token :: rest) = .error e ↔
      e = .integerRange token.literal ctx.source ∧ ∃ why, readInt64 token.literal = .error why := by
  rw [atom, integer]
  cases readInt64 token.literal <;> simp [eq_comm]

theorem atom_float_eq_error_iff (float : token.kind = .float) :
    atom ctx inner (token :: rest) = .error e ↔
      e = .floatRange token.literal ctx.source ∧
        ∃ why, (Binary.read token.literal : Except NumberError Double) = .error why := by
  rw [atom, float]
  cases (Binary.read token.literal : Except NumberError Double) <;> simp [eq_comm]

end Atoms

/-- A number token has the form of a number of its kind. So reading it never fails for its form:
it fails exactly when its value is out of range, and the atom of the token fails just then. -/
theorem number_tokens_formed {source : Bytes} {tokens : List Token}
    (scanned : scan source = .ok tokens) {token : Token} (member : token ∈ tokens) :
    (token.kind = .integer → token.literal ∈ Pattern.integer.matches' ∧
      ∃ n : Numeral, n.text = token.literal ∧
        (∀ e, readInt64 token.literal = .error e ↔ e = .outOfRange ∧ n.BeyondInt64) ∧
        ∀ ctx inner rest e, atom ctx inner (token :: rest) = .error e ↔
          e = .integerRange token.literal ctx.source ∧ n.BeyondInt64) ∧
    (token.kind = .float → token.literal ∈ Pattern.numeric.matches' ∧
      (0x2E ∈ token.literal ∨ 0x65 ∈ token.literal ∨ 0x45 ∈ token.literal) ∧
      ∃ n : Numeral, n.text = token.literal ∧
        (∀ e, (Binary.read token.literal : Except NumberError Double) = .error e ↔
          e = .outOfRange ∧ n.BeyondDouble) ∧
        ∀ ctx inner rest e, atom ctx inner (token :: rest) = .error e ↔
          e = .floatRange token.literal ctx.source ∧ n.BeyondDouble) := by
  constructor
  · intro integer
    obtain ⟨n, kind, literal⟩ := numeral_of_scan scanned member (.inl integer)
    have kind : n.kind = .integer := kind.symm.trans integer
    have read := n.readInt64_eq_error_iff kind
    rw [← literal] at read
    refine ⟨literal ▸ n.mem_integer_pattern kind, n, literal.symm, read, ?_⟩
    intro ctx inner rest e
    rw [atom_integer_eq_error_iff ctx inner rest e integer]
    simp only [read, exists_eq_left]
  · intro float
    obtain ⟨n, kind, literal⟩ := numeral_of_scan scanned member (.inr float)
    have marked := n.marked_of_float (kind.symm.trans float)
    have read := n.read_eq_error_iff
    rw [← literal] at read marked
    refine ⟨literal ▸ n.mem_numeric_pattern, marked, n, literal.symm, read, ?_⟩
    intro ctx inner rest e
    rw [atom_float_eq_error_iff ctx inner rest e float]
    simp only [read, exists_eq_left]

/-- A point may follow the sign, and an `e` without digits after it is no exponent. -/
theorem number_tokens_formed_lone_point :
    scan "-.5e400|7e" = .ok [⟨.float, "-.5e400", "-.5e400", 0, .none⟩, ⟨.or, "|", "|", 7, .none⟩,
      ⟨.integer, "7", "7", 8, .none⟩, ⟨.name, "e", "e", 9, .none⟩, ⟨.eof, [], [], 10, .none⟩] ∧
    ("-.5e400" : Bytes) ∈ Pattern.numeric.matches' ∧ ("7" : Bytes) ∈ Pattern.integer.matches' ∧
    ∃ n : Numeral, n.text = "-.5e400" ∧ ∀ ctx inner rest e,
      atom ctx inner (⟨.float, "-.5e400", "-.5e400", 0, .none⟩ :: rest) = .error e ↔
        e = .floatRange "-.5e400" ctx.source ∧ n.BeyondDouble := by
  have scanned : scan "-.5e400|7e" = .ok [⟨.float, "-.5e400", "-.5e400", 0, .none⟩,
    ⟨.or, "|", "|", 7, .none⟩, ⟨.integer, "7", "7", 8, .none⟩, ⟨.name, "e", "e", 9, .none⟩,
    ⟨.eof, [], [], 10, .none⟩] := rfl
  obtain ⟨form, -, n, text, -, fails⟩ := (number_tokens_formed scanned List.mem_cons_self).2 rfl
  have third := number_tokens_formed scanned
    (List.mem_cons_of_mem _ (List.mem_cons_of_mem _ List.mem_cons_self))
  exact ⟨scanned, form, (third.1 rfl).1, n, text, fails⟩

end Declaration

end Conform
