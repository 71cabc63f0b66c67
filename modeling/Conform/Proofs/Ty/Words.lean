import Conform.Proofs.Binary.Text
import Conform.Proofs.Ty.Parts

/-! The words of signatures. Every signature of a type that is no union starts
with a word, which only a string literal leaves empty, and what follows the word
starts with another sort of octet. The word alone tells a family or a literal
number from every other type: `ofWord?` reads it back. -/
namespace Conform

/-- Octets of words, numbers and unquoted keys. -/
def isWordOctet (b : UInt8) : Bool :=
  startsWord b || isDigit b || b == 0x2B || b == 0x2D || b == 0x2E

theorem isWordOctet_of_number {b : UInt8} (number : isNumberOctet b = true) :
    isWordOctet b = true :=
  octet_cases (P := fun b => isNumberOctet b = true → isWordOctet b = true) (by decide) b number

theorem isWordOctet_of_digit {b : UInt8} (digit : isDigit b = true) : isWordOctet b = true :=
  isWordOctet_of_number (isNumberOctet_of_digit digit)

theorem all_wordOctets {text : Bytes} (octets : text.all isNumberOctet = true) :
    text.all isWordOctet = true :=
  List.all_eq_true.mpr fun b member => isWordOctet_of_number (List.all_eq_true.mp octets b member)

theorem decimalInt_words (n : Int) : (decimalInt n).all isWordOctet = true := by
  have digits := all_wordOctets (all_numberOctets (decimalNat_all_digits n.natAbs))
  simp only [decimalInt]
  split
  · rw [List.all_cons, digits]
    decide
  · exact digits

theorem text_words (x : Double) : (x.text .general).all isWordOctet = true := by
  cases x with
  | nan => decide
  | infinite negative => cases negative <;> decide
  | finite negative rank =>
    have number := (Binary.magnitudeText_number .general negative rank).octets
    rw [Binary.text_finite, List.all_append, all_wordOctets number]
    cases negative <;> decide

theorem literalText_words (x : Double) : x.literalText.all isWordOctet = true := by
  simp only [Binary.literalText]
  split
  · exact text_words x
  · rw [List.all_append, text_words x]
    decide

/-- The octets by which a literal float differs from an integer. -/
def isFloatMark (b : UInt8) : Bool := b == 0x2E || b == 0x65 || b == 0x45 || b == 0x6E || b == 0x4E

theorem literalText_marked (x : Double) : x.literalText.any isFloatMark = true := by
  simp only [Binary.literalText]
  split
  · rename_i marked
    exact marked
  · rw [List.any_append]
    simp only [Bool.or_eq_true]
    exact Or.inr (by decide)

theorem splitSign_octets {text : Bytes} {b : UInt8} (member : b ∈ text) :
    b ∈ (splitSign text).2 ∨ b = 0x2B ∨ b = 0x2D := by
  cases text with
  | nil => contradiction
  | cons first rest =>
    simp only [splitSign]
    split
    · rename_i minus
      rcases List.mem_cons.mp member with rfl | member
      · exact Or.inr (Or.inr minus)
      · exact Or.inl member
    · split
      · rename_i plus
        rcases List.mem_cons.mp member with rfl | member
        · exact Or.inr (Or.inl plus)
        · exact Or.inl member
      · exact Or.inl member

/-- An integer literal is made of digits and signs. -/
theorem isIntegerForm_octets {text : Bytes} (form : isIntegerForm text = true) :
    ∀ b ∈ text, isDigit b = true ∨ b = 0x2B ∨ b = 0x2D := by
  intro b member
  refine (splitSign_octets member).imp_left fun inside => ?_
  simp only [isIntegerForm] at form
  split at form
  · contradiction
  · rename_i first rest split
    rw [split] at inside
    split at form
    · rename_i zero
      have empty : rest = [] := List.isEmpty_iff.mp form
      rw [empty, zero] at inside
      rw [List.mem_singleton.mp inside]
      decide
    · simp only [Bool.and_eq_true] at form
      rcases List.mem_cons.mp inside with rfl | inside
      · exact form.1
      · exact List.all_eq_true.mp form.2 b inside

theorem isIntegerForm_words {text : Bytes} (form : isIntegerForm text = true) :
    text.all isWordOctet = true := by
  refine List.all_eq_true.mpr fun b member => ?_
  rcases isIntegerForm_octets form b member with digit | rfl | rfl
  · exact isWordOctet_of_digit digit
  · decide
  · decide

theorem literalText_not_integer (x : Double) : isIntegerForm x.literalText = false := by
  by_contra form
  obtain ⟨b, member, mark⟩ := List.any_eq_true.mp (literalText_marked x)
  have octet := isIntegerForm_octets (Bool.not_eq_false _ ▸ form) b member
  revert mark octet
  exact octet_cases (P := fun b => isFloatMark b = true →
    isDigit b = true ∨ b = 0x2B ∨ b = 0x2D → False) (by decide) b

/-- The text starts with a lower-case letter. -/
def startsLower : Bytes → Bool
  | [] => false
  | b :: _ => isLower b

theorem isLower_of_digit {b : UInt8} (digit : isDigit b = true) : isLower b = false :=
  octet_cases (P := fun b => isDigit b = true → isLower b = false) (by decide) b digit

theorem decimalInt_not_lower (n : Int) : startsLower (decimalInt n) = false := by
  simp only [decimalInt]
  split
  · rfl
  · obtain ⟨b, rest, written, digit⟩ :=
      (numberText_digits (decimalNat_all_digits n.natAbs) (decimalNat_ne_nil _)).first
    rw [written]
    exact isLower_of_digit digit

theorem literalText_not_lower (x : Double) : startsLower x.literalText = false := by
  have text : startsLower (x.text .general) = false ∧ x.text .general ≠ [] := by
    cases x with
    | nan => decide
    | infinite negative => cases negative <;> decide
    | finite negative rank =>
      obtain ⟨b, rest, written, digit⟩ := (Binary.magnitudeText_number .general negative rank).first
      rw [Binary.text_finite, written]
      cases negative with
      | true => exact ⟨rfl, List.cons_ne_nil _ _⟩
      | false => exact ⟨isLower_of_digit digit, List.cons_ne_nil _ _⟩
  simp only [Binary.literalText]
  split
  · exact text.1
  · cases written : x.text .general with
    | nil => exact absurd written text.2
    | cons b rest =>
      rw [written] at text
      exact text.1

namespace Ty

/-- A family or a literal other than a string: its signature is one word. -/
def isPlain : Ty → Bool
  | .mixed | .null | .bool | .integer | .float | .string => true
  | .boolLit _ | .integerLit _ | .floatLit _ => true
  | _ => false

/-- The word at the front of the signature. -/
def frontWord : Ty → Bytes
  | .stringLit .. => []
  | .arrayKey _ => "array-key"
  | .array .. => "array"
  | .list _ => "list"
  | .shape _ => "array"
  | t => t.signature

/-- A type between angle brackets. -/
def bracketed (inside : Bytes) : Bytes := 0x3C :: (inside ++ [0x3E])

/-- The type of the elements between brackets, which are left out when it is mixed. -/
def elementForm (value : Ty) : Bytes := if value.isMixed then [] else bracketed value.signature

/-- What follows the word of an array with narrowed keys. -/
def keyedForm (key : KeyKind) (value : Ty) : Bytes :=
  bracketed (key.word ++ utf8 ", " ++ value.signature)

/-- One field of a shape in its signature. -/
def fieldForm (f : Field Ty) : Bytes := renderField f.key f.optional f.type.signature

/-- What follows the word. -/
def afterWord : Ty → Bytes
  | .stringLit value _ => quoteWith 0x27 value
  | .arrayKey .any => []
  | .arrayKey kind => bracketed kind.word
  | .array .any value => elementForm value
  | .array key value => keyedForm key value
  | .list value => elementForm value
  | .shape fields => 0x7B :: (Bytes.join (utf8 ", ") (fields.map fieldForm) ++ [0x7D])
  | _ => []

theorem signature_eq_words (t : Ty) : t.signature = t.frontWord ++ t.afterWord := by
  cases t with
  | stringLit value quote => rfl
  | arrayKey kind => cases kind <;> rfl
  | array key value =>
    cases key with
    | any =>
      simp only [signature, render, renderArray, frontWord, afterWord, elementForm]
      split <;> rfl
    | integer => simp [signature, render, renderArray, frontWord, afterWord, keyedForm, bracketed]; rfl
    | string => simp [signature, render, renderArray, frontWord, afterWord, keyedForm, bracketed]; rfl
  | list value =>
    simp only [signature, render, frontWord, afterWord, elementForm]
    split <;> rfl
  | shape fields => simp [signature, render, renderFields_eq, frontWord, afterWord]; rfl
  | _ => simp [frontWord, afterWord]

/-- The families and truth values by their words. -/
def families : List (Bytes × Ty) :=
  [("mixed", .mixed), ("null", .null), ("bool", .bool), ("int", .integer), ("float", .float),
    ("string", .string), ("true", .boolLit true), ("false", .boolLit false)]

/-- The plain type whose signature is a word. -/
def ofWord? (word : Bytes) : Option Ty :=
  if startsLower word then (families.find? fun family => family.1 == word).map (·.2)
  else if isIntegerForm word then (readInt64 word).toOption.map .integerLit
  else (Binary.read word).toOption.map .floatLit

/-- The word gives a plain type back, and no other type has the word of one. -/
theorem ofWord?_frontWord {t : Ty} (known : t.kind? ≠ none) (single : t.kind? ≠ some .union) :
    ofWord? t.frontWord = if t.isPlain then some t else none := by
  cases t with
  | integerLit value =>
    simp only [ofWord?, frontWord, signature, render, decimalInt_not_lower, Bool.false_eq_true,
      if_false, isIntegerForm_decimalInt, if_true, readInt64_decimalInt (inInt64_toInt value), isPlain,
      Int64.ofInt_toInt]
    rfl
  | floatLit value =>
    simp only [ofWord?, frontWord, signature, render, literalText_not_lower, Bool.false_eq_true,
      if_false, literalText_not_integer, Binary.read_literalText, isPlain, if_true]
    rfl
  | boolLit value => cases value <;> rfl
  | union members => exact absurd rfl single
  | unknown name accepted => exact absurd rfl known
  | _ => rfl

theorem frontWord_words {t : Ty} (known : t.kind? ≠ none) (single : t.kind? ≠ some .union) :
    t.frontWord.all isWordOctet = true := by
  cases t with
  | integerLit value => exact decimalInt_words _
  | floatLit value => exact literalText_words value
  | boolLit value => cases value <;> decide
  | union members => exact absurd rfl single
  | unknown name accepted => exact absurd rfl known
  | _ => rfl

end Ty

end Conform
