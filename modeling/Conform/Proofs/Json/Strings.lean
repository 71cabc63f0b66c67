import Conform.Json.Read
import Conform.Proofs.Utf8

/-! Strings in documents. Reading a written string gives back its characters,
some as they stand and some by number, and each stray octet as the replacement
character. No surrogate is ever written, so it does not matter how a reader puts
two of them together. -/
namespace Conform.Json

open Utf8 (Piece)

theorem hexValue?_hexDigit {n : Nat} (bound : n < 16) : hexValue? (hexDigit n) = some n := by
  have checked : ∀ m < 16, hexValue? (hexDigit m) = some m := by decide
  exact checked n bound

theorem hexFixed_four (n : Nat) : hexFixed 4 n =
    [hexDigit (n / 16 / 16 / 16 % 16), hexDigit (n / 16 / 16 % 16), hexDigit (n / 16 % 16),
      hexDigit (n % 16)] := rfl

theorem fourHex?_hexDigit {n : Nat} (bound : n < 0x10000) :
    fourHex? (hexDigit (n / 16 / 16 / 16 % 16)) (hexDigit (n / 16 / 16 % 16))
      (hexDigit (n / 16 % 16)) (hexDigit (n % 16)) = some n := by
  simp only [fourHex?, hexValue?_hexDigit (Nat.mod_lt _ (by decide : 0 < 16))]
  congr 1
  omega

/-- The characters that are written by number. -/
def isNumbered (code : Nat) : Bool :=
  (code < 0x20 && !([0x08, 0x09, 0x0A, 0x0C, 0x0D].contains code)) ||
    [0x3C, 0x3E, 0x26, 0x2028, 0x2029].contains code

/-- What a piece is read as once it is written. -/
def units : Piece → List StringUnit
  | .char code octets => if isNumbered code then [.code code] else octets.map .octet
  | .stray _ => (encodeRune 0xFFFD).map .octet

/-- An octet that stands for itself in a string. -/
def isOrdinary (b : UInt8) : Bool := b ≠ 0x22 && b ≠ 0x5C && 0x20 ≤ b

/-- What a reader of a string does with the octets that a writer puts out: it ends at the quote,
takes an ordinary octet as it stands, and takes an escape for what it names. -/
theorem stringRest_steps (done : List StringUnit) (rest : Bytes) :
    stringRest done (0x22 :: rest) = some (done.reverse, rest) ∧
    (∀ b, isOrdinary b = true → stringRest done (b :: rest) = stringRest (.octet b :: done) rest) ∧
    (∀ mark octet, shortEscape? mark = some octet →
      stringRest done (0x5C :: mark :: rest) = stringRest (.octet octet :: done) rest) ∧
    ∀ a b c d code, fourHex? a b c d = some code →
      stringRest done (0x5C :: 0x75 :: a :: b :: c :: d :: rest) =
        stringRest (.code code :: done) rest := by
  refine ⟨?_, ?_, ?_, ?_⟩
  · rewrite [stringRest.eq_def]
    rfl
  · intro b ordinary
    simp only [isOrdinary, ne_eq, decide_not, Bool.and_eq_true, Bool.not_eq_true',
      decide_eq_false_iff_not, decide_eq_true_eq] at ordinary
    obtain ⟨⟨quote, backslash⟩, control⟩ := ordinary
    rw [stringRest.eq_def]
    simp only [if_neg quote, if_neg backslash, if_neg (UInt8.not_lt.mpr control)]
  · intro mark octet short
    have letter : mark ≠ Conform.octet 'u' := by
      rintro rfl
      have none : shortEscape? (Conform.octet 'u') = none := rfl
      rw [none] at short
      contradiction
    rw [stringRest.eq_def]
    simp only
    rw [if_neg (by decide), if_neg (by decide), if_pos trivial, if_neg letter, short]
  · intro a b c d code number
    rw [stringRest.eq_def]
    simp only
    rw [if_neg (by decide), if_neg (by decide), if_pos trivial, if_pos (by decide), number]

theorem stringRest_ordinary {octets : Bytes} (ordinary : ∀ b ∈ octets, isOrdinary b = true)
    (done : List StringUnit) (rest : Bytes) : stringRest done (octets ++ rest) =
      stringRest ((octets.map StringUnit.octet).reverse ++ done) rest := by
  induction octets generalizing done with
  | nil => rfl
  | cons b octets ih =>
    obtain ⟨first, others⟩ := List.forall_mem_cons.mp ordinary
    rw [List.cons_append, (stringRest_steps done _).2.1 b first, ih others]
    simp

theorem stringRest_numbered {code : Nat} (bound : code < 0x10000) (done : List StringUnit)
    (rest : Bytes) : stringRest done (utf8 "\\u" ++ hexFixed 4 code ++ rest) =
      stringRest (.code code :: done) rest := by
  rw [hexFixed_four]
  exact (stringRest_steps done rest).2.2.2 _ _ _ _ code (fourHex?_hexDigit bound)

theorem isOrdinary_high {b : UInt8} (high : 0x80 ≤ b) : isOrdinary b = true :=
  octet_cases (P := fun b => 0x80 ≤ b → isOrdinary b = true) (by decide) b high

theorem encodeRune_ordinary {code : Nat} (plain : 0x20 ≤ code ∧ code ≠ 0x22 ∧ code ≠ 0x5C) :
    ∀ b ∈ encodeRune code, isOrdinary b = true := by
  by_cases small : code < 0x80
  · have checked : ∀ n < 0x80, 0x20 ≤ n ∧ n ≠ 0x22 ∧ n ≠ 0x5C →
        (encodeRune n).all isOrdinary = true := by decide
    exact List.all_eq_true.mp (checked code small plain)
  · intro b member
    exact isOrdinary_high (Utf8.encodeRune_high (by omega) b member)

/-- The written form of a piece is read as its units. -/
theorem stringRest_escaped {p : Piece} (proper : p.Proper) (done : List StringUnit) (rest : Bytes) :
    stringRest done (escaped p ++ rest) = stringRest ((units p).reverse ++ done) rest := by
  cases p with
  | stray octet =>
    have ordinary : (encodeRune 0xFFFD).all isOrdinary = true := by decide
    exact stringRest_ordinary (List.all_eq_true.mp ordinary) done rest
  | char code octets =>
    obtain ⟨_, rfl⟩ := proper
    by_cases special : code ∈ [0x08, 0x09, 0x0A, 0x0C, 0x0D, 0x22, 0x5C]
    · simp only [List.mem_cons, List.not_mem_nil, or_false] at special
      rcases special with rfl | rfl | rfl | rfl | rfl | rfl | rfl <;>
        exact (stringRest_steps done rest).2.2.1 _ _ (by decide)
    · simp only [List.mem_cons, List.not_mem_nil, or_false, not_or] at special
      have written : escaped (.char code (encodeRune code)) =
          if isNumbered code then utf8 "\\u" ++ hexFixed 4 code else encodeRune code := by
        simp_all [escaped, isNumbered, or_assoc]
      rw [written, units]
      split
      · rename_i numbered
        refine stringRest_numbered ?_ done rest
        simp [isNumbered] at numbered
        omega
      · rename_i plain
        refine stringRest_ordinary (encodeRune_ordinary ?_) done rest
        simp [isNumbered] at plain
        omega

theorem stringRest_pieces {pieces : List Piece} (proper : ∀ p ∈ pieces, p.Proper)
    (done : List StringUnit) (rest : Bytes) : stringRest done (pieces.flatMap escaped ++ rest) =
      stringRest ((pieces.flatMap units).reverse ++ done) rest := by
  induction pieces generalizing done with
  | nil => rfl
  | cons p pieces ih =>
    rw [List.flatMap_cons, List.append_assoc, stringRest_escaped (proper p (by simp)),
      ih fun p member => proper p (by simp [member])]
    simp

/-- What a written string is read as. -/
def stringUnits (text : Bytes) : List StringUnit := (Utf8.pieces text).flatMap units

theorem stringRest_quoted (text rest : Bytes) :
    stringRest [] ((Utf8.pieces text).flatMap escaped ++ 0x22 :: rest) =
      some (stringUnits text, rest) := by
  rw [stringRest_pieces (Utf8.pieces_proper text), (stringRest_steps _ rest).1]
  simp [stringUnits]

/-- A way of putting units together that leaves octets as they stand and writes out every
number that is a character. -/
structure Joins (text : List StringUnit → Bytes) : Prop where
  nil : text [] = []
  octet : ∀ b rest, text (.octet b :: rest) = b :: text rest
  code : ∀ n rest, Utf8.isScalar n = true → text (.code n :: rest) = encodeRune n ++ text rest

namespace Joins

variable {text : List StringUnit → Bytes}

theorem octets (joins : Joins text) (octets : Bytes) (rest : List StringUnit) :
    text (octets.map .octet ++ rest) = octets ++ text rest := by
  induction octets with
  | nil => rfl
  | cons b octets ih => rw [List.map_cons, List.cons_append, joins.octet, ih, List.cons_append]

/-- No character is half of a pair. -/
theorem units (joins : Joins text) {p : Piece} (proper : p.Proper) (rest : List StringUnit) :
    text (units p ++ rest) = encodeRune p.code ++ text rest := by
  cases p with
  | stray octet => exact joins.octets (encodeRune 0xFFFD) rest
  | char code octets =>
    obtain ⟨scalar, rfl⟩ := proper
    rw [Json.units]
    split
    · exact joins.code code rest scalar
    · exact joins.octets _ rest

/-- A written string is read as the repaired text. -/
theorem stringUnits (joins : Joins text) (s : Bytes) : text (stringUnits s) = Utf8.repaired s := by
  have pieces : ∀ pieces : List Piece, (∀ p ∈ pieces, p.Proper) →
      text (pieces.flatMap Json.units) = pieces.flatMap fun p => encodeRune p.code := by
    intro pieces proper
    induction pieces with
    | nil => exact joins.nil
    | cons p pieces ih =>
      rw [List.flatMap_cons, joins.units (proper p (by simp)),
        ih fun p member => proper p (by simp [member]), List.flatMap_cons]
  rw [Json.stringUnits, pieces _ (Utf8.pieces_proper s), Utf8.repaired_eq_codes, Utf8.codes,
    List.flatMap_map]

end Joins

theorem pairedText_joins : Joins pairedText where
  nil := rfl
  octet _ _ := by rw [pairedText]
  code n rest scalar := by
    have single : isHighSurrogate n = false := by
      simp [isHighSurrogate, Utf8.isScalar] at scalar ⊢
      omega
    rw [pairedText.eq_def]
    split <;> simp_all

theorem greedyText_joins : Joins greedyText where
  nil := rfl
  octet _ _ := by rw [greedyText]
  code n rest scalar := by
    have single : (isHighSurrogate n || isLowSurrogate n) = false := by
      simp [isHighSurrogate, isLowSurrogate, Utf8.isScalar] at scalar ⊢
      omega
    rw [greedyText.eq_def]
    simp [single]

theorem pairedText_stringUnits (text : Bytes) :
    pairedText (stringUnits text) = Utf8.repaired text :=
  pairedText_joins.stringUnits text

end Conform.Json
