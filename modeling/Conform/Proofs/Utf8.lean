import Conform.Bytes.Case
import Conform.Proofs.Bytes

/-! Characters and their octets. The characters of a text are exactly the code
points that are no surrogates, each in its one encoding, so a repaired text is
well-formed and repairing it again changes nothing. Octets below 128 are
characters of their own wherever they stand, so a text that holds one is
well-formed exactly when the texts before and after it are. -/
namespace Conform.Utf8

/-- A code point other than a surrogate. -/
def isScalar (code : Nat) : Bool := code < 0xD800 || (0xE000 ≤ code && code < 0x110000)

/-- A character in its encoding, or a stray octet that is none. -/
def Piece.Proper : Piece → Prop
  | .char code octets => isScalar code = true ∧ octets = encodeRune code
  | .stray octet => 0x80 ≤ octet

theorem octet_eq {n : Nat} {b : UInt8} (same : n = b.toNat) : n.toUInt8 = b := by
  rw [same, Nat.toUInt8_eq, UInt8.ofNat_toNat]

theorem continuation_iff (b : UInt8) :
    continuation b = true ↔ 0x80 ≤ b.toNat ∧ b.toNat ≤ 0xBF := by
  simp only [continuation, Bool.and_eq_true, decide_eq_true_eq]
  exact Iff.rfl

/-- The second octet is a continuation, with tighter bounds after four of the first ones. -/
theorem second_iff (b0 b1 : UInt8) :
    second b0 b1 = true ↔ (0x80 ≤ b1.toNat ∧ b1.toNat ≤ 0xBF) ∧
      (b0.toNat = 0xE0 → 0xA0 ≤ b1.toNat) ∧ (b0.toNat = 0xED → b1.toNat ≤ 0x9F) ∧
      (b0.toNat = 0xF0 → 0x90 ≤ b1.toNat) ∧ (b0.toNat = 0xF4 → b1.toNat ≤ 0x8F) := by
  simp only [second, ← UInt8.toNat_inj, UInt8.reduceToNat]
  split
  · simp only [Bool.and_eq_true, decide_eq_true_eq, UInt8.le_iff_toNat_le, UInt8.reduceToNat]
    omega
  split
  · simp only [Bool.and_eq_true, decide_eq_true_eq, UInt8.le_iff_toNat_le, UInt8.reduceToNat]
    omega
  split
  · simp only [Bool.and_eq_true, decide_eq_true_eq, UInt8.le_iff_toNat_le, UInt8.reduceToNat]
    omega
  split
  · simp only [Bool.and_eq_true, decide_eq_true_eq, UInt8.le_iff_toNat_le, UInt8.reduceToNat]
    omega
  · rw [continuation_iff]
    omega

theorem proper_ascii {b : UInt8} (small : b < 0x80) : (Piece.char b.toNat [b]).Proper := by
  have bound : b.toNat < 0x80 := small
  refine ⟨by simp [isScalar]; omega, ?_⟩
  rw [encodeRune, if_pos bound, octet_eq rfl]

section Longer

variable {b0 b1 b2 b3 : UInt8} (next : second b0 b1 = true)

include next

theorem proper_two (lead : ¬ b0 < 0xC2) (short : b0 < 0xE0) :
    (Piece.char ((b0.toNat - 0xC0) * 64 + tailBits b1) [b0, b1]).Proper := by
  have lead : ¬ b0.toNat < 0xC2 := lead
  have short : b0.toNat < 0xE0 := short
  have bounds := (second_iff b0 b1).mp next
  simp only [tailBits]
  refine ⟨by simp [isScalar]; omega, ?_⟩
  rw [encodeRune, if_neg (by omega), if_pos (by omega), octet_eq (b := b0) (by omega),
    octet_eq (b := b1) (by omega)]

theorem proper_three (lead : ¬ b0 < 0xE0) (short : b0 < 0xF0) (tail : continuation b2 = true) :
    (Piece.char ((b0.toNat - 0xE0) * 4096 + tailBits b1 * 64 + tailBits b2) [b0, b1, b2]).Proper := by
  have lead : ¬ b0.toNat < 0xE0 := lead
  have short : b0.toNat < 0xF0 := short
  have bounds := (second_iff b0 b1).mp next
  have tail := (continuation_iff b2).mp tail
  simp only [tailBits]
  refine ⟨by simp [isScalar]; omega, ?_⟩
  rw [encodeRune, if_neg (by omega), if_neg (by omega), if_neg (by omega), if_pos (by omega),
    octet_eq (b := b0) (by omega), octet_eq (b := b1) (by omega), octet_eq (b := b2) (by omega)]

theorem proper_four (lead : ¬ b0 < 0xF0) (last : ¬ 0xF4 < b0) (tail : continuation b2 = true)
    (final : continuation b3 = true) :
    (Piece.char ((b0.toNat - 0xF0) * 262144 + tailBits b1 * 4096 + tailBits b2 * 64 + tailBits b3)
      [b0, b1, b2, b3]).Proper := by
  have lead : ¬ b0.toNat < 0xF0 := lead
  have last : ¬ 0xF4 < b0.toNat := last
  have bounds := (second_iff b0 b1).mp next
  have tail := (continuation_iff b2).mp tail
  have final := (continuation_iff b3).mp final
  simp only [tailBits]
  refine ⟨by simp [isScalar]; omega, ?_⟩
  rw [encodeRune, if_neg (by omega), if_neg (by omega), if_neg (by omega), if_neg (by omega),
    octet_eq (b := b0) (by omega), octet_eq (b := b1) (by omega), octet_eq (b := b2) (by omega),
    octet_eq (b := b3) (by omega)]

theorem pieces_two (lead : ¬ b0 < 0xC2) (short : b0 < 0xE0) (rest : Bytes) :
    pieces (b0 :: b1 :: rest) =
      .char ((b0.toNat - 0xC0) * 64 + tailBits b1) [b0, b1] :: pieces rest := by
  have big : ¬ b0 < 0x80 := by grind
  have last : ¬ 0xF4 < b0 := by grind
  rw [pieces.eq_def]
  simp [next, lead, short, big, last]

theorem pieces_three (lead : ¬ b0 < 0xE0) (short : b0 < 0xF0) (tail : continuation b2 = true)
    (rest : Bytes) : pieces (b0 :: b1 :: b2 :: rest) =
      .char ((b0.toNat - 0xE0) * 4096 + tailBits b1 * 64 + tailBits b2) [b0, b1, b2] ::
        pieces rest := by
  have big : ¬ b0 < 0x80 := by grind
  have least : ¬ b0 < 0xC2 := by grind
  have last : ¬ 0xF4 < b0 := by grind
  rw [pieces.eq_def]
  simp [next, lead, short, tail, big, least, last]

theorem pieces_four (lead : ¬ b0 < 0xF0) (last : ¬ 0xF4 < b0) (tail : continuation b2 = true)
    (final : continuation b3 = true) (rest : Bytes) : pieces (b0 :: b1 :: b2 :: b3 :: rest) =
      .char ((b0.toNat - 0xF0) * 262144 + tailBits b1 * 4096 + tailBits b2 * 64 + tailBits b3)
        [b0, b1, b2, b3] :: pieces rest := by
  have big : ¬ b0 < 0x80 := by grind
  have least : ¬ b0 < 0xC2 := by grind
  have long : ¬ b0 < 0xE0 := by grind
  rw [pieces.eq_def]
  simp [next, lead, last, tail, final, big, least, long]

end Longer

/-- Every character of a text stands there in its encoding. -/
theorem pieces_proper (text : Bytes) : ∀ p ∈ pieces text, p.Proper := by
  have stray : ∀ b : UInt8, ¬ b < 0x80 → (Piece.stray b).Proper := fun b big =>
    UInt8.not_lt.mp big
  fun_induction pieces text <;> simp_all [proper_ascii, proper_two, proper_three, proper_four]

theorem encodeRune_high {code : Nat} (big : 0x80 ≤ code) : ∀ b ∈ encodeRune code, 0x80 ≤ b := by
  have octet : ∀ n, 0x80 ≤ n → n < 256 → 0x80 ≤ n.toUInt8 := by
    intro n low high
    rw [UInt8.le_iff_toNat_le]
    simp only [UInt8.reduceToNat, Nat.toUInt8_eq, UInt8.toNat_ofNat']
    omega
  rw [encodeRune, if_neg (by omega)]
  split
  · simp only [List.mem_cons, List.not_mem_nil, or_false, forall_eq_or_imp, forall_eq]
    exact ⟨octet _ (by omega) (by omega), octet _ (by omega) (by omega)⟩
  split
  · simp only [List.mem_cons, List.not_mem_nil, or_false, forall_eq_or_imp, forall_eq]
    decide
  split
  · simp only [List.mem_cons, List.not_mem_nil, or_false, forall_eq_or_imp, forall_eq]
    exact ⟨octet _ (by omega) (by omega), octet _ (by omega) (by omega),
      octet _ (by omega) (by omega)⟩
  · simp only [List.mem_cons, List.not_mem_nil, or_false, forall_eq_or_imp, forall_eq]
    exact ⟨octet _ (by omega) (by omega), octet _ (by omega) (by omega),
      octet _ (by omega) (by omega), octet _ (by omega) (by omega)⟩

theorem exists_octet {n : Nat} (bound : n < 256) : ∃ b : UInt8, b.toNat = n ∧ n.toUInt8 = b :=
  ⟨n.toUInt8, by simp; omega, rfl⟩

theorem pieces_ascii {b : UInt8} (small : b < 0x80) (rest : Bytes) :
    pieces (b :: rest) = .char b.toNat [b] :: pieces rest := by
  rw [pieces.eq_def]
  simp only [if_pos small]

/-- A character in its encoding is a piece of its own, whatever follows. -/
theorem pieces_encodeRune {code : Nat} (scalar : isScalar code = true) (rest : Bytes) :
    pieces (encodeRune code ++ rest) = .char code (encodeRune code) :: pieces rest := by
  have scalar : code < 0xD800 ∨ 0xE000 ≤ code ∧ code < 0x110000 := by
    simpa [isScalar] using scalar
  rw [encodeRune]
  split
  · obtain ⟨b, value, octet⟩ := exists_octet (n := code) (by omega)
    have small : b.toNat < 0x80 := by omega
    rw [octet, List.cons_append, List.nil_append, pieces_ascii small, value]
  split
  · obtain ⟨b0, v0, o0⟩ := exists_octet (n := 0xC0 + code / 64) (by omega)
    obtain ⟨b1, v1, o1⟩ := exists_octet (n := 0x80 + code % 64) (by omega)
    have next : second b0 b1 = true := (second_iff b0 b1).mpr (by omega)
    have lead : ¬ b0.toNat < 0xC2 := by omega
    have short : b0.toNat < 0xE0 := by omega
    have value : (b0.toNat - 0xC0) * 64 + tailBits b1 = code := by
      rw [tailBits]
      omega
    rw [o0, o1, List.cons_append, List.cons_append, List.nil_append, pieces_two next lead short,
      value]
  split
  · omega
  split
  · obtain ⟨b0, v0, o0⟩ := exists_octet (n := 0xE0 + code / 4096) (by omega)
    obtain ⟨b1, v1, o1⟩ := exists_octet (n := 0x80 + code / 64 % 64) (by omega)
    obtain ⟨b2, v2, o2⟩ := exists_octet (n := 0x80 + code % 64) (by omega)
    have next : second b0 b1 = true := (second_iff b0 b1).mpr (by omega)
    have lead : ¬ b0.toNat < 0xE0 := by omega
    have short : b0.toNat < 0xF0 := by omega
    have tail : continuation b2 = true := (continuation_iff b2).mpr (by omega)
    have value : (b0.toNat - 0xE0) * 4096 + tailBits b1 * 64 + tailBits b2 = code := by
      rw [tailBits, tailBits]
      omega
    rw [o0, o1, o2, List.cons_append, List.cons_append, List.cons_append, List.nil_append,
      pieces_three next lead short tail, value]
  · obtain ⟨b0, v0, o0⟩ := exists_octet (n := 0xF0 + code / 262144) (by omega)
    obtain ⟨b1, v1, o1⟩ := exists_octet (n := 0x80 + code / 4096 % 64) (by omega)
    obtain ⟨b2, v2, o2⟩ := exists_octet (n := 0x80 + code / 64 % 64) (by omega)
    obtain ⟨b3, v3, o3⟩ := exists_octet (n := 0x80 + code % 64) (by omega)
    have next : second b0 b1 = true := (second_iff b0 b1).mpr (by omega)
    have lead : ¬ b0.toNat < 0xF0 := by omega
    have last : ¬ 0xF4 < b0.toNat := by omega
    have tail : continuation b2 = true := (continuation_iff b2).mpr (by omega)
    have final : continuation b3 = true := (continuation_iff b3).mpr (by omega)
    have value : (b0.toNat - 0xF0) * 262144 + tailBits b1 * 4096 + tailBits b2 * 64 +
        tailBits b3 = code := by
      rw [tailBits, tailBits, tailBits]
      omega
    rw [o0, o1, o2, o3, List.cons_append, List.cons_append, List.cons_append, List.cons_append,
      List.nil_append, pieces_four next lead last tail final, value]

/-- The code points of a text, where a stray octet counts as the replacement character. -/
def codes (text : Bytes) : List Nat := (pieces text).map Piece.code

theorem codes_scalar (text : Bytes) : ∀ code ∈ codes text, isScalar code = true := by
  intro code member
  obtain ⟨p, inside, rfl⟩ := List.mem_map.mp member
  have proper := pieces_proper text p inside
  cases p with
  | char code octets => exact proper.1
  | stray octet => rfl

theorem repaired_eq_codes (text : Bytes) : repaired text = (codes text).flatMap encodeRune := by
  rw [repaired, codes, List.flatMap_map, List.flatMap_def, List.flatMap_def]
  congr 1
  refine List.map_congr_left ?_
  intro p member
  have proper := pieces_proper text p member
  cases p with
  | char code octets => exact proper.2
  | stray octet => rfl

theorem pieces_codes {codes : List Nat} (scalar : ∀ code ∈ codes, isScalar code = true) :
    pieces (codes.flatMap encodeRune) = codes.map fun code => .char code (encodeRune code) := by
  induction codes with
  | nil => rfl
  | cons code rest ih =>
    rw [List.flatMap_cons, pieces_encodeRune (scalar code (by simp)), List.map_cons,
      ih fun code member => scalar code (by simp [member])]

/-- A repaired text is well-formed. -/
theorem valid_repaired (text : Bytes) : valid (repaired text) = true := by
  rw [repaired_eq_codes, valid, pieces_codes (codes_scalar text)]
  simp [Piece.isChar]

theorem repaired_of_valid {text : Bytes} (wellFormed : valid text = true) : repaired text = text := by
  conv_rhs => rw [← pieces_octets text]
  rw [repaired, List.flatMap_def, List.flatMap_def]
  congr 1
  refine List.map_congr_left ?_
  intro p member
  have isChar := List.all_eq_true.mp wellFormed p member
  cases p with
  | char code octets => rfl
  | stray octet => contradiction

/-- Repairing changes exactly the texts that are not well-formed. -/
theorem repaired_eq_iff (text : Bytes) : repaired text = text ↔ valid text = true := by
  constructor
  · intro same
    rw [← same]
    exact valid_repaired text
  · exact repaired_of_valid

theorem repaired_repaired (text : Bytes) : repaired (repaired text) = repaired text :=
  repaired_of_valid (valid_repaired text)

theorem not_continuation_of_ascii {b : UInt8} (small : b < 0x80) : continuation b = false := by
  rw [← Bool.not_eq_true, continuation_iff]
  have : b.toNat < 0x80 := small
  omega

theorem not_second_of_ascii {b0 b : UInt8} (small : b < 0x80) : second b0 b = false := by
  rw [← Bool.not_eq_true, second_iff]
  have : b.toNat < 0x80 := small
  omega

/-- An octet below 128 is a character of its own, whatever stands before it. -/
theorem pieces_append_ascii {b : UInt8} (small : b < 0x80) (before after : Bytes) :
    pieces (before ++ b :: after) = pieces before ++ .char b.toNat [b] :: pieces after := by
  fun_induction pieces before with
  | case1 => exact pieces_ascii small after
  | case2 b0 rest one ih => rw [List.cons_append, pieces_ascii one, ih, List.cons_append]
  | case3 b0 rest big none ih =>
    rw [List.cons_append, pieces.eq_def]
    simp [big, none, ih]
  | case4 b0 big lead =>
    rw [List.cons_append, pieces.eq_def]
    simp [big, lead, not_second_of_ascii small, pieces_ascii small]
  | case5 b0 big lead b1 rest other ih =>
    rw [List.cons_append, List.cons_append, pieces.eq_def]
    simp only [List.cons_append] at ih
    simp [big, lead, other, ih]
  | case6 b0 big lead b1 rest next two ih =>
    rw [List.cons_append, List.cons_append, pieces.eq_def]
    simp [big, lead, next, two, ih]
  | case7 b0 big lead b1 next two ih =>
    rw [List.cons_append, List.cons_append, pieces.eq_def]
    simp only [List.cons_append, List.nil_append] at ih
    simp [big, lead, next, two, not_continuation_of_ascii small, ih]
  | case8 b0 big lead b1 next two b2 rest other ih =>
    rw [List.cons_append, List.cons_append, List.cons_append, pieces.eq_def]
    simp only [List.cons_append] at ih
    simp [big, lead, next, two, other, ih]
  | case9 b0 big lead b1 next two b2 rest tail three ih =>
    rw [List.cons_append, List.cons_append, List.cons_append, pieces.eq_def]
    simp [big, lead, next, two, tail, three, ih]
  | case10 b0 big lead b1 next two b2 tail three ih =>
    rw [List.cons_append, List.cons_append, List.cons_append, pieces.eq_def]
    simp only [List.cons_append, List.nil_append] at ih
    simp [big, lead, next, two, tail, three, not_continuation_of_ascii small, ih]
  | case11 b0 big lead b1 next two b2 tail three b3 rest other ih =>
    rw [List.cons_append, List.cons_append, List.cons_append, List.cons_append, pieces.eq_def]
    simp only [List.cons_append] at ih
    simp [big, lead, next, two, tail, three, other, ih]
  | case12 b0 big lead b1 next two b2 tail three b3 rest final ih =>
    rw [List.cons_append, List.cons_append, List.cons_append, List.cons_append, pieces.eq_def]
    simp [big, lead, next, two, tail, three, final, ih]

theorem valid_nil : valid [] = true := rfl

theorem valid_append_ascii {b : UInt8} (small : b < 0x80) (before after : Bytes) :
    valid (before ++ b :: after) = (valid before && valid after) := by
  simp only [valid, pieces_append_ascii small, List.all_append, List.all_cons, Piece.isChar,
    Bool.true_and]

theorem valid_cons_ascii {b : UInt8} (small : b < 0x80) (after : Bytes) :
    valid (b :: after) = valid after := by
  simpa [valid, pieces] using valid_append_ascii small [] after

/-- All octets are below 128. -/
def isAscii (text : Bytes) : Bool := text.all fun b => b < 0x80

theorem isAscii_iff {text : Bytes} : isAscii text = true ↔ ∀ b ∈ text, b < 0x80 := by
  simp only [isAscii, List.all_eq_true, decide_eq_true_eq]

/-- Octets below 128 in front do not matter. -/
theorem valid_ascii_append {word : Bytes} (ascii : isAscii word = true) (rest : Bytes) :
    valid (word ++ rest) = valid rest := by
  have small := isAscii_iff.mp ascii
  clear ascii
  induction word with
  | nil => rfl
  | cons b word ih =>
    rw [List.cons_append, valid_cons_ascii (small b (by simp)),
      ih fun b member => small b (by simp [member])]

theorem valid_ascii {word : Bytes} (ascii : isAscii word = true) : valid word = true := by
  rw [← List.append_nil word, valid_ascii_append ascii]
  rfl

theorem valid_lower {name : Bytes} (lower : name.all isLower = true) : valid name = true :=
  valid_ascii <| isAscii_iff.mpr fun b member =>
    octet_cases (P := fun b => isLower b = true → b < 0x80) (by decide) b
      (List.all_eq_true.mp lower b member)

theorem repaired_lower {name : Bytes} (lower : name.all isLower = true) : repaired name = name :=
  repaired_of_valid (valid_lower lower)

/-- Joined by octets below 128, texts are well-formed when each of them is. -/
theorem valid_join {separator : Bytes} (ascii : isAscii separator = true)
    (nonempty : separator ≠ []) (parts : List Bytes) :
    valid (Bytes.join separator parts) = parts.all valid := by
  obtain ⟨b, tail, rfl⟩ := List.exists_cons_of_ne_nil nonempty
  obtain ⟨small, others⟩ := List.forall_mem_cons.mp (isAscii_iff.mp ascii)
  induction parts with
  | nil => rfl
  | cons part rest ih =>
    cases rest with
    | nil => simp [Bytes.join]
    | cons next rest =>
      rw [Bytes.join, List.append_assoc, List.cons_append, valid_append_ascii small,
        valid_ascii_append (isAscii_iff.mpr others), ih]
      · rfl
      · exact List.cons_ne_nil next rest

/-- Well-formed texts one after the other are well-formed. -/
theorem valid_append {before after : Bytes} (first : valid before = true)
    (second : valid after = true) : valid (before ++ after) = true := by
  have scalar : ∀ code ∈ codes before ++ codes after, isScalar code = true :=
    List.forall_mem_append.mpr ⟨codes_scalar before, codes_scalar after⟩
  rw [← repaired_of_valid first, ← repaired_of_valid second, repaired_eq_codes, repaired_eq_codes,
    ← List.flatMap_append, valid, pieces_codes scalar]
  simp [Piece.isChar]

/-- Where a part ends before an octet below 128, a text can be cut. -/
theorem valid_cut {front rest : Bytes} (stop : ∀ b ∈ rest.head?, b < 0x80) :
    valid (front ++ rest) = (valid front && valid rest) := by
  cases rest with
  | nil => rw [List.append_nil, valid_nil, Bool.and_true]
  | cons b rest =>
    rw [valid_append_ascii (stop b rfl), valid_cons_ascii (stop b rfl)]

/-- A name in lower case is found under itself only. -/
theorem foldsTo_lower {name : Bytes} (lower : name.all isLower = true) (word : Bytes) :
    foldsTo word name = (name == word) := by
  have letter : ∀ b : UInt8, isLower b = true → b < 0x80 ∧ (Piece.char b.toNat [b]).fold = [b] :=
    octet_cases (P := fun b => isLower b = true → b < 0x80 ∧ (Piece.char b.toNat [b]).fold = [b])
      (by decide)
  have folded : (pieces name).flatMap Piece.fold = name := by
    induction name with
    | nil => rfl
    | cons b name ih =>
      simp only [List.all_cons, Bool.and_eq_true] at lower
      obtain ⟨small, same⟩ := letter b lower.1
      rw [pieces_ascii small, List.flatMap_cons, same, ih lower.2]
      rfl
  rw [foldsTo, folded]

end Conform.Utf8
