import Conform.Bytes.Base64
import Conform.Proofs.Utf8

/-! Octets survive their way through 64 letters. -/
namespace Conform.Base64

theorem letterValue?_letter {n : Nat} (bound : n < 64) : letterValue? (letter n) = some n := by
  have checked : ∀ m < 64, letterValue? (letter m) = some m := by decide
  exact checked n bound

theorem letter_ne_filler {n : Nat} (bound : n < 64) : letter n ≠ octet '=' := by
  have checked : ∀ m < 64, letter m ≠ octet '=' := by decide
  exact checked n bound

/-- Octets that a reader keeps and that stand for themselves in a document. -/
def isPlain (b : UInt8) : Bool := b != 0x0A && b != 0x0D && b < 0x80

theorem letter_plain {n : Nat} (bound : n < 64) : isPlain (letter n) = true := by
  have checked : ∀ m < 64, isPlain (letter m) = true := by decide
  exact checked n bound

theorem encode_plain (data : Bytes) : ∀ b ∈ encode data, isPlain b = true := by
  have filler : isPlain (octet '=') = true := by decide
  fun_induction encode data with
  | case1 => simp
  | case2 a n =>
    have := a.toNat_lt
    simp only [List.mem_cons, List.not_mem_nil, or_false, forall_eq_or_imp, forall_eq]
    exact ⟨letter_plain (by omega), letter_plain (by omega), filler, filler⟩
  | case3 a b n =>
    have := a.toNat_lt
    have := b.toNat_lt
    simp only [List.mem_cons, List.not_mem_nil, or_false, forall_eq_or_imp, forall_eq]
    exact ⟨letter_plain (by omega), letter_plain (by omega), letter_plain (by omega), filler⟩
  | case4 a b c rest n ih =>
    have := a.toNat_lt
    have := b.toNat_lt
    have := c.toNat_lt
    simp only [List.mem_cons, forall_eq_or_imp]
    exact ⟨letter_plain (by omega), letter_plain (by omega), letter_plain (by omega),
      letter_plain (by omega), ih⟩

theorem decodeGroups_encode (data : Bytes) : decodeGroups (encode data) = some data := by
  fun_induction encode data with
  | case1 => rfl
  | case2 a n =>
    have bound := a.toNat_lt
    rw [decodeGroups, letterValue?_letter (by omega), letterValue?_letter (by omega)]
    simp only [if_true]
    rw [Utf8.octet_eq (b := a) (by omega)]
  | case3 a b n =>
    have aBound := a.toNat_lt
    have bBound := b.toNat_lt
    rw [decodeGroups, letterValue?_letter (by omega), letterValue?_letter (by omega)]
    simp only [if_neg (letter_ne_filler (show n % 64 < 64 by omega)), if_true]
    rw [letterValue?_letter (by omega)]
    simp only
    rw [Utf8.octet_eq (b := a) (by omega), Utf8.octet_eq (b := b) (by omega)]
  | case4 a b c rest n ih =>
    have aBound := a.toNat_lt
    have bBound := b.toNat_lt
    have cBound := c.toNat_lt
    have first : (n / 262144 * 4 + n / 4096 % 64 / 16).toUInt8 = a := Utf8.octet_eq (by omega)
    have second : (n / 4096 % 64 % 16 * 16 + n / 64 % 64 / 4).toUInt8 = b :=
      Utf8.octet_eq (by omega)
    have third : (n / 64 % 64 % 4 * 64 + n % 64).toUInt8 = c := Utf8.octet_eq (by omega)
    -- only the last group may be filled up, so it is read by an equation of its own
    cases text : encode rest with
    | nil =>
      rw [text, decodeGroups, Option.some.injEq] at ih
      rw [decodeGroups, letterValue?_letter (by omega), letterValue?_letter (by omega)]
      simp only [if_neg (letter_ne_filler (show n % 64 < 64 by omega)),
        if_neg (letter_ne_filler (show n / 64 % 64 < 64 by omega))]
      rw [letterValue?_letter (by omega), letterValue?_letter (by omega)]
      simp only [first, second, third, ← ih]
    | cons x xs =>
      rw [text] at ih
      rw [decodeGroups, letterValue?_letter (by omega), letterValue?_letter (by omega),
        letterValue?_letter (by omega), letterValue?_letter (by omega), ih]
      · simp only [first, second, third]
      · simp

/-- What was encoded is decoded again. -/
theorem decode?_encode (data : Bytes) : decode? (encode data) = some data := by
  have kept : (encode data).filter (fun b => b != 0x0A && b != 0x0D) = encode data := by
    refine List.filter_eq_self.mpr fun b member => ?_
    have plain := encode_plain data b member
    simp only [isPlain, Bool.and_eq_true] at plain
    simp [plain.1.1, plain.1.2]
  rw [decode?, kept, decodeGroups_encode]

theorem valid_encode (data : Bytes) : Utf8.valid (encode data) = true :=
  Utf8.valid_ascii <| Utf8.isAscii_iff.mpr fun b member => by
    have plain := encode_plain data b member
    simp only [isPlain, Bool.and_eq_true, decide_eq_true_eq] at plain
    exact plain.2

end Conform.Base64
