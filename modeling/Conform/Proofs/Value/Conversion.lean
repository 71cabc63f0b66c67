import Conform.Proofs.Utf8
import Conform.Proofs.Value.Keys
import Conform.Ty.Cast

/-! Maps built by conversion. An array counts as one only while no two of its keys
read the same, so the keys that a conversion settles on must be told apart by
their texts: an integer, or a text that would not have become an integer. -/
namespace Conform

namespace Utf8

theorem dropWhile_blank {pieces : List Piece} (plain : ∀ p ∈ pieces, p.isBlank = false) :
    pieces.dropWhile Piece.isBlank = pieces := by
  cases pieces with
  | nil => rfl
  | cons p rest => rw [List.dropWhile_cons_of_neg (by simp [plain p (by simp)])]

/-- Nothing is trimmed off a text without blank characters. -/
theorem trim_plain {text : Bytes} (plain : ∀ p ∈ pieces text, p.isBlank = false) :
    trim text = text := by
  have backwards : ∀ p ∈ (pieces text).reverse, p.isBlank = false := by
    intro p member
    exact plain p (List.mem_reverse.mp member)
  rw [trim, dropWhile_blank plain, dropWhile_blank backwards, List.reverse_reverse, pieces_octets]

/-- An octet of ASCII that is no blank. -/
def isVisible (b : UInt8) : Bool := b < 0x80 && !isBlankCode b.toNat

theorem pieces_visible {text : Bytes} (visible : text.all isVisible = true) :
    ∀ p ∈ pieces text, p.isBlank = false := by
  induction text with
  | nil => exact nofun
  | cons b rest ih =>
    simp only [List.all_cons, isVisible, Bool.and_eq_true, decide_eq_true_eq, Bool.not_eq_true']
      at visible
    rw [pieces_ascii visible.1.1]
    exact List.forall_mem_cons.mpr ⟨visible.1.2, ih visible.2⟩

theorem isVisible_of_digit {b : UInt8} (digit : isDigit b = true) : isVisible b = true :=
  octet_cases (P := fun b => isDigit b = true → isVisible b = true) (by decide) b digit

theorem visible_decimalInt (n : Int) : (decimalInt n).all isVisible = true := by
  have digits : (decimalNat n.natAbs).all isVisible = true := by
    rw [List.all_eq_true]
    intro b member
    exact isVisible_of_digit (List.all_eq_true.mp (decimalNat_all_digits _) b member)
  rw [decimalInt]
  split
  · rw [List.all_cons, digits]
    decide
  · exact digits

theorem trim_decimalInt (n : Int) : trim (decimalInt n) = decimalInt n :=
  trim_plain (pieces_visible (visible_decimalInt n))

theorem valid_decimalInt (n : Int) : valid (decimalInt n) = true := by
  refine valid_ascii (isAscii_iff.mpr ?_)
  intro b member
  have visible := List.all_eq_true.mp (visible_decimalInt n) b member
  simp only [isVisible, Bool.and_eq_true, decide_eq_true_eq] at visible
  exact visible.1

end Utf8

theorem decimalInt_injective {m n : Int} (mRange : inInt64 m = true) (nRange : inInt64 n = true)
    (same : decimalInt m = decimalInt n) : m = n := by
  have read := readInt64_decimalInt mRange
  rw [same, readInt64_decimalInt nRange] at read
  have equal := congrArg Int64.toInt (Except.ok.inj read)
  simp only [inInt64, Bool.and_eq_true, decide_eq_true_eq] at mRange nRange
  rw [Int64.toInt_ofInt_of_le (by omega) (by omega), Int64.toInt_ofInt_of_le (by omega) (by omega)]
    at equal
  exact equal.symm

namespace Value

theorem toInteger?_ofInt64 (n : Int64) : (ofInt64 n).toInteger? = some n := by
  simp [ofInt64, toInteger?, inInt64_toInt]

theorem castInteger_of_toInteger? {v : Value} {n : Int64} (found : v.toInteger? = some n) :
    v.castInteger = some n := by
  cases v with
  | int width m => exact found
  | _ => contradiction

theorem castInteger_ofInt64 (n : Int64) : (ofInt64 n).castInteger = some n :=
  castInteger_of_toInteger? (toInteger?_ofInt64 n)

theorem castDouble_of_toDouble? {v : Value} {x : Double} (found : v.toDouble? = some x) :
    v.castDouble = some x := by
  cases v with
  | double y => exact found
  | single y => exact found
  | _ => contradiction

theorem castInteger_decimalInt {n : Int} (range : inInt64 n = true) :
    (Value.text (decimalInt n)).castInteger = some (Int64.ofInt n) := by
  rw [castInteger, Utf8.trim_decimalInt, integerLiteral?_decimalInt range]

/-- A key that conversion to a kind of keys settles on. A text is left over by
kinds with integers only when it does not read as one. -/
inductive Settled (kind : KeyKind) : Value → Prop
  | integer (n : Int64) : kind.integers = true → Settled kind (.ofInt64 n)
  | text (s : Bytes) : kind.strings = true →
      (kind.integers = true → (Value.text s).castInteger = none) → Settled kind (.text s)

namespace Settled

variable {kind : KeyKind} {k l : Value}

theorem accepts (settled : Settled kind k) : kind.accepts k = true := by
  cases settled with
  | integer n integers =>
    simp [KeyKind.accepts, integers, isInteger, toInteger?_ofInt64]
  | text s strings _ => simp [KeyKind.accepts, strings, isText]

/-- Keys that read the same are the same. -/
theorem eq_of_keyText (first : Settled kind k) (second : Settled kind l)
    (same : k.keyText = l.keyText) : k = l := by
  cases first with
  | integer m integers =>
    cases second with
    | integer n _ =>
      have equal := decimalInt_injective (inInt64_toInt m) (inInt64_toInt n) same
      rw [ofInt64, ofInt64, equal]
    | text s _ left =>
      have read := castInteger_decimalInt (inInt64_toInt m)
      have written : decimalInt m.toInt = s := same
      rw [written, left integers] at read
      contradiction
  | text s _ left =>
    cases second with
    | integer n integers =>
      have read := castInteger_decimalInt (inInt64_toInt n)
      have written : s = decimalInt n.toInt := same
      rw [← written, left integers] at read
      contradiction
    | text t _ _ => exact congrArg Value.text same

end Settled

/-- An integer of any width, or a text. -/
def isHostKey : Value → Bool
  | .int .. => true
  | .text _ => true
  | _ => false

end Value

/-- A key is converted to the integer it reads as, and else to its text. -/
theorem KeyKind.cast_eq_ok_iff (kind : KeyKind) (key k : Value) : kind.cast key = .ok k ↔
    (kind.integers = true ∧ ∃ n, key.castInteger = some n ∧ k = .ofInt64 n) ∨
      ((kind.integers = true → key.castInteger = none) ∧ kind.strings = true ∧
        ∃ s, key.castText = some s ∧ k = .text s) := by
  rw [KeyKind.cast]
  cases key.castInteger <;> cases key.castText <;> cases kind <;>
    simp [KeyKind.integers, KeyKind.strings, eq_comm]

theorem KeyKind.isHostKey_of_cast {kind : KeyKind} {key k : Value}
    (converted : kind.cast key = .ok k) : k.isHostKey = true := by
  rcases (kind.cast_eq_ok_iff key k).mp converted with ⟨_, n, _, rfl⟩ | ⟨_, _, s, _, rfl⟩
  · rfl
  · rfl

/-- A key that the kind accepts can be converted to it. -/
theorem KeyKind.cast_succeeds (kind : KeyKind) {key : Value} (accepted : kind.accepts key = true) :
    ∃ k, kind.cast key = .ok k := by
  simp only [KeyKind.accepts, Bool.or_eq_true, Bool.and_eq_true] at accepted
  rcases accepted with ⟨integers, integer⟩ | ⟨strings, text⟩
  · obtain ⟨n, found⟩ := Option.isSome_iff_exists.mp integer
    refine ⟨.ofInt64 n, (kind.cast_eq_ok_iff key _).mpr (Or.inl ⟨integers, n, ?_, rfl⟩)⟩
    exact Value.castInteger_of_toInteger? found
  · cases key with
    | text s =>
      cases read : (Value.text s).castInteger with
      | some n =>
        by_cases integers : kind.integers = true
        · exact ⟨.ofInt64 n, (kind.cast_eq_ok_iff _ _).mpr (Or.inl ⟨integers, n, read, rfl⟩)⟩
        · refine ⟨.text s, (kind.cast_eq_ok_iff _ _).mpr (Or.inr ⟨?_, strings, s, rfl, rfl⟩)⟩
          exact fun yes => absurd yes integers
      | none =>
        refine ⟨.text s, (kind.cast_eq_ok_iff _ _).mpr (Or.inr ⟨?_, strings, s, rfl, rfl⟩)⟩
        exact fun _ => read
    | _ => contradiction

namespace Value

/-- A key of a host that has a text as a string has the one that it is known by. -/
theorem keyText_of_castText {key : Value} (host : key.isHostKey = true) {s : Bytes}
    (text : key.castText = some s) : key.keyText = s := by
  cases key with
  | int width n =>
    rw [castText] at text
    split at text
    · exact Option.some.inj text
    · contradiction
  | text t => exact Option.some.inj text
  | _ => contradiction

/-- A key of a host is converted to one that is told apart by its text. -/
theorem settled_of_cast {kind : KeyKind} {key k : Value} (host : key.isHostKey = true)
    (converted : kind.cast key = .ok k) : Settled kind k := by
  rcases (kind.cast_eq_ok_iff key k).mp converted with
    ⟨integers, n, _, rfl⟩ | ⟨left, strings, s, text, rfl⟩
  · exact .integer n integers
  · refine .text s strings ?_
    intro integers
    cases key with
    | int width n =>
      -- a number has a text only within the range in which it is an integer
      have none := left integers
      simp only [castInteger, castText] at none text
      split at text <;> simp_all
    | text t =>
      obtain rfl := Option.some.inj text
      exact left integers
    | _ => contradiction

/-- The texts of the keys of a map. -/
def pairTexts (pairs : List (Value × Value)) : List Bytes := pairs.map fun p => p.1.keyText

theorem mem_insertEntry {key value : Value} {pairs : List (Value × Value)} {p : Value × Value}
    (member : p ∈ insertEntry key value pairs) : p = (key, value) ∨ p ∈ pairs := by
  induction pairs with
  | nil => exact Or.inl (List.mem_singleton.mp member)
  | cons first rest ih =>
    rw [insertEntry] at member
    split at member
    · exact (List.mem_cons.mp member).imp_right fun inside => by simp [inside]
    · rcases List.mem_cons.mp member with rfl | inside
      · exact Or.inr (by simp)
      · exact (ih inside).imp_right fun inside => by simp [inside]

/-- Neighbours do not repeat a text where no text stands twice. -/
theorem repeatsText_of_nodup {entries : List Entry} (distinct : (keyTexts entries).Nodup) :
    repeatsText entries = false := by
  fun_induction repeatsText entries with
  | case1 => rfl
  | case2 => rfl
  | case3 a b rest ih =>
    rw [keyTexts, List.map_cons, List.nodup_cons] at distinct
    have other : a.key.keyText ≠ b.key.keyText := by
      intro same
      exact distinct.1 (by simp [same])
    rw [ih distinct.2, Bool.or_false]
    exact beq_eq_false_iff_ne.mpr other

/-- A pair of a map as an entry. -/
def toEntry (p : Value × Value) : Entry := ⟨p.1, p.2⟩

theorem keyTexts_toEntry (pairs : List (Value × Value)) :
    keyTexts (pairs.map toEntry) = pairTexts pairs := by
  rw [keyTexts, List.map_map]
  rfl

/-- A map whose keys have distinct texts is a container with its pairs in some order. -/
theorem entries?_perm (kind : MapKind) {pairs : List (Value × Value)}
    (distinct : (pairTexts pairs).Nodup) : ∃ entries,
      (Value.map kind pairs).entries? = some entries ∧ entries.Perm (pairs.map toEntry) := by
  have perm := sortBy_perm (fun e : Entry => e.key.keyText) (pairs.map toEntry)
  have texts := perm.map fun e : Entry => e.key.keyText
  rw [← keyTexts, ← keyTexts, keyTexts_toEntry] at texts
  refine ⟨_, ?_, perm⟩
  have unrepeated := repeatsText_of_nodup (texts.nodup_iff.mpr distinct)
  rw [entries?]
  exact if_neg (by rw [Bool.not_eq_true]; exact unrepeated)

/-- A map whose keys have distinct texts is a container with its pairs as entries. -/
theorem entries?_map (kind : MapKind) {pairs : List (Value × Value)}
    (distinct : (pairTexts pairs).Nodup) : ∃ entries, (Value.map kind pairs).entries? = some entries ∧
      (keyTexts entries).Perm (pairTexts pairs) ∧
      ∀ e : Entry, e ∈ entries ↔ (e.key, e.value) ∈ pairs := by
  obtain ⟨entries, contents, perm⟩ := entries?_perm kind distinct
  refine ⟨entries, contents, ?_, ?_⟩
  · rw [← keyTexts_toEntry]
    exact perm.map _
  · rintro ⟨key, value⟩
    rw [perm.mem_iff, List.mem_map]
    simp [toEntry]

section Keys

variable (test : Value → Bool)

mutual

/-- Every key of every map within the value passes. -/
def everyKey : Value → Bool
  | .list _ items => everyKeyItems items
  | .map _ pairs => everyKeyPairs pairs
  | _ => true

def everyKeyItems : List Value → Bool
  | [] => true
  | v :: rest => v.everyKey && everyKeyItems rest

def everyKeyPairs : List (Value × Value) → Bool
  | [] => true
  | (k, v) :: rest => test k && v.everyKey && everyKeyPairs rest

end

variable {test}

theorem everyKeyItems_iff (items : List Value) :
    everyKeyItems test items = true ↔ ∀ v ∈ items, v.everyKey test = true := by
  induction items with
  | nil => simp [everyKeyItems]
  | cons v rest ih => simp [everyKeyItems, ih]

theorem everyKeyPairs_iff (pairs : List (Value × Value)) : everyKeyPairs test pairs = true ↔
    ∀ p ∈ pairs, test p.1 = true ∧ p.2.everyKey test = true := by
  induction pairs with
  | nil => simp [everyKeyPairs]
  | cons p rest ih => rw [everyKeyPairs, Bool.and_eq_true, Bool.and_eq_true, ih, List.forall_mem_cons]

/-- The entries of a value inherit what its keys pass; indices are integers. -/
theorem everyKey_entry (indices : ∀ i : Nat, test (.int .int64 i) = true) {v : Value}
    (keys : v.everyKey test = true) {entries : List Entry} (contents : v.entries? = some entries)
    {e : Entry} (member : e ∈ entries) : test e.key = true ∧ e.value.everyKey test = true := by
  rcases mem_entries contents member with
    ⟨kind, items, rfl, j, _, key, value⟩ | ⟨kind, pairs, rfl, pair⟩
  · rw [key]
    exact ⟨indices j, (everyKeyItems_iff items).mp keys _ value⟩
  · exact (everyKeyPairs_iff pairs).mp keys _ pair

end Keys

end Value

end Conform
