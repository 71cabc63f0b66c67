import Conform.Proofs.Ty.Preorder
import Conform.Proofs.Value.Conversion
import Conform.Proofs.Value.Parts
import Mathlib.Data.Fintype.Card
import Mathlib.Data.Fintype.EquivFin

/-! On null, integers, strings, their literals and array keys, alone or in unions,
compatibility decides inclusion. A family is covered by the members of a union only
if one of them is a family, since literals leave some value out: there are always
more strings, and more integers as long as the union has fewer members than there
are integers of 64 bits. -/
namespace Conform

/-- The integers that a machine type holds, as the least one and the first one beyond them. -/
def IntKind.bounds : IntKind → Int × Int
  | .int8 => (-0x80, 0x80)
  | .int16 => (-0x8000, 0x8000)
  | .int32 => (-0x80000000, 0x80000000)
  | .int | .int64 => (-0x8000000000000000, 0x8000000000000000)
  | .uint8 => (0, 0x100)
  | .uint16 => (0, 0x10000)
  | .uint32 => (0, 0x100000000)
  | .uint | .uint64 => (0, 0x10000000000000000)

/-- Every integer within the value is one that its machine type holds. -/
def Value.representable (v : Value) : Bool := v.every fun
  | .int kind n => kind.bounds.1 ≤ n && n < kind.bounds.2
  | _ => true

theorem Value.representable_ofInt64 (n : Int64) : (Value.ofInt64 n).representable = true := by
  have lower := n.le_toInt
  have upper := n.toInt_lt
  simp only [ofInt64, representable, every, IntKind.bounds]
  exact Bool.and_eq_true_iff.mpr ⟨decide_eq_true (by omega), decide_eq_true (by omega)⟩

/-- Fewer than all integers of 64 bits leave one out. -/
theorem exists_integer_beyond {taken : List Int64} (few : taken.length < 2 ^ 64) :
    ∃ n : Int64, n ∉ taken := by
  have card : (taken.map fun n => n.toBitVec.toFin).toFinset.card <
      (Finset.univ : Finset (Fin (2 ^ 64))).card := by
    rw [Finset.card_univ, Fintype.card_fin]
    refine Nat.lt_of_le_of_lt (List.toFinset_card_le _) ?_
    rwa [List.length_map]
  obtain ⟨x, _, free⟩ := Finset.exists_mem_notMem_of_card_lt_card card
  refine ⟨.ofBitVec (.ofFin x), fun member => free ?_⟩
  exact List.mem_toFinset.mpr (List.mem_map.mpr ⟨_, member, rfl⟩)

theorem exists_text_beyond (taken : List Bytes) : ∃ s : Bytes, s ∉ taken := by
  obtain ⟨s, free⟩ := Infinite.exists_notMem_finset taken.toFinset
  exact ⟨s, fun member => free (List.mem_toFinset.mpr member)⟩

namespace KeyKind

variable (kind : KeyKind)

theorem accepts_ofInt64 (n : Int64) : kind.accepts (.ofInt64 n) = kind.integers := by
  have noText : (Value.ofInt64 n).isText = false := rfl
  simp [accepts, Value.isInteger, Value.toInteger?_ofInt64, noText]

theorem accepts_text (s : Bytes) : kind.accepts (.text s) = kind.strings := by
  simp [accepts, Value.isInteger, Value.toInteger?, Value.isText]

theorem accepts_null : kind.accepts .null = false := by
  simp [accepts, Value.isInteger, Value.toInteger?, Value.isText]

end KeyKind

namespace Ty

/-- Null, a family of keys, a literal of one, or an array key. -/
def isKeyOrNull : Ty → Bool
  | .null | .integer | .string | .integerLit _ | .stringLit .. | .arrayKey _ => true
  | _ => false

/-- The type is made of null and of types of keys, alone or in a union that has fewer
members than there are integers of 64 bits. -/
structure OfKeys (t : Ty) : Prop where
  wellFormed : t.wellFormed = true
  parts : ∀ m ∈ t.members, m.isKeyOrNull = true
  few : t.members.length < 2 ^ 64

section Part

variable {m : Ty} (key : m.isKeyOrNull = true)

include key

theorem accepts_null_iff : m.accepts .null = true ↔ m = .null := by
  cases m with
  | null => simp [accepts, Value.isNull]
  | arrayKey kind => simp [accepts, KeyKind.accepts_null]
  | integer | string | integerLit | stringLit => exact ⟨nofun, nofun⟩
  | _ => contradiction

theorem accepts_ofInt64_iff (n : Int64) :
    m.accepts (.ofInt64 n) = true ↔ m = .integerLit n ∨ m.holdsIntegers = true := by
  cases m with
  | integer => simp [accepts, Value.isInteger, Value.toInteger?_ofInt64, holdsIntegers]
  | integerLit k =>
    simp [accepts, Value.equalsInteger, Value.toInteger?_ofInt64, holdsIntegers, @eq_comm _ n]
  | arrayKey kind => simp [accepts, KeyKind.accepts_ofInt64, holdsIntegers]
  | null | string | stringLit => simp [accepts, Value.ofInt64, Value.isNull, Value.isText,
      Value.equalsText, holdsIntegers]
  | _ => contradiction

theorem accepts_text_iff (s : Bytes) : m.accepts (.text s) = true ↔
    (∃ quote, m = .stringLit s quote) ∨ m.holdsStrings = true := by
  cases m with
  | string => simp [accepts, Value.isText, holdsStrings]
  | stringLit k quote => simp [accepts, Value.equalsText, holdsStrings, @eq_comm _ s]
  | arrayKey kind => simp [accepts, KeyKind.accepts_text, holdsStrings]
  | null | integer | integerLit => simp [accepts, Value.isNull, Value.isInteger,
      Value.toInteger?, Value.equalsInteger, holdsStrings]
  | _ => contradiction

end Part

theorem accepts_iff_member (t : Ty) (v : Value) :
    t.accepts v = true ↔ ∃ m ∈ t.members, m.accepts v = true := by
  by_cases union : t.kind? = some .union
  · cases t with
    | union ms => rw [accepts, anyAccepts_iff, members]
    | _ => simp [kind?] at union
  · simp [members_single union]

/-- The integer of a literal. -/
def integerOf? : Ty → Option Int64
  | .integerLit n => some n
  | _ => none

/-- The text of a literal. -/
def textOf? : Ty → Option Bytes
  | .stringLit s _ => some s
  | _ => none

namespace OfKeys

variable {t : Ty} (keys : t.OfKeys)

include keys

theorem every {test : Ty → Bool} (part : ∀ m : Ty, m.isKeyOrNull = true → test m = true)
    (whole : ∀ ms, test (.union ms) = true) : t.every test = true := by
  have parts : ∀ m ∈ t.members, m.every test = true := by
    intro m member
    have key := keys.parts m member
    have passes := part m key
    cases m <;> first | exact passes | contradiction
  by_cases union : t.kind? = some .union
  · cases t with
    | union ms =>
      rw [Ty.every, Bool.and_eq_true, everyMember_iff]
      exact ⟨whole ms, parts⟩
    | _ => simp [kind?] at union
  · exact parts t (by simp [members_single union])

theorem regular : t.Regular := by
  refine ⟨keys.wellFormed, keys.every (fun m key => ?_) fun _ => rfl⟩
  cases m <;> first | rfl | contradiction

theorem mixedFree : t.mixedFree = true := by
  refine keys.every (fun m key => ?_) fun _ => rfl
  cases m <;> first | rfl | contradiction

/-- A value of a type of keys is one of a member that is no union. -/
theorem exists_member {v : Value} (accepted : t.accepts v = true) :
    ∃ m ∈ t.members, m.isKeyOrNull = true ∧ m.accepts v = true := by
  obtain ⟨m, member, accepted⟩ := (accepts_iff_member t v).mp accepted
  exact ⟨m, member, keys.parts m member, accepted⟩

/-- A type of keys that has every integer has them by one of its members. -/
theorem someMember_holdsIntegers (all : ∀ n : Int64, t.accepts (.ofInt64 n) = true) :
    t.someMember holdsIntegers = true := by
  have few : (t.members.filterMap integerOf?).length < 2 ^ 64 :=
    Nat.lt_of_le_of_lt (List.length_filterMap_le _ _) keys.few
  obtain ⟨n, beyond⟩ := exists_integer_beyond few
  obtain ⟨m, member, key, accepted⟩ := keys.exists_member (all n)
  refine (someMember_iff keys.regular).mpr ⟨m, member, ?_⟩
  rcases (accepts_ofInt64_iff key n).mp accepted with rfl | holds
  · exact absurd (List.mem_filterMap.mpr ⟨_, member, by rfl⟩) beyond
  · exact holds

/-- A type of keys that has every text has them by one of its members. -/
theorem someMember_holdsStrings (all : ∀ s : Bytes, t.accepts (.text s) = true) :
    t.someMember holdsStrings = true := by
  obtain ⟨s, beyond⟩ := exists_text_beyond (t.members.filterMap textOf?)
  obtain ⟨m, member, key, accepted⟩ := keys.exists_member (all s)
  refine (someMember_iff keys.regular).mpr ⟨m, member, ?_⟩
  rcases (accepts_text_iff key s).mp accepted with ⟨quote, rfl⟩ | holds
  · exact absurd (List.mem_filterMap.mpr ⟨_, member, by rfl⟩) beyond
  · exact holds

/-- A type of a key or null fits where its values are. -/
theorem fits_of_included {m : Ty} (key : m.isKeyOrNull = true)
    (included : ∀ v : Value, v.representable = true → m.accepts v = true → t.accepts v = true) :
    m.fits t = true := by
  have integers : m.holdsIntegers = true → t.someMember holdsIntegers = true := by
    intro holds
    refine keys.someMember_holdsIntegers fun n => ?_
    exact included _ (Value.representable_ofInt64 n) ((accepts_ofInt64_iff key n).mpr (.inr holds))
  have strings : m.holdsStrings = true → t.someMember holdsStrings = true := by
    intro holds
    exact keys.someMember_holdsStrings fun s =>
      included _ rfl ((accepts_text_iff key s).mpr (.inr holds))
  cases m with
  | null =>
    obtain ⟨m, member, key, accepted⟩ := keys.exists_member (included .null rfl rfl)
    obtain rfl := (accepts_null_iff key).mp accepted
    rw [fits]
    exact (someMember_iff keys.regular).mpr ⟨_, member, rfl⟩
  | integer => exact integers rfl
  | string => exact strings rfl
  | integerLit n =>
    have inside := included _ (Value.representable_ofInt64 n)
      ((accepts_ofInt64_iff rfl n).mpr (.inl rfl))
    obtain ⟨m, member, key, accepted⟩ := keys.exists_member inside
    rw [fits]
    refine (someMember_iff keys.regular).mpr ⟨m, member, ?_⟩
    rcases (accepts_ofInt64_iff key n).mp accepted with rfl | holds
    · exact beq_self_eq_true n
    · cases m <;> first | exact holds | contradiction
  | stringLit s quote =>
    have inside := included (.text s) rfl ((accepts_text_iff rfl s).mpr (.inl ⟨quote, rfl⟩))
    obtain ⟨m, member, key, accepted⟩ := keys.exists_member inside
    rw [fits]
    refine (someMember_iff keys.regular).mpr ⟨m, member, ?_⟩
    rcases (accepts_text_iff key s).mp accepted with ⟨quote, rfl⟩ | holds
    · exact beq_self_eq_true s
    · cases m <;> first | exact holds | contradiction
  | arrayKey kind =>
    -- the halves of an array key may be covered by different members
    rw [fits, Bool.and_eq_true, Bool.or_eq_true, Bool.or_eq_true, Bool.not_eq_true',
      Bool.not_eq_true']
    refine ⟨?_, ?_⟩
    · cases half : kind.integers with
      | false => exact .inl rfl
      | true => exact .inr (integers half)
    · cases half : kind.strings with
      | false => exact .inl rfl
      | true => exact .inr (strings half)
  | _ => contradiction

end OfKeys

/-- The values of a type of a key or null have plain keys, since they have no parts. -/
theorem plainKeys_of_accepts {m : Ty} (key : m.isKeyOrNull = true) {v : Value}
    (accepted : m.accepts v = true) : v.plainKeys = true := by
  cases v with
  | list | map =>
    cases m <;> first | contradiction | skip
    simp_all [accepts, KeyKind.accepts, Value.isInteger, Value.toInteger?, Value.isText]
  | _ => rfl

/-- On null and keys compatibility decides inclusion: a type fits another exactly if
every value of the one that a host can hold is a value of the other. -/
theorem fits_iff_included {s t : Ty} (sKeys : s.OfKeys) (tKeys : t.OfKeys) :
    s.fits t = true ↔
      ∀ v : Value, v.representable = true → s.accepts v = true → t.accepts v = true := by
  constructor
  · intro fits v _ accepted
    obtain ⟨m, _, key, inside⟩ := sKeys.exists_member accepted
    exact sKeys.regular.sound sKeys.mixedFree t tKeys.regular fits v
      (plainKeys_of_accepts key inside) accepted
  · intro included
    refine (fits_members s t).mpr fun m member => ?_
    refine tKeys.fits_of_included (sKeys.parts m member) fun v representable accepted => ?_
    exact included v representable (accepts_of_member member accepted)

/-- An array key whose halves belong to different members, neither of which has both. -/
theorem fits_iff_included_halves :
    let s : Ty := .arrayKey .any
    let t : Ty := .union [.integer, .stringLit "a" .single, .arrayKey .string]
    (s.OfKeys ∧ t.OfKeys ∧
      ∀ v : Value, v.representable = true → s.accepts v = true → t.accepts v = true) ∧
      s.fits t = true := by
  intro s t
  have sKeys : s.OfKeys := ⟨rfl, by simp [s, members, isKeyOrNull], by simp [s, members]⟩
  have tKeys : t.OfKeys := ⟨rfl, by simp [t, members, isKeyOrNull], by simp [t, members]⟩
  have included : ∀ v : Value, v.representable = true → s.accepts v = true →
      t.accepts v = true := by
    intro v _ accepted
    rcases Bool.or_eq_true_iff.mp accepted with integer | text
    · exact accepts_of_member (t := t) (m := .integer) (by simp [t, members]) integer
    · refine accepts_of_member (t := t) (m := .arrayKey .string) (by simp [t, members]) ?_
      simpa [accepts, KeyKind.accepts, KeyKind.integers, KeyKind.strings] using text
  exact ⟨⟨sKeys, tKeys, included⟩, (fits_iff_included sKeys tKeys).mpr included⟩

end Ty

end Conform
