import Conform.Proofs.Declaration.Names
import Conform.Proofs.Declaration.Pieces
import Conform.Proofs.Ty.Fits
import Conform.Proofs.Value.Order

/-! Arrays with declared keys and values. The declarations of the two stand between
brackets as they would stand alone, so the array is made of what they denote. The type of
the keys is turned into a kind of keys, which accepts the same values: a union is taken for
both kinds only if it fits them and they fit it, and these tests are exact there. -/
namespace Conform

namespace Ty

/-- A type accepts what is accepted by all types that pass the test, if some member does. -/
theorem accepts_of_someMember {t : Ty} {test : Ty → Bool} {v : Value}
    (holds : ∀ m : Ty, test m = true → m.accepts v = true) (passes : t.someMember test = true) :
    t.accepts v = true := by
  induction t using Ty.induct with
  | union members ih =>
    rw [someMember, someOf_iff] at passes
    obtain ⟨m, member, passes⟩ := passes
    rw [accepts]
    exact (anyAccepts_iff members v).mpr ⟨m, member, ih m member passes⟩
  | _ => exact holds _ passes

/-- What fits the keys of both kinds, unions and mixed aside, accepts integers and strings
only. -/
theorem isKey_of_fits {t : Ty} (fits : t.fits (.arrayKey .any) = true) (plain : t.isMixed = false)
    (single : t.kind? ≠ some .union) {v : Value} (accepted : t.accepts v = true) :
    v.isInteger = true ∨ v.isText = true := by
  cases t with
  | mixed => contradiction
  | union members => exact absurd rfl single
  | integer =>
    rw [accepts] at accepted
    exact Or.inl accepted
  | string =>
    rw [accepts] at accepted
    exact Or.inr accepted
  | integerLit value =>
    rw [accepts] at accepted
    exact Or.inl (isInteger_of_equals accepted)
  | stringLit value quote =>
    rw [accepts] at accepted
    exact Or.inr (isText_of_equals accepted)
  | arrayKey kind =>
    rw [accepts, KeyKind.accepts] at accepted
    simp only [Bool.or_eq_true, Bool.and_eq_true] at accepted
    exact accepted.imp And.right And.right
  | _ => rw [Ty.fits] at fits; contradiction

end Ty

theorem KeyKind.any_accepts_iff (v : Value) :
    KeyKind.any.accepts v = true ↔ v.isInteger = true ∨ v.isText = true := by
  simp [KeyKind.accepts, KeyKind.integers, KeyKind.strings]

namespace Declaration

/-- The kind of keys that a type declares accepts what the type accepts. -/
theorem keyKind?_accepts {t : Ty} (wellFormed : t.wellFormed = true) {kind : KeyKind}
    (valid : keyKind? t = .ok kind) (v : Value) : kind.accepts v = true ↔ t.accepts v = true := by
  cases t with
  | arrayKey kind' =>
    obtain rfl := Except.ok.inj valid
    rw [Ty.accepts]
  | integer =>
    obtain rfl := Except.ok.inj valid
    simp [KeyKind.accepts, KeyKind.integers, KeyKind.strings, Ty.accepts]
  | string =>
    obtain rfl := Except.ok.inj valid
    simp [KeyKind.accepts, KeyKind.integers, KeyKind.strings, Ty.accepts]
  | union members =>
    rw [keyKind?] at valid
    split at valid
    · rename_i both
      obtain rfl := Except.ok.inj valid
      obtain ⟨keysFit, membersFit⟩ := Bool.and_eq_true_iff.mp both
      rw [KeyKind.any_accepts_iff]
      constructor
      · rw [Ty.fits] at keysFit
        obtain ⟨integers, strings⟩ := Bool.and_eq_true_iff.mp keysFit
        rintro (integer | text)
        · exact Ty.accepts_of_someMember (fun m holds => Ty.accepts_of_holdsIntegers holds integer)
            integers
        · exact Ty.accepts_of_someMember (fun m holds => Ty.accepts_of_holdsStrings holds text)
            strings
      · intro accepted
        rw [Ty.accepts, Ty.anyAccepts_iff] at accepted
        rw [Ty.fits, Ty.allFit_iff] at membersFit
        obtain ⟨m, member, accepted⟩ := accepted
        obtain ⟨-, plain, -⟩ := (Ty.wellFormed_union_iff members).mp wellFormed
        exact Ty.isKey_of_fits (membersFit m member) (plain m member).1 (plain m member).2 accepted
    · contradiction
  | _ => contradiction

/-- An array accepts the lists and the maps with distinct key texts, in whatever order the
elements of these are listed, whose keys and values it accepts. -/
theorem acceptsArray_iff_elements (key value : Value → Bool) (v : Value) :
    acceptsArray key value v = true ↔ ∃ elements, v.elements? = some elements ∧
      (keyTexts elements).Nodup ∧ ∀ e ∈ elements, key e.key = true ∧ value e.value = true := by
  rw [Ty.acceptsArray_iff]
  constructor
  · rintro ⟨entries, contents, each⟩
    obtain ⟨elements, listed, same⟩ := Value.exists_elements contents
    refine ⟨elements, listed, ?_, fun e member => each e (same.mem_iff.mpr member)⟩
    exact (same.map _).nodup_iff.mp (Value.keyTexts_nodup contents)
  · rintro ⟨elements, listed, distinct, each⟩
    obtain ⟨entries, contents, same⟩ := Value.exists_entries listed distinct
    exact ⟨entries, contents, fun e member => each e (same.mem_iff.mp member)⟩

/-- The declaration of an array with declared keys and values. -/
def keyedText (key value : Bytes) : Bytes :=
  utf8 "array<" ++ key ++ utf8 ", " ++ value ++ utf8 ">"

/-- The derivation of the whole from those of its parts. -/
theorem derives_keyedText {key value : Bytes} {keyTree valueTree : UnionTree}
    (first : Spells key keyTree.yield) (second : Spells value valueTree.yield) :
    Derives (keyedText key value) (AtomTree.array arrayWord (.keyed keyTree valueTree)).whole := by
  have rest : Spells (0x2C :: 0x20 :: value) (.mark .comma :: valueTree.yield) :=
    .mark rfl second.space
  have inside := first.append rest (.cons _ rfl)
  have spells := spells_arrayWord.append inside.bracketed (.cons _ rfl)
  have text : keyedText key value =
      utf8 "array" ++ Ty.bracketed (key ++ 0x2C :: 0x20 :: value) := by
    simp only [keyedText, Ty.bracketed, List.append_assoc]
    rfl
  rw [derives_iff_spells, AtomTree.whole_yield, text]
  simpa [AtomTree.yield, ArgumentsTree.yield] using spells

/-- The parts of a declared array denote what they denote alone. -/
theorem parse_keyedText {aliases : Aliases}
    (known : ∀ name t, aliases.find? name = some t → t ≠ .union []) {key value : Bytes} {k w t : Ty}
    (readKey : parse aliases key = .ok k) (readValue : parse aliases value = .ok w) :
    parse aliases (keyedText key value) = .ok t ↔
      ∃ kind, keyKind? k = .ok kind ∧ .array kind w = t := by
  obtain ⟨keyTree, denotesKey, first⟩ := (parse_eq_ok_iff_spelled known).mp readKey
  obtain ⟨valueTree, denotesValue, second⟩ := (parse_eq_ok_iff_spelled known).mp readValue
  rw [(derives_keyedText first second).parse_eq_ok_iff known, AtomTree.whole_type?, AtomTree.type?,
    ArgumentsTree.type?_keyed_eq_some]
  simp [denotesKey, denotesValue]

/-- An array with declared keys and values accepts the lists and the maps with distinct key
texts whose keys are accepted by what the one declaration denotes and whose values are
accepted by what the other denotes. -/
theorem keyed_array_accepts {aliases : Aliases} (names : ∀ a ∈ aliases, a.2.wellFormed = true)
    {key value : Bytes} {k w t : Ty} (readKey : parse aliases key = .ok k)
    (readValue : parse aliases value = .ok w) (read : parse aliases (keyedText key value) = .ok t)
    (v : Value) : t.accepts v = true ↔ ∃ elements, v.elements? = some elements ∧
      (keyTexts elements).Nodup ∧
        ∀ e ∈ elements, k.accepts e.key = true ∧ w.accepts e.value = true := by
  have wellFormed := parse_inherited wellFormed_inherited names readKey
  obtain ⟨kind, valid, rfl⟩ :=
    (parse_keyedText (Aliases.ne_empty names) readKey readValue).mp read
  rw [Ty.accepts, acceptsArray_iff_elements]
  simp only [keyKind?_accepts wellFormed valid]

/-- A literal beside a name for both kinds of keys. -/
theorem keyed_array_accepts_alias :
    let aliases : Aliases := [(utf8 "id", .union [.integer, .string])]
    let key := utf8 "5|id"
    let k : Ty := .union [.integerLit 5, .integer, .string]
    let v : Value := .map .general [(.text "a", .bool true), (.int .int64 7, .bool false)]
    (∀ a ∈ aliases, a.2.wellFormed = true) ∧ parse aliases key = .ok k ∧
      parse aliases (utf8 "bool") = .ok .bool ∧
      parse aliases (keyedText key (utf8 "bool")) = .ok (.array .any .bool) ∧
      ((Ty.array .any .bool).accepts v = true ↔ ∃ elements, v.elements? = some elements ∧
        (keyTexts elements).Nodup ∧
          ∀ e ∈ elements, k.accepts e.key = true ∧ Ty.bool.accepts e.value = true) := by
  intro aliases key k v
  have names : ∀ a ∈ aliases, a.2.wellFormed = true := List.forall_mem_singleton.mpr rfl
  have known := Aliases.ne_empty names
  have denotes : nameType? aliases (utf8 "id") = some (.union [.integer, .string]) := by
    have unknown : keyword? (utf8 "id") = none := Option.isNone_iff_eq_none.mp (by decide +kernel)
    rw [nameType?, unknown]
    rfl
  have readKey : parse aliases key = .ok k := by
    let name : AtomTree := .name ⟨utf8 "id", by decide +kernel⟩
    let five : AtomTree := .integer (utf8 "5")
    have derives : Derives key (.mk five.alone [name.alone]) := ⟨_, rfl, rfl⟩
    have number : readInt64 (utf8 "5") = .ok 5 := by decide +kernel
    refine (derives.parse_eq_ok_iff known).mpr ?_
    simp [UnionTree.type?, AtomTree.alone_type?, memberTypes?, AtomTree.type?, name, five, denotes,
      number, Except.toOption, joined?, Ty.isMixed, alternatives, k]
  have readValue : parse aliases (utf8 "bool") = .ok .bool := by
    have word : Ty.bool ∈ wordTypes := by simp [wordTypes]
    obtain ⟨atom, denotes, spells⟩ := writes_word word
    have extended : aliases.Extends [] := by
      intro name t found
      cases found
    exact (parse_eq_ok_iff_spelled known).mpr
      (AtomTree.spelled (atom.type?_mono extended denotes) spells)
  have read := (parse_keyedText known readKey readValue).mpr ⟨.any, rfl, rfl⟩
  exact ⟨names, readKey, readValue, read, keyed_array_accepts names readKey readValue read v⟩

end Declaration

end Conform
