import Conform.Proofs.Declaration.Completeness
import Conform.Proofs.Ty.Words

/-! Types read back from their written form. The written form of a type is
scanned to the yield of a tree that denotes the type, so it is a declaration of
that type by the exactness of reading. -/
namespace Conform

/-- A shape key that keeps its text: an integer in range is written without a plus
and is no negative zero. -/
def keepsText (key : Bytes) : Bool :=
  (integerLiteral? key).isNone || key.head? != some (octet '+') && key != utf8 "-0"

/-- The text of a key that was written and is read again: an integer in range is read as
its number. -/
def keyRead (key : Bytes) : Bytes :=
  match integerLiteral? key with
  | some n => decimalInt n.toInt
  | none => key

/-- The field as it is read from its written form. -/
def Field.readBack (f : Field Ty) : Field Ty := ⟨keyRead f.key, f.optional, f.type⟩

namespace Ty

/-- One type, its parts aside, can be read back: a string literal has quotes, a
float literal is finite, an array key admits both kinds, keys keep their text. -/
def readableAlone : Ty → Bool
  | .stringLit _ quote => quote != .none
  | .floatLit (.finite ..) => true
  | .floatLit _ => false
  | .arrayKey kind => kind == .any
  | .shape fields => fields.all fun f => keepsText f.key
  | _ => true

/-- Every part can be read back. -/
def readable (t : Ty) : Bool := t.every readableAlone

end Ty

namespace Declaration

/-- The text gives the symbols at the front of any text that goes on with
punctuation. -/
def Spells (text : Bytes) (front : List Symbol) : Prop :=
  ∀ rest w, Delimited rest → Scans rest w → Scans (text ++ rest) (front ++ w)

theorem Delimited.append {text rest : Bytes} (first : Delimited text) (second : Delimited rest) :
    Delimited (text ++ rest) := by
  cases text with
  | nil => exact second
  | cons b tail => exact .cons _ first.head

/-- Pieces that each follow the same punctuation. -/
theorem delimited_flatMap {α : Type} {b : UInt8} (punctuation : (TokenKind.ofOctet? b).isSome = true)
    (separator : Bytes) (form : α → Bytes) (xs : List α) :
    Delimited (xs.flatMap fun x => b :: separator ++ form x) := by
  cases xs with
  | nil => exact .nil _
  | cons x rest => exact .cons _ punctuation

namespace Spells

variable {text more : Bytes} {front others : List Symbol}

theorem nil : Spells [] [] := by
  intro rest w _ scans
  exact scans

theorem append (first : Spells text front) (second : Spells more others) (border : Delimited more) :
    Spells (text ++ more) (front ++ others) := by
  intro rest w stop scans
  rw [List.append_assoc, List.append_assoc]
  exact first _ _ (border.append stop) (second rest w stop scans)

theorem mark {b : UInt8} {kind : TokenKind} (found : TokenKind.ofOctet? b = some kind)
    (spells : Spells text front) : Spells (b :: text) (.mark kind :: front) := by
  intro rest w stop scans
  exact (spells rest w stop scans).mark found

theorem space (spells : Spells text front) : Spells (0x20 :: text) front := by
  intro rest w stop scans
  exact (spells rest w stop scans).space rfl

theorem name {name : Bytes} (first : startsWith isLetter name = true)
    (whole : splitName name = (name, [])) : Spells name [.name name] := by
  intro rest w stop scans
  exact scans.name first whole stop

theorem numeral (n : Numeral) : Spells n.text [n.symbol] := by
  intro rest w stop scans
  exact scans.numeral n stop

theorem quoted {quote : UInt8} (isQuote : quote = 0x27 ∨ quote = 0x22) (content : Bytes) :
    Spells (quoteWith quote content)
      [.string content (if quote = 0x22 then .double else .single)] := by
  intro rest w stop scans
  exact scans.quoted isQuote content

end Spells

/-- The text is scanned to a union that denotes the type. -/
def Spelled (aliases : Aliases) (text : Bytes) (t : Ty) : Prop :=
  ∃ tree : UnionTree, tree.type? aliases = some t ∧ Spells text tree.yield

/-- The written form of the type is scanned to an atom that denotes it. -/
def WritesAtom (t : Ty) : Prop :=
  ∃ atom : AtomTree, atom.type? [] = some t ∧ Spells t.text atom.yield

/-- The written form of the type is scanned to a union that denotes it. -/
def Writes (t : Ty) : Prop :=
  ∃ tree : UnionTree, tree.type? [] = some t ∧ Spells t.text tree.yield

/-- An atom without question mark and brackets. -/
def AtomTree.alone (atom : AtomTree) : NullableTree := .mk false (.mk atom 0)

theorem AtomTree.alone_yield (atom : AtomTree) : atom.alone.yield = atom.yield := by
  simp [alone, NullableTree.yield, SuffixedTree.yield, optionalMark, pairsYield]

theorem AtomTree.alone_type? (aliases : Aliases) (atom : AtomTree) :
    atom.alone.type? aliases = atom.type? aliases := by
  cases found : atom.type? aliases <;>
    simp [alone, NullableTree.type?, SuffixedTree.type?, found, arrayed]

/-- A union of one atom. -/
def AtomTree.whole (atom : AtomTree) : UnionTree := .mk atom.alone []

theorem AtomTree.whole_yield (atom : AtomTree) : atom.whole.yield = atom.yield := by
  rw [whole, UnionTree.yield, membersYield, List.append_nil, alone_yield]

theorem AtomTree.whole_type? (aliases : Aliases) (atom : AtomTree) :
    atom.whole.type? aliases = atom.type? aliases := by
  rw [whole, UnionTree.type?_single, alone_type?]

theorem AtomTree.spelled {aliases : Aliases} {atom : AtomTree} {text : Bytes} {t : Ty}
    (denotes : atom.type? aliases = some t) (spells : Spells text atom.yield) :
    Spelled aliases text t :=
  ⟨atom.whole, (atom.whole_type? aliases).trans denotes, atom.whole_yield ▸ spells⟩

theorem WritesAtom.writes {t : Ty} (written : WritesAtom t) : Writes t := by
  obtain ⟨atom, denotes, spells⟩ := written
  exact AtomTree.spelled denotes spells

/-! ### Words and literals -/

theorem keyword?_text {t : Ty} (member : t ∈ wordTypes) : keyword? t.text = some (.type t) := by
  have lower : ∀ t ∈ wordTypes, Utf8.lower t.text = t.text := by decide +kernel
  rw [keyword?, lower t member]
  simp only [wordTypes, List.mem_cons, List.not_mem_nil, or_false] at member
  rcases member with rfl | rfl | rfl | rfl | rfl | rfl | rfl | rfl | rfl <;> rfl

theorem writes_word {t : Ty} (member : t ∈ wordTypes) : WritesAtom t := by
  have names : ∀ t ∈ wordTypes,
      startsWith isLetter t.text = true ∧ splitName t.text = (t.text, []) := by decide +kernel
  obtain ⟨first, whole⟩ := names t member
  have found := keyword?_text member
  have plain := plain_of_keyword (by rw [found]; exact nofun) (by rw [found]; exact nofun)
  refine ⟨.name ⟨t.text, plain⟩, ?_, .name first whole⟩
  simp [AtomTree.type?, nameType?, found]

theorem writes_integer (value : Int64) : WritesAtom (.integerLit value) := by
  obtain ⟨n, same, kind⟩ := numeral_of_integerForm (isIntegerForm_decimalInt value.toInt)
  refine ⟨.integer (decimalInt value.toInt), ?_, ?_⟩
  · rw [AtomTree.type?, readInt64_decimalInt (inInt64_toInt value), Int64.ofInt_toInt]
    rfl
  · have spells := Spells.numeral n
    rw [Numeral.symbol, if_pos kind, same] at spells
    exact spells

theorem writes_float (negative : Bool) (rank : Fin Format.double.ranks) :
    WritesAtom (.floatLit (.finite negative rank)) := by
  obtain ⟨n, same, kind⟩ := numeral_of_finite negative rank
  refine ⟨.float (Binary.literalText (.finite negative rank)), ?_, ?_⟩
  · rw [AtomTree.type?, Binary.read_literalText]
    rfl
  · have spells := Spells.numeral n
    rw [Numeral.symbol, kind, if_neg (by decide), same] at spells
    exact spells

theorem writes_string (value : Bytes) {quote : Quote} (quoted : quote ≠ .none) :
    WritesAtom (.stringLit value quote) := by
  refine ⟨.string value quote, rfl, ?_⟩
  cases quote with
  | none => exact absurd rfl quoted
  | single => exact Spells.quoted (Or.inl rfl) value
  | double => exact Spells.quoted (Or.inr rfl) value

/-! ### Arrays and lists -/

def arrayWord : Spelling "array" := ⟨utf8 "array", by decide +kernel⟩

def listWord : Spelling "list" := ⟨utf8 "list", by decide +kernel⟩

theorem spells_arrayWord : Spells (utf8 "array") [.name arrayWord.val] := .name rfl rfl

theorem spells_listWord : Spells (utf8 "list") [.name listWord.val] := .name rfl rfl

/-- A type between angle brackets. -/
theorem Spells.bracketed {text : Bytes} {front : List Symbol} (spells : Spells text front) :
    Spells (Ty.bracketed text) (.mark .lss :: (front ++ [.mark .gtr])) :=
  .mark rfl (spells.append (.mark rfl .nil) (.cons _ rfl))

theorem eq_mixed {t : Ty} (mixed : t.isMixed = true) : t = .mixed := by
  cases t <;> simp_all [Ty.isMixed]

theorem writes_array {value : Ty} (written : Writes value) : WritesAtom (.array .any value) := by
  obtain ⟨tree, denotes, spells⟩ := written
  by_cases mixed : value.isMixed = true
  · obtain rfl := eq_mixed mixed
    exact ⟨.array arrayWord .none, rfl, spells_arrayWord⟩
  · have text : (Ty.array .any value).text = utf8 "array" ++ Ty.bracketed value.text := by
      simp only [Ty.text, Ty.render, Ty.renderArray, mixed]
      rfl
    refine ⟨.array arrayWord (.value tree), ?_, ?_⟩
    · simp [AtomTree.type?, ArgumentsTree.type?, denotes]
    · rw [text]
      exact spells_arrayWord.append spells.bracketed (.cons _ rfl)

theorem writes_keyedArray {key : KeyKind} {keyType value : Ty} (written : Writes value)
    (writtenKey : Writes keyType) (valid : keyKind? keyType = .ok key)
    (word : keyType.text = key.word) (narrow : key ≠ .any) : WritesAtom (.array key value) := by
  obtain ⟨tree, denotes, spells⟩ := written
  obtain ⟨keyTree, denotesKey, spellsKey⟩ := writtenKey
  have text : (Ty.array key value).text =
      utf8 "array" ++ Ty.bracketed (keyType.text ++ 0x2C :: 0x20 :: value.text) := by
    cases key with
    | any => exact absurd rfl narrow
    | integer => simp [Ty.text, Ty.render, Ty.renderArray, Ty.bracketed, ← word]; rfl
    | string => simp [Ty.text, Ty.render, Ty.renderArray, Ty.bracketed, ← word]; rfl
  refine ⟨.array arrayWord (.keyed keyTree tree), ?_, ?_⟩
  · simp [AtomTree.type?, ArgumentsTree.type?, denotes, denotesKey, valid, Except.toOption]
  · have second : Spells (0x2C :: 0x20 :: value.text) (.mark .comma :: tree.yield) :=
      .mark rfl spells.space
    have inside := spellsKey.append second (.cons _ rfl)
    have whole := spells_arrayWord.append inside.bracketed (.cons _ rfl)
    rw [text]
    simpa [AtomTree.yield, ArgumentsTree.yield] using whole

theorem writes_list {value : Ty} (written : Writes value) : WritesAtom (.list value) := by
  obtain ⟨tree, denotes, spells⟩ := written
  by_cases mixed : value.isMixed = true
  · obtain rfl := eq_mixed mixed
    exact ⟨.list listWord, rfl, spells_listWord⟩
  · have text : (Ty.list value).text = utf8 "list" ++ Ty.bracketed value.text := by
      simp only [Ty.text, Ty.render, mixed]
      rfl
    refine ⟨.listOf listWord tree, ?_, ?_⟩
    · simp [AtomTree.type?, denotes]
    · rw [text]
      exact spells_listWord.append spells.bracketed (.cons _ rfl)

/-! ### Shapes -/

theorem keyRead_of_keepsText {key : Bytes} (keeps : keepsText key = true) : keyRead key = key := by
  rw [keyRead]
  split
  · rename_i n literal
    simp only [keepsText, literal, Option.isNone_some, Bool.false_or, Bool.and_eq_true,
      bne_iff_ne] at keeps
    exact decimalInt_of_integerLiteral? literal keeps.1 keeps.2
  · rfl

theorem KeySymbol.text_integer {key : Bytes} (form : isIntegerForm key = true) :
    (KeySymbol.integer key).text = keyRead key := by
  rw [KeySymbol.text, keyRead, integerLiteral?, if_pos form]
  cases readInt64 key <;> rfl

theorem keyRead_of_not_integer {key : Bytes} (other : isIntegerForm key = false) :
    keyRead key = key := by
  rw [keyRead, integerLiteral?, other]
  rfl

theorem splitName_word {word : Bytes} (all : word.all (fun b => startsWord b || isDigit b) = true) :
    splitName word = (word, []) :=
  splitName_all fun b member =>
    octet_cases (P := fun b => (startsWord b || isDigit b) = true → continuesName b = true)
      (by decide) b (List.all_eq_true.mp all b member)

/-- A key is written as a key token. -/
theorem spells_key (key : Bytes) :
    ∃ written : KeySymbol, written.text = keyRead key ∧
      Spells (if isBareKey key then key else quoteWith 0x27 key) [written.symbol] := by
  cases form : isIntegerForm key with
  | true =>
    obtain ⟨n, same, kind⟩ := numeral_of_integerForm form
    refine ⟨.integer key, KeySymbol.text_integer form, ?_⟩
    have spells := Spells.numeral n
    rw [Numeral.symbol, if_pos kind, same] at spells
    rw [isBareKey.eq_def, form]
    exact spells
  | false =>
    have same := (keyRead_of_not_integer form).symm
    split
    · rename_i bare
      cases key with
      | nil => contradiction
      | cons b rest =>
        simp only [isBareKey, form, Bool.false_or, Bool.and_eq_true] at bare
        have letter : isLetter b = true :=
          octet_cases (P := fun b => startsWord b = true → isLetter b = true)
            (by decide) b bare.1
        refine ⟨.name (b :: rest), same, .name letter (splitName_word ?_)⟩
        rw [List.all_cons, bare.1, bare.2]
        rfl
    · exact ⟨.string key .single, same, .quoted (Or.inl rfl) key⟩

section Fields

variable {aliases : Aliases}

/-- A field is written as an element with its key. -/
theorem spells_field {f : Field Ty} (written : Spelled aliases f.type.text f.type) :
    ∃ element : ElementTree, (∀ index rest fields, fields? aliases index rest = some fields →
        fields? aliases index (element :: rest) = some (f.readBack :: fields)) ∧
      Spells (Ty.renderField f.key f.optional f.type.text) element.yield := by
  obtain ⟨key, text, spellsKey⟩ := spells_key f.key
  obtain ⟨tree, denotes, spells⟩ := written
  refine ⟨.mk (some ⟨key, f.optional⟩) tree, ?_, ?_⟩
  · intro index rest fields others
    simp [fields?, ElementTree.type?, denotes, ElementTree.key, nextIndex, others, fieldText, text,
      fieldOptional, Field.readBack]
  · have colon : Spells (utf8 ": " ++ f.type.text) (.mark .colon :: tree.yield) :=
      .mark rfl spells.space
    have flag : Spells ((if f.optional then [0x3F] else []) ++ (utf8 ": " ++ f.type.text))
        (optionalMark f.optional .question ++ .mark .colon :: tree.yield) := by
      cases f.optional
      · exact colon
      · exact .mark rfl colon
    have border : Delimited ((if f.optional then [0x3F] else []) ++ (utf8 ": " ++ f.type.text)) := by
      cases f.optional <;> exact .cons _ rfl
    have whole := spellsKey.append flag border
    simpa [Ty.renderField, ElementTree.yield, keyYield, ElementKey.yield] using whole

/-- Further fields, each after a comma. -/
theorem spells_fields {fields : List (Field Ty)}
    (each : ∀ f ∈ fields, Spelled aliases f.type.text f.type) :
    ∃ elements : List ElementTree,
      (∀ index, fields? aliases index elements = some (fields.map Field.readBack)) ∧
      Spells (fields.flatMap fun f => utf8 ", " ++ Ty.renderField f.key f.optional f.type.text)
        (elementsYield elements) := by
  induction fields with
  | nil => exact ⟨[], fun _ => rfl, .nil⟩
  | cons f rest ih =>
    obtain ⟨head, others⟩ := List.forall_mem_cons.mp each
    obtain ⟨elements, denoted, spellsRest⟩ := ih others
    obtain ⟨element, denotes, spells⟩ := spells_field head
    refine ⟨element :: elements, fun index => denotes index elements _ (denoted index), ?_⟩
    have border := delimited_flatMap (b := 0x2C) rfl [0x20]
      (fun f : Field Ty => Ty.renderField f.key f.optional f.type.text) rest
    rw [List.flatMap_cons, List.append_assoc, elementsYield]
    exact .mark rfl (spells.append spellsRest border).space

/-- A shape is written as an atom that denotes it, but for the texts of its keys. -/
theorem spells_shape {fields : List (Field Ty)}
    (distinct : ((fields.map Field.readBack).map (·.key)).Nodup)
    (each : ∀ f ∈ fields, Spelled aliases f.type.text f.type) :
    ∃ atom : AtomTree, atom.type? aliases = some (.shape (fields.map Field.readBack)) ∧
      Spells (Ty.shape fields).text atom.yield := by
  cases fields with
  | nil =>
    have braces : Spells [0x7B, 0x7D] [.mark .lbrace, .mark .rbrace] := .mark rfl (.mark rfl .nil)
    exact ⟨.array arrayWord .emptyShape, rfl, spells_arrayWord.append braces (.cons _ rfl)⟩
  | cons f rest =>
    obtain ⟨head, others⟩ := List.forall_mem_cons.mp each
    obtain ⟨elements, denoted, spellsRest⟩ := spells_fields others
    obtain ⟨element, denotes, spells⟩ := spells_field head
    refine ⟨.array arrayWord (.shape element elements false), ?_, ?_⟩
    · rw [AtomTree.type?, ArgumentsTree.type?_shape, denotes 0 elements _ (denoted 0)]
      exact if_pos distinct
    · have closing : Spells [0x7D] [.mark .rbrace] := .mark rfl .nil
      have border := delimited_flatMap (b := 0x2C) rfl [0x20]
        (fun f : Field Ty => Ty.renderField f.key f.optional f.type.text) rest
      have last := spellsRest.append closing (.cons _ rfl)
      have body := spells.append last (border.append (.cons _ rfl))
      have text : (Ty.shape (f :: rest)).text = utf8 "array" ++ 0x7B ::
          (Ty.renderField f.key f.optional f.type.text ++
            ((rest.flatMap fun f => utf8 ", " ++ Ty.renderField f.key f.optional f.type.text) ++
              [0x7D])) := by
        rw [Ty.text, Ty.render, Ty.renderFields_eq, List.map_cons, Bytes.join_cons,
          List.flatMap_map]
        simp only [List.append_assoc]
        rfl
      rw [text, AtomTree.yield, ArgumentsTree.yield, List.append_assoc, List.append_assoc]
      exact spells_arrayWord.append (.mark rfl body) (.cons _ rfl)

end Fields

theorem writes_shape {fields : List (Field Ty)} (distinct : (fields.map (·.key)).Nodup)
    (each : ∀ f ∈ fields, keepsText f.key = true ∧ Writes f.type) : WritesAtom (.shape fields) := by
  have same : fields.map Field.readBack = fields := by
    have kept : ∀ f ∈ fields, f.readBack = f := by
      intro f member
      rw [Field.readBack, keyRead_of_keepsText (each f member).1]
    exact (List.map_congr_left kept).trans (List.map_id fields)
  have written := spells_shape (same.symm ▸ distinct) fun f member => (each f member).2
  rw [same] at written
  exact written

/-! ### Unions -/

/-- Further members, each after a bar. -/
theorem spells_members {members : List Ty} (each : ∀ m ∈ members, WritesAtom m) :
    ∃ trees : List NullableTree, memberTypes? [] trees = some members ∧
      Spells (members.flatMap fun m => utf8 "|" ++ m.text) (membersYield trees) := by
  induction members with
  | nil => exact ⟨[], rfl, .nil⟩
  | cons m rest ih =>
    obtain ⟨⟨atom, denotes, spells⟩, others⟩ := List.forall_mem_cons.mp each
    obtain ⟨trees, denoted, spellsRest⟩ := ih others
    refine ⟨atom.alone :: trees, ?_, ?_⟩
    · simp only [memberTypes?, AtomTree.alone_type?, denotes, denoted]
    · have border := delimited_flatMap (b := 0x7C) rfl [] Ty.text rest
      rw [List.flatMap_cons, List.append_assoc, membersYield, AtomTree.alone_yield]
      exact .mark rfl (spells.append spellsRest border)

/-- Types that are neither mixed nor unions are the members of their union. -/
theorem joined?_plain {types : List Ty}
    (plain : ∀ m ∈ types, m.isMixed = false ∧ m.kind? ≠ some .union) :
    joined? types = some (.union types) := by
  have flat : types.flatMap alternatives = types := by
    induction types with
    | nil => rfl
    | cons m rest ih =>
      obtain ⟨⟨_, single⟩, others⟩ := List.forall_mem_cons.mp plain
      have alone : alternatives m = [m] := by
        cases m with
        | union members => exact absurd rfl single
        | _ => rfl
      rw [List.flatMap_cons, ih others, alone, List.singleton_append]
  have unmixed : types.any Ty.isMixed = false :=
    List.any_eq_false.mpr fun m member => by simp [(plain m member).1]
  rw [joined?, unmixed, flat]
  rfl

theorem writes_union {first second : Ty} {rest : List Ty}
    (each : ∀ m ∈ first :: second :: rest, WritesAtom m)
    (plain : ∀ m ∈ first :: second :: rest, m.isMixed = false ∧ m.kind? ≠ some .union) :
    Writes (.union (first :: second :: rest)) := by
  obtain ⟨⟨atom, denotes, spells⟩, others⟩ := List.forall_mem_cons.mp each
  obtain ⟨trees, denoted, spellsRest⟩ := spells_members others
  refine ⟨.mk atom.alone trees, ?_, ?_⟩
  · rw [UnionTree.type?, AtomTree.alone_type?, denotes, denoted]
    exact joined?_plain plain
  · have border := delimited_flatMap (b := 0x7C) rfl [] Ty.text (second :: rest)
    have text : (Ty.union (first :: second :: rest)).text =
        first.text ++ (second :: rest).flatMap fun m => utf8 "|" ++ m.text := by
      rw [Ty.text, Ty.render, Ty.renderAll_eq, List.map_cons, Bytes.join_cons, List.flatMap_map]
      rfl
    rw [text, UnionTree.yield, AtomTree.alone_yield]
    exact spells.append spellsRest border

/-! ### All types -/

/-- Unions aside, a type is written as an atom. -/
theorem WritesAtom.both {t : Ty} (written : WritesAtom t) :
    Writes t ∧ (t.kind? ≠ some .union → WritesAtom t) :=
  ⟨written.writes, fun _ => written⟩

theorem writes {t : Ty} (regular : t.Regular) (readable : t.readable = true) :
    Writes t ∧ (t.kind? ≠ some .union → WritesAtom t) := by
  have alone := Ty.every_self readable
  induction t using Ty.induct with
  | mixed => exact (writes_word (by simp [wordTypes])).both
  | null => exact (writes_word (by simp [wordTypes])).both
  | bool => exact (writes_word (by simp [wordTypes])).both
  | integer => exact (writes_word (by simp [wordTypes])).both
  | float => exact (writes_word (by simp [wordTypes])).both
  | string => exact (writes_word (by simp [wordTypes])).both
  | boolLit value => cases value <;> exact (writes_word (by simp [wordTypes])).both
  | integerLit value => exact (writes_integer value).both
  | floatLit value =>
    cases value with
    | finite negative rank => exact (writes_float negative rank).both
    | infinite negative => contradiction
    | nan => contradiction
  | stringLit value quote => exact (writes_string value (bne_iff_ne.mp alone)).both
  | arrayKey kind =>
    obtain rfl : kind = .any := eq_of_beq alone
    exact (writes_word (by simp [wordTypes])).both
  | union members ih =>
    refine ⟨?_, fun single => absurd rfl single⟩
    have each : ∀ m ∈ members, WritesAtom m := by
      intro m member
      obtain ⟨part, _, single⟩ := regular.member member
      have passes := Ty.every_member readable member
      exact (ih m member part passes (Ty.every_self passes)).2 single
    have plain : ∀ m ∈ members, m.isMixed = false ∧ m.kind? ≠ some .union := by
      intro m member
      exact (regular.member member).2
    have many := regular.members_length
    rcases members with _ | ⟨first, _ | ⟨second, rest⟩⟩
    · contradiction
    · contradiction
    · exact writes_union each plain
  | array key value ih =>
    have passes := Ty.every_arrayValue readable
    have written := (ih regular.arrayValue passes (Ty.every_self passes)).1
    cases key with
    | any => exact (writes_array written).both
    | integer =>
      have key := (writes_word (t := .integer) (by simp [wordTypes])).writes
      exact (writes_keyedArray written key rfl rfl (by decide)).both
    | string =>
      have key := (writes_word (t := .string) (by simp [wordTypes])).writes
      exact (writes_keyedArray written key rfl rfl (by decide)).both
  | list value ih =>
    have passes := Ty.every_listValue readable
    exact (writes_list (ih regular.listValue passes (Ty.every_self passes)).1).both
  | shape fields ih =>
    refine (writes_shape regular.keys_nodup ?_).both
    intro f member
    have passes := Ty.every_field readable member
    exact ⟨List.all_eq_true.mp alone f member,
      (ih f member (regular.field member) passes (Ty.every_self passes)).1⟩
  | unknown name accepted => exact absurd regular (Ty.not_regular_unknown name accepted)

/-- Every type reads back from its written form. -/
theorem parse_text {t : Ty} (regular : t.Regular) (readable : t.readable = true) :
    parse [] t.text = .ok t := by
  obtain ⟨tree, denotes, spells⟩ := (writes regular readable).1
  have scans := spells [] [] (.nil _) .nil
  rw [List.append_nil, List.append_nil] at scans
  obtain ⟨tokens, scanned, same⟩ := scan_of_scans scans
  have known : ∀ name u, Aliases.find? [] name = some u → u ≠ .union [] := by
    intro name u found
    rw [Aliases.find?] at found
    contradiction
  exact (parse_eq_ok_iff known t.text t).mpr ⟨tree, ⟨tokens, scanned, same⟩, denotes⟩

/-- A key out of range with a plus, a key with a quote in it, a negative zero and a
literal of escaped octets. -/
theorem parse_text_escapes :
    let t : Ty := .shape [⟨utf8 "+99999999999999999999", true,
        .union [.null, .integerLit (-5), .floatLit (.finite true ⟨0, by decide +kernel⟩)]⟩,
      ⟨utf8 "it's", false, .array .integer (.stringLit [0x5C, 0x22, 0xFF] .double)⟩]
    t.Regular ∧ t.readable = true ∧ parse [] t.text = .ok t := by
  intro t
  have regular : t.Regular := ⟨by decide +kernel, by decide +kernel⟩
  have readable : t.readable = true := by decide +kernel
  exact ⟨regular, readable, parse_text regular readable⟩

end Declaration

end Conform
