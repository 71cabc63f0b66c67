import Conform.Proofs.Declaration.Names
import Conform.Proofs.Ty.Legible

/-! Well-formed text in declarations. A declaration is cut into tokens before ASCII
octets only, and what is left out of a token is ASCII. So the tokens of well-formed
UTF-8 are well-formed, and with them the literals and the keys of the type that
the declaration denotes, as long as this holds of the names it uses. -/
namespace Conform.Declaration

open Utf8 (valid valid_append valid_append_ascii valid_ascii valid_ascii_append valid_cons_ascii
  valid_cut)

/-! ### Tokens -/

theorem ascii_of_not_letter {b : UInt8} (other : isLetter b = false) : b < 0x80 :=
  octet_cases (P := fun b => isLetter b = false → b < 0x80) (by decide) b other

theorem ascii_of_digits {digits : Bytes} (all : digits.all isDigit = true) :
    ∀ b ∈ digits, b < 0x80 := fun b member =>
  octet_cases (P := fun b => isDigit b = true → b < 0x80) (by decide) b
    (List.all_eq_true.mp all b member)

theorem SignText.ascii {sign : Bytes} (signed : SignText sign) : ∀ b ∈ sign, b < 0x80 :=
  fun b member => octet_cases (P := fun b => isSign b = true → b < 0x80) (by decide) b
    (signed.isSign_of_mem member)

theorem FractionText.ascii {fraction : Bytes} (pointed : FractionText fraction) :
    ∀ b ∈ fraction, b < 0x80 := by
  cases pointed with
  | none => exact nofun
  | some all => exact List.forall_mem_cons.mpr ⟨by decide, ascii_of_digits all⟩

theorem ExponentText.ascii {exponent : Bytes} (scaled : ExponentText exponent) :
    ∀ b ∈ exponent, b < 0x80 := by
  cases scaled with
  | none => exact nofun
  | some isMark signed all _ =>
    refine List.forall_mem_cons.mpr
      ⟨?_, List.forall_mem_append.mpr ⟨signed.ascii, ascii_of_digits all⟩⟩
    rcases isMark with rfl | rfl <;> decide

theorem Numeral.ascii (n : Numeral) : Utf8.isAscii n.text = true := by
  rw [Utf8.isAscii_iff, Numeral.text, Numeral.body]
  simp only [List.forall_mem_append]
  exact ⟨n.signed.ascii, ascii_of_digits n.digits, n.pointed.ascii, n.scaled.ascii⟩

/-- A name ends before an octet that is no letter. -/
theorem splitName_stop (text : Bytes) : ∀ b ∈ (splitName text).2.head?, b < 0x80 := by
  fun_induction splitName text with
  | case1 =>
    intro b member
    cases member
  | case2 b rest more name tail split ih => rwa [split] at ih
  | case3 b rest stop =>
    rintro _ ⟨⟩
    refine ascii_of_not_letter ?_
    rw [Bool.or_eq_true, not_or] at stop
    by_contra letter
    refine stop.1 ?_
    rw [continuesName, Bool.eq_true_of_not_eq_false letter, Bool.true_or, Bool.true_or]

theorem splitName_valid {text : Bytes} (wellFormed : valid text = true) :
    valid (splitName text).1 = true ∧ valid (splitName text).2 = true := by
  rwa [← Bool.and_eq_true, ← valid_cut (splitName_stop text), splitName_join]

/-- The content of a quoted literal lacks only backslashes and the quotes. A part of
the text may already have been read. -/
theorem splitQuoted_valid {quote : UInt8} (small : quote < 0x80) (front : Bytes)
    {text content raw after : Bytes} (split : splitQuoted quote text = some (content, raw, after))
    (wellFormed : valid (front ++ text) = true) :
    valid (front ++ content) = true ∧ valid after = true := by
  fun_induction splitQuoted quote text generalizing content raw after front with
  | case1 => contradiction
  | case2 => contradiction
  | case3 c tail ih =>
    obtain ⟨⟨content', raw', after'⟩, rest, made⟩ := Option.map_eq_some_iff.mp split
    obtain ⟨rfl, rfl, rfl⟩ : c :: content' = content ∧ 0x5C :: c :: raw' = raw ∧ after' = after := by
      simpa using made
    rw [valid_append_ascii (by decide), Bool.and_eq_true] at wellFormed
    -- the octet after a backslash may be the first of a longer character
    obtain ⟨inside, later⟩ := ih [c] rest wellFormed.2
    exact ⟨valid_append wellFormed.1 inside, later⟩
  | case4 rest other =>
    obtain ⟨rfl, rfl, rfl⟩ : [] = content ∧ [quote] = raw ∧ rest = after := by simpa using split
    rw [valid_append_ascii small, Bool.and_eq_true] at wellFormed
    rw [List.append_nil]
    exact wellFormed
  | case5 b rest plain other ih =>
    obtain ⟨⟨content', raw', after'⟩, rest, made⟩ := Option.map_eq_some_iff.mp split
    obtain ⟨rfl, rfl, rfl⟩ : b :: content' = content ∧ b :: raw' = raw ∧ after' = after := by
      simpa using made
    rw [List.append_cons] at wellFormed ⊢
    exact ih _ rest wellFormed

/-- A token is well-formed, and so is what follows it. -/
theorem splitToken_valid {position : Nat} {b : UInt8} {rest after : Bytes} {token : Token}
    (split : splitToken position b rest = .ok (token, after))
    (wellFormed : valid (b :: rest) = true) : valid token.literal = true ∧ valid after = true := by
  cases splitToken_eq_ok_iff.mp split with
  | name letter split =>
    have parts := splitName_valid wellFormed
    rwa [split] at parts
  | number letter starts split =>
    obtain ⟨n, after', parts, join⟩ := splitNumber_numeral starts
    obtain ⟨-, same⟩ := Prod.mk.inj (split.symm.trans parts)
    obtain ⟨rfl, rfl⟩ := Prod.mk.inj same
    rw [← join, valid_ascii_append n.ascii] at wellFormed
    exact ⟨valid_ascii n.ascii, wellFormed⟩
  | quoted opens split =>
    have small := ascii_of_not_letter (not_startsNumber_of_quote opens rest).1
    rw [valid_cons_ascii small] at wellFormed
    exact splitQuoted_valid small [] split wellFormed
  | mark found =>
    have small := ascii_of_not_letter (punctuation (by rw [found]; rfl)).2.1
    rw [valid_cons_ascii small] at wellFormed
    exact ⟨valid_ascii (by simpa [Utf8.isAscii] using small), wellFormed⟩

theorem dropSpace_valid (text : Bytes) : valid (text.dropWhile isSpace) = valid text := by
  induction text with
  | nil => rfl
  | cons b rest ih =>
    rw [List.dropWhile_cons]
    split
    · rename_i space
      have small := octet_cases (P := fun b => isSpace b = true → b < 0x80) (by decide) b space
      rw [ih, valid_cons_ascii small]
    · rfl

theorem scanFrom_valid (fuel position : Nat) {text : Bytes} (wellFormed : valid text = true) :
    ∀ token ∈ (scanFrom fuel position text).1, valid token.literal = true := by
  induction fuel generalizing position text with
  | zero => exact List.forall_mem_nil _
  | succ fuel ih =>
    rw [scanFrom]
    simp only
    rw [← dropSpace_valid] at wellFormed
    split
    · exact List.forall_mem_singleton.mpr rfl
    · rename_i b rest solid
      rw [solid] at wellFormed
      split
      · exact List.forall_mem_nil _
      · rename_i token after split
        obtain ⟨first, later⟩ := splitToken_valid split wellFormed
        exact List.forall_mem_cons.mpr ⟨first, ih _ later⟩

/-- The content of a symbol, if it has one, is well-formed. -/
def Symbol.Legible : Symbol → Prop
  | .integer literal => valid literal = true
  | .float literal => valid literal = true
  | .string content _ => valid content = true
  | .name word => valid word = true
  | .mark _ => True

theorem Token.symbol_legible {token : Token} (wellFormed : valid token.literal = true) :
    token.symbol.Legible := by
  rw [Token.symbol]
  split
  · exact wellFormed
  · exact wellFormed
  · exact wellFormed
  · exact wellFormed
  · trivial

/-- The symbols of a well-formed text are well-formed. -/
theorem symbols_legible {source : Bytes} {tokens : List Token} (found : scan source = .ok tokens)
    (wellFormed : valid source = true) : ∀ s ∈ symbols tokens, s.Legible := by
  have literals := scanFrom_valid (source.length + 1) 0 wellFormed
  rw [scan, scanned] at found
  split at found
  · rename_i read
    obtain rfl := Except.ok.inj found
    rw [read] at literals
    intro s member
    obtain ⟨token, inside, rfl⟩ := List.mem_map.mp member
    exact token.symbol_legible (literals token inside)
  · contradiction

/-! ### Types -/

/-- The names stand for types with well-formed literals and keys. -/
def Aliases.Legible (aliases : Aliases) : Prop := ∀ a ∈ aliases, a.2.legible = true

theorem keyword?_legible {name : Bytes} {t : Ty} (found : keyword? name = some (.type t)) :
    t.legible = true := by
  have listed : ∀ t ∈ wordTypes, t.legible = true := by decide
  exact listed t (keyword?_type found)

theorem KeySymbol.text_valid {key : KeySymbol} (legible : key.symbol.Legible) :
    valid key.text = true := by
  cases key with
  | name word => exact legible
  | string content quote => exact legible
  | integer literal =>
    rw [KeySymbol.text]
    split
    · exact valid_words (decimalInt_words _)
    · exact legible

theorem fieldText_valid {index : Nat} {key : Option ElementKey}
    (legible : ∀ s ∈ keyYield key, s.Legible) : valid (fieldText index key) = true := by
  cases key with
  | none => exact valid_words (decimalInt_words index)
  | some key => exact KeySymbol.text_valid (legible _ (List.mem_cons_self ..))

theorem alternatives_legible {t : Ty} (legible : t.legible = true) :
    ∀ m ∈ alternatives t, m.legible = true := by
  intro m member
  cases t with
  | union members => exact Ty.every_member legible member
  | _ => rwa [List.mem_singleton.mp member]

theorem joined?_legible {types : List Ty} {u : Ty} (legible : ∀ t ∈ types, t.legible = true)
    (joined : joined? types = some u) : u.legible = true := by
  rw [joined?] at joined
  split at joined
  · contradiction
  · obtain rfl := Option.some.inj joined
    rw [Ty.legible_union_iff]
    intro m member
    obtain ⟨t, inside, part⟩ := List.mem_flatMap.mp member
    exact alternatives_legible (legible t inside) m part

theorem unionType?_legible {t u : Ty} {types : List Ty} (first : t.legible = true)
    (others : ∀ t ∈ types, t.legible = true) (joined : unionType? t types = some u) :
    u.legible = true := by
  cases types with
  | nil => rwa [← Option.some.inj joined]
  | cons next rest => exact joined?_legible (List.forall_mem_cons.mpr ⟨first, others⟩) joined

theorem arrayed_legible {t : Ty} (legible : t.legible = true) (n : Nat) :
    (arrayed n t).legible = true := by
  induction n generalizing t with
  | zero => exact legible
  | succ n ih => exact ih legible

theorem shapeOf?_legible {fields : List (Field Ty)} {u : Ty}
    (legible : ∀ f ∈ fields, valid f.key = true ∧ f.type.legible = true)
    (made : shapeOf? fields = some u) : u.legible = true := by
  rw [shapeOf?] at made
  split at made
  · obtain rfl := Option.some.inj made
    exact (Ty.legible_shape_iff fields).mpr legible
  · contradiction

section Trees

variable {aliases : Aliases}

theorem nameType?_legible (names : aliases.Legible) {name : Bytes} {t : Ty}
    (denotes : nameType? aliases name = some t) : t.legible = true := by
  rw [nameType?] at denotes
  split at denotes
  · rename_i found
    obtain rfl := Option.some.inj denotes
    exact keyword?_legible found
  · contradiction
  · exact names _ (Aliases.mem_of_find? denotes)

mutual

/-- A tree of well-formed symbols denotes a type with well-formed literals and keys. -/
theorem UnionTree.legible (names : aliases.Legible) : ∀ (tree : UnionTree) {t : Ty},
    (∀ s ∈ tree.yield, s.Legible) → tree.type? aliases = some t → t.legible = true
  | .mk first rest, t, symbols, denotes => by
    obtain ⟨s, types, head, others, joined⟩ := UnionTree.type?_eq_some.mp denotes
    obtain ⟨front, back⟩ := List.forall_mem_append.mp symbols
    exact unionType?_legible (first.legible names front head)
      (memberTypes?_legible names rest back others) joined

theorem NullableTree.legible (names : aliases.Legible) : ∀ (tree : NullableTree) {t : Ty},
    (∀ s ∈ tree.yield, s.Legible) → tree.type? aliases = some t → t.legible = true
  | .mk question (.mk atom pairs), t, symbols, denotes => by
    obtain ⟨s, body, made⟩ := NullableTree.type?_eq_some.mp denotes
    obtain ⟨inside, typed, rfl⟩ := Option.map_eq_some_iff.mp body
    have front := (List.forall_mem_append.mp (List.forall_mem_append.mp symbols).2).1
    have legible := arrayed_legible (atom.legible names front typed) pairs
    split at made
    · exact joined?_legible (List.forall_mem_cons.mpr
        ⟨rfl, List.forall_mem_singleton.mpr legible⟩) made
    · rwa [← Option.some.inj made]

theorem AtomTree.legible (names : aliases.Legible) : ∀ (tree : AtomTree) {t : Ty},
    (∀ s ∈ tree.yield, s.Legible) → tree.type? aliases = some t → t.legible = true
  | .integer _, _, _, denotes | .float _, _, _, denotes => by
    obtain ⟨_, _, rfl⟩ := Option.map_eq_some_iff.mp denotes
    rfl
  | .string content quote, _, symbols, denotes => by
    obtain rfl := Option.some.inj denotes
    exact symbols _ (List.mem_singleton_self _)
  | .name _, _, _, denotes => nameType?_legible names denotes
  | .array _ arguments, _, symbols, denotes =>
    arguments.legible names (List.forall_mem_cons.mp symbols).2 denotes
  | .list _, _, _, denotes => by
    obtain rfl := Option.some.inj denotes
    rfl
  | .listOf _ value, _, symbols, denotes => by
    obtain ⟨inside, typed, rfl⟩ := Option.map_eq_some_iff.mp denotes
    simp only [AtomTree.yield, List.forall_mem_cons, List.forall_mem_append] at symbols
    rw [Ty.legible_list]
    exact value.legible names symbols.2.2.1 typed

theorem ArgumentsTree.legible (names : aliases.Legible) : ∀ (tree : ArgumentsTree) {t : Ty},
    (∀ s ∈ tree.yield, s.Legible) → tree.type? aliases = some t → t.legible = true
  | .none, _, _, denotes | .emptyShape, _, _, denotes => by
    obtain rfl := Option.some.inj denotes
    rfl
  | .value value, _, symbols, denotes => by
    obtain ⟨inside, typed, rfl⟩ := Option.map_eq_some_iff.mp denotes
    simp only [ArgumentsTree.yield, List.forall_mem_cons, List.forall_mem_append] at symbols
    rw [Ty.legible_array]
    exact value.legible names symbols.2.1 typed
  | .keyed key value, _, symbols, denotes => by
    obtain ⟨k, v, kind, _, second, _, rfl⟩ := ArgumentsTree.type?_keyed_eq_some.mp denotes
    simp only [ArgumentsTree.yield, List.forall_mem_cons, List.forall_mem_append] at symbols
    rw [Ty.legible_array]
    exact value.legible names symbols.2.2.2.1 second
  | .shape (.mk key type) rest trailing, _, symbols, denotes => by
    obtain ⟨fields, typed, made⟩ := ArgumentsTree.type?_shape_eq_some.mp denotes
    obtain ⟨t, others, head, tail, rfl⟩ := fields?_cons_eq_some.mp typed
    simp only [ArgumentsTree.yield, ElementTree.yield, List.forall_mem_cons,
      List.forall_mem_append] at symbols
    obtain ⟨_, ⟨⟨⟨keyed, first⟩, more⟩, _⟩, _⟩ := symbols
    have element := type.legible names first head
    exact shapeOf?_legible (List.forall_mem_cons.mpr
      ⟨⟨fieldText_valid keyed, element⟩, fields?_legible names rest more tail⟩) made

theorem memberTypes?_legible (names : aliases.Legible) : ∀ (ms : List NullableTree)
    {types : List Ty}, (∀ s ∈ membersYield ms, s.Legible) →
      memberTypes? aliases ms = some types → ∀ t ∈ types, t.legible = true
  | [], _, _, denotes => by
    obtain rfl := Option.some.inj denotes
    exact nofun
  | m :: rest, _, symbols, denotes => by
    obtain ⟨t, others, head, tail, rfl⟩ := memberTypes?_cons_eq_some.mp denotes
    simp only [membersYield, List.forall_mem_cons, List.forall_mem_append] at symbols
    exact List.forall_mem_cons.mpr
      ⟨m.legible names symbols.2.1 head, memberTypes?_legible names rest symbols.2.2 tail⟩

theorem fields?_legible (names : aliases.Legible) : ∀ (es : List ElementTree) {index : Nat}
    {fields : List (Field Ty)}, (∀ s ∈ elementsYield es, s.Legible) →
      fields? aliases index es = some fields →
      ∀ f ∈ fields, valid f.key = true ∧ f.type.legible = true
  | [], _, _, _, denotes => by
    obtain rfl := Option.some.inj denotes
    exact nofun
  | .mk key type :: rest, _, _, symbols, denotes => by
    obtain ⟨t, others, head, tail, rfl⟩ := fields?_cons_eq_some.mp denotes
    simp only [elementsYield, ElementTree.yield, List.forall_mem_cons,
      List.forall_mem_append] at symbols
    obtain ⟨_, ⟨keyed, first⟩, more⟩ := symbols
    have element := type.legible names first head
    exact List.forall_mem_cons.mpr
      ⟨⟨fieldText_valid keyed, element⟩, fields?_legible names rest more tail⟩

end

/-- A well-formed declaration denotes a type with well-formed literals and keys. -/
theorem parse_legible (regular : aliases.Regular) (names : aliases.Legible) {source : Bytes}
    {t : Ty} (wellFormed : valid source = true) (read : parse aliases source = .ok t) :
    t.legible = true := by
  obtain ⟨tree, ⟨tokens, found, same⟩, denotes⟩ :=
    (parse_eq_ok_iff regular.ne_empty source t).mp read
  have symbols := symbols_legible found wellFormed
  rw [same] at symbols
  exact tree.legible names (List.forall_mem_append.mp symbols).1 denotes

end Trees

/-! ### Aliases -/

theorem resolveRound_legible {known : Aliases} (regular : known.Regular) (names : known.Legible)
    {pending : List (Bytes × Bytes)} (wellFormed : ∀ d ∈ pending, valid d.2 = true) :
    (resolveRound known pending).1.Legible ∧
      ∀ d ∈ (resolveRound known pending).2.map Prod.fst, valid d.2 = true := by
  induction pending with
  | nil => exact ⟨nofun, nofun⟩
  | cons d rest ih =>
    obtain ⟨first, others⟩ := List.forall_mem_cons.mp wellFormed
    obtain ⟨resolved, failed⟩ := ih others
    rw [resolveRound]
    simp only
    split
    · rename_i t read
      exact ⟨List.forall_mem_cons.mpr ⟨parse_legible regular names first read, resolved⟩, failed⟩
    · exact ⟨resolved, List.forall_mem_cons.mpr ⟨first, failed⟩⟩

theorem resolveRounds_legible {fuel : Nat} {known : Aliases} (regular : known.Regular)
    (names : known.Legible) {pending : List (Bytes × Bytes)}
    (wellFormed : ∀ d ∈ pending, valid d.2 = true) {aliases : Aliases}
    (resolved : resolveRounds fuel known pending = .ok aliases) : aliases.Legible := by
  induction fuel generalizing known pending with
  | zero =>
    obtain rfl := Except.ok.inj resolved
    exact names
  | succ fuel ih =>
    cases pending with
    | nil =>
      obtain rfl := Except.ok.inj resolved
      exact names
    | cons d rest =>
      have added := resolveRound_regular regular (d :: rest)
      have legible := resolveRound_legible regular names wellFormed
      rw [resolveRounds] at resolved
      split at resolved
      · contradiction
      · rename_i more failed round
        rw [round] at added legible
        exact ih (List.forall_mem_append.mpr ⟨regular, added⟩)
          (List.forall_mem_append.mpr ⟨names, legible.1⟩) legible.2 resolved

/-- The aliases of well-formed declarations stand for types with well-formed literals
and keys. -/
theorem resolveAliases_legible {declarations : List (Bytes × Bytes)} {aliases : Aliases}
    (wellFormed : ∀ d ∈ declarations, valid d.2 = true)
    (resolved : resolveAliases declarations = .ok aliases) : aliases.Legible := by
  rw [resolveAliases] at resolved
  split at resolved
  · contradiction
  · exact resolveRounds_legible (show Aliases.Regular [] from List.forall_mem_nil _)
      (show Aliases.Legible [] from List.forall_mem_nil _) wellFormed resolved

end Conform.Declaration
