import Conform.Proofs.Declaration.Scan
import Conform.Proofs.Declaration.Soundness
import Conform.Proofs.Declaration.Unambiguous

/-! Every derivation that denotes a type is read as that type. Each reader takes
the yield of a tree of its rule off the front of the tokens, given a reader that
does so for the unions inside brackets; the marks that may follow a tree tell it
where to stop. -/
namespace Conform.Declaration

/-- The reader takes the symbols off the front and returns the value, whatever
follows them with one of the marks. -/
def Reads {α : Type} (reader : Reader α) (front : List Symbol) (follow : List TokenKind) (x : α) :
    Prop :=
  ∀ tokens w, symbols tokens = front ++ w → GoesOn follow w →
    ∃ rest, reader tokens = .ok (x, rest) ∧ symbols rest = w

theorem GoesOn.not_starts {marks : List TokenKind} {kind : TokenKind} (mark : kind.isMark = true)
    (outside : kind ∉ marks) {tokens : List Token} (ends : GoesOn marks (symbols tokens)) :
    startsWithKind kind tokens = false :=
  Declaration.not_starts mark (ends.ne_cons outside)

/-! ### Keys -/

theorem keyToken_of_symbol {token : Token} {key : KeySymbol} (same : token.symbol = key.symbol) :
    isKeyToken token = true ∧ keyTextOf token = key.text := by
  have isKey : isKeyToken token = true := by
    rw [Token.symbol] at same
    rw [isKeyToken]
    cases found : token.kind <;> cases key <;> simp_all [KeySymbol.symbol]
  obtain ⟨key', same', text⟩ := symbol_of_keyToken isKey
  obtain rfl := KeySymbol.symbol_injective (same.symm.trans same')
  exact ⟨isKey, text⟩

theorem elementKey?_of_key {tokens : List Token} {key : ElementKey} {w : List Symbol}
    (same : symbols tokens = key.yield ++ w) :
    ∃ rest, elementKey? tokens = some (key.written.text, key.optional, rest) ∧ symbols rest = w := by
  obtain ⟨written, optional⟩ := key
  obtain ⟨first, others, rfl, head, tail⟩ := List.map_eq_cons_iff.mp same
  obtain ⟨isKey, text⟩ := keyToken_of_symbol head
  cases optional with
  | false =>
    obtain ⟨colon, rest, rfl, marked, last⟩ := List.map_eq_cons_iff.mp tail
    have isColon := (@symbol_eq_mark .colon rfl colon).mp marked
    exact ⟨rest, by simp [elementKey?, isKey, isColon, text], last⟩
  | true =>
    obtain ⟨question, more, rfl, marked, tail⟩ := List.map_eq_cons_iff.mp tail
    obtain ⟨colon, rest, rfl, marked', last⟩ := List.map_eq_cons_iff.mp tail
    have isQuestion := (@symbol_eq_mark .question rfl question).mp marked
    have isColon := (@symbol_eq_mark .colon rfl colon).mp marked'
    exact ⟨rest, by simp [elementKey?, isKey, isQuestion, isColon, text], last⟩

theorem elementKey?_of_union {tokens : List Token} {u : UnionTree} {w : List Symbol}
    (same : symbols tokens = u.yield ++ w) (ends : GoesOn unionFollow w) :
    elementKey? tokens = none := by
  cases found : elementKey? tokens with
  | none => rfl
  | some triple =>
    obtain ⟨key, front, _, _⟩ := elementKey?_sound found
    rw [same] at front
    exact absurd front (u.yield_ne_key ends key _)

theorem elementsYield_length (trees : List ElementTree) :
    trees.length ≤ (elementsYield trees).length := by
  induction trees with
  | nil => exact Nat.le_refl 0
  | cons e rest ih =>
    simp only [elementsYield, List.length_cons, List.length_append]
    omega

theorem membersYield_length (trees : List NullableTree) :
    trees.length ≤ (membersYield trees).length := by
  induction trees with
  | nil => exact Nat.le_refl 0
  | cons m rest ih =>
    simp only [membersYield, List.length_cons, List.length_append]
    omega

/-! ### Unions with members -/

/-- The type brings a member into a union at least. -/
def Populated (t : Ty) : Prop := 1 ≤ (alternatives t).length

theorem populated_of_ne {t : Ty} (other : t ≠ .union []) : Populated t := by
  cases t with
  | union members =>
    cases members with
    | nil => exact absurd rfl other
    | cons m rest => simp [Populated, alternatives]
  | _ => exact Nat.le_refl 1

theorem union?_of_joined? {t t' : Ty} {types : List Ty} {u : Ty}
    (joined : joined? (t :: t' :: types) = some u) (first : Populated t) (second : Populated t') :
    Ty.union? (t :: t' :: types) = .ok u := by
  refine (union?_eq_ok_iff _ _).mpr ⟨joined, ?_⟩
  rw [Populated] at first second
  simp only [List.flatMap_cons, List.length_append]
  omega

theorem ArgumentsTree.populated {aliases : Aliases} {tree : ArgumentsTree} {t : Ty}
    (denotes : tree.type? aliases = some t) : Populated t := by
  cases tree with
  | none =>
    obtain rfl := Option.some.inj denotes
    exact Nat.le_refl 1
  | value value =>
    obtain ⟨_, _, rfl⟩ := Option.map_eq_some_iff.mp denotes
    exact Nat.le_refl 1
  | keyed key value =>
    rw [ArgumentsTree.type?] at denotes
    split at denotes
    · obtain ⟨_, _, rfl⟩ := Option.map_eq_some_iff.mp denotes
      exact Nat.le_refl 1
    · contradiction
  | emptyShape =>
    obtain rfl := Option.some.inj denotes
    exact Nat.le_refl 1
  | shape first others trailing =>
    rw [ArgumentsTree.type?] at denotes
    split at denotes
    · rw [shapeOf?] at denotes
      split at denotes
      · obtain rfl := Option.some.inj denotes
        exact Nat.le_refl 1
      · contradiction
    · contradiction

section Populated

variable {aliases : Aliases} (known : ∀ name t, aliases.find? name = some t → t ≠ .union [])

include known

theorem nameType?_populated {name : Bytes} {t : Ty} (denotes : nameType? aliases name = some t) :
    Populated t := by
  rw [nameType?] at denotes
  split at denotes
  · rename_i t' found
    obtain rfl := Option.some.inj denotes
    exact populated_of_ne (by rintro rfl; simpa [wordTypes] using keyword?_type found)
  · contradiction
  · exact populated_of_ne (known name t denotes)

theorem AtomTree.populated {tree : AtomTree} {t : Ty} (denotes : tree.type? aliases = some t) :
    Populated t := by
  cases tree with
  | integer literal =>
    obtain ⟨_, _, rfl⟩ := Option.map_eq_some_iff.mp denotes
    exact Nat.le_refl 1
  | float literal =>
    obtain ⟨_, _, rfl⟩ := Option.map_eq_some_iff.mp denotes
    exact Nat.le_refl 1
  | string content quote =>
    obtain rfl := Option.some.inj denotes
    exact Nat.le_refl 1
  | name word => exact nameType?_populated known denotes
  | array word arguments => exact ArgumentsTree.populated denotes
  | list word =>
    obtain rfl := Option.some.inj denotes
    exact Nat.le_refl 1
  | listOf word value =>
    obtain ⟨_, _, rfl⟩ := Option.map_eq_some_iff.mp denotes
    exact Nat.le_refl 1

theorem SuffixedTree.populated {tree : SuffixedTree} {t : Ty}
    (denotes : tree.type? aliases = some t) : Populated t := by
  obtain ⟨atom, pairs⟩ := tree
  obtain ⟨a, typed, rfl⟩ := Option.map_eq_some_iff.mp denotes
  have base := AtomTree.populated known typed
  clear typed denotes
  induction pairs generalizing a with
  | zero => exact base
  | succ n ih => exact ih (.array .any a) (Nat.le_refl 1)

theorem NullableTree.populated {tree : NullableTree} {t : Ty}
    (denotes : tree.type? aliases = some t) : Populated t := by
  obtain ⟨question, body⟩ := tree
  rw [NullableTree.type?] at denotes
  split at denotes
  · rename_i b typed
    cases question with
    | false =>
      obtain rfl := Option.some.inj denotes
      exact SuffixedTree.populated known typed
    | true =>
      rw [if_pos rfl, joined?] at denotes
      split at denotes
      · contradiction
      · obtain rfl := Option.some.inj denotes
        simp [Populated, alternatives]
  · contradiction

end Populated

/-! ### Readers -/

theorem brackets_reads (ctx : Context) (pairs : Nat) (t : Ty) :
    Reads (brackets ctx t) (pairsYield pairs) nullableFollow (arrayed pairs t) := by
  induction pairs generalizing t with
  | zero =>
    intro tokens w same ends
    refine ⟨tokens, ?_, same⟩
    cases tokens with
    | nil => rfl
    | cons token rest =>
      have ends : GoesOn nullableFollow (symbols (token :: rest)) := same ▸ ends
      have other : token.kind ≠ .lbrack := by
        intro opens
        have first := (@symbol_eq_mark .lbrack rfl token).mpr opens
        exact ends.ne_cons (by decide) (symbols rest) (congrArg (· :: symbols rest) first)
      rw [brackets.eq_def]
      simp only [other, if_false]
      rfl
  | succ n ih =>
    intro tokens w same ends
    obtain ⟨first, others, rfl, head, tail⟩ := List.map_eq_cons_iff.mp same
    obtain ⟨second, more, rfl, head', tail'⟩ := List.map_eq_cons_iff.mp tail
    obtain ⟨rest, read, last⟩ := ih (.array .any t) more w tail' ends
    refine ⟨rest, ?_, last⟩
    have opens := (@symbol_eq_mark .lbrack rfl first).mp head
    have closes := (@symbol_eq_mark .rbrack rfl second).mp head'
    rw [brackets.eq_def]
    simp only [opens, closes, if_true]
    exact read

section Inner

variable {ctx : Context} {n : Nat} {inner : Reader Ty}
  (complete : ∀ (u : UnionTree) (t : Ty), u.depth < n → u.type? ctx.aliases = some t →
    Reads inner u.yield unionFollow t)

include complete

/-- What one element contributes: it is read with its type, and the reading goes on
after a comma and stops before anything else. -/
theorem elements_step (fuel index : Nat) {element : ElementTree} {t : Ty} {tokens : List Token}
    {w : List Symbol} (deep : element.depth < n) (denotes : element.type? ctx.aliases = some t)
    (same : symbols tokens = element.yield ++ w) (ends : GoesOn unionFollow w) :
    ∃ after, symbols after = w ∧
      (startsWithKind .comma after = false → elements inner (fuel + 1) index tokens =
        .ok ([⟨fieldText index element.key, fieldOptional element.key, t⟩], after)) ∧
      (∀ fields rest, startsWithKind .comma after = true →
        elements inner fuel (nextIndex index element.key) after.tail = .ok (fields, rest) →
        elements inner (fuel + 1) index tokens =
          .ok (⟨fieldText index element.key, fieldOptional element.key, t⟩ :: fields, rest)) := by
  have opened : startsWithKind .rbrace tokens = false :=
    not_starts rfl (by rw [same]; exact element.yield_ne_rbrace w)
  obtain ⟨key, u⟩ := element
  rw [ElementTree.yield, List.append_assoc] at same
  cases key with
  | none =>
    obtain ⟨after, read, last⟩ := complete u t deep denotes tokens w same ends
    have unkeyed := elementKey?_of_union same ends
    refine ⟨after, last, ?_, ?_⟩
    · intro stops
      rw [elements]
      simp only [opened, unkeyed, read, stops]
      rfl
    · intro fields rest comma more
      rw [elements]
      simp only [opened, unkeyed, read, comma]
      simp only [ElementTree.key, nextIndex] at more
      simp only [more]
      rfl
  | some key =>
    obtain ⟨start, keyed, others⟩ := elementKey?_of_key same
    obtain ⟨after, read, last⟩ := complete u t deep denotes start w others ends
    refine ⟨after, last, ?_, ?_⟩
    · intro stops
      rw [elements]
      simp only [opened, keyed, read, stops]
      rfl
    · intro fields rest comma more
      rw [elements]
      simp only [opened, keyed, read, comma]
      simp only [ElementTree.key, nextIndex] at more
      simp only [more]
      rfl

omit complete in
theorem elements_closed {fuel index : Nat} {tokens : List Token} {w : List Symbol}
    (same : symbols tokens = .mark .rbrace :: w) :
    elements inner fuel index tokens = .ok ([], tokens) := by
  cases fuel with
  | zero => rfl
  | succ fuel => rw [elements, if_pos (starts_of_symbols rfl same).1]

theorem elements_reads {first : ElementTree} {others : List ElementTree} {trailing : Bool}
    {fuel index : Nat} {t : Ty} {fields : List (Field Ty)} {tokens : List Token} {w : List Symbol}
    (deep : first.depth < n) (deeper : elementsDepth others < n) (enough : others.length < fuel)
    (denotes : first.type? ctx.aliases = some t)
    (denoted : fields? ctx.aliases (nextIndex index first.key) others = some fields)
    (same : symbols tokens =
      first.yield ++ (elementsYield others ++ (optionalMark trailing .comma ++ .mark .rbrace :: w))) :
    ∃ rest, elements inner fuel index tokens =
        .ok (⟨fieldText index first.key, fieldOptional first.key, t⟩ :: fields, rest) ∧
      symbols rest = .mark .rbrace :: w := by
  obtain ⟨fuel, rfl⟩ : ∃ k, fuel = k + 1 := Nat.exists_eq_succ_of_ne_zero (Nat.ne_zero_of_lt enough)
  obtain ⟨after, last, stop, goOn⟩ := elements_step complete fuel index deep denotes same
    (goesOn_elements others trailing w)
  induction others generalizing first fuel index t fields tokens after with
  | nil =>
    obtain rfl := Option.some.inj denoted
    cases trailing with
    | false => exact ⟨after, stop (not_starts rfl (by rw [last]; exact nofun)), last⟩
    | true =>
      obtain ⟨comma, closes⟩ := starts_of_symbols rfl last
      exact ⟨after.tail, goOn [] _ comma (elements_closed closes), closes⟩
  | cons second others ih =>
    rw [elementsDepth, Nat.max_lt] at deeper
    rw [element_append] at last
    obtain ⟨comma, tail⟩ := starts_of_symbols rfl last
    have enough := Nat.lt_of_succ_lt_succ enough
    obtain ⟨fuel, rfl⟩ : ∃ k, fuel = k + 1 :=
      Nat.exists_eq_succ_of_ne_zero (Nat.ne_zero_of_lt enough)
    rw [fields?] at denoted
    split at denoted
    · rename_i t' fields' denotes' denoted'
      obtain rfl := Option.some.inj denoted
      obtain ⟨after', last', stop', goOn'⟩ := elements_step complete fuel
        (nextIndex index first.key) deeper.1 denotes' tail (goesOn_elements others trailing w)
      obtain ⟨rest, read, closes⟩ := ih deeper.1 deeper.2 denotes' denoted' tail fuel enough after'
        last' stop' goOn'
      exact ⟨rest, goOn _ rest comma read, closes⟩
    · contradiction

theorem shape_reads {first : ElementTree} {others : List ElementTree} {trailing : Bool} {t : Ty}
    (deep : (ArgumentsTree.shape first others trailing).depth ≤ n)
    (denotes : (ArgumentsTree.shape first others trailing).type? ctx.aliases = some t) :
    Reads (shape ctx inner) (ArgumentsTree.shape first others trailing).yield atomFollow t := by
  intro tokens w same _
  rw [shape_append] at same
  rw [ArgumentsTree.depth, Nat.add_one_le_iff, Nat.max_lt] at deep
  rw [ArgumentsTree.type?] at denotes
  split at denotes
  · rename_i t' fields denoted following
    obtain ⟨inside, opened, body⟩ := skip_of_symbols ctx rfl same
    have enough : others.length < inside.length := by
      have lengths := congrArg List.length body
      have commas := elementsYield_length others
      simp only [List.length_map, List.length_append, List.length_cons] at lengths
      omega
    obtain ⟨after, read, last⟩ := elements_reads complete deep.1 deep.2 enough denoted following body
    obtain ⟨rest, closed, ends⟩ := skip_of_symbols ctx rfl last
    have made := (shape?_eq_ok_iff _ t).mpr denotes
    refine ⟨rest, ?_, ends⟩
    simp only [shape, opened, read, closed, made]
  · contradiction

omit complete in
theorem emptyShape_reads (ctx : Context) (inner : Reader Ty) :
    Reads (shape ctx inner) ArgumentsTree.emptyShape.yield atomFollow (.shape []) := by
  intro tokens w same _
  obtain ⟨inside, opened, body⟩ := skip_of_symbols ctx rfl same
  obtain ⟨rest, closed, ends⟩ := skip_of_symbols ctx rfl body
  refine ⟨rest, ?_, ends⟩
  simp only [shape, opened, elements_closed body, closed]
  rfl

/-- What is read after the word for arrays. -/
theorem arrayRest_reads {arguments : ArgumentsTree} {t : Ty} (deep : arguments.depth ≤ n)
    (denotes : arguments.type? ctx.aliases = some t) :
    Reads (arrayRest ctx inner) arguments.yield atomFollow t := by
  intro tokens w same ends
  cases arguments with
  | none =>
    obtain rfl := Option.some.inj denotes
    have ends : GoesOn atomFollow (symbols tokens) := same ▸ ends
    refine ⟨tokens, ?_, same⟩
    rw [arrayRest, @GoesOn.not_starts _ .lbrace rfl (by decide) _ ends,
      @GoesOn.not_starts _ .lss rfl (by decide) _ ends]
    rfl
  | value value =>
    obtain ⟨v, typed, rfl⟩ := Option.map_eq_some_iff.mp denotes
    rw [value_append] at same
    obtain ⟨opens, body⟩ := starts_of_symbols rfl same
    obtain ⟨after, read, last⟩ := complete value v deep typed _ _ body (.gtr w)
    obtain ⟨closes, tail⟩ := starts_of_symbols rfl last
    refine ⟨after.tail, ?_, tail⟩
    rw [arrayRest, @not_starts .lbrace rfl _ (by rw [same]; rintro _ ⟨⟩)]
    simp only [opens, read, closes]
    rfl
  | keyed key value =>
    rw [ArgumentsTree.depth, Nat.add_one_le_iff, Nat.max_lt] at deep
    rw [ArgumentsTree.type?] at denotes
    split at denotes
    · rename_i k v typedKey typed
      obtain ⟨kind, valid, rfl⟩ := Option.map_eq_some_iff.mp denotes
      have valid := toOption_eq_some_iff.mp valid
      rw [keyed_append] at same
      obtain ⟨opens, body⟩ := starts_of_symbols rfl same
      obtain ⟨after, readKey, last⟩ := complete key k deep.1 typedKey _ _ body (.comma _)
      obtain ⟨second, separated, body'⟩ := skip_of_symbols ctx rfl last
      obtain ⟨after', read, last'⟩ := complete value v deep.2 typed _ _ body' (.gtr w)
      obtain ⟨rest, closed, tail⟩ := skip_of_symbols ctx rfl last'
      refine ⟨rest, ?_, tail⟩
      rw [arrayRest, @not_starts .lbrace rfl _ (by rw [same]; rintro _ ⟨⟩)]
      simp only [opens, readKey, @not_starts .gtr rfl after (by rw [last]; rintro _ ⟨⟩), separated,
        read, closed, valid]
      rfl
    · contradiction
  | emptyShape =>
    obtain rfl := Option.some.inj denotes
    rw [arrayRest, if_pos (starts_of_symbols rfl same).1]
    exact emptyShape_reads ctx inner tokens w same ends
  | shape first others trailing =>
    rw [arrayRest, if_pos (starts_of_symbols rfl same).1]
    exact shape_reads complete deep denotes tokens w same ends

theorem listRest_reads {value : UnionTree} {t : Ty} (deep : value.depth < n)
    (denotes : value.type? ctx.aliases = some t) :
    Reads (listRest ctx inner) (.mark .lss :: (value.yield ++ [.mark .gtr])) atomFollow
      (.list t) := by
  intro tokens w same ends
  rw [List.cons_append, List.append_assoc] at same
  obtain ⟨opens, body⟩ := starts_of_symbols rfl same
  obtain ⟨after, read, last⟩ := complete value t deep denotes _ _ body (.gtr w)
  obtain ⟨rest, closed, tail⟩ := skip_of_symbols ctx rfl last
  refine ⟨rest, ?_, tail⟩
  simp only [listRest, opens, read, closed]
  rfl

theorem atom_reads {tree : AtomTree} {t : Ty} (deep : tree.depth ≤ n)
    (denotes : tree.type? ctx.aliases = some t) :
    Reads (atom ctx inner) tree.yield atomFollow t := by
  intro tokens w same ends
  cases tree with
  | integer literal =>
    obtain ⟨token, rest, rfl, head, tail⟩ := List.map_eq_cons_iff.mp same
    obtain ⟨kind, rfl⟩ := symbol_eq_integer.mp head
    obtain ⟨value, valid, rfl⟩ := Option.map_eq_some_iff.mp denotes
    exact ⟨rest, by simp only [atom, kind, toOption_eq_some_iff.mp valid], tail⟩
  | float literal =>
    obtain ⟨token, rest, rfl, head, tail⟩ := List.map_eq_cons_iff.mp same
    obtain ⟨kind, rfl⟩ := symbol_eq_float.mp head
    obtain ⟨value, valid, rfl⟩ := Option.map_eq_some_iff.mp denotes
    exact ⟨rest, by simp only [atom, kind, toOption_eq_some_iff.mp valid], tail⟩
  | string content quote =>
    obtain ⟨token, rest, rfl, head, tail⟩ := List.map_eq_cons_iff.mp same
    obtain ⟨kind, rfl, rfl⟩ := symbol_eq_string.mp head
    obtain rfl := Option.some.inj denotes
    exact ⟨rest, by simp only [atom, kind], tail⟩
  | name word =>
    obtain ⟨token, rest, rfl, head, tail⟩ := List.map_eq_cons_iff.mp same
    obtain ⟨kind, named⟩ := symbol_eq_name.mp head
    refine ⟨rest, ?_, tail⟩
    simp only [AtomTree.type?, nameType?] at denotes
    simp only [atom, kind, Declaration.word, named]
    split at denotes
    · rename_i t' found
      obtain rfl := Option.some.inj denotes
      simp only [found]
    · contradiction
    · rename_i unknown
      simp only [unknown, denotes]
  | array word arguments =>
    obtain ⟨token, others, rfl, head, tail⟩ := List.map_eq_cons_iff.mp same
    obtain ⟨kind, named⟩ := symbol_eq_name.mp head
    obtain ⟨rest, read, last⟩ := arrayRest_reads complete deep denotes others w tail ends
    refine ⟨rest, ?_, last⟩
    simp only [atom, kind, Declaration.word, named, (keyword?_array _).mpr word.property, read]
  | list word =>
    obtain ⟨token, rest, rfl, head, tail⟩ := List.map_eq_cons_iff.mp same
    obtain ⟨kind, named⟩ := symbol_eq_name.mp head
    obtain rfl := Option.some.inj denotes
    obtain rfl : symbols rest = w := tail
    refine ⟨rest, ?_, rfl⟩
    simp only [atom, kind, Declaration.word, named, (keyword?_list _).mpr word.property, listRest,
      @GoesOn.not_starts _ .lss rfl (by decide) _ ends]
    rfl
  | listOf word value =>
    obtain ⟨token, others, rfl, head, tail⟩ := List.map_eq_cons_iff.mp same
    obtain ⟨kind, named⟩ := symbol_eq_name.mp head
    obtain ⟨v, typed, rfl⟩ := Option.map_eq_some_iff.mp denotes
    obtain ⟨rest, read, last⟩ := listRest_reads complete deep typed others w tail ends
    refine ⟨rest, ?_, last⟩
    simp only [atom, kind, Declaration.word, named, (keyword?_list _).mpr word.property, read]

theorem suffixed_reads {tree : SuffixedTree} {t : Ty} (deep : tree.depth ≤ n)
    (denotes : tree.type? ctx.aliases = some t) :
    Reads (suffixed ctx inner) tree.yield nullableFollow t := by
  intro tokens w same ends
  obtain ⟨atom, pairs⟩ := tree
  obtain ⟨a, typed, rfl⟩ := Option.map_eq_some_iff.mp denotes
  rw [SuffixedTree.yield, List.append_assoc] at same
  obtain ⟨after, read, last⟩ := atom_reads complete deep typed tokens _ same
    (goesOn_pairs pairs ends)
  obtain ⟨rest, read', last'⟩ := brackets_reads ctx pairs a after w last ends
  exact ⟨rest, by simp only [suffixed, read, read'], last'⟩

variable (known : ∀ name t, ctx.aliases.find? name = some t → t ≠ .union [])

include known

theorem nullable_reads {tree : NullableTree} {t : Ty} (deep : tree.depth ≤ n)
    (denotes : tree.type? ctx.aliases = some t) :
    Reads (nullable ctx inner) tree.yield nullableFollow t := by
  intro tokens w same ends
  obtain ⟨question, body⟩ := tree
  rw [NullableTree.type?] at denotes
  split at denotes
  · rename_i b typed
    cases question with
    | false =>
      obtain rfl := Option.some.inj denotes
      rw [nullable, @not_starts .question rfl _ (by rw [same]; exact body.yield_ne_mark w)]
      exact suffixed_reads complete deep typed tokens w same ends
    | true =>
      obtain ⟨asks, others⟩ := starts_of_symbols rfl same
      obtain ⟨rest, read, last⟩ := suffixed_reads complete deep typed _ w others ends
      have made := union?_of_joined? denotes (Nat.le_refl 1) (SuffixedTree.populated known typed)
      exact ⟨rest, by simp only [nullable, asks, if_true, read, made], last⟩
  · contradiction

theorem members_reads {trees : List NullableTree} {types : List Ty} (deep : membersDepth trees ≤ n)
    (denoted : memberTypes? ctx.aliases trees = some types) {fuel : Nat}
    (enough : trees.length ≤ fuel) :
    Reads (members (nullable ctx inner) fuel) (membersYield trees) unionFollow types := by
  intro tokens w same ends
  induction trees generalizing types fuel tokens with
  | nil =>
    obtain rfl := Option.some.inj denoted
    obtain rfl : symbols tokens = w := same
    refine ⟨tokens, ?_, rfl⟩
    cases fuel with
    | zero => rfl
    | succ fuel =>
      rw [members, @GoesOn.not_starts _ .or rfl (by decide) _ ends]
      rfl
  | cons tree trees ih =>
    obtain ⟨fuel, rfl⟩ : ∃ k, fuel = k + 1 :=
      Nat.exists_eq_succ_of_ne_zero (Nat.ne_zero_of_lt enough)
    rw [membersDepth, Nat.max_le] at deep
    rw [member_append] at same
    rw [memberTypes?] at denoted
    split at denoted
    · rename_i t types' typed denoted'
      obtain rfl := Option.some.inj denoted
      obtain ⟨bar, body⟩ := starts_of_symbols rfl same
      obtain ⟨after, read, last⟩ := nullable_reads complete known deep.1 typed _ _ body
        (goesOn_members trees ends)
      obtain ⟨rest, more, last'⟩ := ih deep.2 denoted' (Nat.le_of_succ_le_succ enough) after last
      refine ⟨rest, ?_, last'⟩
      simp only [members, bar, if_true, read, more]
    · contradiction

theorem unionWith_reads {tree : UnionTree} {t : Ty} (deep : tree.depth ≤ n)
    (denotes : tree.type? ctx.aliases = some t) :
    Reads (unionWith ctx inner) tree.yield unionFollow t := by
  intro tokens w same ends
  obtain ⟨first, rest⟩ := tree
  rw [UnionTree.depth, Nat.max_le] at deep
  rw [UnionTree.yield, List.append_assoc] at same
  cases rest with
  | nil =>
    rw [UnionTree.type?_single] at denotes
    obtain ⟨rest, read, rfl⟩ := nullable_reads complete known deep.1 denotes tokens w same
      (goesOn_members [] ends)
    refine ⟨rest, ?_, rfl⟩
    simp only [unionWith, read, @GoesOn.not_starts _ .or rfl (by decide) _ ends]
    rfl
  | cons second more =>
    obtain ⟨t₁, t₂, types, typed, denoted, typed', joined⟩ := UnionTree.type?_several _ denotes
    obtain ⟨after, read, last⟩ := nullable_reads complete known deep.1 typed tokens _ same
      (goesOn_members (second :: more) ends)
    have enough : (second :: more).length ≤ after.length := by
      have lengths := congrArg List.length last
      have bars := membersYield_length (second :: more)
      rw [List.length_map, List.length_append] at lengths
      omega
    obtain ⟨rest, others, last'⟩ := members_reads complete known deep.2 denoted enough after w last
      ends
    have made := union?_of_joined? joined (NullableTree.populated known typed)
      (NullableTree.populated known typed')
    rw [member_append] at last
    have bar := (starts_of_symbols rfl last).1
    refine ⟨rest, ?_, last'⟩
    simp only [unionWith, read, bar, others, made]
    rfl

end Inner

/-- A reader that goes deep enough reads every derivation that denotes a type. -/
theorem union_reads {ctx : Context}
    (known : ∀ name t, ctx.aliases.find? name = some t → t ≠ .union []) {depth : Nat}
    {tree : UnionTree} {t : Ty} (deep : tree.depth < depth)
    (denotes : tree.type? ctx.aliases = some t) :
    Reads (union ctx depth) tree.yield unionFollow t := by
  induction depth generalizing tree t with
  | zero => contradiction
  | succ depth ih =>
    exact unionWith_reads (fun u t deep denotes => ih deep denotes) known
      (Nat.le_of_lt_succ deep) denotes

/-- A sequence of tokens is read as a type exactly when one of the derivations of
the sequence denotes it. -/
theorem typeOfTokens_eq_ok_iff {ctx : Context}
    (known : ∀ name t, ctx.aliases.find? name = some t → t ≠ .union []) {tokens : List Token}
    (once : EndsOnce tokens) (t : Ty) : typeOfTokens ctx tokens = .ok t ↔
      ∃ tree : UnionTree, symbols tokens = tree.yield ++ [.mark .eof] ∧
        tree.type? ctx.aliases = some t := by
  constructor
  · intro read
    rw [typeOfTokens] at read
    split at read
    · contradiction
    · rename_i u rest found
      split at read
      · rename_i ends
        obtain rfl := Except.ok.inj read
        obtain ⟨tree, same, denotes⟩ := union_sound ctx _ tokens u rest found
        have last := (@startsWithKind_iff .eof rfl rest).mp ends
        rw [last] at same
        rw [once _ _ same] at same
        exact ⟨tree, same, denotes⟩
      · contradiction
  · rintro ⟨tree, same, denotes⟩
    have deep : tree.depth < tokens.length := by
      have lengths := congrArg List.length same
      have bound := tree.depth_le
      simp only [List.length_map, List.length_append, List.length_singleton] at lengths
      omega
    obtain ⟨rest, read, last⟩ := union_reads known deep denotes tokens _ same (.eof [])
    rw [typeOfTokens, read]
    exact if_pos (starts_of_symbols rfl last).1

/-- The text is scanned, and the tree derives all of its symbols up to the end. -/
def Derives (source : Bytes) (tree : UnionTree) : Prop :=
  ∃ tokens, scan source = .ok tokens ∧ symbols tokens = tree.yield ++ [.mark .eof]

/-- A number token is refused by the readers of numbers only for its size. -/
def RefusedForSize (token : Token) : Prop :=
  (token.kind = .integer → readInt64 token.literal ≠ .error .malformed) ∧
    (token.kind = .float →
      (Binary.read token.literal : Except NumberError Double) ≠ .error .malformed)

theorem refusedForSize_of_scan {source : Bytes} {tokens : List Token}
    (scanned : scan source = .ok tokens) {token : Token} (member : token ∈ tokens) :
    RefusedForSize token := by
  constructor
  · intro integer
    obtain ⟨n, kind, literal⟩ := numeral_of_scan scanned member (.inl integer)
    rw [literal]
    exact n.readInt64_not_malformed (kind.symm.trans integer)
  · intro float
    obtain ⟨n, kind, literal⟩ := numeral_of_scan scanned member (.inr float)
    rw [literal]
    exact n.read_not_malformed

theorem parse_eq_ok_iff {aliases : Aliases}
    (known : ∀ name t, aliases.find? name = some t → t ≠ .union []) (source : Bytes) (t : Ty) :
    parse aliases source = .ok t ↔
      ∃ tree, Derives source tree ∧ tree.type? aliases = some t := by
  rw [parse]
  cases scanned : scan source with
  | error e => simp [Derives, scanned]
  | ok tokens =>
    have once := endsOnce_of_scan scanned
    refine (@typeOfTokens_eq_ok_iff ⟨source, aliases⟩ known tokens once t).trans ?_
    simp [Derives, scanned]

/-- A declaration denotes a type exactly when it has a derivation that denotes it,
and then this is its only derivation. Where names stand for types, none of them
may be a union without members, which cannot be built. -/
theorem parse_iff_derivation (aliases : Aliases)
    (known : ∀ name t, aliases.find? name = some t → t ≠ .union []) (source : Bytes) :
    (∀ t, parse aliases source = .ok t ↔
      ∃ tree, Derives source tree ∧ tree.type? aliases = some t) ∧
    (∀ tree tree', Derives source tree → Derives source tree' → tree = tree') ∧
    (∀ tokens, scan source = .ok tokens → ∀ token ∈ tokens, RefusedForSize token) := by
  refine ⟨parse_eq_ok_iff known source, ?_, fun tokens scanned _ => refusedForSize_of_scan scanned⟩
  rintro tree tree' ⟨tokens, scanned, same⟩ ⟨tokens', scanned', same'⟩
  obtain rfl := Except.ok.inj (scanned.symm.trans scanned')
  exact (tree.cancels tree' _ _ (same.symm.trans same') (.eof []) (.eof [])).1

/-- A name that stands for a union, under a question mark and before brackets. -/
theorem parse_nullable_alias :
    (∀ name t, Aliases.find? [(utf8 "id", .union [.integer, .string])] name = some t →
      t ≠ .union []) ∧
    parse [(utf8 "id", .union [.integer, .string])] (utf8 "?id|id[]") =
      .ok (.union [.null, .integer, .string, .array .any (.union [.integer, .string])]) := by
  have known : ∀ name t, Aliases.find? [(utf8 "id", .union [.integer, .string])] name = some t →
      t ≠ .union [] := by
    intro name t found
    rw [Aliases.find?] at found
    split at found
    · obtain rfl := Option.some.inj found
      exact nofun
    · contradiction
  have denotes : nameType? [(utf8 "id", .union [.integer, .string])] (utf8 "id") =
      some (.union [.integer, .string]) := by
    have unknown : keyword? (utf8 "id") = none := Option.isNone_iff_eq_none.mp (by decide +kernel)
    rw [nameType?, unknown]
    rfl
  let name : AtomTree := .name ⟨utf8 "id", by decide +kernel⟩
  refine ⟨known, ((parse_iff_derivation _ known _).1 _).mpr
    ⟨.mk (.mk true (.mk name 0)) [.mk false (.mk name 1)], ⟨_, rfl, rfl⟩, ?_⟩⟩
  simp [UnionTree.type?, NullableTree.type?, SuffixedTree.type?, memberTypes?, AtomTree.type?, name,
    denotes, joined?, arrayed, Ty.isMixed, alternatives]

end Conform.Declaration
