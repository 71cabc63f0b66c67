import Conform.Proofs.Declaration.Symbols

/-! Every declaration that can be read has a derivation that denotes what was
read. Each reader is proved against the trees of its rule, given a reader for the
unions inside brackets that is already known to follow trees. -/
namespace Conform.Declaration

/-- What was read up to the rest is the yield of a tree that denotes the type. -/
def Follows (aliases : Aliases) (tokens : List Token) (t : Ty) (rest : List Token) : Prop :=
  ∃ tree : UnionTree, symbols tokens = tree.yield ++ symbols rest ∧ tree.type? aliases = some t

/-- Whatever the reader reads follows a tree. -/
def Sound (aliases : Aliases) (reader : Reader Ty) : Prop :=
  ∀ tokens t rest, reader tokens = .ok (t, rest) → Follows aliases tokens t rest

section Elements

theorem symbol_of_keyToken {token : Token} (isKey : isKeyToken token = true) :
    ∃ key : KeySymbol, token.symbol = key.symbol ∧ keyTextOf token = key.text := by
  simp only [isKeyToken, Bool.or_eq_true, beq_iff_eq] at isKey
  rcases isKey with (kind | kind) | kind
  · exact ⟨.name token.literal, by simp [Token.symbol, kind, KeySymbol.symbol],
      by simp [keyTextOf, kind, KeySymbol.text]⟩
  · refine ⟨.integer token.literal, by simp [Token.symbol, kind, KeySymbol.symbol], ?_⟩
    cases read : readInt64 token.literal <;> simp [keyTextOf, kind, KeySymbol.text, read]
  · exact ⟨.string token.literal token.quote, by simp [Token.symbol, kind, KeySymbol.symbol],
      by simp [keyTextOf, kind, KeySymbol.text]⟩

/-- The key of an element that is found in the tokens is the yield of a key. -/
theorem elementKey?_sound {tokens rest : List Token} {text : Bytes} {optional : Bool}
    (found : elementKey? tokens = some (text, optional, rest)) :
    ∃ key : ElementKey, symbols tokens = key.yield ++ symbols rest ∧ key.written.text = text ∧
      key.optional = optional := by
  match tokens with
  | [] => contradiction
  | [_] => contradiction
  | first :: mark :: tail =>
    simp only [elementKey?] at found
    split at found
    · contradiction
    · rename_i isKey
      obtain ⟨written, same, texts⟩ := symbol_of_keyToken (by simpa using isKey)
      split at found
      · rename_i colon
        obtain ⟨rfl, rfl, rfl⟩ := by simpa using found
        refine ⟨⟨written, false⟩, ?_, texts.symm, rfl⟩
        have marked := (@symbol_eq_mark .colon rfl mark).mpr colon
        simp [ElementKey.yield, optionalMark, same, marked]
      · split at found
        · rename_i question
          split at found
          · rename_i colonToken after
            split at found
            · rename_i colon
              obtain ⟨rfl, rfl, rfl⟩ := by simpa using found
              refine ⟨⟨written, true⟩, ?_, texts.symm, rfl⟩
              have first := (@symbol_eq_mark .question rfl mark).mpr question
              have second := (@symbol_eq_mark .colon rfl colonToken).mpr colon
              simp [ElementKey.yield, optionalMark, same, first, second]
            · contradiction
          · contradiction
        · contradiction

/-- An element starts with its key, or has none and starts with its type. -/
theorem elementStart_sound {index next : Nat} {tokens start : List Token} {text : Bytes}
    {optional : Bool}
    (choice : (match elementKey? tokens with
      | some (text, optional, rest) => (text, optional, index, rest)
      | none => (decimalNat index, false, index + 1, tokens)) = (text, optional, next, start)) :
    ∃ key : Option ElementKey, symbols tokens = keyYield key ++ symbols start ∧
      fieldText index key = text ∧ fieldOptional key = optional ∧ nextIndex index key = next := by
  cases found : elementKey? tokens with
  | none =>
    rw [found] at choice
    cases choice
    exact ⟨none, rfl, rfl, rfl, rfl⟩
  | some triple =>
    rw [found] at choice
    cases choice
    obtain ⟨key, same, texts, flag⟩ := elementKey?_sound found
    exact ⟨some key, same, texts, flag, rfl⟩

variable {aliases : Aliases} {inner : Reader Ty} (sound : Sound aliases inner)

include sound

/-- What is read of the elements of a shape: nothing, or elements after one
another with commas between them and perhaps one at the end. -/
theorem elements_sound {fuel index : Nat} {tokens rest : List Token} {fields : List (Field Ty)}
    (read : elements inner fuel index tokens = .ok (fields, rest)) :
    (fields = [] ∧ rest = tokens) ∨
      ∃ (first : ElementTree) (others : List ElementTree) (trailing : Bool),
        symbols tokens = first.yield ++ elementsYield others ++ optionalMark trailing .comma ++
          symbols rest ∧
        fields? aliases index (first :: others) = some fields := by
  induction fuel generalizing index tokens fields with
  | zero =>
    obtain ⟨rfl, rfl⟩ := Prod.mk.inj (Except.ok.inj read)
    exact Or.inl ⟨rfl, rfl⟩
  | succ fuel ih =>
    rw [elements] at read
    split at read
    · obtain ⟨rfl, rfl⟩ := Prod.mk.inj (Except.ok.inj read)
      exact Or.inl ⟨rfl, rfl⟩
    · right
      split at read
      rename_i text optional next start choice
      obtain ⟨key, front, rfl, rfl, rfl⟩ := elementStart_sound choice
      split at read
      · contradiction
      · rename_i t after inside
        obtain ⟨tree, same, denotes⟩ := sound start t after inside
        have element : symbols tokens = (ElementTree.mk key tree).yield ++ symbols after := by
          rw [front, same, ElementTree.yield, List.append_assoc]
        split at read
        · rename_i comma
          have next := (@startsWithKind_iff .comma rfl after).mp comma
          split at read
          · contradiction
          · rename_i others rest' more
            obtain ⟨rfl, rfl⟩ := Prod.mk.inj (Except.ok.inj read)
            rcases ih more with ⟨rfl, rfl⟩ | ⟨second, trees, trailing, remaining, denoted⟩
            · refine ⟨.mk key tree, [], true, ?_, ?_⟩
              · rw [element, next]
                simp [elementsYield, optionalMark]
              · simp [fields?, ElementTree.type?, denotes, ElementTree.key]
            · refine ⟨.mk key tree, second :: trees, trailing, ?_, ?_⟩
              · rw [element, next, remaining]
                simp [elementsYield]
              · rw [fields?]
                simp only [ElementTree.type?, denotes, ElementTree.key, denoted]
        · obtain ⟨rfl, rfl⟩ := Prod.mk.inj (Except.ok.inj read)
          refine ⟨.mk key tree, [], false, ?_, ?_⟩
          · simp [element, elementsYield, optionalMark]
          · simp [fields?, ElementTree.type?, denotes, ElementTree.key]

end Elements

section Readers

variable {ctx : Context} {inner : Reader Ty} (sound : Sound ctx.aliases inner)

include sound

theorem shape_sound {tokens rest : List Token} {t : Ty}
    (read : shape ctx inner tokens = .ok (t, rest)) : ∃ tree : ArgumentsTree,
      symbols tokens = tree.yield ++ symbols rest ∧ tree.type? ctx.aliases = some t := by
  rw [shape] at read
  split at read
  · contradiction
  · rename_i inside opened
    split at read
    · contradiction
    · rename_i fields after found
      split at read
      · contradiction
      · rename_i last closed
        split at read
        · rename_i made
          obtain ⟨rfl, rfl⟩ := Prod.mk.inj (Except.ok.inj read)
          have made := (shape?_eq_ok_iff fields _).mp made
          have front := symbols_of_skip (by rfl) opened
          have back := symbols_of_skip (by rfl) closed
          rcases elements_sound sound found with
            ⟨rfl, rfl⟩ | ⟨first, others, trailing, same, denoted⟩
          · refine ⟨.emptyShape, ?_, ?_⟩
            · rw [front, back]
              rfl
            · exact made
          · refine ⟨.shape first others trailing, ?_, ?_⟩
            · rw [front, same, back]
              simp [ArgumentsTree.yield]
            · rw [ArgumentsTree.type?_shape, denoted]
              exact made
        · contradiction

theorem arrayRest_sound {tokens rest : List Token} {t : Ty}
    (read : arrayRest ctx inner tokens = .ok (t, rest)) : ∃ tree : ArgumentsTree,
      symbols tokens = tree.yield ++ symbols rest ∧ tree.type? ctx.aliases = some t := by
  rw [arrayRest] at read
  split at read
  · exact shape_sound sound read
  · split at read
    · obtain ⟨rfl, rfl⟩ := Prod.mk.inj (Except.ok.inj read)
      exact ⟨.none, rfl, rfl⟩
    · rename_i opens
      have front := (@startsWithKind_iff .lss rfl tokens).mp (by simpa using opens)
      split at read
      · contradiction
      · rename_i first after firstRead
        obtain ⟨key, keySymbols, keyType⟩ := sound _ _ _ firstRead
        split at read
        · rename_i closes
          obtain ⟨rfl, rfl⟩ := Prod.mk.inj (Except.ok.inj read)
          have back := (@startsWithKind_iff .gtr rfl after).mp closes
          refine ⟨.value key, ?_, ?_⟩
          · rw [front, keySymbols, back]
            simp [ArgumentsTree.yield]
          · simp [ArgumentsTree.type?, keyType]
        · split at read
          · contradiction
          · rename_i second separated
            split at read
            · contradiction
            · rename_i value after' secondRead
              obtain ⟨tree, valueSymbols, valueType⟩ := sound _ _ _ secondRead
              split at read
              · contradiction
              · rename_i last closed
                split at read
                · contradiction
                · rename_i kind valid
                  obtain ⟨rfl, rfl⟩ := Prod.mk.inj (Except.ok.inj read)
                  have middle := symbols_of_skip (by rfl) separated
                  have back := symbols_of_skip (by rfl) closed
                  refine ⟨.keyed key tree, ?_, ?_⟩
                  · rw [front, keySymbols, middle, valueSymbols, back]
                    simp [ArgumentsTree.yield]
                  · simp [ArgumentsTree.type?, keyType, valueType, valid, Except.toOption]

theorem listRest_sound (word : Spelling "list") {tokens rest : List Token} {t : Ty}
    (read : listRest ctx inner tokens = .ok (t, rest)) : ∃ tree : AtomTree,
      .name word.val :: symbols tokens = tree.yield ++ symbols rest ∧
        tree.type? ctx.aliases = some t := by
  rw [listRest] at read
  split at read
  · obtain ⟨rfl, rfl⟩ := Prod.mk.inj (Except.ok.inj read)
    exact ⟨.list word, rfl, rfl⟩
  · rename_i opens
    have front := (@startsWithKind_iff .lss rfl tokens).mp (by simpa using opens)
    split at read
    · contradiction
    · rename_i value after valueRead
      obtain ⟨tree, valueSymbols, valueType⟩ := sound _ _ _ valueRead
      split at read
      · contradiction
      · rename_i last closed
        obtain ⟨rfl, rfl⟩ := Prod.mk.inj (Except.ok.inj read)
        have back := symbols_of_skip (by rfl) closed
        refine ⟨.listOf word tree, ?_, ?_⟩
        · rw [front, valueSymbols, back]
          simp [AtomTree.yield]
        · simp [AtomTree.type?, valueType]

theorem word_sound (name : Bytes) {tokens rest : List Token} {t : Ty}
    (read : word ctx inner name tokens = .ok (t, rest)) : ∃ tree : AtomTree,
      .name name :: symbols tokens = tree.yield ++ symbols rest ∧
        tree.type? ctx.aliases = some t := by
  rw [word] at read
  split at read
  · rename_i t' known
    obtain ⟨rfl, rfl⟩ := Prod.mk.inj (Except.ok.inj read)
    have plain := plain_of_keyword (by rw [known]; exact nofun) (by rw [known]; exact nofun)
    refine ⟨.name ⟨name, plain⟩, rfl, ?_⟩
    simp [AtomTree.type?, nameType?, known]
  · rename_i known
    obtain ⟨tree, same, denotes⟩ := arrayRest_sound sound read
    exact ⟨.array ⟨name, (keyword?_array name).mp known⟩ tree, congrArg (_ :: ·) same, denotes⟩
  · rename_i known
    exact listRest_sound sound ⟨name, (keyword?_list name).mp known⟩ read
  · rename_i unknown
    split at read
    · rename_i t' found
      obtain ⟨rfl, rfl⟩ := Prod.mk.inj (Except.ok.inj read)
      have plain := plain_of_keyword (by rw [unknown]; exact nofun) (by rw [unknown]; exact nofun)
      refine ⟨.name ⟨name, plain⟩, rfl, ?_⟩
      simp [AtomTree.type?, nameType?, unknown, found]
    · contradiction

theorem atom_sound {tokens rest : List Token} {t : Ty}
    (read : atom ctx inner tokens = .ok (t, rest)) : ∃ tree : AtomTree,
      symbols tokens = tree.yield ++ symbols rest ∧ tree.type? ctx.aliases = some t := by
  cases tokens with
  | nil => contradiction
  | cons token after =>
    rw [atom] at read
    split at read
    · rename_i kind
      split at read
      · rename_i n value
        obtain ⟨rfl, rfl⟩ := Prod.mk.inj (Except.ok.inj read)
        exact ⟨.integer token.literal, by simp [Token.symbol, kind, AtomTree.yield],
          by simp [AtomTree.type?, value, Except.toOption]⟩
      · contradiction
    · rename_i kind
      split at read
      · rename_i x value
        obtain ⟨rfl, rfl⟩ := Prod.mk.inj (Except.ok.inj read)
        exact ⟨.float token.literal, by simp [Token.symbol, kind, AtomTree.yield],
          by simp [AtomTree.type?, value, Except.toOption]⟩
      · contradiction
    · rename_i kind
      obtain ⟨rfl, rfl⟩ := Prod.mk.inj (Except.ok.inj read)
      exact ⟨.string token.literal token.quote, by simp [Token.symbol, kind, AtomTree.yield], rfl⟩
    · rename_i kind
      obtain ⟨tree, same, denotes⟩ := word_sound sound token.literal read
      exact ⟨tree, by rw [← same]; simp [Token.symbol, kind], denotes⟩
    · contradiction

omit sound in
theorem brackets_sound {t u : Ty} {tokens rest : List Token}
    (read : brackets ctx t tokens = .ok (u, rest)) :
    ∃ pairs : Nat, symbols tokens = pairsYield pairs ++ symbols rest ∧ arrayed pairs t = u := by
  fun_induction brackets ctx t tokens with
  | case1 t =>
    obtain ⟨rfl, rfl⟩ := Prod.mk.inj (Except.ok.inj read)
    exact ⟨0, rfl, rfl⟩
  | case2 => contradiction
  | case3 t token opens close tail closes ih =>
    obtain ⟨pairs, same, made⟩ := ih read
    refine ⟨pairs + 1, ?_, made⟩
    have first := (@symbol_eq_mark .lbrack rfl token).mpr opens
    have second := (@symbol_eq_mark .rbrack rfl close).mpr closes
    simp [first, second, same, pairsYield]
  | case4 => contradiction
  | case5 t token tail other =>
    obtain ⟨rfl, rfl⟩ := Prod.mk.inj (Except.ok.inj read)
    exact ⟨0, rfl, rfl⟩

theorem suffixed_sound {tokens rest : List Token} {t : Ty}
    (read : suffixed ctx inner tokens = .ok (t, rest)) : ∃ tree : SuffixedTree,
      symbols tokens = tree.yield ++ symbols rest ∧ tree.type? ctx.aliases = some t := by
  rw [suffixed] at read
  split at read
  · contradiction
  · rename_i u after atomRead
    obtain ⟨tree, same, denotes⟩ := atom_sound sound atomRead
    obtain ⟨pairs, others, rfl⟩ := brackets_sound read
    refine ⟨.mk tree pairs, ?_, ?_⟩
    · rw [same, others, SuffixedTree.yield, List.append_assoc]
    · simp [SuffixedTree.type?, denotes]

theorem nullable_sound {tokens rest : List Token} {t : Ty}
    (read : nullable ctx inner tokens = .ok (t, rest)) : ∃ tree : NullableTree,
      symbols tokens = tree.yield ++ symbols rest ∧ tree.type? ctx.aliases = some t := by
  rw [nullable] at read
  split at read
  · rename_i question
    have front := (@startsWithKind_iff .question rfl tokens).mp question
    split at read
    · contradiction
    · rename_i u after bodyRead
      split at read
      · rename_i made
        obtain ⟨rfl, rfl⟩ := Prod.mk.inj (Except.ok.inj read)
        obtain ⟨tree, same, denotes⟩ := suffixed_sound sound bodyRead
        have joined := ((union?_eq_ok_iff _ _).mp made).1
        refine ⟨.mk true tree, ?_, ?_⟩
        · rw [front, same]
          simp [NullableTree.yield, optionalMark]
        · simp [NullableTree.type?, denotes, joined]
      · contradiction
  · obtain ⟨tree, same, denotes⟩ := suffixed_sound sound read
    refine ⟨.mk false tree, ?_, ?_⟩
    · simp [same, NullableTree.yield, optionalMark]
    · simp [NullableTree.type?, denotes]

theorem members_sound {fuel : Nat} {tokens rest : List Token} {types : List Ty}
    (read : members (nullable ctx inner) fuel tokens = .ok (types, rest)) :
    ∃ trees : List NullableTree, symbols tokens = membersYield trees ++ symbols rest ∧
      memberTypes? ctx.aliases trees = some types := by
  induction fuel generalizing tokens types with
  | zero =>
    obtain ⟨rfl, rfl⟩ := Prod.mk.inj (Except.ok.inj read)
    exact ⟨[], rfl, rfl⟩
  | succ fuel ih =>
    rw [members] at read
    split at read
    · rename_i bar
      have front := (@startsWithKind_iff .or rfl tokens).mp bar
      split at read
      · contradiction
      · rename_i t after itemRead
        split at read
        · contradiction
        · rename_i more last othersRead
          obtain ⟨rfl, rfl⟩ := Prod.mk.inj (Except.ok.inj read)
          obtain ⟨tree, same, denotes⟩ := nullable_sound sound itemRead
          obtain ⟨trees, others, denoted⟩ := ih othersRead
          refine ⟨tree :: trees, ?_, ?_⟩
          · rw [front, same, others, membersYield]
            simp
          · simp [memberTypes?, denotes, denoted]
    · obtain ⟨rfl, rfl⟩ := Prod.mk.inj (Except.ok.inj read)
      exact ⟨[], rfl, rfl⟩

theorem unionWith_sound : Sound ctx.aliases (unionWith ctx inner) := by
  intro tokens t rest read
  rw [unionWith] at read
  split at read
  · contradiction
  · rename_i first after firstRead
    obtain ⟨tree, same, denotes⟩ := nullable_sound sound firstRead
    split at read
    · obtain ⟨rfl, rfl⟩ := Prod.mk.inj (Except.ok.inj read)
      refine ⟨.mk tree [], ?_, ?_⟩
      · simp [same, UnionTree.yield, membersYield]
      · simp [UnionTree.type?, denotes, memberTypes?]
    · rename_i bar
      split at read
      · contradiction
      · rename_i types last othersRead
        split at read
        · rename_i made
          obtain ⟨rfl, rfl⟩ := Prod.mk.inj (Except.ok.inj read)
          obtain ⟨trees, others, denoted⟩ := members_sound sound othersRead
          obtain ⟨joined, two⟩ := (union?_eq_ok_iff _ _).mp made
          refine ⟨.mk tree trees, ?_, ?_⟩
          · rw [same, others, UnionTree.yield, List.append_assoc]
          · rw [UnionTree.type?, denotes, denoted]
            cases types with
            | nil => exact congrArg some (joined?_single joined two).symm
            | cons second more => exact joined
        · contradiction

end Readers

/-- The readers nest, each handing itself down to what stands in brackets. -/
theorem union_sound (ctx : Context) (depth : Nat) : Sound ctx.aliases (union ctx depth) := by
  induction depth with
  | zero => exact nofun
  | succ depth ih => exact unionWith_sound ih

end Conform.Declaration
