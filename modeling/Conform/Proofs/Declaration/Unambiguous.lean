import Conform.Proofs.Declaration.Grammar
import Mathlib.Tactic.Common

/-! The grammar is unambiguous: a sequence of symbols is the yield of one tree at
most. A tree can be told from what follows it by the marks that may stand there,
so that two trees at the front of the same symbols are the same tree and leave
the same rest. -/
namespace Conform.Declaration

/-- The symbols are at their end or go on with one of the marks. -/
def GoesOn (marks : List TokenKind) (rest : List Symbol) : Prop :=
  ∀ s ∈ rest.head?, ∃ kind ∈ marks, s = .mark kind

/-- The marks that may stand after a union. -/
def unionFollow : List TokenKind := [.gtr, .comma, .rbrace, .eof]

def nullableFollow : List TokenKind := .or :: unionFollow

def atomFollow : List TokenKind := .lbrack :: nullableFollow

/-- The marks that may stand after the first symbol of an atom. -/
def headFollow : List TokenKind := .lss :: .lbrace :: atomFollow

namespace GoesOn

variable {marks : List TokenKind} {rest : List Symbol}

theorem cons {kind : TokenKind} (member : kind ∈ marks) (rest : List Symbol) :
    GoesOn marks (.mark kind :: rest) := by
  intro s head
  obtain rfl := Option.some.inj head
  exact ⟨kind, member, rfl⟩

theorem gtr (rest : List Symbol) : GoesOn unionFollow (.mark .gtr :: rest) :=
  cons (by decide) rest

theorem comma (rest : List Symbol) : GoesOn unionFollow (.mark .comma :: rest) :=
  cons (by decide) rest

theorem eof (rest : List Symbol) : GoesOn unionFollow (.mark .eof :: rest) :=
  cons (by decide) rest

theorem mono {more : List TokenKind} (ends : GoesOn marks rest) (inside : marks ⊆ more) :
    GoesOn more rest := by
  intro s head
  obtain ⟨kind, member, same⟩ := ends s head
  exact ⟨kind, inside member, same⟩

/-- What goes on with some marks does not start with another one. -/
theorem ne_cons {kind : TokenKind} (other : kind ∉ marks) (ends : GoesOn marks rest)
    (tail : List Symbol) : rest ≠ .mark kind :: tail := by
  rintro rfl
  obtain ⟨kind', member, same⟩ := ends _ rfl
  obtain rfl := Symbol.mark.inj same
  exact other member

end GoesOn

theorem goesOn_pairs (pairs : Nat) {rest : List Symbol} (ends : GoesOn nullableFollow rest) :
    GoesOn atomFollow (pairsYield pairs ++ rest) := by
  cases pairs with
  | zero => exact ends.mono (List.subset_cons_self _ _)
  | succ n => exact .cons (by decide) _

theorem goesOn_members (trees : List NullableTree) {rest : List Symbol}
    (ends : GoesOn unionFollow rest) : GoesOn nullableFollow (membersYield trees ++ rest) := by
  cases trees with
  | nil => exact ends.mono (List.subset_cons_self _ _)
  | cons m more => exact .cons (by decide) _

theorem goesOn_elements (trees : List ElementTree) (trailing : Bool) (rest : List Symbol) :
    GoesOn unionFollow
      (elementsYield trees ++ (optionalMark trailing .comma ++ .mark .rbrace :: rest)) := by
  cases trees with
  | nil => cases trailing <;> exact .cons (by decide) _
  | cons e more => exact .cons (by decide) _

/-! ### First symbols -/

/-- The symbol is no mark. -/
def Symbol.isContent : Symbol → Bool
  | .mark _ => false
  | _ => true

theorem AtomTree.yield_head (a : AtomTree) : ∃ s x, a.yield = s :: x ∧ s.isContent = true ∧
    ∀ w, GoesOn atomFollow w → GoesOn headFollow (x ++ w) := by
  have keep : ∀ w, GoesOn atomFollow w → GoesOn headFollow ([] ++ w) := by
    intro w ends
    exact ends.mono (by simp [headFollow])
  cases a with
  | integer literal => exact ⟨_, [], rfl, rfl, keep⟩
  | float literal => exact ⟨_, [], rfl, rfl, keep⟩
  | string content quote => exact ⟨_, [], rfl, rfl, keep⟩
  | name word => exact ⟨_, [], rfl, rfl, keep⟩
  | array word arguments =>
    refine ⟨_, arguments.yield, rfl, rfl, ?_⟩
    cases arguments with
    | none => exact keep
    | value _ | keyed _ _ | emptyShape | shape _ _ _ => exact fun w _ => .cons (by decide) _
  | list word => exact ⟨_, [], rfl, rfl, keep⟩
  | listOf word value => exact ⟨_, _, rfl, rfl, fun w _ => .cons (by decide) _⟩

theorem SuffixedTree.yield_head (t : SuffixedTree) : ∃ s x, t.yield = s :: x ∧ s.isContent = true ∧
    ∀ w, GoesOn nullableFollow w → GoesOn headFollow (x ++ w) := by
  obtain ⟨atom, pairs⟩ := t
  obtain ⟨s, x, same, content, ends⟩ := atom.yield_head
  refine ⟨s, x ++ pairsYield pairs, by rw [SuffixedTree.yield, same]; rfl, content, ?_⟩
  intro w follow
  rw [List.append_assoc]
  exact ends _ (goesOn_pairs pairs follow)

theorem SuffixedTree.yield_ne_mark (t : SuffixedTree) (w : List Symbol) {kind : TokenKind}
    (x : List Symbol) : t.yield ++ w ≠ .mark kind :: x := by
  obtain ⟨s, y, same, content, _⟩ := t.yield_head
  rw [same]
  intro clash
  rw [(List.cons.inj clash).1] at content
  contradiction

/-- A union starts with a question mark or with a symbol that is no mark. -/
theorem UnionTree.yield_ne_mark (u : UnionTree) {kind : TokenKind} (other : kind ≠ .question)
    (w x : List Symbol) : u.yield ++ w ≠ .mark kind :: x := by
  obtain ⟨⟨question, body⟩, rest⟩ := u
  rw [UnionTree.yield, NullableTree.yield, List.append_assoc, List.append_assoc]
  cases question with
  | true =>
    intro clash
    exact other (Symbol.mark.inj (List.cons.inj clash).1).symm
  | false => exact body.yield_ne_mark _ x

/-- No key with its colon stands at the front of a union: after the first symbol
of a union there is neither a colon nor a question mark. -/
theorem UnionTree.yield_ne_key (u : UnionTree) {w : List Symbol} (ends : GoesOn unionFollow w)
    (key : ElementKey) (x : List Symbol) : u.yield ++ w ≠ key.yield ++ x := by
  obtain ⟨⟨question, body⟩, rest⟩ := u
  obtain ⟨written, optional⟩ := key
  obtain ⟨s, y, same, _, follow⟩ := body.yield_head
  rw [UnionTree.yield, NullableTree.yield, ElementKey.yield, List.append_assoc,
    List.append_assoc, same]
  intro clash
  cases question with
  | true => cases written <;> cases (List.cons.inj clash).1
  | false =>
    have second := follow _ (goesOn_members rest ends)
    have tail := (List.cons.inj clash).2
    cases optional with
    | true => exact second.ne_cons (by decide) _ tail
    | false => exact second.ne_cons (by decide) _ tail

theorem ElementTree.yield_ne_rbrace (e : ElementTree) (w x : List Symbol) :
    e.yield ++ w ≠ .mark .rbrace :: x := by
  obtain ⟨key, u⟩ := e
  cases key with
  | none => exact @UnionTree.yield_ne_mark u .rbrace (by decide) w x
  | some key =>
    intro clash
    obtain ⟨written, optional⟩ := key
    cases written <;> cases (List.cons.inj clash).1

/-! ### Cancellation -/

/-- The tree is the only one at the front of its symbols. -/
def UnionTree.Cancels (u : UnionTree) : Prop :=
  ∀ (v : UnionTree) (w w' : List Symbol), u.yield ++ w = v.yield ++ w' →
    GoesOn unionFollow w → GoesOn unionFollow w' → u = v ∧ w = w'

theorem KeySymbol.symbol_injective {k l : KeySymbol} (same : k.symbol = l.symbol) : k = l := by
  cases k <;> cases l <;> simp_all [KeySymbol.symbol]

theorem optionalMark_cancel {kind : TokenKind} {present present' : Bool} {w w' : List Symbol}
    (same : optionalMark present kind ++ w = optionalMark present' kind ++ w')
    (other : ∀ x, w ≠ .mark kind :: x) (other' : ∀ x, w' ≠ .mark kind :: x) :
    present = present' ∧ w = w' := by
  cases present <;> cases present'
  · exact ⟨rfl, same⟩
  · exact absurd same (other w')
  · exact absurd same.symm (other' w)
  · exact ⟨rfl, (List.cons.inj same).2⟩

theorem ElementKey.cancel {key key' : ElementKey} {w w' : List Symbol}
    (same : key.yield ++ w = key'.yield ++ w') : key = key' ∧ w = w' := by
  obtain ⟨written, optional⟩ := key
  obtain ⟨written', optional'⟩ := key'
  simp only [ElementKey.yield, List.cons_append, List.append_assoc, List.nil_append,
    List.cons.injEq] at same
  obtain rfl := KeySymbol.symbol_injective same.1
  obtain ⟨rfl, tail⟩ := optionalMark_cancel same.2 (by simp) (by simp)
  exact ⟨rfl, (List.cons.inj tail).2⟩

theorem pairs_cancel {pairs pairs' : Nat} {w w' : List Symbol}
    (same : pairsYield pairs ++ w = pairsYield pairs' ++ w') (ends : GoesOn nullableFollow w)
    (ends' : GoesOn nullableFollow w') : pairs = pairs' ∧ w = w' := by
  induction pairs generalizing pairs' with
  | zero =>
    cases pairs' with
    | zero => exact ⟨rfl, same⟩
    | succ n => exact absurd same (ends.ne_cons (by decide) _)
  | succ n ih =>
    cases pairs' with
    | zero => exact absurd same.symm (ends'.ne_cons (by decide) _)
    | succ m =>
      obtain ⟨rfl, tail⟩ := ih (List.cons.inj (List.cons.inj same).2).2
      exact ⟨rfl, tail⟩

theorem PlainName.ne_spelling (word : PlainName) :
    (∀ array : Spelling "array", word.val ≠ array.val) ∧
      ∀ list : Spelling "list", word.val ≠ list.val := by
  constructor
  · intro array same
    exact word.property.1 (same ▸ array.property)
  · intro list same
    exact word.property.2 (same ▸ list.property)

theorem array_ne_list (array : Spelling "array") (list : Spelling "list") :
    array.val ≠ list.val := by
  intro same
  have clash := array.property
  rw [same, list.property] at clash
  exact absurd clash (by decide)

theorem leading_names {name name' : Bytes} {w w' : List Symbol}
    (same : Symbol.name name :: w = Symbol.name name' :: w') : name = name' :=
  Symbol.name.inj (List.cons.inj same).1

section Inner

variable {n : Nat} (inner : ∀ u : UnionTree, u.depth < n → u.Cancels)

include inner

theorem ElementTree.cancel {e f : ElementTree} (deep : e.depth < n) {w w' : List Symbol}
    (same : e.yield ++ w = f.yield ++ w') (ends : GoesOn unionFollow w)
    (ends' : GoesOn unionFollow w') : e = f ∧ w = w' := by
  obtain ⟨key, u⟩ := e
  obtain ⟨key', v⟩ := f
  rw [ElementTree.yield, ElementTree.yield, List.append_assoc, List.append_assoc] at same
  cases key with
  | none =>
    cases key' with
    | none =>
      obtain ⟨rfl, tail⟩ := inner u deep v w w' same ends ends'
      exact ⟨rfl, tail⟩
    | some key' => exact absurd same (u.yield_ne_key ends key' _)
  | some key =>
    cases key' with
    | none => exact absurd same.symm (v.yield_ne_key ends' key _)
    | some key' =>
      obtain ⟨rfl, types⟩ := ElementKey.cancel same
      obtain ⟨rfl, tail⟩ := inner u deep v w w' types ends ends'
      exact ⟨rfl, tail⟩

/-- Elements after a first one, an optional comma and a closing brace. -/
theorem elements_cancel {es fs : List ElementTree} (deep : elementsDepth es < n)
    {trailing trailing' : Bool} {w w' : List Symbol}
    (same : elementsYield es ++ (optionalMark trailing .comma ++ .mark .rbrace :: w) =
      elementsYield fs ++ (optionalMark trailing' .comma ++ .mark .rbrace :: w')) :
    es = fs ∧ trailing = trailing' ∧ w = w' := by
  induction es generalizing fs with
  | nil =>
    cases fs with
    | nil =>
      obtain ⟨flags, tail⟩ := optionalMark_cancel same (by simp) (by simp)
      exact ⟨rfl, flags, (List.cons.inj tail).2⟩
    | cons f more =>
      rw [element_append] at same
      cases trailing with
      | false => cases (List.cons.inj same).1
      | true => exact absurd (List.cons.inj same).2.symm (f.yield_ne_rbrace _ _)
  | cons e rest ih =>
    rw [elementsDepth, Nat.max_lt] at deep
    rw [element_append] at same
    cases fs with
    | nil =>
      cases trailing' with
      | false => cases (List.cons.inj same).1
      | true => exact absurd (List.cons.inj same).2 (e.yield_ne_rbrace _ _)
    | cons f more =>
      rw [element_append] at same
      obtain ⟨rfl, others⟩ := ElementTree.cancel inner deep.1 (List.cons.inj same).2
        (goesOn_elements rest trailing w) (goesOn_elements more trailing' w')
      obtain ⟨rfl, flags, last⟩ := ih deep.2 others
      exact ⟨rfl, flags, last⟩

theorem value_cancel {u v : UnionTree} (deep : u.depth < n) {w w' : List Symbol}
    (same : u.yield ++ .mark .gtr :: w = v.yield ++ .mark .gtr :: w') : u = v ∧ w = w' := by
  obtain ⟨rfl, tail⟩ := inner u deep v _ _ same (.gtr w) (.gtr w')
  exact ⟨rfl, (List.cons.inj tail).2⟩

/-- The mark that follows the first union tells whether it is the key. -/
theorem value_ne_keyed {u v : UnionTree} (deep : u.depth < n) (w x : List Symbol) :
    u.yield ++ .mark .gtr :: w ≠ v.yield ++ .mark .comma :: x := by
  intro same
  obtain ⟨_, tail⟩ := inner u deep v _ _ same (.gtr w) (.comma x)
  cases (List.cons.inj tail).1

theorem ArgumentsTree.cancel {a b : ArgumentsTree} (deep : a.depth ≤ n) {w w' : List Symbol}
    (same : a.yield ++ w = b.yield ++ w') (ends : GoesOn atomFollow w)
    (ends' : GoesOn atomFollow w') : a = b ∧ w = w' := by
  cases a with
  | none =>
    cases b with
    | none => exact ⟨rfl, same⟩
    | value _ | keyed _ _ | emptyShape | shape _ _ _ => exact absurd same (ends.ne_cons (by decide) _)
  | value u =>
    rw [ArgumentsTree.depth] at deep
    rw [value_append] at same
    cases b with
    | none => exact absurd same.symm (ends'.ne_cons (by decide) _)
    | value v =>
      rw [value_append] at same
      obtain ⟨rfl, tail⟩ := value_cancel inner deep (List.cons.inj same).2
      exact ⟨rfl, tail⟩
    | keyed v v' =>
      rw [keyed_append] at same
      exact absurd (List.cons.inj same).2 (value_ne_keyed inner deep _ _)
    | emptyShape | shape _ _ _ => cases (List.cons.inj same).1
  | keyed u u' =>
    rw [ArgumentsTree.depth, Nat.add_one_le_iff, Nat.max_lt] at deep
    rw [keyed_append] at same
    cases b with
    | none => exact absurd same.symm (ends'.ne_cons (by decide) _)
    | value v =>
      rw [value_append] at same
      obtain ⟨_, clash⟩ := inner u deep.1 v _ _ (List.cons.inj same).2 (.comma _) (.gtr _)
      cases (List.cons.inj clash).1
    | keyed v v' =>
      rw [keyed_append] at same
      obtain ⟨rfl, values⟩ := inner u deep.1 v _ _ (List.cons.inj same).2 (.comma _) (.comma _)
      obtain ⟨rfl, tail⟩ := value_cancel inner deep.2 (List.cons.inj values).2
      exact ⟨rfl, tail⟩
    | emptyShape | shape _ _ _ => cases (List.cons.inj same).1
  | emptyShape =>
    cases b with
    | none => exact absurd same.symm (ends'.ne_cons (by decide) _)
    | value _ | keyed _ _ => cases (List.cons.inj same).1
    | emptyShape => exact ⟨rfl, (List.cons.inj (List.cons.inj same).2).2⟩
    | shape first rest trailing =>
      rw [shape_append] at same
      exact absurd (List.cons.inj same).2.symm (first.yield_ne_rbrace _ _)
  | shape first rest trailing =>
    rw [ArgumentsTree.depth, Nat.add_one_le_iff, Nat.max_lt] at deep
    rw [shape_append] at same
    cases b with
    | none => exact absurd same.symm (ends'.ne_cons (by decide) _)
    | value _ | keyed _ _ => cases (List.cons.inj same).1
    | emptyShape => exact absurd (List.cons.inj same).2 (first.yield_ne_rbrace _ _)
    | shape first' rest' trailing' =>
      rw [shape_append] at same
      obtain ⟨rfl, others⟩ := ElementTree.cancel inner deep.1 (List.cons.inj same).2
        (goesOn_elements rest trailing w) (goesOn_elements rest' trailing' w')
      obtain ⟨rfl, rfl, tail⟩ := elements_cancel inner deep.2 others
      exact ⟨rfl, tail⟩

theorem AtomTree.cancel {a b : AtomTree} (deep : a.depth ≤ n) {w w' : List Symbol}
    (same : a.yield ++ w = b.yield ++ w') (ends : GoesOn atomFollow w)
    (ends' : GoesOn atomFollow w') : a = b ∧ w = w' := by
  cases a with
  | integer literal =>
    cases b with
    | integer literal' =>
      obtain ⟨head, tail⟩ := List.cons.inj same
      exact ⟨congrArg AtomTree.integer (Symbol.integer.inj head), tail⟩
    | _ => cases (List.cons.inj same).1
  | float literal =>
    cases b with
    | float literal' =>
      obtain ⟨head, tail⟩ := List.cons.inj same
      exact ⟨congrArg AtomTree.float (Symbol.float.inj head), tail⟩
    | _ => cases (List.cons.inj same).1
  | string content quote =>
    cases b with
    | string content' quote' =>
      obtain ⟨head, tail⟩ := List.cons.inj same
      obtain ⟨rfl, rfl⟩ := Symbol.string.inj head
      exact ⟨rfl, tail⟩
    | _ => cases (List.cons.inj same).1
  | name word =>
    cases b with
    | name word' =>
      obtain ⟨head, tail⟩ := List.cons.inj same
      exact ⟨congrArg AtomTree.name (Subtype.ext (Symbol.name.inj head)), tail⟩
    | array word' arguments' => exact absurd (leading_names same) (word.ne_spelling.1 word')
    | list word' => exact absurd (leading_names same) (word.ne_spelling.2 word')
    | listOf word' value' => exact absurd (leading_names same) (word.ne_spelling.2 word')
    | integer _ | float _ | string _ _ => cases (List.cons.inj same).1
  | array word arguments =>
    cases b with
    | name word' => exact absurd (leading_names same).symm (word'.ne_spelling.1 word)
    | array word' arguments' =>
      obtain ⟨rfl, tail⟩ := ArgumentsTree.cancel inner deep (List.cons.inj same).2 ends ends'
      exact ⟨congrArg (AtomTree.array · arguments) (Subtype.ext (leading_names same)), tail⟩
    | list word' => exact absurd (leading_names same) (array_ne_list word word')
    | listOf word' value' => exact absurd (leading_names same) (array_ne_list word word')
    | integer _ | float _ | string _ _ => cases (List.cons.inj same).1
  | list word =>
    cases b with
    | name word' => exact absurd (leading_names same).symm (word'.ne_spelling.2 word)
    | array word' arguments' => exact absurd (leading_names same).symm (array_ne_list word' word)
    | list word' =>
      exact ⟨congrArg AtomTree.list (Subtype.ext (leading_names same)), (List.cons.inj same).2⟩
    | listOf word' value' => exact absurd (List.cons.inj same).2 (ends.ne_cons (by decide) _)
    | integer _ | float _ | string _ _ => cases (List.cons.inj same).1
  | listOf word value =>
    cases b with
    | name word' => exact absurd (leading_names same).symm (word'.ne_spelling.2 word)
    | array word' arguments' => exact absurd (leading_names same).symm (array_ne_list word' word)
    | list word' => exact absurd (List.cons.inj same).2.symm (ends'.ne_cons (by decide) _)
    | listOf word' value' =>
      rw [listOf_append, listOf_append] at same
      obtain ⟨rfl, tail⟩ := value_cancel inner deep (List.cons.inj (List.cons.inj same).2).2
      exact ⟨congrArg (AtomTree.listOf · value) (Subtype.ext (leading_names same)), tail⟩
    | integer _ | float _ | string _ _ => cases (List.cons.inj same).1

theorem NullableTree.cancel {a b : NullableTree} (deep : a.depth ≤ n) {w w' : List Symbol}
    (same : a.yield ++ w = b.yield ++ w') (ends : GoesOn nullableFollow w)
    (ends' : GoesOn nullableFollow w') : a = b ∧ w = w' := by
  obtain ⟨question, atom, pairs⟩ := a
  obtain ⟨question', atom', pairs'⟩ := b
  rw [NullableTree.yield, NullableTree.yield, List.append_assoc, List.append_assoc] at same
  obtain ⟨rfl, bodies⟩ := optionalMark_cancel same (SuffixedTree.yield_ne_mark _ _)
    (SuffixedTree.yield_ne_mark _ _)
  rw [SuffixedTree.yield, SuffixedTree.yield, List.append_assoc, List.append_assoc] at bodies
  obtain ⟨rfl, suffixes⟩ := AtomTree.cancel inner deep bodies (goesOn_pairs pairs ends)
    (goesOn_pairs pairs' ends')
  obtain ⟨rfl, tail⟩ := pairs_cancel suffixes ends ends'
  exact ⟨rfl, tail⟩

theorem members_cancel {ms ns : List NullableTree} (deep : membersDepth ms ≤ n)
    {w w' : List Symbol} (same : membersYield ms ++ w = membersYield ns ++ w')
    (ends : GoesOn unionFollow w) (ends' : GoesOn unionFollow w') : ms = ns ∧ w = w' := by
  induction ms generalizing ns with
  | nil =>
    cases ns with
    | nil => exact ⟨rfl, same⟩
    | cons m more => exact absurd same (ends.ne_cons (by decide) _)
  | cons m rest ih =>
    rw [membersDepth, Nat.max_le] at deep
    cases ns with
    | nil => exact absurd same.symm (ends'.ne_cons (by decide) _)
    | cons m' more =>
      rw [member_append, member_append] at same
      obtain ⟨rfl, others⟩ := NullableTree.cancel inner deep.1 (List.cons.inj same).2
        (goesOn_members rest ends) (goesOn_members more ends')
      obtain ⟨rfl, tail⟩ := ih deep.2 others
      exact ⟨rfl, tail⟩

end Inner

/-- A tree is the only one at the front of its symbols, by induction on how deep
its brackets nest. -/
theorem UnionTree.cancels (u : UnionTree) : u.Cancels := by
  induction bound : u.depth using Nat.strongRecOn generalizing u with
  | _ n ih =>
    intro v w w' same ends ends'
    have inner : ∀ x : UnionTree, x.depth < n → x.Cancels := by
      intro x deep
      exact ih x.depth deep x rfl
    obtain ⟨first, rest⟩ := u
    obtain ⟨first', rest'⟩ := v
    rw [UnionTree.depth] at bound
    rw [UnionTree.yield, UnionTree.yield, List.append_assoc, List.append_assoc] at same
    obtain ⟨rfl, others⟩ := NullableTree.cancel inner (by omega) same (goesOn_members rest ends)
      (goesOn_members rest' ends')
    obtain ⟨rfl, tail⟩ := members_cancel inner (by omega) others ends ends'
    exact ⟨rfl, tail⟩

end Conform.Declaration
