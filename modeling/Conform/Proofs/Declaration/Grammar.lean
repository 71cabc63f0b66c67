import Conform.Declaration.Parse

/-! The grammar of declarations as derivation trees, one type of trees for each
rule:

    union    := nullable ('|' nullable)*
    nullable := '?'? suffixed
    suffixed := atom ('[' ']')*
    atom     := INTEGER | FLOAT | STRING | name
              | array arguments? | list ('<' union '>')?
    arguments := '<' union (',' union)? '>' | shape
    shape    := '{' (element (',' element)* ','?)? '}'
    element  := ((NAME | INTEGER | STRING) '?'? ':')? union

A tree has a yield, the symbols that it derives, and it denotes a type unless it
breaks one of the rules that the grammar cannot express. -/
namespace Conform.Declaration

/-- What the grammar sees of a token: its sort, and its content where that matters. -/
inductive Symbol where
  | integer (literal : Bytes)
  | float (literal : Bytes)
  | string (content : Bytes) (quote : Quote)
  | name (word : Bytes)
  | mark (kind : TokenKind)
  deriving DecidableEq, Repr

def Token.symbol (token : Token) : Symbol :=
  match token.kind with
  | .integer => .integer token.literal
  | .float => .float token.literal
  | .string => .string token.literal token.quote
  | .name => .name token.literal
  | kind => .mark kind

/-- A name that is a given word in any letter case. -/
abbrev Spelling (word : Bytes) := { name : Bytes // Utf8.lower name = word }

/-- A name other than the words for arrays and lists. -/
abbrev PlainName := { name : Bytes // Utf8.lower name ≠ "array" ∧ Utf8.lower name ≠ "list" }

/-- What a key of a shape is written as. -/
inductive KeySymbol where
  | name (word : Bytes)
  | integer (literal : Bytes)
  | string (content : Bytes) (quote : Quote)

/-- A key of a shape, with the mark of an optional element. -/
structure ElementKey where
  written : KeySymbol
  optional : Bool

mutual

inductive UnionTree where
  | mk (first : NullableTree) (rest : List NullableTree)

inductive NullableTree where
  | mk (question : Bool) (body : SuffixedTree)

inductive SuffixedTree where
  | mk (atom : AtomTree) (pairs : Nat)

inductive AtomTree where
  | integer (literal : Bytes)
  | float (literal : Bytes)
  | string (content : Bytes) (quote : Quote)
  | name (word : PlainName)
  | array (word : Spelling "array") (arguments : ArgumentsTree)
  | list (word : Spelling "list")
  | listOf (word : Spelling "list") (value : UnionTree)

/-- What may follow the word for arrays. -/
inductive ArgumentsTree where
  | none
  | value (value : UnionTree)
  | keyed (key value : UnionTree)
  | emptyShape
  | shape (first : ElementTree) (rest : List ElementTree) (trailing : Bool)

inductive ElementTree where
  | mk (key : Option ElementKey) (type : UnionTree)

end

/-! ### Yields -/

def KeySymbol.symbol : KeySymbol → Symbol
  | .name word => .name word
  | .integer literal => .integer literal
  | .string content quote => .string content quote

/-- A mark that may be left out. -/
def optionalMark (present : Bool) (kind : TokenKind) : List Symbol :=
  if present then [.mark kind] else []

def ElementKey.yield (key : ElementKey) : List Symbol :=
  key.written.symbol :: (optionalMark key.optional .question ++ [.mark .colon])

def keyYield : Option ElementKey → List Symbol
  | none => []
  | some key => key.yield

def pairsYield : Nat → List Symbol
  | 0 => []
  | n + 1 => .mark .lbrack :: .mark .rbrack :: pairsYield n

mutual

/-- The symbols that a tree derives. -/
def UnionTree.yield : UnionTree → List Symbol
  | .mk first rest => first.yield ++ membersYield rest

def NullableTree.yield : NullableTree → List Symbol
  | .mk question body => optionalMark question .question ++ body.yield

def SuffixedTree.yield : SuffixedTree → List Symbol
  | .mk atom pairs => atom.yield ++ pairsYield pairs

def AtomTree.yield : AtomTree → List Symbol
  | .integer literal => [.integer literal]
  | .float literal => [.float literal]
  | .string content quote => [.string content quote]
  | .name word => [.name word.val]
  | .array word arguments => .name word.val :: arguments.yield
  | .list word => [.name word.val]
  | .listOf word value => .name word.val :: .mark .lss :: (value.yield ++ [.mark .gtr])

def ArgumentsTree.yield : ArgumentsTree → List Symbol
  | .none => []
  | .value value => .mark .lss :: (value.yield ++ [.mark .gtr])
  | .keyed key value =>
    .mark .lss :: (key.yield ++ .mark .comma :: (value.yield ++ [.mark .gtr]))
  | .emptyShape => [.mark .lbrace, .mark .rbrace]
  | .shape first rest trailing =>
    .mark .lbrace :: (first.yield ++ elementsYield rest ++ optionalMark trailing .comma ++
      [.mark .rbrace])

def ElementTree.yield : ElementTree → List Symbol
  | .mk key type => keyYield key ++ type.yield

/-- Further members, each after a bar. -/
def membersYield : List NullableTree → List Symbol
  | [] => []
  | m :: rest => .mark .or :: (m.yield ++ membersYield rest)

/-- Further elements, each after a comma. -/
def elementsYield : List ElementTree → List Symbol
  | [] => []
  | e :: rest => .mark .comma :: (e.yield ++ elementsYield rest)

end

section Append

variable (w : List Symbol)

theorem value_append (value : UnionTree) : (ArgumentsTree.value value).yield ++ w =
    .mark .lss :: (value.yield ++ .mark .gtr :: w) := by
  simp [ArgumentsTree.yield]

theorem keyed_append (key value : UnionTree) : (ArgumentsTree.keyed key value).yield ++ w =
    .mark .lss :: (key.yield ++ .mark .comma :: (value.yield ++ .mark .gtr :: w)) := by
  simp [ArgumentsTree.yield]

theorem shape_append (first : ElementTree) (rest : List ElementTree) (trailing : Bool) :
    (ArgumentsTree.shape first rest trailing).yield ++ w = .mark .lbrace ::
      (first.yield ++ (elementsYield rest ++
        (optionalMark trailing .comma ++ .mark .rbrace :: w))) := by
  simp [ArgumentsTree.yield]

theorem listOf_append (word : Spelling "list") (value : UnionTree) :
    (AtomTree.listOf word value).yield ++ w =
      .name word.val :: .mark .lss :: (value.yield ++ .mark .gtr :: w) := by
  simp [AtomTree.yield]

theorem member_append (m : NullableTree) (rest : List NullableTree) :
    membersYield (m :: rest) ++ w = .mark .or :: (m.yield ++ (membersYield rest ++ w)) := by
  simp [membersYield]

theorem element_append (e : ElementTree) (rest : List ElementTree) :
    elementsYield (e :: rest) ++ w = .mark .comma :: (e.yield ++ (elementsYield rest ++ w)) := by
  simp [elementsYield]

end Append

/-! ### Depths -/

mutual

/-- How deep brackets nest in a tree. -/
def UnionTree.depth : UnionTree → Nat
  | .mk first rest => max first.depth (membersDepth rest)

def NullableTree.depth : NullableTree → Nat
  | .mk _ body => body.depth

def SuffixedTree.depth : SuffixedTree → Nat
  | .mk atom _ => atom.depth

def AtomTree.depth : AtomTree → Nat
  | .array _ arguments => arguments.depth
  | .listOf _ value => value.depth + 1
  | _ => 0

def ArgumentsTree.depth : ArgumentsTree → Nat
  | .value value => value.depth + 1
  | .keyed key value => max key.depth value.depth + 1
  | .shape first rest _ => max first.depth (elementsDepth rest) + 1
  | _ => 0

def ElementTree.depth : ElementTree → Nat
  | .mk _ type => type.depth

def membersDepth : List NullableTree → Nat
  | [] => 0
  | m :: rest => max m.depth (membersDepth rest)

def elementsDepth : List ElementTree → Nat
  | [] => 0
  | e :: rest => max e.depth (elementsDepth rest)

end

mutual

/-- Each pair of brackets takes a symbol at least. -/
theorem UnionTree.depth_le : ∀ u : UnionTree, u.depth ≤ u.yield.length
  | .mk first rest => by
    have head := first.depth_le
    have tail := membersDepth_le rest
    rw [UnionTree.depth, UnionTree.yield, List.length_append]
    omega

theorem NullableTree.depth_le : ∀ m : NullableTree, m.depth ≤ m.yield.length
  | .mk question (.mk atom pairs) => by
    have body := atom.depth_le
    simp only [NullableTree.depth, SuffixedTree.depth, NullableTree.yield, SuffixedTree.yield,
      List.length_append]
    omega

theorem AtomTree.depth_le : ∀ a : AtomTree, a.depth ≤ a.yield.length
  | .integer _ | .float _ | .string _ _ | .name _ | .list _ => Nat.zero_le _
  | .array word arguments => Nat.le_succ_of_le arguments.depth_le
  | .listOf word value => by
    have inside := value.depth_le
    simp only [AtomTree.depth, AtomTree.yield, List.length_cons, List.length_append]
    omega

theorem ArgumentsTree.depth_le : ∀ a : ArgumentsTree, a.depth ≤ a.yield.length
  | .none | .emptyShape => Nat.zero_le _
  | .value value => by
    have inside := value.depth_le
    simp only [ArgumentsTree.depth, ArgumentsTree.yield, List.length_cons, List.length_append]
    omega
  | .keyed key value => by
    have first := key.depth_le
    have second := value.depth_le
    simp only [ArgumentsTree.depth, ArgumentsTree.yield, List.length_cons, List.length_append]
    omega
  | .shape first rest trailing => by
    have head := first.depth_le
    have tail := elementsDepth_le rest
    simp only [ArgumentsTree.depth, ArgumentsTree.yield, List.length_cons, List.length_append]
    omega

theorem ElementTree.depth_le : ∀ e : ElementTree, e.depth ≤ e.yield.length
  | .mk key type => by
    have inside := type.depth_le
    simp only [ElementTree.depth, ElementTree.yield, List.length_append]
    omega

theorem membersDepth_le : ∀ ms : List NullableTree, membersDepth ms ≤ (membersYield ms).length
  | [] => Nat.le_refl 0
  | m :: rest => by
    have head := m.depth_le
    have tail := membersDepth_le rest
    simp only [membersDepth, membersYield, List.length_cons, List.length_append]
    omega

theorem elementsDepth_le : ∀ es : List ElementTree, elementsDepth es ≤ (elementsYield es).length
  | [] => Nat.le_refl 0
  | e :: rest => by
    have head := e.depth_le
    have tail := elementsDepth_le rest
    simp only [elementsDepth, elementsYield, List.length_cons, List.length_append]
    omega

end

/-! ### Denotations -/

/-- The members that a type brings into a union. -/
def alternatives : Ty → List Ty
  | .union members => members
  | t => [t]

/-- The union of some types, none of which may be mixed. -/
def joined? (types : List Ty) : Option Ty :=
  if types.any Ty.isMixed then none else some (.union (types.flatMap alternatives))

/-- The text of a key; an integer in range is written in its usual form. -/
def KeySymbol.text : KeySymbol → Bytes
  | .name word => word
  | .integer literal =>
    match readInt64 literal with
    | .ok n => decimalInt n.toInt
    | .error _ => literal
  | .string content _ => content

def ElementTree.key : ElementTree → Option ElementKey
  | .mk key _ => key

/-- The key text of an element; those without a key are numbered among themselves. -/
def fieldText (index : Nat) : Option ElementKey → Bytes
  | none => decimalNat index
  | some key => key.written.text

def fieldOptional : Option ElementKey → Bool
  | none => false
  | some key => key.optional

/-- The number for the next element without a key. -/
def nextIndex (index : Nat) : Option ElementKey → Nat
  | none => index + 1
  | some _ => index

/-- The array that pairs of brackets make of a type. -/
def arrayed : Nat → Ty → Ty
  | 0, t => t
  | n + 1, t => arrayed n (.array .any t)

/-- The shape of some fields, whose keys must be distinct. -/
def shapeOf? (fields : List (Field Ty)) : Option Ty :=
  if (fields.map (·.key)).Nodup then some (.shape fields) else none

section Denotation

variable (aliases : Aliases)

/-- A name stands for a family or a literal, or else for what it is an alias of. -/
def nameType? (name : Bytes) : Option Ty :=
  match keyword? name with
  | some (.type t) => some t
  | some _ => none
  | none => aliases.find? name

mutual

/-- The type that a tree denotes, if its literals are in range, its names are
known, its array keys are valid, the keys of its shapes are distinct and none of
its unions has a mixed member. -/
def UnionTree.type? : UnionTree → Option Ty
  | .mk first rest =>
    match first.type?, memberTypes? rest with
    | some t, some [] => some t
    | some t, some types => joined? (t :: types)
    | _, _ => none

def NullableTree.type? : NullableTree → Option Ty
  | .mk question body =>
    match body.type? with
    | some t => if question then joined? [.null, t] else some t
    | none => none

def SuffixedTree.type? : SuffixedTree → Option Ty
  | .mk atom pairs => atom.type?.map (arrayed pairs)

def AtomTree.type? : AtomTree → Option Ty
  | .integer literal => (readInt64 literal).toOption.map .integerLit
  | .float literal => (Binary.read literal).toOption.map .floatLit
  | .string content quote => some (.stringLit content quote)
  | .name word => nameType? aliases word.val
  | .array _ arguments => arguments.type?
  | .list _ => some (.list .mixed)
  | .listOf _ value => value.type?.map .list

def ArgumentsTree.type? : ArgumentsTree → Option Ty
  | .none => some (.array .any .mixed)
  | .value value => value.type?.map (.array .any)
  | .keyed key value =>
    match key.type?, value.type? with
    | some k, some v => (keyKind? k).toOption.map (.array · v)
    | _, _ => none
  | .emptyShape => some (.shape [])
  | .shape first rest _ =>
    match first.type?, fields? (nextIndex 0 first.key) rest with
    | some t, some fields => shapeOf? (⟨fieldText 0 first.key, fieldOptional first.key, t⟩ :: fields)
    | _, _ => none

def ElementTree.type? : ElementTree → Option Ty
  | .mk _ type => type.type?

def memberTypes? : List NullableTree → Option (List Ty)
  | [] => some []
  | m :: rest =>
    match m.type?, memberTypes? rest with
    | some t, some types => some (t :: types)
    | _, _ => none

/-- The fields of elements, the next one without a key having the given number. -/
def fields? (index : Nat) : List ElementTree → Option (List (Field Ty))
  | [] => some []
  | e :: rest =>
    match e.type?, fields? (nextIndex index e.key) rest with
    | some t, some fields => some (⟨fieldText index e.key, fieldOptional e.key, t⟩ :: fields)
    | _, _ => none

end

theorem UnionTree.type?_single (first : NullableTree) :
    (UnionTree.mk first []).type? aliases = first.type? aliases := by
  rw [UnionTree.type?, memberTypes?]
  cases first.type? aliases <;> rfl

theorem ArgumentsTree.type?_shape (first : ElementTree) (rest : List ElementTree) (trailing : Bool) :
    (ArgumentsTree.shape first rest trailing).type? aliases =
      (fields? aliases 0 (first :: rest)).bind shapeOf? := by
  rw [ArgumentsTree.type?, fields?]
  cases first.type? aliases with
  | none => rfl
  | some t => cases fields? aliases (nextIndex 0 first.key) rest <;> rfl

/-- A union of several members denotes the union of what they denote. -/
theorem UnionTree.type?_several {first second : NullableTree} {more : List NullableTree} {u : Ty}
    (denotes : (UnionTree.mk first (second :: more)).type? aliases = some u) :
    ∃ t t' types, first.type? aliases = some t ∧
      memberTypes? aliases (second :: more) = some (t' :: types) ∧
      second.type? aliases = some t' ∧ joined? (t :: t' :: types) = some u := by
  cases head : first.type? aliases with
  | none => simp [UnionTree.type?, head] at denotes
  | some t =>
    cases next : second.type? aliases with
    | none => simp [UnionTree.type?, memberTypes?, head, next] at denotes
    | some t' =>
      cases others : memberTypes? aliases more with
      | none => simp [UnionTree.type?, memberTypes?, head, next, others] at denotes
      | some types =>
        simp only [UnionTree.type?, memberTypes?, head, next, others] at denotes
        exact ⟨t, t', types, rfl, by simp only [memberTypes?, next, others], rfl, denotes⟩

end Denotation

end Conform.Declaration
