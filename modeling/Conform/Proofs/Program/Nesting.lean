import Conform.Proofs.Program.Meaning
import Conform.Proofs.Program.Stored
import Conform.Proofs.Ty.Legible

/-! The stored form of the tree of a type: how deep it nests, and when all of its
texts are well-formed. -/
namespace Conform.Ty

open Utf8 (valid)

mutual

/-- How deep the stored tree of a type nests. An operand stands in a list within
an object, an element of a shape in a list and an object more. -/
def nesting : Ty → Nat
  | .union members => nestingAll members
  | .array _ value => value.nesting + 2
  | .list value => value.nesting + 2
  | .shape fields => nestingFields fields
  | _ => 1

def nestingAll : List Ty → Nat
  | [] => 1
  | t :: rest => max (t.nesting + 2) (nestingAll rest)

def nestingFields : List (Field Ty) → Nat
  | [] => 1
  | f :: rest => max (f.type.nesting + 4) (nestingFields rest)

end

theorem toJson_depth_pos (n : Node) : 1 ≤ n.toJson.depth := by
  rw [Node.toJson_depth]
  split <;> omega

/-- The depth of a node in terms of its operands. -/
theorem withChildren_depth (op : Operation) (type : Bytes) (children : List Node) :
    (Node.withChildren op type children).toJson.depth =
      children.foldr (fun child depth => max (child.toJson.depth + 2) depth) 1 := by
  rw [Node.toJson_depth, Node.withChildren]
  simp only
  induction children with
  | nil => rfl
  | cons child rest ih =>
    have positive := toJson_depth_pos child
    rw [List.foldr_cons, ← ih]
    cases rest with
    | nil => simp [Node.childrenJson, Json.depthItems]
    | cons next rest => simp [Node.childrenJson, Json.depthItems]

theorem elementTree_depth (f : Field Ty) :
    (elementTree f).toJson.depth = f.type.tree.toJson.depth + 2 := by
  have positive := toJson_depth_pos f.type.tree
  rw [Node.toJson_depth, elementTree]
  simp [Node.withChildren, Node.childrenJson, Json.depthItems]

theorem nesting_pos (t : Ty) : 1 ≤ t.nesting := by
  have all : ∀ members, 1 ≤ nestingAll members := by
    intro members
    induction members with
    | nil => exact Nat.le_refl 1
    | cons t rest ih => rw [nestingAll]; omega
  have fields : ∀ fields, 1 ≤ nestingFields fields := by
    intro fields
    induction fields with
    | nil => exact Nat.le_refl 1
    | cons f rest ih => rw [nestingFields]; omega
  cases t <;> simp [nesting, all, fields]

/-- The stored tree of a type nests as deep as the type says. -/
theorem tree_depth {t : Ty} (known : t.known = true) : t.tree.toJson.depth = t.nesting := by
  induction t using Ty.induct with
  | union members ih =>
    have each : ∀ m ∈ members, m.tree.toJson.depth = m.nesting :=
      fun m member => ih m member (every_member known member)
    clear ih known
    rw [tree, withChildren_depth, nesting, trees_eq]
    induction members with
    | nil => rfl
    | cons t rest ih =>
      rw [List.map_cons, List.foldr_cons, nestingAll, each t (by simp),
        ih fun m member => each m (by simp [member])]
  | array key value ih =>
    have key_depth : key.node.toJson.depth = 1 := by
      rw [Node.toJson_depth]
      rfl
    have positive := nesting_pos value
    rw [tree, withChildren_depth, nesting]
    simp only [List.foldr_cons, List.foldr_nil, ih (every_arrayValue known), key_depth]
    omega
  | list value ih =>
    rw [tree, withChildren_depth, nesting]
    simp only [List.foldr_cons, List.foldr_nil, ih (every_listValue known)]
    omega
  | shape fields ih =>
    have each : ∀ f ∈ fields, f.type.tree.toJson.depth = f.type.nesting :=
      fun f member => ih f member (every_field known member)
    clear ih known
    rw [tree, withChildren_depth, nesting, elementTrees_eq]
    induction fields with
    | nil => rfl
    | cons f rest ih =>
      rw [List.map_cons, List.foldr_cons, nestingFields, elementTree_depth, each f (by simp),
        ih fun f member => each f (by simp [member])]
  | unknown name accepted => exact absurd known (not_known_unknown name accepted)
  | _ =>
    rw [Node.toJson_depth]
    rfl

theorem valid_operation (op : Operation) : valid op.name = true := by
  cases op <;> exact Utf8.valid_ascii (by decide)

theorem children_every {text number : Bytes → Prop} {children : List Node}
    (each : ∀ child ∈ children, child.toJson.Every text number) :
    ∀ child, some child ∈ children.map some → child.toJson.Every text number := by
  intro child member
  obtain ⟨c, inside, same⟩ := List.mem_map.mp member
  obtain rfl := Option.some.inj same
  exact each c inside

/-- Every text of the stored form is well-formed. -/
def Readable (n : Node) : Prop := n.toJson.Every (fun s => valid s = true) Json.Numeral

theorem readable_node (op : Operation) {type literal quote keys key : Bytes} {optional : Bool}
    {children : List Node} (validType : valid type = true) (validLiteral : valid literal = true)
    (validQuote : valid quote = true) (validKeys : valid keys = true) (validKey : valid key = true)
    (each : ∀ child ∈ children, Readable child) :
    Readable ⟨op.name, type, literal, quote, keys, key, optional, children.map some⟩ := by
  refine Node.toJson_every (fun _ lower => Utf8.valid_lower lower) ?_ (children_every each)
  intro slot
  cases slot with
  | op => exact valid_operation op
  | type => exact validType
  | literal => exact validLiteral
  | quote => exact validQuote
  | keys => exact validKeys
  | key => exact validKey

theorem readable_leaf (op : Operation) {type literal quote keys : Bytes}
    (validType : valid type = true) (validLiteral : valid literal = true)
    (validQuote : valid quote = true) (validKeys : valid keys = true) :
    Readable ⟨op.name, type, literal, quote, keys, [], false, []⟩ :=
  readable_node op validType validLiteral validQuote validKeys Utf8.valid_nil
    (fun child (member : child ∈ []) => absurd member (List.not_mem_nil))

theorem readable_key (kind : KeyKind) : Readable kind.node := by
  have type : valid (kind.render .written) = true := by
    cases kind <;> exact Utf8.valid_ascii (by decide)
  have keys : valid kind.keysName = true := by
    cases kind <;> exact Utf8.valid_ascii (by decide)
  exact readable_leaf .arrayKey type Utf8.valid_nil Utf8.valid_nil keys

theorem readable_withChildren (op : Operation) {type : Bytes} {children : List Node}
    (validType : valid type = true) (each : ∀ child ∈ children, Readable child) :
    Readable (Node.withChildren op type children) :=
  readable_node op validType Utf8.valid_nil Utf8.valid_nil Utf8.valid_nil Utf8.valid_nil each

/-- When the literals and keys of a type are well-formed, so is its stored tree. -/
theorem tree_readable {t : Ty} (known : t.known = true) (legible : t.legible = true) :
    Readable t.tree := by
  have nothing := Utf8.valid_nil
  have written : ∀ t : Ty, t.known = true → t.legible = true → valid t.text = true :=
    fun t known legible => (valid_render .written known).trans legible
  induction t using Ty.induct with
  | mixed => exact readable_leaf .mixed (written _ known legible) nothing nothing nothing
  | null => exact readable_leaf .null (written _ known legible) nothing nothing nothing
  | bool => exact readable_leaf .bool (written _ known legible) nothing nothing nothing
  | integer => exact readable_leaf .integer (written _ known legible) nothing nothing nothing
  | float => exact readable_leaf .float (written _ known legible) nothing nothing nothing
  | string => exact readable_leaf .string (written _ known legible) nothing nothing nothing
  | boolLit value =>
    have literal : valid (truthName value) = true := by
      cases value <;> exact Utf8.valid_ascii (by decide)
    exact readable_leaf .boolLit (written _ known legible) literal nothing nothing
  | integerLit value =>
    have literal := valid_words (decimalInt_words value.toInt)
    exact readable_leaf .integerLit (written _ known legible) literal nothing nothing
  | floatLit value =>
    have literal := valid_words (text_words value)
    exact readable_leaf .floatLit (written _ known legible) literal nothing nothing
  | stringLit value quote =>
    have name : valid quote.name = true := by
      cases quote <;> exact Utf8.valid_ascii (by decide)
    exact readable_leaf .stringLit (written _ known legible) legible name nothing
  | arrayKey kind => exact readable_key kind
  | union members ih =>
    refine readable_withChildren .union (written _ known legible) ?_
    rw [trees_eq]
    intro child member
    obtain ⟨m, inside, rfl⟩ := List.mem_map.mp member
    exact ih m inside (every_member known inside) (every_member legible inside)
  | array key value ih =>
    refine readable_withChildren .array (written _ known legible) ?_
    intro child member
    simp only [List.mem_cons, List.not_mem_nil, or_false] at member
    rcases member with rfl | rfl
    · exact readable_key key
    · exact ih (every_arrayValue known) (every_arrayValue legible)
  | list value ih =>
    refine readable_withChildren .list (written _ known legible) ?_
    intro child member
    obtain rfl := List.mem_singleton.mp member
    exact ih (every_listValue known) (every_listValue legible)
  | shape fields ih =>
    refine readable_withChildren .shape (written _ known legible) ?_
    rw [elementTrees_eq]
    intro child member
    obtain ⟨f, inside, rfl⟩ := List.mem_map.mp member
    have knownField := every_field known inside
    have legibleField := every_field legible inside
    have key : valid f.key = true := List.all_eq_true.mp (every_self legible) f inside
    refine readable_node .element (written _ knownField legibleField) nothing nothing nothing key ?_
    intro child (member : child ∈ [f.type.tree])
    obtain rfl := List.mem_singleton.mp member
    exact ih f inside knownField legibleField
  | unknown name accepted => exact absurd known (not_known_unknown name accepted)

end Conform.Ty
