import Conform.Artifact
import Conform.Proofs.Binary.Text
import Conform.Proofs.Ty.Parts

/-! What programs do. The tree of a type loads as a plan of the same structure,
and that plan accepts and converts exactly what the type does, with the same
errors, because it quotes the written form of the same parts. -/
namespace Conform

namespace Ty

mutual

/-- The tree of a type without components of unknown variant. -/
def tree : Ty → Node
  | .boolLit value => .withLiteral .boolLit (Ty.boolLit value).text (truthName value)
  | .integerLit value => .withLiteral .integerLit (Ty.integerLit value).text (decimalInt value.toInt)
  | .floatLit value => .withLiteral .floatLit (Ty.floatLit value).text (value.text .general)
  | .stringLit value quote =>
    { Node.withLiteral .stringLit (Ty.stringLit value quote).text value with quote := quote.name }
  | .arrayKey kind => kind.node
  | .union members => .withChildren .union (Ty.union members).text (trees members)
  | .array key value => .withChildren .array (Ty.array key value).text [key.node, value.tree]
  | .list value => .withChildren .list (Ty.list value).text [value.tree]
  | .shape fields => .withChildren .shape (Ty.shape fields).text (elementTrees fields)
  | .mixed => .simple .mixed (Ty.text .mixed)
  | .null => .simple .null (Ty.text .null)
  | .bool => .simple .bool (Ty.text .bool)
  | .integer => .simple .integer (Ty.text .integer)
  | .float => .simple .float (Ty.text .float)
  | .string => .simple .string (Ty.text .string)
  | .unknown .. => .empty

def trees : List Ty → List Node
  | [] => []
  | t :: rest => t.tree :: trees rest

def elementTrees : List (Field Ty) → List Node
  | [] => []
  | f :: rest =>
    { Node.withChildren .element f.type.text [f.type.tree] with
      key := f.key, optional := f.optional } :: elementTrees rest

end

/-- The tree of one field of a shape. -/
def elementTree (f : Field Ty) : Node :=
  { Node.withChildren .element f.type.text [f.type.tree] with key := f.key, optional := f.optional }

theorem trees_eq (members : List Ty) : trees members = members.map tree := by
  induction members with
  | nil => rfl
  | cons t rest ih => rw [trees, ih, List.map_cons]

theorem elementTrees_eq (fields : List (Field Ty)) :
    elementTrees fields = fields.map elementTree := by
  induction fields with
  | nil => rfl
  | cons f rest ih => rw [elementTrees, ih, List.map_cons, elementTree]

theorem nodes_ok {members : List Ty} (each : ∀ m ∈ members, m.node = .ok m.tree) :
    nodes members = .ok (trees members) := by
  induction members with
  | nil => rfl
  | cons t rest ih =>
    simp only [nodes, each t (by simp), ih fun m member => each m (by simp [member]), trees]

theorem elementNodes_ok {fields : List (Field Ty)}
    (each : ∀ f ∈ fields, f.type.node = .ok f.type.tree) :
    elementNodes fields = .ok (elementTrees fields) := by
  induction fields with
  | nil => rfl
  | cons f rest ih =>
    simp only [elementNodes, each f (by simp), ih fun f member => each f (by simp [member]),
      elementTrees]

/-- A type of the algebra's variants always has its tree. -/
theorem node_of_known {t : Ty} (known : t.known = true) : t.node = .ok t.tree := by
  induction t using Ty.induct with
  | union members ih =>
    rw [node, nodes_ok fun m member => ih m member (every_member known member), tree]
  | array key value ih => simp only [node, ih (every_arrayValue known), tree]
  | list value ih => simp only [node, ih (every_listValue known), tree]
  | shape fields ih =>
    rw [node, elementNodes_ok fun f member => ih f member (every_field known member), tree]
  | unknown name accepted => exact absurd known (not_known_unknown name accepted)
  | _ => rfl

mutual

/-- The plan of a type. -/
def plan : Ty → Plan
  | .union members => .union (Ty.union members).text (plans members)
  | .array key value => .array (Ty.array key value).text key value.plan
  | .list value => .list (Ty.list value).text value.plan
  | .shape fields => .shape (Ty.shape fields).text (fieldPlans fields)
  | t => .leaf t

def plans : List Ty → List Plan
  | [] => []
  | t :: rest => t.plan :: plans rest

def fieldPlans : List (Field Ty) → List (Field Plan)
  | [] => []
  | f :: rest => ⟨f.key, f.optional, f.type.plan⟩ :: fieldPlans rest

end

theorem plans_eq (members : List Ty) : plans members = members.map plan := by
  induction members with
  | nil => rfl
  | cons t rest ih => rw [plans, ih, List.map_cons]

theorem fieldPlans_eq (fields : List (Field Ty)) :
    fieldPlans fields = fields.map fun f => ⟨f.key, f.optional, f.type.plan⟩ := by
  induction fields with
  | nil => rfl
  | cons f rest ih => rw [fieldPlans, ih, List.map_cons]

/-- The plan of a type accepts what the type accepts. -/
theorem plan_accepts (t : Ty) : t.plan.accepts = t.accepts := by
  induction t using Ty.induct with
  | union members ih =>
    funext v
    simp only [plan, Plan.accepts, accepts]
    induction members with
    | nil => rfl
    | cons t rest hrest =>
      rw [plans, Plan.anyAccepts, anyAccepts, ih t (by simp),
        hrest fun m member => ih m (by simp [member])]
  | array key value ih =>
    funext v
    simp only [plan, Plan.accepts, accepts, ih]
  | list value ih =>
    funext v
    simp only [plan, Plan.accepts, accepts, ih]
  | shape fields ih =>
    have tests : Plan.fieldTests (fieldPlans fields) = fieldTests fields := by
      induction fields with
      | nil => rfl
      | cons f rest hrest =>
        rw [fieldPlans, Plan.fieldTests, fieldTests, ih f (by simp),
          hrest fun f member => ih f (by simp [member])]
    funext v
    simp only [plan, Plan.accepts, accepts, tests]
  | _ =>
    funext v
    simp only [plan, Plan.accepts]

theorem plans_castFirst {members : List Ty} (each : ∀ m ∈ members, m.plan.cast = m.cast) (v : Value) :
    Plan.castFirst (plans members) v = castFirst members v := by
  induction members with
  | nil => rfl
  | cons t rest ih =>
    rewrite [plans, Plan.castFirst, castFirst, each t (by simp),
      ih fun m member => each m (by simp [member])]
    rfl

/-- The plan of a type converts what the type converts, with the same errors. -/
theorem plan_cast (t : Ty) : t.plan.cast = t.cast := by
  induction t using Ty.induct with
  | union members ih =>
    funext v
    rewrite [plan, Plan.cast, cast, plans_castFirst ih]
    rfl
  | array key value ih =>
    funext v
    simp only [plan, Plan.cast, cast, ih]
  | list value ih =>
    funext v
    simp only [plan, Plan.cast, cast, ih]
  | shape fields ih =>
    have casts : Plan.fieldCasts (fieldPlans fields) = fieldCasts fields := by
      induction fields with
      | nil => rfl
      | cons f rest hrest =>
        rw [fieldPlans, Plan.fieldCasts, fieldCasts, ih f (by simp),
          hrest fun f member => ih f (by simp [member])]
    funext v
    simp only [plan, Plan.cast, cast, casts]
  | _ =>
    funext v
    simp only [plan, Plan.cast]

end Ty

theorem Operation.ofName?_name (op : Operation) : Operation.ofName? op.name = some op := by
  cases op <;> decide

theorem KeyKind.ofKeysName?_keysName (kind : KeyKind) :
    KeyKind.ofKeysName? kind.keysName = some kind := by
  cases kind <;> decide

theorem Quote.ofName_name (quote : Quote) : Quote.ofName quote.name = quote := by
  cases quote <;> decide

theorem readTruth_truthName (b : Bool) : readTruth (truthName b) = .ok b := by
  cases b <;> rfl

namespace Node

variable (op : Operation) (type : Bytes)

theorem keyKind_node (kind : KeyKind) : kind.node.keyKind = .ok kind := by
  simp only [keyKind, KeyKind.node, KeyKind.ofKeysName?_keysName]

/-- A node of an operation without operands is a leaf. -/
theorem plan_leaf (literal quote keys : Bytes)
    (leaf : op ∉ [Operation.union, .array, .list, .shape]) :
    plan ⟨op.name, type, literal, quote, keys, [], false, []⟩ =
      leafPlan ⟨op.name, type, literal, quote, keys, [], false, []⟩ := by
  rw [plan.eq_def]
  simp only [Operation.ofName?_name]
  cases op <;> first | rfl | exact absurd leaf (by decide)

theorem operands_map {α : Type} (tree : α → Node) (result : α → Plan) {list : List α}
    (each : ∀ x ∈ list, (tree x).plan = .ok (result x)) (op : Bytes) :
    operands op ((list.map tree).map some) = .ok (list.map result) := by
  induction list with
  | nil => rfl
  | cons x rest ih =>
    simp only [List.map_cons, operands, each x (by simp),
      ih fun x member => each x (by simp [member])]

theorem elements_map {α : Type} (tree : α → Node) (result : α → Field Plan) {list : List α}
    {type : Bytes} (each : ∀ x ∈ list, (tree x).elementPlan type = .ok (result x)) :
    elements type ((list.map tree).map some) = .ok (list.map result) := by
  induction list with
  | nil => rfl
  | cons x rest ih =>
    simp only [List.map_cons, elements, each x (by simp),
      ih fun x member => each x (by simp [member])]

end Node

namespace Ty

open Node in
/-- The tree of a type loads as its plan. -/
theorem tree_plan {t : Ty} (regular : t.Regular) : t.tree.plan = .ok t.plan := by
  induction t using Ty.induct with
  | boolLit value =>
    refine (plan_leaf .boolLit _ _ [] [] (by decide)).trans ?_
    simp only [leafPlan, Operation.ofName?_name, literalPlan, readTruth_truthName]
    rfl
  | integerLit value =>
    refine (plan_leaf .integerLit _ _ [] [] (by decide)).trans ?_
    simp only [leafPlan, Operation.ofName?_name, literalPlan,
      readInt64_decimalInt (inInt64_toInt value)]
    simp [Except.map, plan]
  | floatLit value =>
    refine (plan_leaf .floatLit _ _ [] [] (by decide)).trans ?_
    simp only [leafPlan, Operation.ofName?_name, literalPlan,
      Binary.read_text Format.double_moderate]
    rfl
  | stringLit value quote =>
    refine (plan_leaf .stringLit _ _ quote.name [] (by decide)).trans ?_
    simp only [leafPlan, Operation.ofName?_name, Quote.ofName_name, plan]
    rfl
  | arrayKey kind =>
    refine (plan_leaf .arrayKey _ [] [] kind.keysName (by decide)).trans ?_
    simp only [leafPlan, Operation.ofName?_name, keyKind, KeyKind.ofKeysName?_keysName, plan]
  | union members ih =>
    have parts := operands_map tree plan
      (fun m member => ih m member (regular.member member).1) Operation.union.name
    have two := regular.members_length
    rw [tree, withChildren, empty, Node.plan.eq_def]
    simp only [Operation.ofName?_name, trees_eq, parts, List.length_map]
    rw [if_neg (by omega), plan, plans_eq]
  | array key value ih =>
    rw [tree, withChildren, empty, Node.plan.eq_def]
    simp only [Operation.ofName?_name, List.map_cons, List.map_nil, arrayPlan]
    rw [if_neg (by cases key <;> decide), keyKind_node, ih regular.arrayValue, plan]
  | list value ih =>
    rw [tree, withChildren, empty, Node.plan.eq_def]
    simp only [Operation.ofName?_name, List.map_cons, List.map_nil, ih regular.listValue, plan]
  | shape fields ih =>
    have element : ∀ f ∈ fields, (elementTree f).elementPlan (Ty.shape fields).text =
        .ok ⟨f.key, f.optional, f.type.plan⟩ := by
      intro f member
      rw [elementTree, withChildren, empty, elementPlan.eq_def]
      simp only [List.map_cons, List.map_nil, ih f member (regular.field member)]
      rw [if_neg (by decide)]
    rw [tree, withChildren, empty, Node.plan.eq_def]
    simp only [Operation.ofName?_name, elementTrees_eq, elements_map elementTree _ element, plan,
      fieldPlans_eq]
  | unknown name accepted => exact absurd regular (not_regular_unknown name accepted)
  | _ => rfl

end Ty

end Conform
