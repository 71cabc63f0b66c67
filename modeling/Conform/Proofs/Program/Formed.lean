import Conform.Proofs.Matched
import Conform.Proofs.Program.Meaning
import Conform.Proofs.Program.Stored

/-! Which trees load. A stored tree may lack operands, have too many, or name operations
there are none of. Loading reads it operation by operation; here is what each of them needs,
and the trees that have it at every node are exactly those that load. -/
namespace Conform.Node

/-! ### Readers, by operation -/

/-- The only operand of an operation. -/
def only (op : Bytes) : List (Option Node) → Except ArtifactError Plan
  | [none] => .error (.emptyOperand op)
  | [some child] => child.plan
  | children => .error (.operandCount op 1 children.length)

/-- Reads operands first to last, none of which may be absent. -/
def collect {α : Type} (absent : ArtifactError) (read : Node → Except ArtifactError α) :
    List (Option Node) → Except ArtifactError (List α)
  | [] => .ok []
  | none :: _ => .error absent
  | some child :: rest =>
    match read child with
    | .error e => .error e
    | .ok first =>
      match collect absent read rest with
      | .error e => .error e
      | .ok others => .ok (first :: others)

theorem operands_eq (op : Bytes) (children : List (Option Node)) :
    operands op children = collect (.emptyOperand op) plan children := by
  induction children with
  | nil => rfl
  | cons first rest ih =>
    cases first with
    | none => rfl
    | some child =>
      rw [operands, collect, ih]
      cases child.plan <;> first | rfl | cases collect (.emptyOperand op) plan rest <;> rfl

theorem elements_eq (type : Bytes) (children : List (Option Node)) :
    elements type children = collect (.notElement type) (elementPlan type) children := by
  induction children with
  | nil => rfl
  | cons first rest ih =>
    cases first with
    | none => rfl
    | some child =>
      rw [elements, collect, ih]
      cases child.elementPlan type <;>
        first | rfl | cases collect (.notElement type) (elementPlan type) rest <;> rfl

theorem plan_eq (node : Node) :
    node.plan =
      match Operation.ofName? node.op with
      | some .union =>
        (operands node.op node.children).bind fun members =>
          if members.length < 2 then .error (.tooFewMembers node.type)
          else .ok (.union node.type members)
      | some .array => arrayPlan node.op node.type node.children
      | some .list => (only node.op node.children).map (.list node.type)
      | some .shape => (elements node.type node.children).map (.shape node.type)
      | _ => node.leafPlan := by
  obtain ⟨op, type, _, _, _, _, _, children⟩ := node
  rw [plan.eq_def]
  dsimp only
  cases Operation.ofName? op with
  | none => rfl
  | some operation =>
    cases operation with
    | union => cases operands op children <;> rfl
    | list =>
      rcases children with _ | ⟨_ | child, _ | ⟨_, _⟩⟩
      case cons.some.nil =>
        dsimp only [only]
        cases child.plan <;> rfl
      all_goals rfl
    | shape => cases elements type children <;> rfl
    | _ => rfl

theorem elementPlan_eq (node : Node) (type : Bytes) :
    node.elementPlan type =
      if node.op ≠ Operation.element.name then .error (.notElement type)
      else (only node.op node.children).map fun plan => ⟨node.key, node.optional, plan⟩ := by
  obtain ⟨op, _, _, _, _, _, _, children⟩ := node
  rw [elementPlan.eq_def]
  dsimp only
  congr 1
  rcases children with _ | ⟨_ | child, _ | ⟨_, _⟩⟩
  case cons.some.nil =>
    dsimp only [only]
    cases child.plan <;> rfl
  all_goals rfl

section Operations

variable {node : Node}

theorem plan_union (op : Operation.ofName? node.op = some .union) :
    node.plan =
      (operands node.op node.children).bind fun members =>
        if members.length < 2 then .error (.tooFewMembers node.type)
        else .ok (.union node.type members) := by
  rw [plan_eq, op]

theorem plan_array (op : Operation.ofName? node.op = some .array) :
    node.plan = arrayPlan node.op node.type node.children := by
  rw [plan_eq, op]

theorem plan_list (op : Operation.ofName? node.op = some .list) :
    node.plan = (only node.op node.children).map (.list node.type) := by
  rw [plan_eq, op]

theorem plan_shape (op : Operation.ofName? node.op = some .shape) :
    node.plan = (elements node.type node.children).map (.shape node.type) := by
  rw [plan_eq, op]

/-- Every other operation takes no operands. -/
theorem plan_plain
    (op : Operation.ofName? node.op ∉ [some Operation.union, some .array, some .list, some .shape]) :
    node.plan = node.leafPlan := by
  rw [plan_eq]
  split
  case h_5 => rfl
  all_goals simp_all

/-- A node of keys is read as a key or refused. -/
theorem plan_arrayKey (op : node.op = Operation.arrayKey.name) :
    node.plan = node.keyKind.map fun kind => .leaf (.arrayKey kind) := by
  have name : Operation.ofName? node.op = some .arrayKey := by rw [op, Operation.ofName?_name]
  rw [plan_plain (by rw [name]; decide), leafPlan, name]
  cases node.keyKind <;> rfl

end Operations

/-! ### Programs that load -/

/-- The node of an operation without operands carries what the operation needs: a literal
that reads, or keys of a kind there is. -/
def Plain (node : Node) : Prop :=
  match Operation.ofName? node.op with
  | some .mixed | some .null | some .bool | some .integer | some .float | some .string => True
  | some .stringLit => True
  | some .boolLit => ∃ value, readTruth node.literal = .ok value
  | some .integerLit => ∃ value, readInt64 node.literal = .ok value
  | some .floatLit => ∃ value : Double, Binary.read node.literal = .ok value
  | some .arrayKey => ∃ kind, KeyKind.ofKeysName? node.keys = some kind
  | _ => False

mutual

/-- The trees that load. Operands of an operation that takes none are not looked at. -/
inductive Formed : Node → Prop where
  | plain {node : Node} (plain : node.Plain) : Formed node
  | union {node : Node} {members : List Node} (op : Operation.ofName? node.op = some .union)
      (children : node.children = members.map some) (many : 2 ≤ members.length)
      (each : ∀ m ∈ members, Formed m) : Formed node
  | array {node key value : Node} {kind : KeyKind} (op : Operation.ofName? node.op = some .array)
      (children : node.children = [some key, some value]) (named : key.op = Operation.arrayKey.name)
      (keys : KeyKind.ofKeysName? key.keys = some kind) (formed : Formed value) : Formed node
  | list {node value : Node} (op : Operation.ofName? node.op = some .list)
      (children : node.children = [some value]) (formed : Formed value) : Formed node
  | shape {node : Node} {elements : List Node} (op : Operation.ofName? node.op = some .shape)
      (children : node.children = elements.map some) (each : ∀ e ∈ elements, Element e) : Formed node

/-- The operands of a shape. -/
inductive Element : Node → Prop where
  | mk {node value : Node} (op : node.op = Operation.element.name)
      (children : node.children = [some value]) (formed : Formed value) : Element node

end

theorem leafPlan_ok_iff (node : Node) : (∃ plan, node.leafPlan = .ok plan) ↔ node.Plain := by
  have literal (kind : LiteralKind) {α : Type} (read : Except NumberError α) (make : α → Ty) :
      (∃ plan, node.literalPlan kind (read.map make) = .ok plan) ↔ ∃ value, read = .ok value := by
    cases read <;> simp [literalPlan, Except.map]
  rw [leafPlan, Plain]
  cases Operation.ofName? node.op with
  | none => simp
  | some op =>
    cases op with
    | boolLit | integerLit | floatLit => exact literal _ _ _
    | arrayKey =>
      rw [keyKind]
      cases KeyKind.ofKeysName? node.keys <;> simp
    | _ => simp

section Collect

variable {α : Type} {absent : ArtifactError} {read : Node → Except ArtifactError α}

/-- Collecting comes to reading each operand, all of which are there. -/
theorem collect_eq_ok_iff {children : List (Option Node)} {results : List α} :
    collect absent read children = .ok results ↔ ∃ members : List Node,
      children = members.map some ∧
        List.Forall₂ (fun m result => read m = .ok result) members results := by
  induction children generalizing results with
  | nil =>
    constructor
    · intro built
      obtain rfl := Except.ok.inj built
      exact ⟨[], rfl, .nil⟩
    · rintro ⟨_ | _, same, each⟩
      · cases each
        rfl
      · cases same
  | cons first rest ih =>
    cases first with
    | none =>
      constructor
      · intro built
        cases built
      · rintro ⟨_ | _, same, _⟩ <;> cases same
    | some child =>
      rw [collect]
      constructor
      · intro built
        split at built
        · contradiction
        · rename_i first found
          split at built
          · contradiction
          · rename_i others collected
            obtain rfl := Except.ok.inj built
            obtain ⟨members, rfl, each⟩ := ih.mp collected
            exact ⟨child :: members, rfl, .cons found each⟩
      · rintro ⟨_ | ⟨m, members⟩, same, each⟩
        · cases same
        · cases same
          cases each with
          | cons found each => simp only [found, ih.mpr ⟨members, rfl, each⟩]

theorem collect_ok_iff (children : List (Option Node)) :
    (∃ results, collect absent read children = .ok results) ↔
      ∃ members : List Node, children = members.map some ∧
        ∀ m ∈ members, ∃ result, read m = .ok result := by
  simp only [collect_eq_ok_iff]
  constructor
  · rintro ⟨results, members, same, each⟩
    refine ⟨members, same, fun m member => ?_⟩
    obtain ⟨result, -, found⟩ := exists_left_of_forall₂ each.flip member
    exact ⟨result, found⟩
  · rintro ⟨members, same, each⟩
    obtain ⟨results, found⟩ := exists_forall₂ each
    exact ⟨results, members, same, found⟩

theorem collect_length {children : List (Option Node)} {results : List α}
    (built : collect absent read children = .ok results) : results.length = children.length := by
  obtain ⟨members, rfl, each⟩ := collect_eq_ok_iff.mp built
  rw [List.length_map, each.length_eq]

end Collect

theorem only_eq_ok_iff {op : Bytes} {children : List (Option Node)} {plan : Plan} :
    only op children = .ok plan ↔ ∃ value, children = [some value] ∧ value.plan = .ok plan := by
  rcases children with _ | ⟨_ | _, _ | ⟨_, _⟩⟩ <;> simp [only]

theorem arrayPlan_eq_ok_iff {op type : Bytes} {children : List (Option Node)} {plan : Plan} :
    arrayPlan op type children = .ok plan ↔ ∃ key value kind inner,
      children = [some key, some value] ∧ key.op = Operation.arrayKey.name ∧
        KeyKind.ofKeysName? key.keys = some kind ∧ value.plan = .ok inner ∧
        plan = .array type kind inner := by
  match children with
  | [] | [none] | [some _] | [none, _] | none :: _ :: _ :: _ | some _ :: _ :: _ :: _ =>
    simp [arrayPlan]
  | [some key, none] =>
    rw [arrayPlan]
    cases key.keyKind <;> split <;> simp
  | [some key, some value] =>
    rw [arrayPlan, keyKind]
    by_cases named : key.op = Operation.arrayKey.name
    · rw [if_neg (not_not_intro named)]
      cases keys : KeyKind.ofKeysName? key.keys with
      | none => simp [keys]
      | some kind =>
        dsimp only
        cases built : value.plan <;> simp [keys, named, built, @eq_comm _ plan]
    · rw [if_pos named]
      simp [named]

section Operations

variable {node : Node}

theorem formed_union (op : Operation.ofName? node.op = some .union) : node.Formed ↔
    ∃ members : List Node, node.children = members.map some ∧ 2 ≤ members.length ∧
      ∀ m ∈ members, m.Formed := by
  constructor
  · intro formed
    cases formed with
    | union _ children many each => exact ⟨_, children, many, each⟩
    | _ => simp_all [Plain]
  · rintro ⟨members, children, many, each⟩
    exact .union op children many each

theorem formed_array (op : Operation.ofName? node.op = some .array) : node.Formed ↔
    ∃ key value, node.children = [some key, some value] ∧ key.op = Operation.arrayKey.name ∧
      (∃ kind, KeyKind.ofKeysName? key.keys = some kind) ∧ value.Formed := by
  constructor
  · intro formed
    cases formed with
    | array _ children named keys formed => exact ⟨_, _, children, named, ⟨_, keys⟩, formed⟩
    | _ => simp_all [Plain]
  · rintro ⟨key, value, children, named, ⟨kind, keys⟩, formed⟩
    exact .array op children named keys formed

theorem formed_list (op : Operation.ofName? node.op = some .list) : node.Formed ↔
    ∃ value, node.children = [some value] ∧ value.Formed := by
  constructor
  · intro formed
    cases formed with
    | list _ children formed => exact ⟨_, children, formed⟩
    | _ => simp_all [Plain]
  · rintro ⟨value, children, formed⟩
    exact .list op children formed

theorem formed_shape (op : Operation.ofName? node.op = some .shape) : node.Formed ↔
    ∃ elements : List Node, node.children = elements.map some ∧ ∀ e ∈ elements, e.Element := by
  constructor
  · intro formed
    cases formed with
    | shape _ children each => exact ⟨_, children, each⟩
    | _ => simp_all [Plain]
  · rintro ⟨elements, children, each⟩
    exact .shape op children each

theorem formed_plain
    (op : Operation.ofName? node.op ∉ [some Operation.union, some .array, some .list, some .shape]) :
    node.Formed ↔ node.Plain := by
  constructor
  · intro formed
    cases formed with
    | plain plain => exact plain
    | _ => simp_all
  · exact .plain

end Operations

/-! ### Loading exactly the formed -/

/-- A node loads exactly if it is formed: as an operand, and as an element of a shape. The
induction carries both, as the operands of a shape are read as elements. -/
structure Judged (node : Node) : Prop where
  plan : (∃ plan, node.plan = .ok plan) ↔ node.Formed
  element (type : Bytes) : (∃ field, node.elementPlan type = .ok field) ↔ node.Element

section Judged

variable {children : List (Option Node)} (each : ∀ child, some child ∈ children → Judged child)

include each

theorem only_judged (op : Bytes) :
    (∃ plan, only op children = .ok plan) ↔ ∃ value, children = [some value] ∧ value.Formed := by
  simp only [only_eq_ok_iff]
  rw [exists_comm]
  refine exists_congr fun value => ?_
  rw [exists_and_left]
  exact and_congr_right fun same => (each value (by simp [same])).plan

theorem array_judged (op type : Bytes) :
    (∃ plan, arrayPlan op type children = .ok plan) ↔
      ∃ key value, children = [some key, some value] ∧ key.op = Operation.arrayKey.name ∧
        (∃ kind, KeyKind.ofKeysName? key.keys = some kind) ∧ value.Formed := by
  simp only [arrayPlan_eq_ok_iff]
  constructor
  · rintro ⟨_, key, value, kind, inner, same, named, keys, read, rfl⟩
    have formed := (each value (by simp [same])).plan.mp ⟨inner, read⟩
    exact ⟨key, value, same, named, ⟨kind, keys⟩, formed⟩
  · rintro ⟨key, value, same, named, ⟨kind, keys⟩, formed⟩
    obtain ⟨inner, read⟩ := (each value (by simp [same])).plan.mpr formed
    exact ⟨_, key, value, kind, inner, same, named, keys, read, rfl⟩

theorem operands_judged (op : Bytes) : (∃ plans, operands op children = .ok plans) ↔
    ∃ members : List Node, children = members.map some ∧ ∀ m ∈ members, m.Formed := by
  simp only [operands_eq, collect_ok_iff]
  refine exists_congr fun members => and_congr_right fun same => ?_
  refine forall₂_congr fun m member => ?_
  exact (each m (by simp [same, member])).plan

theorem elements_judged (type : Bytes) : (∃ fields, elements type children = .ok fields) ↔
    ∃ members : List Node, children = members.map some ∧ ∀ m ∈ members, m.Element := by
  simp only [elements_eq, collect_ok_iff]
  refine exists_congr fun members => and_congr_right fun same => ?_
  refine forall₂_congr fun m member => ?_
  exact (each m (by simp [same, member])).element type

end Judged

theorem map_eq_ok_iff {ε α β : Type} {x : Except ε α} {f : α → β} {b : β} :
    x.map f = .ok b ↔ ∃ a, x = .ok a ∧ f a = b := by
  cases x <;> simp [Except.map]

theorem map_ok_iff {ε α β : Type} {x : Except ε α} {f : α → β} :
    (∃ b, x.map f = .ok b) ↔ ∃ a, x = .ok a := by
  simp only [map_eq_ok_iff]
  rw [exists_comm]
  simp

theorem union_ok_iff {node : Node} (op : Operation.ofName? node.op = some .union) :
    (∃ plan, node.plan = .ok plan) ↔
      (∃ plans, operands node.op node.children = .ok plans) ∧ 2 ≤ node.children.length := by
  rw [plan_union op]
  cases found : operands node.op node.children with
  | error e => simp [Except.bind]
  | ok plans =>
    rw [← collect_length (operands_eq _ _ ▸ found)]
    dsimp only [Except.bind]
    split
    · rename_i few
      simp [Nat.not_le.mpr few]
    · rename_i many
      simp [Nat.not_lt.mp many]

theorem Judged.node {node : Node} (each : ∀ child, some child ∈ node.children → Judged child) :
    Judged node where
  plan := by
    by_cases plain : Operation.ofName? node.op ∉
        [some Operation.union, some .array, some .list, some .shape]
    · rw [plan_plain plain, formed_plain plain, leafPlan_ok_iff]
    · simp only [List.mem_cons, List.not_mem_nil, or_false, not_not] at plain
      rcases plain with op | op | op | op
      · rw [union_ok_iff op, formed_union op, operands_judged each]
        constructor
        · rintro ⟨⟨members, same, formed⟩, many⟩
          exact ⟨members, same, by rwa [same, List.length_map] at many, formed⟩
        · rintro ⟨members, same, many, formed⟩
          exact ⟨⟨members, same, formed⟩, by rwa [same, List.length_map]⟩
      · rw [plan_array op, formed_array op, array_judged each]
      · rw [plan_list op, formed_list op, map_ok_iff, only_judged each]
      · rw [plan_shape op, formed_shape op, map_ok_iff, elements_judged each]
  element type := by
    by_cases named : node.op = Operation.element.name
    · rw [elementPlan_eq, if_neg (not_not_intro named), map_ok_iff, only_judged each]
      constructor
      · rintro ⟨value, children, formed⟩
        exact .mk named children formed
      · rintro ⟨-, children, formed⟩
        exact ⟨_, children, formed⟩
    · rw [elementPlan_eq, if_pos named]
      constructor
      · rintro ⟨_, built⟩
        cases built
      · rintro ⟨op, -, -⟩
        exact absurd op named

theorem judged (node : Node) : Judged node := by
  induction node using Node.induct with
  | node node ih => exact .node ih

end Conform.Node
