import Conform.Proofs.Compile
import Conform.Proofs.Program.Formed

/-! Loading what nobody vouches for. A stored program may lack any of its nodes, so the
loaders are written once more as a walk over nodes that may be absent. A walk stops where
it looks at a node that is absent, where it takes an operand that was never built, and
where the operand in the place of a key is none. It never does: each of these looks comes
after a check that refuses the artifact. -/
namespace Conform

/-- What stops a walk: a look at an absent node, an operand beyond the last, a key that is
no key, or an artifact that is refused. -/
inductive Halt where
  | absent
  | outside
  | keyless
  | refused (e : ArtifactError)

namespace Node.Walk

/-! ### Walking -/

def refuse {α : Type} (e : ArtifactError) : Except Halt α := .error (.refused e)

/-- Looks at what may be absent. -/
def look {α : Type} : Option α → Except Halt α
  | some found => .ok found
  | none => .error .absent

/-- Takes the item at a place. -/
def item {α : Type} (list : List α) (i : Nat) : Except Halt α :=
  match list[i]? with
  | some found => .ok found
  | none => .error .outside

def keyKind : Plan → Except Halt KeyKind
  | .leaf (.arrayKey kind) => .ok kind
  | _ => .error .keyless

def checkCount (op : Bytes) (count : Nat) (children : List (Option Node)) : Except Halt Unit :=
  if children.length ≠ count then refuse (.operandCount op count children.length) else .ok ()

/-- The first of two operands is a key, if it is there. -/
def checkKey (type : Bytes) (children : List (Option Node)) : Except Halt Unit := do
  if children.length = 2 then
    let first ← item children 0
    if first.isSome then
      let key ← look first
      if key.op ≠ Operation.arrayKey.name then refuse (.keyOperand type key.op)

mutual

/-- Looks at a node that should be there. -/
def plan : Option Node → Except Halt Plan
  | none => .error .absent
  | some node => visit node

def visit : Node → Except Halt Plan
  | ⟨op, type, literal, quote, keys, key, optional, children⟩ =>
    match Operation.ofName? op with
    | some .union => do
      let members ← operands op children
      if members.length < 2 then refuse (.tooFewMembers type) else return .union type members
    | some .array => do
      checkKey type children
      checkCount op 2 children
      let built ← operands op children
      return .array type (← keyKind (← item built 0)) (← item built 1)
    | some .list => do
      checkCount op 1 children
      let built ← operands op children
      return .list type (← item built 0)
    | some .shape => do return .shape type (← elements type children)
    | _ => (leafPlan ⟨op, type, literal, quote, keys, key, optional, []⟩).mapError .refused

def operands (op : Bytes) : List (Option Node) → Except Halt (List Plan)
  | [] => return []
  | child :: rest => do
    if child.isNone then refuse (.emptyOperand op)
    else return (← plan child) :: (← operands op rest)

def elements (type : Bytes) : List (Option Node) → Except Halt (List (Field Plan))
  | [] => return []
  | child :: rest => do
    if child.isNone then refuse (.notElement type)
    else return (← element type child) :: (← elements type rest)

def element (type : Bytes) : Option Node → Except Halt (Field Plan)
  | none => .error .absent
  | some ⟨op, _, _, _, _, key, optional, children⟩ => do
    if op ≠ Operation.element.name then refuse (.notElement type)
    else
      checkCount op 1 children
      let built ← operands op children
      return ⟨key, optional, ← item built 0⟩

end

/-! ### Agreement -/

/-- The walks from a node end as its readers do: with the same result, or refusing for the
same reason. A shape reads its elements in place of their plans, so the two go together. -/
structure Agrees (node : Node) : Prop where
  plan : plan (some node) = node.plan.mapError .refused
  element (type : Bytes) : element type (some node) = (node.elementPlan type).mapError .refused

/-- A walk along operands that checks each one before it looks at it. -/
theorem collect_agrees {α : Type} {absent : ArtifactError} {read : Node → Except ArtifactError α}
    {visit : Option Node → Except Halt α} {walk : List (Option Node) → Except Halt (List α)}
    (empty : walk [] = .ok [])
    (step : ∀ child rest, walk (child :: rest) = do
      if child.isNone then refuse absent else return (← visit child) :: (← walk rest))
    {children : List (Option Node)}
    (each : ∀ child, some child ∈ children → visit (some child) = (read child).mapError .refused) :
    walk children = (collect absent read children).mapError .refused := by
  induction children with
  | nil => exact empty
  | cons first rest ih =>
    have others := ih fun child member => each child (by simp [member])
    rw [step]
    cases first with
    | none => rfl
    | some child =>
      rw [collect, others, each child (by simp)]
      cases read child <;> cases collect absent read rest <;> rfl

section Operands

variable {children : List (Option Node)}
  (each : ∀ child, some child ∈ children → Agrees child)

include each

theorem operands_agrees (op : Bytes) :
    operands op children = (Node.operands op children).mapError .refused := by
  rw [operands_eq]
  exact collect_agrees (by rw [operands]; rfl) (fun _ _ => by rw [operands])
    fun child member => (each child member).plan

theorem elements_agrees (type : Bytes) :
    elements type children = (Node.elements type children).mapError .refused := by
  rw [elements_eq]
  exact collect_agrees (by rw [elements]; rfl) (fun _ _ => by rw [elements])
    fun child member => (each child member).element type

/-- The only operand is built before it is taken. -/
theorem only_agrees {α : Type} (op : Bytes) (result : Plan → α) :
    (do
      checkCount op 1 children
      let built ← operands op children
      return result (← item built 0)) = ((only op children).map result).mapError .refused := by
  rw [operands_agrees each]
  match children with
  | [] | [none] | none :: _ :: _ | some _ :: _ :: _ => rfl
  | [some child] =>
    rw [Node.operands, Node.operands, only]
    cases child.plan <;> rfl

/-- Of two operands the first is looked at before the count of operands is known to be
right, and is a key by the time it is taken. -/
theorem array_agrees (op type : Bytes) :
    (do
      checkKey type children
      checkCount op 2 children
      let built ← operands op children
      return .array type (← keyKind (← item built 0)) (← item built 1)) =
        (arrayPlan op type children).mapError .refused := by
  rw [operands_agrees each]
  match children with
  | [] | [none] | [some _] | [none, _] | none :: _ :: _ :: _ | some _ :: _ :: _ :: _ => rfl
  | [some key, value] =>
    -- the count is two and the operand is there: the look goes through
    have looked : checkKey type [some key, value] =
        if key.op ≠ Operation.arrayKey.name then refuse (.keyOperand type key.op) else .ok () := rfl
    rw [looked, arrayPlan]
    split
    · rfl
    · rename_i named
      rw [Node.operands, plan_arrayKey (not_not.mp named)]
      cases key.keyKind with
      | error e => rfl
      | ok kind =>
        cases value with
        | none => rfl
        | some child =>
          rw [Node.operands, Node.operands]
          dsimp only
          cases child.plan <;> rfl

end Operands

/-- One level: the walks from a node agree once those from its operands do. -/
theorem Agrees.node {node : Node} (each : ∀ child, some child ∈ node.children → Agrees child) :
    Agrees node where
  plan := by
    obtain ⟨op, type, literal, quote, keys, key, optional, children⟩ := node
    rw [Walk.plan, visit]
    split
    · rename_i name
      rw [operands_agrees each, plan_union name]
      cases Node.operands op children with
      | error e => rfl
      | ok members =>
        dsimp only [Except.mapError, bind, Except.bind]
        split <;> rfl
    · rename_i name
      rw [array_agrees each, plan_array name]
    · rename_i name
      rw [only_agrees each, plan_list name]
    · rename_i name
      rw [elements_agrees each, plan_shape name]
      cases Node.elements type children <;> rfl
    · rename_i union array list shape
      rw [plan_plain (by simp_all)]
      rfl
  element type := by
    obtain ⟨op, _, literal, quote, keys, key, optional, children⟩ := node
    rw [Walk.element, elementPlan_eq]
    split
    · rfl
    · rw [only_agrees each]

theorem agrees (node : Node) : Agrees node := by
  induction node using Node.induct with
  | node node ih => exact .node ih

end Node.Walk

namespace Artifact

/-! ### Loading -/

/-- An artifact that loads: of the format and the signature of its program, all of whose
nodes are formed. -/
def Loadable (a : Artifact) : Prop :=
  a.format = programFormat ∧ ∃ program root, Program.read? a.source = some program ∧
    program.signature = a.signature ∧ program.root = some root ∧ root.Formed

theorem load_ok_iff (a : Artifact) : (∃ v, a.load = .ok v) ↔ a.Loadable := by
  simp only [load_eq_ok_iff]
  constructor
  · rintro ⟨v, format, program, root, plan, read, signature, rooted, built, -⟩
    exact ⟨format, program, root, read, signature, rooted, root.judged.plan.mp ⟨plan, built⟩⟩
  · rintro ⟨format, program, root, read, signature, rooted, formed⟩
    obtain ⟨plan, built⟩ := root.judged.plan.mpr formed
    exact ⟨_, format, program, root, plan, read, signature, rooted, built, rfl⟩

open Node.Walk in
/-- Loading as a walk: what may be absent is checked for before it is looked at. -/
def walk (a : Option Artifact) : Except Halt Validator := do
  if a.isNone then refuse .missing
  else
    let a ← look a
    if a.format ≠ programFormat then refuse (.format a.format)
    else
      match Program.read? a.source with
      | none => refuse (.corrupted a.signature)
      | some program =>
        if program.signature ≠ a.signature then
          refuse (.otherSignature a.signature program.signature)
        else if program.root.isNone then refuse (.noProgram a.signature)
        else return ⟨program.signature, ← plan program.root⟩

theorem walk_agrees (a : Option Artifact) : walk a = (load? a).mapError .refused := by
  cases a with
  | none => rfl
  | some a =>
    simp only [walk, load?, load, Option.isNone_some, Bool.false_eq_true, if_false,
      Node.Walk.look, bind, Except.bind]
    split
    · rfl
    · cases Program.read? a.source with
      | none => rfl
      | some program =>
        dsimp only
        split
        · rfl
        · cases program.root with
          | none => rfl
          | some root =>
            rw [(Node.Walk.agrees root).plan]
            dsimp only
            cases root.plan <;> rfl

/-- Loading is total. Whatever the artifact, the walk ends as loading does: at a validator
of the signature the artifact has, or refusing the artifact, and never at a node that is
absent. It loads exactly those artifacts whose program is formed throughout. -/
theorem load_total (a : Option Artifact) :
    walk a = (load? a).mapError .refused ∧
      (match load? a with
      | .ok v => ∃ artifact, a = some artifact ∧ v.signature = artifact.signature
      | .error e => e.report.code? = some .invalidArtifact) ∧
      ((∃ v, load? a = .ok v) ↔ ∃ artifact, a = some artifact ∧ artifact.Loadable) := by
  refine ⟨walk_agrees a, ?_, ?_⟩
  · cases loaded : load? a with
    | error e => exact e.report_code
    | ok v =>
      cases a with
      | none => cases loaded
      | some artifact => exact ⟨artifact, rfl, signature_of_load loaded⟩
  · cases a with
    | none =>
      constructor
      · rintro ⟨_, loaded⟩
        cases loaded
      · rintro ⟨_, there, _⟩
        cases there
    | some artifact =>
      simp only [Option.some.injEq, exists_eq_left']
      exact load_ok_iff artifact

end Artifact
end Conform
