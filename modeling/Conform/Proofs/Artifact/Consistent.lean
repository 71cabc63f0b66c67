import Conform.Proofs.Artifact.Untrusted
import Conform.Proofs.Plan
import Conform.Proofs.Ty.Quoting
import Mathlib

/-! Whether a loaded program agrees with itself. What a validator accepts it should convert,
and what it converts a value to it should accept. A plan is a type in all but the words of
its errors, so this comes down to types, without the rules that making a type enforces: of
these only one is needed, that no shape declares a key twice, and it is the one that
loading does not check. -/
namespace Conform

namespace Ty

/-- A shape declares no key twice, its parts aside. -/
def distinctPart : Ty → Bool
  | .shape fields => decide (fields.map (·.key)).Nodup
  | _ => true

def distinctKeys (t : Ty) : Bool := t.every distinctPart

/-- The type agrees with itself: its members are converted, and conversion gives members. -/
structure Consistent (t : Ty) : Prop where
  castsMembers : t.CastsMembers
  castsInto : t.CastsInto

theorem consistent_unknown (name : Bytes) (accepted : Bool) :
    (Ty.unknown name accepted).Consistent := by
  constructor
  · intro v passes
    exact ⟨v, cast_unknown_eq_ok_iff.mpr ⟨passes, rfl⟩⟩
  · intro v w _ result
    exact (cast_unknown_eq_ok_iff.mp result).1

theorem consistent_of_distinct {t : Ty} (distinct : t.distinctKeys = true) : t.Consistent := by
  induction t using Ty.induct with
  | union members ih =>
    have each := fun m member => ih m member (every_member distinct member)
    exact ⟨castsMembers_union fun m member => (each m member).castsMembers,
      castsInto_union fun m member => (each m member).castsInto⟩
  | array key value ih =>
    have inner := ih (every_arrayValue distinct)
    exact ⟨castsMembers_array key inner.castsMembers, castsInto_array key inner.castsInto⟩
  | list value ih =>
    have inner := ih (every_listValue distinct)
    exact ⟨castsMembers_list inner.castsMembers, castsInto_list inner.castsInto⟩
  | shape fields ih =>
    have keys : (fields.map (·.key)).Nodup := of_decide_eq_true (every_self distinct)
    have each := fun f member => ih f member (every_field distinct member)
    exact ⟨castsMembers_shape keys fun f member => (each f member).castsMembers,
      castsInto_shape keys fun f member => (each f member).castsInto⟩
  | unknown name accepted => exact consistent_unknown name accepted
  | _ => exact ⟨Regular.castsMembers ⟨rfl, rfl⟩, Regular.castsInto ⟨rfl, rfl⟩⟩

end Ty

namespace Plan

/-! ### Plans as types -/

mutual

/-- The type that a plan checks, without the words of its errors. -/
def type : Plan → Ty
  | .leaf t => t
  | .union _ members => .union (types members)
  | .array _ key value => .array key value.type
  | .list _ value => .list value.type
  | .shape _ fields => .shape (fieldTypes fields)

def types : List Plan → List Ty
  | [] => []
  | p :: rest => p.type :: types rest

def fieldTypes : List (Field Plan) → List (Field Ty)
  | [] => []
  | f :: rest => ⟨f.key, f.optional, f.type.type⟩ :: fieldTypes rest

end

theorem types_eq (members : List Plan) : types members = members.map type := by
  induction members with
  | nil => rfl
  | cons p rest ih => rw [types, ih, List.map_cons]

theorem fieldTypes_eq (fields : List (Field Plan)) :
    fieldTypes fields = fields.map fun f => ⟨f.key, f.optional, f.type.type⟩ := by
  induction fields with
  | nil => rfl
  | cons f rest ih => rw [fieldTypes, ih, List.map_cons]

theorem accepts_type (p : Plan) : p.accepts = p.type.accepts := by
  induction p using Plan.induct with
  | leaf t => funext v; rw [accepts, type]
  | union expected members ih =>
    funext v
    rw [accepts, type, Ty.accepts]
    induction members with
    | nil => rfl
    | cons p rest hrest =>
      obtain ⟨here, others⟩ := List.forall_mem_cons.mp ih
      rw [anyAccepts, types, Ty.anyAccepts, here, hrest others]
  | array expected key value ih => funext v; rw [accepts, type, Ty.accepts, ih]
  | list expected value ih => funext v; rw [accepts, type, Ty.accepts, ih]
  | shape expected fields ih =>
    have tests : fieldTests fields = Ty.fieldTests (fieldTypes fields) := by
      induction fields with
      | nil => rfl
      | cons f rest hrest =>
        obtain ⟨here, others⟩ := List.forall_mem_cons.mp ih
        rw [fieldTests, fieldTypes, Ty.fieldTests, here, hrest others]
    funext v
    rw [accepts, type, Ty.accepts, tests]

theorem castFirst_types {members : List Plan}
    (each : ∀ m ∈ members, ∀ v, Alike (m.cast v) (m.type.cast v)) (v : Value) :
    (∃ w, castFirst members v = .ok w ∧ Ty.castFirst (types members) v = .ok w) ∨
      ∃ es fs, castFirst members v = .error es ∧ Ty.castFirst (types members) v = .error fs := by
  induction members with
  | nil => exact .inr ⟨[], [], rfl, rfl⟩
  | cons p rest ih =>
    obtain ⟨here, others⟩ := List.forall_mem_cons.mp each
    rw [types, castFirst, Ty.castFirst]
    rcases here v with ⟨w, left, right⟩ | ⟨e, f, left, right, -⟩
    · simp only [left, right]
      exact .inl ⟨w, rfl, rfl⟩
    · simp only [left, right]
      rcases ih others with ⟨w, left, right⟩ | ⟨es, fs, left, right⟩
      · simp only [left, right]
        exact .inl ⟨w, rfl, rfl⟩
      · simp only [left, right]
        exact .inr ⟨_, _, rfl, rfl⟩

/-- A plan converts as its type does, but for the words of an error. -/
theorem cast_type (p : Plan) (v : Value) : Alike (p.cast v) (p.type.cast v) := by
  induction p using Plan.induct generalizing v with
  | leaf t => exact .refl _
  | union expected members ih =>
    rw [cast, type, Ty.cast]
    rcases castFirst_types ih v with ⟨w, left, right⟩ | ⟨es, fs, left, right⟩
    · simp only [left, right]
      exact .ok w
    · simp only [left, right]
      exact .error rfl
  | array expected key value ih => exact castArray_alike ih _ _ _ v
  | list expected value ih => exact castList_alike ih _ _ v
  | shape expected fields ih =>
    have each : List.Forall₂ FieldAlike (fieldCasts fields) (Ty.fieldCasts (fieldTypes fields)) := by
      induction fields with
      | nil => exact .nil
      | cons f rest hrest =>
        obtain ⟨here, others⟩ := List.forall_mem_cons.mp ih
        exact .cons ⟨rfl, rfl, here⟩ (hrest others)
    exact castShape_alike each _ _ v

/-! ### Keys -/

mutual

/-- No shape of the plan declares a key twice. -/
def distinctKeys : Plan → Bool
  | .leaf _ => true
  | .union _ members => allDistinct members
  | .array _ _ value => value.distinctKeys
  | .list _ value => value.distinctKeys
  | .shape _ fields => decide (fields.map (·.key)).Nodup && fieldsDistinct fields

def allDistinct : List Plan → Bool
  | [] => true
  | p :: rest => p.distinctKeys && allDistinct rest

def fieldsDistinct : List (Field Plan) → Bool
  | [] => true
  | f :: rest => f.type.distinctKeys && fieldsDistinct rest

end

theorem allDistinct_iff (members : List Plan) :
    allDistinct members = true ↔ ∀ m ∈ members, m.distinctKeys = true := by
  induction members with
  | nil => simp [allDistinct]
  | cons p rest ih => simp [allDistinct, ih]

theorem fieldsDistinct_iff (fields : List (Field Plan)) :
    fieldsDistinct fields = true ↔ ∀ f ∈ fields, f.type.distinctKeys = true := by
  induction fields with
  | nil => simp [fieldsDistinct]
  | cons f rest ih => simp [fieldsDistinct, ih]

end Plan

namespace Node

/-! ### What loading gives -/

theorem collect_origin {α : Type} {absent : ArtifactError} {read : Node → Except ArtifactError α}
    {children : List (Option Node)} {results : List α}
    (built : collect absent read children = .ok results) {result : α} (member : result ∈ results) :
    ∃ child, some child ∈ children ∧ read child = .ok result := by
  obtain ⟨members, rfl, each⟩ := collect_eq_ok_iff.mp built
  obtain ⟨child, inside, found⟩ := exists_left_of_forall₂ each member
  exact ⟨child, List.mem_map_of_mem inside, found⟩

/-- The plans of a node have a property: as an operand, and as an element of a shape. -/
structure Gives (P : Plan → Prop) (node : Node) : Prop where
  plan {p : Plan} : node.plan = .ok p → P p
  element {type : Bytes} {f : Field Plan} : node.elementPlan type = .ok f → P f.type

/-- Whatever was loaded has a property that leaves have and that is inherited from the parts. -/
theorem gives {P : Plan → Prop} (leaf : ∀ (node : Node) p, node.leafPlan = .ok p → P p)
    (union : ∀ type members, (∀ m ∈ members, P m) → P (.union type members))
    (array : ∀ type key value, P value → P (.array type key value))
    (list : ∀ type value, P value → P (.list type value))
    (shape : ∀ type (fields : List (Field Plan)), (∀ f ∈ fields, P f.type) → P (.shape type fields))
    (node : Node) : Gives P node := by
  induction node using Node.induct with
  | node node ih =>
    have only_gives {value : Plan} (found : only node.op node.children = .ok value) : P value := by
      obtain ⟨child, same, read⟩ := only_eq_ok_iff.mp found
      exact (ih child (by simp [same])).plan read
    constructor
    · intro p built
      rw [plan_eq] at built
      split at built
      · cases found : operands node.op node.children with
        | error e => rw [found] at built; cases built
        | ok members =>
          rw [found, Except.bind] at built
          split at built
          · cases built
          · cases built
            refine union _ _ fun m member => ?_
            obtain ⟨child, inside, read⟩ := collect_origin (operands_eq _ _ ▸ found) member
            exact (ih child inside).plan read
      · obtain ⟨key, child, kind, value, same, -, -, read, rfl⟩ := arrayPlan_eq_ok_iff.mp built
        exact array _ _ _ ((ih child (by simp [same])).plan read)
      · obtain ⟨value, found, rfl⟩ := map_eq_ok_iff.mp built
        exact list _ _ (only_gives found)
      · obtain ⟨fields, found, rfl⟩ := map_eq_ok_iff.mp built
        refine shape _ _ fun f member => ?_
        obtain ⟨child, inside, read⟩ := collect_origin (elements_eq _ _ ▸ found) member
        exact (ih child inside).element read
      · exact leaf node p built
    · intro type f built
      rw [elementPlan_eq] at built
      split at built
      · cases built
      · obtain ⟨value, found, rfl⟩ := map_eq_ok_iff.mp built
        exact only_gives found

/-- A leaf holds a type without parts. -/
theorem leafPlan_origin {node : Node} {p : Plan} (built : node.leafPlan = .ok p) :
    ∃ t : Ty, p = .leaf t ∧ t.distinctKeys = true := by
  have literal {kind : LiteralKind} {read : Except NumberError Ty}
      (plain : ∀ t, read = .ok t → t.distinctKeys = true)
      (built : node.literalPlan kind read = .ok p) : ∃ t, p = .leaf t ∧ t.distinctKeys = true := by
    cases read with
    | error e => cases built
    | ok t =>
      cases built
      exact ⟨t, rfl, plain t rfl⟩
  have mapped {α : Type} (read : Except NumberError α) (make : α → Ty)
      (plain : ∀ a, (make a).distinctKeys = true) (t : Ty) (done : read.map make = .ok t) :
      t.distinctKeys = true := by
    cases read with
    | error e => cases done
    | ok a => cases done; exact plain a
  rw [leafPlan] at built
  generalize Operation.ofName? node.op = found at built
  rcases found with _ | op
  · cases built
  · cases op with
    | mixed | null | bool | integer | float | string | stringLit =>
      cases built
      exact ⟨_, rfl, rfl⟩
    | boolLit | integerLit | floatLit => exact literal (mapped _ _ fun _ => rfl) built
    | arrayKey =>
      cases keys : node.keyKind with
      | error e => simp only [keys, reduceCtorEq] at built
      | ok kind =>
        simp only [keys, Except.ok.injEq] at built
        exact ⟨_, built.symm, rfl⟩
    | union | array | list | shape | element => cases built

theorem distinctKeys_of_plan {node : Node} {p : Plan} (built : node.plan = .ok p)
    (distinct : p.distinctKeys = true) : p.type.distinctKeys = true := by
  refine (gives (P := fun p => p.distinctKeys = true → p.type.distinctKeys = true)
    ?_ ?_ ?_ ?_ ?_ node).plan built distinct
  · intro node p built _
    obtain ⟨t, rfl, plain⟩ := leafPlan_origin built
    exact plain
  · intro type members ih distinct
    rw [Plan.distinctKeys, Plan.allDistinct_iff] at distinct
    rw [Plan.type, Ty.distinctKeys, Ty.every, Plan.types_eq, Bool.and_eq_true, Ty.everyMember_iff]
    refine ⟨rfl, List.forall_mem_map.mpr fun m member => ih m member (distinct m member)⟩
  · intro type key value ih distinct
    exact ih distinct
  · intro type value ih distinct
    exact ih distinct
  · intro type fields ih distinct
    rw [Plan.distinctKeys, Bool.and_eq_true, decide_eq_true_eq, Plan.fieldsDistinct_iff] at distinct
    rw [Plan.type, Ty.distinctKeys, Ty.every, Plan.fieldTypes_eq, Bool.and_eq_true,
      Ty.everyField_iff, Ty.distinctPart, decide_eq_true_eq, List.map_map]
    exact ⟨distinct.1, List.forall_mem_map.mpr fun f member => ih f member (distinct.2 f member)⟩

end Node

theorem Value.everyKey_of_decoded {bound : Nat} {v : Value} (decoded : v.decoded bound = true) :
    v.everyKey isHostKey = true := by
  induction v using Value.induct with
  | list kind items ih =>
    rw [everyKey, everyKeyItems_iff]
    exact fun v member => ih v member (((every_list_iff kind items).mp decoded).2 v member)
  | map kind pairs ih =>
    rw [everyKey, everyKeyPairs_iff]
    intro p member
    obtain ⟨s, text⟩ := isText_iff.mp ((decoded_map decoded).2.1 p member)
    refine ⟨by rw [text]; rfl, (ih p member).2 ?_⟩
    exact (((every_map_iff kind pairs).mp decoded).2 p member).2
  | _ => rfl

namespace Artifact

/-- A loaded program agrees with itself on every decoded value, provided that no shape of it
declares a key twice: what it accepts it converts, and what it converts a value to it
accepts. -/
theorem load_consistent {a : Artifact} {v : Validator} (loaded : a.load = .ok v)
    (distinct : v.plan.distinctKeys = true) {text : Bytes} {x : Value}
    (read : Value.readJson text = .ok x) :
    (v.accepts x = true → ∃ w, v.cast x = .ok w) ∧ ∀ w, v.cast x = .ok w → v.accepts w = true := by
  obtain ⟨_, _, root, plan, _, _, _, built, rfl⟩ := (load_eq_ok_iff a v).mp loaded
  have consistent := Ty.consistent_of_distinct (Node.distinctKeys_of_plan built distinct)
  rw [Validator.accepts, Validator.cast, plan.accepts_type]
  constructor
  · intro accepted
    obtain ⟨w, converted⟩ := consistent.castsMembers x accepted
    exact ⟨w, (plan.cast_type x).eq_ok converted⟩
  · intro w converted
    have keys := Value.everyKey_of_decoded (Value.readJson_decoded read)
    exact consistent.castsInto x w keys ((plan.cast_type x).symm.eq_ok converted)

/-- The tree of a type loads as what it is read as, whether or not the type keeps the rules. -/
theorem load_tree {t : Ty} (known : t.known = true) (legible : t.legible = true)
    (shallow : t.nesting < 10000) {p : Plan} (planned : t.tree.plan = .ok p) :
    t.artifact.load = .ok ⟨t.signature, p⟩ := by
  have valid : Utf8.valid t.signature = true := (Ty.valid_render .signature known).trans legible
  have read := Program.read?_source (Ty.stored_shallow known shallow) valid
    (Ty.tree_readable known legible)
  exact (load_eq_ok_iff _ _).mpr ⟨rfl, _, t.tree, p, read, rfl, rfl, planned, rfl⟩

/-- A program that no type has: a union in a union, beside a member that admits anything. -/
theorem load_consistent_nested :
    let t : Ty := .union [.union [.shape [⟨"a", false, .list .string⟩, ⟨"b", true, .integer⟩], .null],
      .mixed]
    let x : Value := .map .text [(.text "a", .list .general [.int .int64 1]), (.text "b", .text "7")]
    ∃ v, (t.artifact.load = .ok v ∧ v.plan.distinctKeys = true ∧
        Value.readJson "\x7b\"a\":[1],\"b\":\"7\"\x7d" = .ok x) ∧
      (v.accepts x = true → ∃ w, v.cast x = .ok w) ∧
      ∀ w, v.cast x = .ok w → v.accepts w = true := by
  intro t x
  have loaded : t.artifact.load = .ok ⟨t.signature, t.plan⟩ :=
    load_tree rfl rfl (by decide) rfl
  have read : Value.readJson "\x7b\"a\":[1],\"b\":\"7\"\x7d" = .ok x := by cbv
  exact ⟨_, ⟨loaded, rfl, read⟩, load_consistent loaded rfl read⟩

/-- With a key declared twice neither half holds. Where the second declaration is optional,
the element is converted once and the result is not accepted; where it is not, an element
that nobody declared makes up for it, and the value is accepted but not converted. -/
theorem load_key_twice :
    let t (optional : Bool) : Ty := .shape [⟨"a", false, .integer⟩, ⟨"a", optional, .integer⟩]
    (∃ v x w, (t true).artifact.load = .ok v ∧ Value.readJson "\x7b\"a\":1\x7d" = .ok x ∧
      v.cast x = .ok w ∧ v.accepts w = false) ∧
    ∃ v x e, (t false).artifact.load = .ok v ∧
      Value.readJson "\x7b\"a\":1,\"b\":null\x7d" = .ok x ∧
      v.accepts x = true ∧ v.cast x = .error e := by
  intro t
  have loaded (optional : Bool) :
      (t optional).artifact.load = .ok ⟨(t optional).signature, (t optional).plan⟩ :=
    load_tree rfl rfl (by cases optional <;> decide) (by cases optional <;> rfl)
  refine ⟨⟨_, .map .text [(.text "a", .int .int64 1)], _, loaded true, by cbv, rfl, rfl⟩, ?_⟩
  exact ⟨_, .map .text [(.text "a", .int .int64 1), (.text "b", .null)], _, loaded false,
    by cbv, rfl, rfl⟩

end Artifact

end Conform
