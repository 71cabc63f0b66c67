import Conform.Proofs.Decimal
import Conform.Proofs.Ty.Parts
import Conform.Source.Text
import Mathlib.Data.List.Nodup

/-! Emitted expressions mean what their types do. The test of a variable is true
exactly of the values of the type, whatever the other variables hold: it speaks of
its own variable only, and so does the body of each function literal of its own
parameter. The parameters are numbered in the order of the literals, so none
occurs twice. -/
namespace Conform.Source

mutual

/-- Outside of function literals only the given variable is mentioned, and inside of
each only its parameter. -/
def Expr.boundBy (var : Nat) : Expr → Bool
  | .always => true
  | .never => true
  | .isNull x => x == var
  | .isFamily _ x => x == var
  | .equalsBool x _ => x == var
  | .equalsInteger x _ => x == var
  | .equalsFloat x _ => x == var
  | .equalsText x _ => x == var
  | .any members => Expr.allBoundBy var members
  | .acceptsArray x key value => x == var && key.closed && value.closed
  | .acceptsList x element => x == var && element.closed
  | .acceptsShape x fields => x == var && Predicate.allClosed fields

def Expr.allBoundBy (var : Nat) : List Expr → Bool
  | [] => true
  | e :: rest => e.boundBy var && Expr.allBoundBy var rest

def Predicate.closed : Predicate → Bool
  | .mk param body => body.boundBy param

def Predicate.allClosed : List (Field Predicate) → Bool
  | [] => true
  | f :: rest => f.type.closed && Predicate.allClosed rest

end

mutual

/-- The parameters of all function literals in the order in which they are written. -/
def Expr.params : Expr → List Nat
  | .any members => Expr.allParams members
  | .acceptsArray _ key value => key.params ++ value.params
  | .acceptsList _ element => element.params
  | .acceptsShape _ fields => Predicate.allParams fields
  | _ => []

def Expr.allParams : List Expr → List Nat
  | [] => []
  | e :: rest => e.params ++ Expr.allParams rest

def Predicate.params : Predicate → List Nat
  | .mk param body => param :: body.params

def Predicate.allParams : List (Field Predicate) → List Nat
  | [] => []
  | f :: rest => f.type.params ++ Predicate.allParams rest

end

/-- The numbers after the first one up to the second. -/
def numbered (used next : Nat) : List Nat := List.range' (used + 1) (next - used)

theorem numbered_self (used : Nat) : numbered used used = [] := by
  rw [numbered, Nat.sub_self]
  rfl

theorem numbered_cons {used next : Nat} (more : used + 1 ≤ next) :
    (used + 1) :: numbered (used + 1) next = numbered used next := by
  obtain ⟨count, rfl⟩ := Nat.exists_eq_add_of_le more
  rw [numbered, numbered, show used + 1 + count - (used + 1) = count by omega,
    show used + 1 + count - used = count + 1 by omega, List.range'_succ]

theorem numbered_append {used middle next : Nat} (first : used ≤ middle) (second : middle ≤ next) :
    numbered used middle ++ numbered middle next = numbered used next := by
  obtain ⟨count, rfl⟩ := Nat.exists_eq_add_of_le first
  rw [numbered, numbered, numbered, Nat.add_sub_cancel_left, Nat.add_right_comm,
    List.range'_append_1]
  congr 1
  omega

/-- The expression is a test of the variable, and the parameters of its function literals
are numbered from one number to another. -/
structure Expr.Tests (e : Expr) (var used next : Nat) (test : Value → Bool) : Prop where
  eval : ∀ env : Env, e.eval env = test (env var)
  bound : e.boundBy var = true
  more : used ≤ next
  params : e.params = numbered used next

/-- The function literal is a test wherever it stands. -/
structure Predicate.Tests (p : Predicate) (used next : Nat) (test : Value → Bool) : Prop where
  eval : ∀ env : Env, p.eval env = test
  closed : p.closed = true
  more : used ≤ next
  params : p.params = numbered used next

theorem Expr.Tests.literal {e : Expr} {used next : Nat} {test : Value → Bool}
    (tests : e.Tests (used + 1) (used + 1) next test) :
    (Predicate.mk (used + 1) e).Tests used next test where
  eval env := by
    funext v
    rw [Predicate.eval, tests.eval, Env.bind, if_pos rfl]
  closed := tests.bound
  more := Nat.le_of_succ_le tests.more
  params := by rw [Predicate.params, tests.params, numbered_cons tests.more]

/-- An expression without function literals leaves all numbers unused. -/
theorem Expr.Tests.plain {e : Expr} {var used : Nat} {test : Value → Bool}
    (eval : ∀ env : Env, e.eval env = test (env var)) (bound : e.boundBy var = true)
    (params : e.params = []) : e.Tests var used used test :=
  ⟨eval, bound, Nat.le_refl used, params.trans (numbered_self used).symm⟩

/-- Equality with a constant is the test for the constant. -/
theorem sameKey_null (v : Value) : v.sameKey .null = v.isNull := by
  cases v <;> rfl

theorem sameKey_bool (v : Value) (b : Bool) : v.sameKey (.bool b) = v.equalsBool b := by
  cases v <;> rfl

theorem sameKey_text (v : Value) (text : Bytes) : v.sameKey (.text text) = v.equalsText text := by
  cases v <;> rfl

/-- Nothing is equal to what is not a number. -/
theorem equalsDouble_nan (v : Value) : v.equalsDouble .nan = false := by
  rw [Value.equalsDouble]
  cases v.toDouble? with
  | none => rfl
  | some x => cases x <;> rfl

attribute [local simp] Expr.eval Expr.evalAny Expr.boundBy Expr.allBoundBy Family.test Ty.accepts
  sameKey_null sameKey_bool sameKey_text equalsDouble_nan

theorem tests_key (var used : Nat) (kind : KeyKind) :
    (keyTest var kind).Tests var used used kind.accepts := by
  refine .plain (fun env => ?_) ?_ ?_
  · cases kind <;> simp [keyTest, KeyKind.accepts, KeyKind.integers, KeyKind.strings]
  · cases kind <;> simp [keyTest]
  · cases kind <;> rfl

/-- Wherever the type is emitted, out comes a test for it. -/
def Emits (t : Ty) : Prop :=
  ∀ var used, ∃ e next, emit var used t = .ok (e, next) ∧ e.Tests var used next t.accepts

theorem emits_union {members : List Ty} (each : ∀ m ∈ members, Emits m) :
    Emits (.union members) := by
  intro var used
  have all : ∃ es next, emitAll var used members = .ok (es, next) ∧
      (Expr.any es).Tests var used next (Ty.anyAccepts members) := by
    induction members generalizing used with
    | nil => exact ⟨[], used, rfl, .plain (fun _ => rfl) rfl rfl⟩
    | cons t rest ih =>
      obtain ⟨e, middle, emitted, tests⟩ := each t (by simp) var used
      obtain ⟨es, next, emittedRest, testsRest⟩ :=
        ih (fun m member => each m (by simp [member])) middle
      refine ⟨e :: es, next, by rw [emitAll, emitted]; simp only [emittedRest], fun env => ?_, ?_,
        Nat.le_trans tests.more testsRest.more, ?_⟩
      · rw [Expr.eval, Expr.evalAny, tests.eval, Ty.anyAccepts, ← testsRest.eval, Expr.eval]
      · rw [Expr.boundBy, Expr.allBoundBy, tests.bound]
        exact testsRest.bound
      · have params : Expr.allParams es = numbered middle next := testsRest.params
        rw [Expr.params, Expr.allParams, tests.params, params,
          numbered_append tests.more testsRest.more]
  obtain ⟨es, next, emitted, tests⟩ := all
  refine ⟨.any es, next, by rw [emit, emitted], ⟨fun env => ?_, tests.bound, tests.more, tests.params⟩⟩
  rw [tests.eval, Ty.accepts]

theorem emits_array (key : KeyKind) {value : Ty} (inner : Emits value) :
    Emits (.array key value) := by
  intro var used
  obtain ⟨body, next, emitted, tests⟩ := inner (used + 1 + 1) (used + 1 + 1)
  have keys := (tests_key (used + 1) (used + 1) key).literal
  have values := tests.literal
  refine ⟨_, next, by rw [emit, emitted], fun env => ?_, ?_,
    Nat.le_trans keys.more values.more, ?_⟩
  · rw [Expr.eval, keys.eval, values.eval, Ty.accepts]
  · rw [Expr.boundBy, keys.closed, values.closed, beq_self_eq_true]
    rfl
  · rw [Expr.params, keys.params, values.params, numbered_append keys.more values.more]

theorem emits_list {value : Ty} (inner : Emits value) : Emits (.list value) := by
  intro var used
  obtain ⟨body, next, emitted, tests⟩ := inner (used + 1) (used + 1)
  have elements := tests.literal
  refine ⟨_, next, by rw [emit, emitted], fun env => ?_, ?_, elements.more, ?_⟩
  · rw [Expr.eval, elements.eval, Ty.accepts]
  · rw [Expr.boundBy, elements.closed, beq_self_eq_true]
    rfl
  · rw [Expr.params, elements.params]

theorem emitFields_tests {fields : List (Field Ty)} (each : ∀ f ∈ fields, Emits f.type)
    (used : Nat) :
    ∃ checks next, emitFields used fields = .ok (checks, next) ∧
      (∀ env, Predicate.evalFields env checks = Ty.fieldTests fields) ∧
      Predicate.allClosed checks = true ∧ used ≤ next ∧
      Predicate.allParams checks = numbered used next := by
  induction fields generalizing used with
  | nil => exact ⟨[], used, rfl, fun _ => rfl, rfl, Nat.le_refl used, (numbered_self used).symm⟩
  | cons f rest ih =>
    obtain ⟨body, middle, emitted, tests⟩ := each f (by simp) (used + 1) (used + 1)
    have literal := tests.literal
    obtain ⟨checks, next, emittedRest, eval, closed, more, params⟩ :=
      ih (fun g member => each g (by simp [member])) middle
    refine ⟨⟨f.key, f.optional, .mk (used + 1) body⟩ :: checks, next,
      by rw [emitFields, emitted]; simp only [emittedRest], fun env => ?_, ?_,
      Nat.le_trans literal.more more, ?_⟩
    · rw [Predicate.evalFields, Ty.fieldTests, eval env, literal.eval]
    · rw [Predicate.allClosed, literal.closed, closed]
      rfl
    · rw [Predicate.allParams, literal.params, params, numbered_append literal.more more]

theorem emits_shape {fields : List (Field Ty)} (each : ∀ f ∈ fields, Emits f.type) :
    Emits (.shape fields) := by
  intro var used
  obtain ⟨checks, next, emitted, eval, closed, more, params⟩ := emitFields_tests each used
  refine ⟨_, next, by rw [emit, emitted], fun env => ?_, ?_, more, ?_⟩
  · rw [Expr.eval, eval env, Ty.accepts]
  · rw [Expr.boundBy, closed, beq_self_eq_true]
    rfl
  · rw [Expr.params, params]

/-- Every type of the algebra's variants is emitted as a test for it. -/
theorem emits_of_known {t : Ty} (known : t.known = true) : Emits t := by
  induction t using Ty.induct with
  | union members ih => exact emits_union fun m member => ih m member (Ty.every_member known member)
  | array key value ih => exact emits_array key (ih (Ty.every_arrayValue known))
  | list value ih => exact emits_list (ih (Ty.every_listValue known))
  | shape fields ih => exact emits_shape fun f member => ih f member (Ty.every_field known member)
  | arrayKey kind =>
    intro var used
    refine ⟨_, used, rfl, ?_⟩
    have tests := tests_key var used kind
    exact ⟨fun env => by rw [tests.eval, Ty.accepts], tests.bound, tests.more, tests.params⟩
  | floatLit value =>
    intro var used
    cases value with
    | nan => exact ⟨.never, used, rfl, .plain (by simp) rfl rfl⟩
    | _ => exact ⟨_, used, rfl, .plain (by simp) (by simp) rfl⟩
  | unknown name accepted => exact absurd known Bool.false_ne_true
  | _ => exact fun var used => ⟨_, used, rfl, .plain (by simp) (by simp) rfl⟩

/-- Different variables have different names. -/
theorem varName_injective : Function.Injective varName := by
  have named : ∀ n, utf8 "v" ++ decimalNat n ≠ utf8 "v" := fun n same =>
    decimalNat_ne_nil n (List.append_right_eq_self.mp same)
  intro a b same
  rw [varName, varName] at same
  split at same <;> split at same
  · rename_i first second
    rw [first, second]
  · exact absurd same.symm (named b)
  · exact absurd same (named a)
  · have digits : decimalNat a = decimalNat b := List.append_cancel_left same
    rw [← digitsValue_decimalNat a, digits, digitsValue_decimalNat]

/-- The expression that is emitted for a type is true exactly of its values. In it, and in
the body of each function literal, only the innermost parameter is mentioned, and no two
parameters have one name. -/
theorem emit_faithful {t : Ty} (regular : t.Regular) :
    ∃ body used, emit 0 0 t = .ok (body, used) ∧
      (∀ env : Env, body.eval env = t.accepts (env 0)) ∧ body.boundBy 0 = true ∧
      ((0 :: body.params).map varName).Nodup := by
  obtain ⟨body, used, emitted, tests⟩ := emits_of_known regular.known 0 0
  refine ⟨body, used, emitted, tests.eval, tests.bound, ?_⟩
  have ordered : 0 :: body.params = List.range' 0 (used + 1) := by
    rw [tests.params, numbered, List.range'_succ, Nat.sub_zero]
  rw [ordered]
  exact (List.nodup_range').map varName_injective

/-- A shape with an array and a list in it, beside what is not a number. -/
theorem emit_faithful_nested :
    let t : Ty := .union [.floatLit .nan,
      .shape [⟨utf8 "a", true, .array .any (.union [.null, .stringLit (utf8 "b") .single])⟩,
        ⟨utf8 "c", false, .list (.boolLit true)⟩]]
    t.Regular ∧ ∃ body used, emit 0 0 t = .ok (body, used) ∧ body.params = [1, 2, 3, 4, 5] ∧
      ∀ env : Env, body.eval env = t.accepts (env 0) := by
  intro t
  have regular : t.Regular := ⟨by decide, by decide⟩
  obtain ⟨body, used, emitted, eval, _⟩ := emit_faithful regular
  refine ⟨regular, body, used, emitted, ?_, eval⟩
  cases emitted
  rfl

end Conform.Source
