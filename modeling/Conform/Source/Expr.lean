import Conform.Ty.Accepts

/-! Boolean expressions over host values, as they stand in generated source. A
variable is known by a number; zero is the parameter of the whole function.
Function literals bind one variable each. -/
namespace Conform.Source

/-- The tests on scalar families that generated source may call. -/
inductive Family where
  | bool | integer | float | string
  deriving DecidableEq, Repr

def Family.test : Family → Value → Bool
  | .bool => Value.isBool
  | .integer => Value.isInteger
  | .float => Value.isFloat
  | .string => Value.isText

mutual

inductive Expr where
  | always
  | never
  | isNull (var : Nat)
  | isFamily (family : Family) (var : Nat)
  | equalsBool (var : Nat) (value : Bool)
  | equalsInteger (var : Nat) (value : Int64)
  | equalsFloat (var : Nat) (value : Double)
  | equalsText (var : Nat) (value : Bytes)
  | any (members : List Expr)
  | acceptsArray (var : Nat) (key value : Predicate)
  | acceptsList (var : Nat) (element : Predicate)
  | acceptsShape (var : Nat) (fields : List (Field Predicate))

/-- A function literal. -/
inductive Predicate where
  | mk (param : Nat) (body : Expr)

end

/-- The values of variables. -/
abbrev Env := Nat → Value

def Env.bind (env : Env) (var : Nat) (value : Value) : Env :=
  fun other => if other = var then value else env other

mutual

/-- The truth of an expression where its variables have the given values. Equality
of host values is that of one type and value; the other tests are the library's. -/
def Expr.eval (env : Env) : Expr → Bool
  | .always => true
  | .never => false
  | .isNull var => (env var).sameKey .null
  | .isFamily family var => family.test (env var)
  | .equalsBool var value => (env var).sameKey (.bool value)
  | .equalsInteger var value => (env var).equalsInteger value
  | .equalsFloat var value => (env var).equalsDouble value
  | .equalsText var value => (env var).sameKey (.text value)
  | .any members => Expr.evalAny env members
  | .acceptsArray var key value => acceptsArray (key.eval env) (value.eval env) (env var)
  | .acceptsList var element => acceptsList (element.eval env) (env var)
  | .acceptsShape var fields => acceptsShape (Predicate.evalFields env fields) (env var)

def Expr.evalAny (env : Env) : List Expr → Bool
  | [] => false
  | e :: rest => e.eval env || Expr.evalAny env rest

def Predicate.eval (env : Env) : Predicate → Value → Bool
  | .mk param body, v => body.eval (env.bind param v)

def Predicate.evalFields (env : Env) : List (Field Predicate) → List (Field (Value → Bool))
  | [] => []
  | f :: rest => ⟨f.key, f.optional, f.type.eval env⟩ :: Predicate.evalFields env rest

end

end Conform.Source
