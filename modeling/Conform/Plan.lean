import Conform.Ty.Cast

/-! Loaded programs. A plan checks and converts values by itself; where a plan
holds the name of a type, it is the text that errors quote. -/
namespace Conform

inductive Plan where
  | leaf (t : Ty)
  | union (expected : Bytes) (members : List Plan)
  | array (expected : Bytes) (key : KeyKind) (value : Plan)
  | list (expected : Bytes) (value : Plan)
  | shape (expected : Bytes) (fields : List (Field Plan))
  deriving Repr

namespace Plan

mutual

def accepts : Plan → Value → Bool
  | .leaf t, v => t.accepts v
  | .union _ members, v => anyAccepts members v
  | .array _ key value, v => acceptsArray key.accepts value.accepts v
  | .list _ value, v => acceptsList value.accepts v
  | .shape _ fields, v => acceptsShape (fieldTests fields) v

def anyAccepts : List Plan → Value → Bool
  | [], _ => false
  | p :: rest, v => p.accepts v || anyAccepts rest v

def fieldTests : List (Field Plan) → List (Field (Value → Bool))
  | [] => []
  | f :: rest => ⟨f.key, f.optional, f.type.accepts⟩ :: fieldTests rest

end

mutual

def cast : Plan → Value → Except CastError Value
  | .leaf t, v => t.cast v
  | .union expected members, v =>
    match castFirst members v with
    | .ok w => .ok w
    | .error attempts => .error (.noMember v.kindName expected attempts)
  | .array expected key value, v => castArray expected key.cast value.cast v
  | .list expected value, v => castList expected value.cast v
  | .shape expected fields, v => castShape expected (fieldCasts fields) v

def castFirst : List Plan → Value → Except (List CastError) Value
  | [], _ => .error []
  | p :: rest, v =>
    match p.cast v with
    | .ok w => .ok w
    | .error e =>
      match castFirst rest v with
      | .ok w => .ok w
      | .error es => .error (e :: es)

def fieldCasts : List (Field Plan) → List (Field Conversion)
  | [] => []
  | f :: rest => ⟨f.key, f.optional, f.type.cast⟩ :: fieldCasts rest

end

end Plan

/-- A loaded program under the signature of its type. -/
structure Validator where
  signature : Bytes
  plan : Plan
  deriving Repr

namespace Validator

def accepts (v : Validator) : Value → Bool := v.plan.accepts

def cast (v : Validator) : Value → Except CastError Value := v.plan.cast

end Validator

end Conform
