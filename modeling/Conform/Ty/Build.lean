import Conform.Report
import Conform.Ty

/-! Making types that keep the rules of the algebra: unions are flat, have two
members or more and no mixed one, and the keys of a shape are distinct. -/
namespace Conform

/-- Why a type cannot be made. -/
inductive TypeError where
  | mixedMember
  | absentMember
  | tooFewMembers (count : Nat)
  | untypedField (key : Bytes)
  | repeatedField (key : Bytes)
  deriving DecidableEq, Repr

namespace TypeError

def code : TypeError → Code
  | .mixedMember => .forbiddenMixedType
  | .absentMember => .invalidUnion
  | .tooFewMembers _ => .invalidUnion
  | .untypedField _ => .invalidDeclaration
  | .repeatedField _ => .invalidDeclaration

def message : TypeError → Bytes
  | .mixedMember => "Type `mixed` can only be used as a standalone type and not as a union member."
  | .absentMember => "Union members cannot be nil."
  | .tooFewMembers count => "A union needs at least two members, got " ++ decimalNat count ++ "."
  | .untypedField key => "Shape element `" ++ key ++ "` has no type."
  | .repeatedField key => "Shape key `" ++ key ++ "` is declared more than once."

def report (e : TypeError) : Report := .simple e.code e.message []

end TypeError

namespace Ty

/-- The members of a union to be, with those of unions among them in their place. -/
def flatten : List (Option Ty) → Except TypeError (List Ty)
  | [] => .ok []
  | none :: _ => .error .absentMember
  | some .mixed :: _ => .error .mixedMember
  | some (.union members) :: rest =>
    match flatten rest with
    | .ok flat => .ok (members ++ flat)
    | .error e => .error e
  | some t :: rest =>
    match flatten rest with
    | .ok flat => .ok (t :: flat)
    | .error e => .error e

/-- The union of the given members, of which some may be absent. -/
def unionOf? (members : List (Option Ty)) : Except TypeError Ty :=
  match flatten members with
  | .error e => .error e
  | .ok flat => if flat.length < 2 then .error (.tooFewMembers flat.length) else .ok (.union flat)

def union? (members : List Ty) : Except TypeError Ty := unionOf? (members.map some)

/-- The fields of a shape to be, after those with the given keys. -/
def checkFields (seen : List Bytes) : List (Field (Option Ty)) → Except TypeError (List (Field Ty))
  | [] => .ok []
  | f :: rest =>
    match f.type with
    | none => .error (.untypedField f.key)
    | some t =>
      if seen.contains f.key then .error (.repeatedField f.key)
      else
        match checkFields (f.key :: seen) rest with
        | .ok fields => .ok (⟨f.key, f.optional, t⟩ :: fields)
        | .error e => .error e

/-- The shape of the given fields, of which some may lack a type. -/
def shapeOf? (fields : List (Field (Option Ty))) : Except TypeError Ty :=
  match checkFields [] fields with
  | .ok fields => .ok (.shape fields)
  | .error e => .error e

def shape? (fields : List (Field Ty)) : Except TypeError Ty :=
  shapeOf? (fields.map fun f => ⟨f.key, f.optional, some f.type⟩)

mutual

/-- A type that keeps the rules at every depth. -/
def wellFormed : Ty → Bool
  | .union members =>
    2 ≤ members.length && members.all (fun m => !m.isMixed && m.kind? != some .union) &&
      wellFormedAll members
  | .array _ value => value.wellFormed
  | .list value => value.wellFormed
  | .shape fields => (fields.map (·.key)).Nodup && wellFormedFields fields
  | _ => true

def wellFormedAll : List Ty → Bool
  | [] => true
  | t :: rest => t.wellFormed && wellFormedAll rest

def wellFormedFields : List (Field Ty) → Bool
  | [] => true
  | f :: rest => f.type.wellFormed && wellFormedFields rest

end

end Ty

end Conform
