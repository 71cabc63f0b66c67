import Conform.Bytes.Quoted
import Conform.Plan
import Conform.Program.Text

/-! Artifacts: compiled types on their way to a store and back. Loading trusts
nothing: the format, the signature and every node are checked. -/
namespace Conform

structure Artifact where
  signature : Bytes
  format : Bytes
  source : Bytes
  deriving DecidableEq, Repr

/-- The literals of a program that have to be read. -/
inductive LiteralKind where
  | bool | integer | float
  deriving DecidableEq, Repr

def LiteralKind.readerName : LiteralKind → Bytes
  | .bool => "ParseBool"
  | .integer => "ParseInt"
  | .float => "ParseFloat"

/-- Why an artifact cannot be loaded. -/
inductive ArtifactError where
  | missing
  | format (name : Bytes)
  | corrupted (signature : Bytes)
  | otherSignature (signature found : Bytes)
  | noProgram (signature : Bytes)
  | unknownOperation (op : Bytes)
  | unknownKeys (keys : Bytes)
  | operandCount (op : Bytes) (expected found : Nat)
  | emptyOperand (op : Bytes)
  | tooFewMembers (type : Bytes)
  | keyOperand (type op : Bytes)
  | notElement (type : Bytes)
  | literal (kind : LiteralKind) (text op : Bytes) (error : NumberError)
  deriving DecidableEq, Repr

namespace ArtifactError

def message : ArtifactError → Bytes
  | .missing => "Artifact is missing."
  | .format name => "Artifact of format `" ++ name ++ "` cannot be loaded."
  | .corrupted signature => "Artifact of `" ++ signature ++ "` is corrupted:"
  | .otherSignature signature found =>
    "Artifact signature `" ++ signature ++ "` does not match its program `" ++ found ++ "`."
  | .noProgram signature => "Artifact of `" ++ signature ++ "` has no program."
  | .unknownOperation op => "Unknown program operation `" ++ op ++ "`."
  | .unknownKeys keys => "Unknown array key kinds `" ++ keys ++ "`."
  | .operandCount op expected found =>
    "Operation `" ++ op ++ "` needs " ++ decimalNat expected ++ " operands, got " ++ decimalNat found ++ "."
  | .emptyOperand op => "Operation `" ++ op ++ "` has an empty operand."
  | .tooFewMembers type => "Union `" ++ type ++ "` needs at least two members."
  | .keyOperand type op => "Array `" ++ type ++ "` has a key operand of `" ++ op ++ "`."
  | .notElement type => "Shape `" ++ type ++ "` has an operand that is not an element."
  | .literal kind text op error =>
    "Literal `" ++ text ++ "` of operation `" ++ op ++ "` is corrupted: strconv." ++ kind.readerName ++
      ": parsing " ++ quoted text ++ ": " ++ error.message

def details : ArtifactError → Details
  | .format name => [("format", .text name)]
  | .corrupted signature => [("signature", .text signature)]
  | .otherSignature signature _ => [("signature", .text signature)]
  | .unknownOperation op => [("op", .text op)]
  | .literal _ _ op _ => [("op", .text op)]
  | _ => []

def report (e : ArtifactError) : Report := .simple .invalidArtifact e.message e.details

end ArtifactError

/-- The truth value of a literal. -/
def readTruth (text : Bytes) : Except NumberError Bool :=
  if ["1", "t", "T", "TRUE", "true", "True"].any fun word => text == utf8 word then .ok true
  else if ["0", "f", "F", "FALSE", "false", "False"].any fun word => text == utf8 word then .ok false
  else .error .malformed

namespace Node

def literalPlan (node : Node) (kind : LiteralKind) (literal : Except NumberError Ty) :
    Except ArtifactError Plan :=
  match literal with
  | .ok t => .ok (.leaf t)
  | .error e => .error (.literal kind node.literal node.op e)

def keyKind (node : Node) : Except ArtifactError KeyKind :=
  match KeyKind.ofKeysName? node.keys with
  | some kind => .ok kind
  | none => .error (.unknownKeys node.keys)

/-- The plan of a node without operands. -/
def leafPlan (node : Node) : Except ArtifactError Plan :=
  match Operation.ofName? node.op with
  | some .mixed => .ok (.leaf .mixed)
  | some .null => .ok (.leaf .null)
  | some .bool => .ok (.leaf .bool)
  | some .integer => .ok (.leaf .integer)
  | some .float => .ok (.leaf .float)
  | some .string => .ok (.leaf .string)
  | some .boolLit => node.literalPlan .bool ((readTruth node.literal).map .boolLit)
  | some .integerLit => node.literalPlan .integer ((readInt64 node.literal).map .integerLit)
  | some .floatLit => node.literalPlan .float ((Binary.read node.literal).map .floatLit)
  | some .stringLit => .ok (.leaf (.stringLit node.literal (.ofName node.quote)))
  | some .arrayKey =>
    match node.keyKind with
    | .ok kind => .ok (.leaf (.arrayKey kind))
    | .error e => .error e
  | _ => .error (.unknownOperation node.op)

mutual

/-- The plan of a node, whose operands are checked first to last. -/
def plan : Node → Except ArtifactError Plan
  | ⟨op, type, literal, quote, keys, key, optional, children⟩ =>
    match Operation.ofName? op with
    | some .union =>
      match operands op children with
      | .error e => .error e
      | .ok members =>
        if members.length < 2 then .error (.tooFewMembers type) else .ok (.union type members)
    | some .array => arrayPlan op type children
    | some .list =>
      match children with
      | [none] => .error (.emptyOperand op)
      | [some child] =>
        match child.plan with
        | .ok value => .ok (.list type value)
        | .error e => .error e
      | children => .error (.operandCount op 1 children.length)
    | some .shape =>
      match elements type children with
      | .ok fields => .ok (.shape type fields)
      | .error e => .error e
    | _ => leafPlan ⟨op, type, literal, quote, keys, key, optional, []⟩

def arrayPlan (op type : Bytes) : List (Option Node) → Except ArtifactError Plan
  | [none, _] => .error (.emptyOperand op)
  | [some key, value] =>
    if key.op ≠ Operation.arrayKey.name then .error (.keyOperand type key.op)
    else
      match key.keyKind with
      | .error e => .error e
      | .ok kind =>
        match value with
        | none => .error (.emptyOperand op)
        | some child =>
          match child.plan with
          | .ok value => .ok (.array type kind value)
          | .error e => .error e
  | children => .error (.operandCount op 2 children.length)

def operands (op : Bytes) : List (Option Node) → Except ArtifactError (List Plan)
  | [] => .ok []
  | none :: _ => .error (.emptyOperand op)
  | some child :: rest =>
    match child.plan with
    | .error e => .error e
    | .ok first =>
      match operands op rest with
      | .error e => .error e
      | .ok others => .ok (first :: others)

/-- The elements of a shape of the given written form. -/
def elements (type : Bytes) : List (Option Node) → Except ArtifactError (List (Field Plan))
  | [] => .ok []
  | none :: _ => .error (.notElement type)
  | some child :: rest =>
    match child.elementPlan type with
    | .error e => .error e
    | .ok field =>
      match elements type rest with
      | .error e => .error e
      | .ok fields => .ok (field :: fields)

/-- One element: a node of its own with the type as its only operand. -/
def elementPlan (type : Bytes) : Node → Except ArtifactError (Field Plan)
  | ⟨op, _, _, _, _, key, optional, children⟩ =>
    if op ≠ Operation.element.name then .error (.notElement type)
    else
      match children with
      | [none] => .error (.emptyOperand op)
      | [some value] =>
        match value.plan with
        | .ok plan => .ok ⟨key, optional, plan⟩
        | .error e => .error e
      | children => .error (.operandCount op 1 children.length)

end

end Node

namespace Artifact

def programFormat : Bytes := "program"

/-- The artifact of a program. -/
def ofProgram (p : Program) : Artifact := ⟨p.signature, programFormat, p.source⟩

/-- Loads the program of an artifact that is there. -/
def load (a : Artifact) : Except ArtifactError Validator :=
  if a.format ≠ programFormat then .error (.format a.format)
  else
    match Program.read? a.source with
    | none => .error (.corrupted a.signature)
    | some program =>
      if program.signature ≠ a.signature then .error (.otherSignature a.signature program.signature)
      else
        match program.root with
        | none => .error (.noProgram a.signature)
        | some root =>
          match root.plan with
          | .ok plan => .ok ⟨program.signature, plan⟩
          | .error e => .error e

/-- Loads an artifact that may be missing. -/
def load? : Option Artifact → Except ArtifactError Validator
  | none => .error .missing
  | some a => a.load

end Artifact

end Conform
