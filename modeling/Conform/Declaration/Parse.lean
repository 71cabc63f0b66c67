import Conform.Bytes.Case
import Conform.Declaration.Error
import Conform.Ty.Fits

/-! The grammar of declarations, read from tokens:

    union    := nullable ('|' nullable)*
    nullable := '?'? suffixed
    suffixed := atom ('[' ']')*
    atom     := integer | float | string | word
              | array ('<' union (',' union)? '>' | shape)?
              | list ('<' union '>')?
    shape    := '{' (element (',' element)* ','?)? '}'
    element  := (key '?'? ':')? union

Each reader takes tokens and returns what it read with the tokens that follow.
A reader for the unions inside brackets is handed down, so that nesting is the
only recursion; its depth and the length of each list are bounded by the number
of tokens. -/
namespace Conform.Declaration

/-- Names and the types they stand for. -/
abbrev Aliases := List (Bytes × Ty)

def Aliases.find? (aliases : Aliases) (name : Bytes) : Option Ty :=
  match aliases with
  | [] => none
  | (key, t) :: rest => if key = name then some t else Aliases.find? rest name

/-- A reader of a part of a declaration. -/
abbrev Reader (α : Type) := List Token → Except DeclarationError (α × List Token)

/-- What a declaration is read against: its text and the known names. -/
structure Context where
  source : Bytes
  aliases : Aliases

/-- The next token cannot stand where it stands. -/
def Context.unexpected (ctx : Context) : List Token → DeclarationError
  | [] => .unexpectedEnd ctx.source
  | token :: _ =>
    if token.kind = .eof then .unexpectedEnd ctx.source
    else .unexpectedToken token.raw token.position ctx.source

def startsWithKind (kind : TokenKind) : List Token → Bool
  | token :: _ => token.kind == kind
  | [] => false

/-- The tokens after one of a given kind. -/
def Context.skip (ctx : Context) (kind : TokenKind) (tokens : List Token) :
    Except DeclarationError (List Token) :=
  match tokens with
  | [] => .error (ctx.unexpected [])
  | token :: rest => if token.kind = kind then .ok rest else .error (ctx.unexpected (token :: rest))

/-- What a built-in word introduces. -/
inductive Keyword where
  | type (t : Ty)
  | array
  | list

def keyword? (name : Bytes) : Option Keyword :=
  let word := Utf8.lower name
  if word = "int" ∨ word = "integer" then some (.type .integer)
  else if word = "string" then some (.type .string)
  else if word = "float" ∨ word = "double" then some (.type .float)
  else if word = "bool" ∨ word = "boolean" then some (.type .bool)
  else if word = "mixed" then some (.type .mixed)
  else if word = "null" then some (.type .null)
  else if word = "true" then some (.type (.boolLit true))
  else if word = "false" then some (.type (.boolLit false))
  else if word = "array-key" then some (.type (.arrayKey .any))
  else if word = "array" then some .array
  else if word = "list" then some .list
  else none

/-- The key kind that a type declares: an array key, int, string, or a union
that stands for both. -/
def keyKind? : Ty → Except DeclarationError KeyKind
  | .arrayKey kind => .ok kind
  | .integer => .ok .integer
  | .string => .ok .string
  | .union members =>
    if (Ty.arrayKey .any).fits (.union members) && (Ty.union members).fits (.arrayKey .any) then .ok .any
    else .error (.invalidKey (.union members))
  | t => .error (.invalidKey t)

/-- The text of a key token; an integer in range is normalised. -/
def keyTextOf (token : Token) : Bytes :=
  match token.kind with
  | .integer =>
    match readInt64 token.literal with
    | .ok n => decimalInt n.toInt
    | .error _ => token.literal
  | _ => token.literal

def isKeyToken (token : Token) : Bool :=
  token.kind == .name || token.kind == .integer || token.kind == .string

/-- The key of a shape element, whether it is optional, and what follows the
colon, when the next tokens are a key with a colon. -/
def elementKey? : List Token → Option (Bytes × Bool × List Token)
  | key :: mark :: rest =>
    if !isKeyToken key then none
    else if mark.kind = .colon then some (keyTextOf key, false, rest)
    else if mark.kind = .question then
      match rest with
      | colon :: tail => if colon.kind = .colon then some (keyTextOf key, true, tail) else none
      | [] => none
    else none
  | _ => none

/-- The elements of a shape up to its closing brace. Elements without a key are
numbered among themselves. -/
def elements (inner : Reader Ty) : Nat → Nat → Reader (List (Field Ty))
  | 0, _, tokens => .ok ([], tokens)
  | fuel + 1, index, tokens =>
    if startsWithKind .rbrace tokens then .ok ([], tokens)
    else
      let (key, optional, nextIndex, start) :=
        match elementKey? tokens with
        | some (key, optional, rest) => (key, optional, index, rest)
        | none => (decimalNat index, false, index + 1, tokens)
      match inner start with
      | .error e => .error e
      | .ok (t, after) =>
        if startsWithKind .comma after then
          match elements inner fuel nextIndex after.tail with
          | .error e => .error e
          | .ok (rest, tokens) => .ok (⟨key, optional, t⟩ :: rest, tokens)
        else .ok ([⟨key, optional, t⟩], after)

def shape (ctx : Context) (inner : Reader Ty) : Reader Ty := fun tokens =>
  match ctx.skip .lbrace tokens with
  | .error e => .error e
  | .ok tokens =>
    match elements inner tokens.length 0 tokens with
    | .error e => .error e
    | .ok (fields, tokens) =>
      match ctx.skip .rbrace tokens with
      | .error e => .error e
      | .ok rest =>
        match Ty.shape? fields with
        | .ok t => .ok (t, rest)
        | .error e => .error (.type e)

/-- What follows the word for arrays. -/
def arrayRest (ctx : Context) (inner : Reader Ty) : Reader Ty := fun tokens =>
  if startsWithKind .lbrace tokens then shape ctx inner tokens
  else if !startsWithKind .lss tokens then .ok (.array .any .mixed, tokens)
  else
    match inner tokens.tail with
    | .error e => .error e
    | .ok (first, tokens) =>
      if startsWithKind .gtr tokens then .ok (.array .any first, tokens.tail)
      else
        match ctx.skip .comma tokens with
        | .error e => .error e
        | .ok tokens =>
          match inner tokens with
          | .error e => .error e
          | .ok (value, tokens) =>
            match ctx.skip .gtr tokens with
            | .error e => .error e
            | .ok rest =>
              match keyKind? first with
              | .error e => .error e
              | .ok key => .ok (.array key value, rest)

/-- What follows the word for lists. -/
def listRest (ctx : Context) (inner : Reader Ty) : Reader Ty := fun tokens =>
  if !startsWithKind .lss tokens then .ok (.list .mixed, tokens)
  else
    match inner tokens.tail with
    | .error e => .error e
    | .ok (value, tokens) =>
      match ctx.skip .gtr tokens with
      | .error e => .error e
      | .ok rest => .ok (.list value, rest)

/-- A word: built in, or an alias. -/
def word (ctx : Context) (inner : Reader Ty) (name : Bytes) : Reader Ty := fun tokens =>
  match keyword? name with
  | some (.type t) => .ok (t, tokens)
  | some .array => arrayRest ctx inner tokens
  | some .list => listRest ctx inner tokens
  | none =>
    match ctx.aliases.find? name with
    | some t => .ok (t, tokens)
    | none => .error (.unknownSymbol name)

def atom (ctx : Context) (inner : Reader Ty) : Reader Ty
  | [] => .error (ctx.unexpected [])
  | token :: rest =>
    match token.kind with
    | .integer =>
      match readInt64 token.literal with
      | .ok n => .ok (.integerLit n, rest)
      | .error _ => .error (.integerRange token.literal ctx.source)
    | .float =>
      match Binary.read token.literal with
      | .ok x => .ok (.floatLit x, rest)
      | .error _ => .error (.floatRange token.literal ctx.source)
    | .string => .ok (.stringLit token.literal token.quote, rest)
    | .name => word ctx inner token.literal rest
    | _ => .error (ctx.unexpected (token :: rest))

/-- Pairs of brackets, each of which makes an array of what stands before. -/
def brackets (ctx : Context) (t : Ty) : Reader Ty
  | [] => .ok (t, [])
  | token :: rest =>
    if token.kind = .lbrack then
      match rest with
      | [] => .error (ctx.unexpected [])
      | close :: tail =>
        if close.kind = .rbrack then brackets ctx (.array .any t) tail
        else .error (ctx.unexpected (close :: tail))
    else .ok (t, token :: rest)

def suffixed (ctx : Context) (inner : Reader Ty) : Reader Ty := fun tokens =>
  match atom ctx inner tokens with
  | .error e => .error e
  | .ok (t, rest) => brackets ctx t rest

def nullable (ctx : Context) (inner : Reader Ty) : Reader Ty := fun tokens =>
  if startsWithKind .question tokens then
    match suffixed ctx inner tokens.tail with
    | .error e => .error e
    | .ok (t, rest) =>
      match Ty.union? [.null, t] with
      | .ok u => .ok (u, rest)
      | .error e => .error (.type e)
  else suffixed ctx inner tokens

/-- The further members of a union, each after a bar. -/
def members (item : Reader Ty) : Nat → Reader (List Ty)
  | 0, tokens => .ok ([], tokens)
  | fuel + 1, tokens =>
    if startsWithKind .or tokens then
      match item tokens.tail with
      | .error e => .error e
      | .ok (t, tokens) =>
        match members item fuel tokens with
        | .error e => .error e
        | .ok (rest, tokens) => .ok (t :: rest, tokens)
    else .ok ([], tokens)

def unionWith (ctx : Context) (inner : Reader Ty) : Reader Ty := fun tokens =>
  match nullable ctx inner tokens with
  | .error e => .error e
  | .ok (first, tokens) =>
    if !startsWithKind .or tokens then .ok (first, tokens)
    else
      match members (nullable ctx inner) tokens.length tokens with
      | .error e => .error e
      | .ok (rest, tokens) =>
        match Ty.union? (first :: rest) with
        | .ok u => .ok (u, tokens)
        | .error e => .error (.type e)

/-- A union nested at most so deep. -/
def union (ctx : Context) : Nat → Reader Ty
  | 0, tokens => .error (ctx.unexpected tokens)
  | depth + 1, tokens => unionWith ctx (union ctx depth) tokens

/-- The type of a sequence of tokens. -/
def typeOfTokens (ctx : Context) (tokens : List Token) : Except DeclarationError Ty :=
  match union ctx tokens.length tokens with
  | .error e => .error e
  | .ok (t, rest) => if startsWithKind .eof rest then .ok t else .error (ctx.unexpected rest)

/-- The type that a declaration denotes. -/
def parse (aliases : Aliases) (source : Bytes) : Except DeclarationError Ty :=
  match scan source with
  | .error e => .error (.ofScan e)
  | .ok tokens => typeOfTokens ⟨source, aliases⟩ tokens

end Conform.Declaration
