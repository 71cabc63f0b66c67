import Conform.Declaration.Parse

/-! The configuration of an engine and the resolution of its aliases. Aliases may
use each other in any order; they are resolved in rounds, each round with the
aliases that the rounds before it resolved. -/
namespace Conform

/-- Sizes of zero stand for the usual ones. Aliases are named declarations in the
order of their names; an empty directory stands for none. -/
structure Config where
  cacheSize : Int
  parserCacheSize : Int
  cacheDir : Bytes
  aliases : List (Bytes × Bytes)
  deriving DecidableEq, Repr

/-- A rule that a field of a configuration breaks. -/
inductive FieldRule where
  | atLeast (n : Nat)
  | atMost (n : Nat)
  | name
  | required
  deriving DecidableEq, Repr

def FieldRule.message : FieldRule → Bytes
  | .atLeast n => "must be at least " ++ decimalNat n
  | .atMost n => "must be at most " ++ decimalNat n
  | .name => "must be a name made of letters, digits and underscores"
  | .required => "required"

/-- Field names with the rules they break, as one message and as details. -/
structure Problems (ρ : Type) where
  list : List (Bytes × ρ)
  deriving Repr

namespace Problems

def message {ρ : Type} (text : ρ → Bytes) (p : Problems ρ) : Bytes :=
  Bytes.join "; " (p.list.map fun (field, rule) => field ++ ": " ++ text rule)

def details {ρ : Type} (text : ρ → Bytes) (p : Problems ρ) : Details :=
  p.list.foldl (fun acc (field, rule) => Details.set field (.text (text rule)) acc) []

end Problems

inductive ConfigError where
  | invalid (problems : Problems FieldRule)
  | shadows (name : Bytes)
  | unresolved (name : Bytes) (error : Declaration.DeclarationError)
  deriving Repr

namespace ConfigError

def report : ConfigError → Report
  | .invalid problems =>
    .simple .invalidConfig (problems.message FieldRule.message) (problems.details FieldRule.message)
  | .shadows name =>
    .simple .invalidConfig ("Alias `" ++ name ++ "` shadows a built-in type.") [("alias", .text name)]
  | .unresolved name error =>
    .simple .invalidConfig ("Alias `" ++ name ++ "` cannot be resolved: " ++ error.message)
      [("alias", .text name)]

end ConfigError

/-- An ASCII letter, an underscore, or a code point of the second half of Latin 1. -/
def startsAlias (code : Nat) : Bool :=
  (0x41 ≤ code && code ≤ 0x5A) || (0x61 ≤ code && code ≤ 0x7A) || code == 0x5F ||
    (0x80 ≤ code && code ≤ 0xFF)

/-- Further characters of an alias may also be digits and backslashes. -/
def continuesAlias (code : Nat) : Bool :=
  startsAlias code || (0x30 ≤ code && code ≤ 0x39) || code == 0x5C

def isAliasName (name : Bytes) : Bool :=
  match (Utf8.pieces name).map Utf8.Piece.code with
  | [] => false
  | first :: rest => startsAlias first && rest.all continuesAlias

namespace Config

def withDefaults (c : Config) : Config :=
  { c with
    cacheSize := if c.cacheSize = 0 then 1024 else c.cacheSize
    parserCacheSize := if c.parserCacheSize = 0 then 512 else c.parserCacheSize }

def sizeProblems (field : String) (size : Int) : List (Bytes × FieldRule) :=
  if size < 0 then [(utf8 field, .atLeast 0)]
  else if 1000000 < size then [(utf8 field, .atMost 1000000)]
  else []

def aliasProblems (name declaration : Bytes) : List (Bytes × FieldRule) :=
  let field : Bytes := "Aliases[" ++ name ++ "]"
  (if isAliasName name then [] else [(field, .name)]) ++
    (if declaration.isEmpty then [(field, .required)] else [])

def problems (c : Config) : List (Bytes × FieldRule) :=
  sizeProblems "CacheSize" c.cacheSize ++ sizeProblems "ParserCacheSize" c.parserCacheSize ++
    c.aliases.flatMap fun (name, declaration) => aliasProblems name declaration

end Config

namespace Declaration

/-- One round: the pending declarations that can be read with the known aliases,
and those that cannot, with the reason. -/
def resolveRound (known : Aliases) : List (Bytes × Bytes) →
    Aliases × List ((Bytes × Bytes) × DeclarationError)
  | [] => ([], [])
  | (name, source) :: rest =>
    let (resolved, failed) := resolveRound known rest
    match parse known source with
    | .ok t => ((name, t) :: resolved, failed)
    | .error e => (resolved, ((name, source), e) :: failed)

/-- Rounds until nothing is pending; a round without progress is the failure of
its first alias. -/
def resolveRounds : Nat → Aliases → List (Bytes × Bytes) → Except ConfigError Aliases
  | 0, known, _ => .ok known
  | fuel + 1, known, pending =>
    match pending with
    | [] => .ok known
    | _ :: _ =>
      match resolveRound known pending with
      | ([], ((name, _), e) :: _) => .error (.unresolved name e)
      | (resolved, failed) => resolveRounds fuel (known ++ resolved) (failed.map (·.1))

/-- The types of all aliases. No alias may read as a built-in type. -/
def resolveAliases (declarations : List (Bytes × Bytes)) : Except ConfigError Aliases :=
  match declarations.find? fun (name, _) => (parse [] name).toBool with
  | some (name, _) => .error (.shadows name)
  | none => resolveRounds declarations.length [] declarations

end Declaration

/-- A configuration with the usual sizes filled in and its aliases resolved. -/
def Config.check (c : Config) : Except ConfigError (Config × Declaration.Aliases) :=
  let c := c.withDefaults
  match c.problems with
  | _ :: _ => .error (.invalid ⟨c.problems⟩)
  | [] =>
    match Declaration.resolveAliases c.aliases with
    | .error e => .error e
    | .ok aliases => .ok (c, aliases)

end Conform
