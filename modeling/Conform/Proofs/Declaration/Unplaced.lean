import Conform.Declaration.Parse
import Mathlib.Tactic.Common

/-! Readers do not look at offsets. What a reader makes of tokens it makes of the same tokens
in other places and of another text: it reads the same, or refuses for the same reason. Only
the offset and the text that an error quotes change. -/
namespace Conform.Declaration

def Token.unplaced (t : Token) : Token := { t with position := 0 }

/-- An error without the offset and the declaration that it quotes. -/
def DeclarationError.unplaced : DeclarationError → DeclarationError
  | .unclosedString text _ => .unclosedString text 0
  | .unexpectedEnd _ => .unexpectedEnd []
  | .unexpectedToken raw _ _ => .unexpectedToken raw 0 []
  | .integerRange literal _ => .integerRange literal []
  | .floatRange literal _ => .floatRange literal []
  | e => e

theorem DeclarationError.code_unplaced (e : DeclarationError) : e.unplaced.code = e.code := by
  cases e <;> rfl

/-- The known names, and no text. -/
def Context.unplaced (ctx : Context) : Context := ⟨[], ctx.aliases⟩

/-- What a reader gives, without offsets. -/
def unplacedResult {α : Type} :
    Except DeclarationError (α × List Token) → Except DeclarationError (α × List Token)
  | .ok (x, rest) => .ok (x, rest.map Token.unplaced)
  | .error e => .error e.unplaced

/-- The first reader does to tokens without offsets what the second does to tokens. -/
def Blind {α : Type} (blind reader : Reader α) : Prop :=
  ∀ tokens, blind (tokens.map Token.unplaced) = unplacedResult (reader tokens)

/-! ### Tokens -/

section Tokens

variable (ctx : Context) (tokens : List Token)

theorem startsWithKind_unplaced (kind : TokenKind) :
    startsWithKind kind (tokens.map Token.unplaced) = startsWithKind kind tokens := by
  cases tokens <;> rfl

theorem Context.unexpected_unplaced :
    ctx.unplaced.unexpected (tokens.map Token.unplaced) = (ctx.unexpected tokens).unplaced := by
  cases tokens with
  | nil => rfl
  | cons token rest =>
    rw [List.map_cons, unexpected, unexpected]
    by_cases eof : token.kind = .eof <;> simp [Token.unplaced, eof] <;> rfl

theorem Context.skip_unplaced (kind : TokenKind) :
    ctx.unplaced.skip kind (tokens.map Token.unplaced) =
      ((ctx.skip kind tokens).map (·.map Token.unplaced)).mapError (·.unplaced) := by
  have refused := ctx.unexpected_unplaced tokens
  cases tokens with
  | nil => rfl
  | cons token rest =>
    rw [List.map_cons] at refused
    rw [List.map_cons, skip, skip, refused]
    by_cases here : token.kind = kind <;> simp [Token.unplaced, here] <;> rfl

theorem keyTextOf_unplaced (token : Token) : keyTextOf token.unplaced = keyTextOf token := rfl

theorem elementKey?_unplaced : elementKey? (tokens.map Token.unplaced) =
    (elementKey? tokens).map fun found => (found.1, found.2.1, found.2.2.map Token.unplaced) := by
  rcases tokens with _ | ⟨key, _ | ⟨mark, rest⟩⟩
  · rfl
  · rfl
  · have kept : isKeyToken key.unplaced = isKeyToken key := rfl
    have kind : mark.unplaced.kind = mark.kind := rfl
    rw [List.map_cons, List.map_cons, elementKey?.eq_def, elementKey?.eq_def]
    simp only [keyTextOf_unplaced, kept, kind]
    split
    · rfl
    · split
      · rfl
      · split
        · cases rest with
          | nil => rfl
          | cons colon tail =>
            by_cases colons : colon.kind = .colon <;> simp [Token.unplaced, colons]
        · rfl

theorem keyKind?_unplaced {t : Ty} {e : DeclarationError} (failed : keyKind? t = .error e) :
    e.unplaced = e := by
  cases t with
  | arrayKey | integer | string => contradiction
  | union members =>
    rw [keyKind?] at failed
    split at failed
    · contradiction
    · obtain rfl := Except.error.inj failed
      rfl
  | _ =>
    obtain rfl := Except.error.inj failed
    rfl

end Tokens

/-! ### Readers -/

section Readers

variable (ctx : Context) {blind inner : Reader Ty} (same : Blind blind inner)

include same

theorem elements_blind (fuel index : Nat) :
    Blind (elements blind fuel index) (elements inner fuel index) := by
  induction fuel generalizing index with
  | zero => exact fun tokens => rfl
  | succ fuel ih =>
    intro tokens
    rw [elements, elements, startsWithKind_unplaced, elementKey?_unplaced]
    split
    · rfl
    · cases elementKey? tokens with
      | none =>
        simp only [Option.map_none, same tokens]
        cases inner tokens with
        | error e => rfl
        | ok result =>
          obtain ⟨t, after⟩ := result
          simp only [unplacedResult, startsWithKind_unplaced, ← List.map_tail, ih _ after.tail]
          split
          · cases elements inner fuel (index + 1) after.tail <;> rfl
          · rfl
      | some found =>
        obtain ⟨key, optional, rest⟩ := found
        simp only [Option.map_some, same rest]
        cases inner rest with
        | error e => rfl
        | ok result =>
          obtain ⟨t, after⟩ := result
          simp only [unplacedResult, startsWithKind_unplaced, ← List.map_tail, ih _ after.tail]
          split
          · cases elements inner fuel index after.tail <;> rfl
          · rfl

theorem shape_blind : Blind (shape ctx.unplaced blind) (shape ctx inner) := by
  intro tokens
  rw [shape, shape, ctx.skip_unplaced]
  cases ctx.skip .lbrace tokens with
  | error e => rfl
  | ok opened =>
    simp only [Except.map, Except.mapError, List.length_map, elements_blind same _ _ opened]
    cases elements inner opened.length 0 opened with
    | error e => rfl
    | ok result =>
      obtain ⟨fields, rest⟩ := result
      simp only [unplacedResult, ctx.skip_unplaced]
      cases ctx.skip .rbrace rest with
      | error e => rfl
      | ok closed =>
        simp only [Except.map, Except.mapError]
        cases Ty.shape? fields <;> rfl

theorem arrayRest_blind : Blind (arrayRest ctx.unplaced blind) (arrayRest ctx inner) := by
  intro tokens
  rw [arrayRest, arrayRest, startsWithKind_unplaced, startsWithKind_unplaced]
  split
  · exact shape_blind ctx same tokens
  · split
    · rfl
    · rw [← List.map_tail, same]
      cases inner tokens.tail with
      | error e => rfl
      | ok result =>
        obtain ⟨first, rest⟩ := result
        simp only [unplacedResult, startsWithKind_unplaced, ← List.map_tail, ctx.skip_unplaced]
        split
        · rfl
        · cases ctx.skip .comma rest with
          | error e => rfl
          | ok second =>
            simp only [Except.map, Except.mapError, same second]
            cases inner second with
            | error e => rfl
            | ok result =>
              obtain ⟨value, rest⟩ := result
              simp only [unplacedResult, ctx.skip_unplaced]
              cases ctx.skip .gtr rest with
              | error e => rfl
              | ok closed =>
                simp only [Except.map, Except.mapError]
                cases kind : keyKind? first with
                | ok key => rfl
                | error e => simp only [keyKind?_unplaced kind]

theorem listRest_blind : Blind (listRest ctx.unplaced blind) (listRest ctx inner) := by
  intro tokens
  rw [listRest, listRest, startsWithKind_unplaced]
  split
  · rfl
  · rw [← List.map_tail, same]
    cases inner tokens.tail with
    | error e => rfl
    | ok result =>
      obtain ⟨value, rest⟩ := result
      simp only [unplacedResult, ctx.skip_unplaced]
      cases ctx.skip .gtr rest <;> rfl

theorem word_blind (name : Bytes) :
    Blind (word ctx.unplaced blind name) (word ctx inner name) := by
  intro tokens
  rw [word, word]
  cases keyword? name with
  | some introduced =>
    cases introduced with
    | type t => rfl
    | array => exact arrayRest_blind ctx same tokens
    | list => exact listRest_blind ctx same tokens
  | none =>
    simp only [Context.unplaced]
    cases ctx.aliases.find? name <;> rfl

theorem atom_blind : Blind (atom ctx.unplaced blind) (atom ctx inner) := by
  intro tokens
  have refused := ctx.unexpected_unplaced tokens
  cases tokens with
  | nil => rfl
  | cons token rest =>
    rw [List.map_cons] at refused
    rw [List.map_cons, atom, atom, refused]
    simp only [Token.unplaced]
    cases token.kind with
    | integer =>
      simp only
      cases readInt64 token.literal <;> rfl
    | float =>
      simp only
      cases Binary.read token.literal <;> rfl
    | name => exact word_blind ctx same token.literal rest
    | _ => rfl

omit same in
theorem brackets_blind (t : Ty) : Blind (brackets ctx.unplaced t) (brackets ctx t) := by
  intro tokens
  fun_induction brackets ctx t tokens with
  | case1 t => rfl
  | case2 t token opens =>
    have kind : token.unplaced.kind = .lbrack := opens
    rw [List.map_cons, List.map_nil, brackets, if_pos kind]
    rfl
  | case3 t token opens close tail closes ih =>
    have kind : token.unplaced.kind = .lbrack := opens
    have closed : close.unplaced.kind = .rbrack := closes
    rw [List.map_cons, List.map_cons, brackets, if_pos kind, if_pos closed, ih]
  | case4 t token opens close tail closes =>
    have kind : token.unplaced.kind = .lbrack := opens
    have closed : ¬ close.unplaced.kind = .rbrack := closes
    have refused := ctx.unexpected_unplaced (close :: tail)
    rw [List.map_cons] at refused
    rw [List.map_cons, List.map_cons, brackets, if_pos kind, if_neg closed, refused]
    rfl
  | case5 t token rest opens =>
    have kind : ¬ token.unplaced.kind = .lbrack := opens
    rw [List.map_cons, brackets.eq_def]
    simp only [kind, if_false]
    rfl

theorem suffixed_blind : Blind (suffixed ctx.unplaced blind) (suffixed ctx inner) := by
  intro tokens
  rw [suffixed, suffixed, atom_blind ctx same tokens]
  cases atom ctx inner tokens with
  | error e => rfl
  | ok result => exact brackets_blind ctx result.1 result.2

theorem nullable_blind : Blind (nullable ctx.unplaced blind) (nullable ctx inner) := by
  intro tokens
  rw [nullable, nullable, startsWithKind_unplaced, ← List.map_tail, suffixed_blind ctx same,
    suffixed_blind ctx same]
  split
  · cases suffixed ctx inner tokens.tail with
    | error e => rfl
    | ok result =>
      obtain ⟨t, rest⟩ := result
      simp only [unplacedResult]
      cases Ty.union? [.null, t] <;> rfl
  · rfl

omit same in
theorem members_blind {blind item : Reader Ty} (same : Blind blind item) (fuel : Nat) :
    Blind (members blind fuel) (members item fuel) := by
  induction fuel with
  | zero => exact fun tokens => rfl
  | succ fuel ih =>
    intro tokens
    rw [members, members, startsWithKind_unplaced, ← List.map_tail, same]
    split
    · cases item tokens.tail with
      | error e => rfl
      | ok result =>
        simp only [unplacedResult, ih result.2]
        cases members item fuel result.2 <;> rfl
    · rfl

theorem unionWith_blind : Blind (unionWith ctx.unplaced blind) (unionWith ctx inner) := by
  intro tokens
  have each := nullable_blind ctx same
  rw [unionWith, unionWith, each tokens]
  cases nullable ctx inner tokens with
  | error e => rfl
  | ok result =>
    obtain ⟨first, rest⟩ := result
    simp only [unplacedResult, startsWithKind_unplaced, List.length_map, members_blind each _ rest]
    split
    · rfl
    · cases members (nullable ctx inner) rest.length rest with
      | error e => rfl
      | ok result =>
        obtain ⟨others, rest⟩ := result
        simp only
        cases Ty.union? (first :: others) <;> rfl

end Readers

theorem union_blind (ctx : Context) (depth : Nat) :
    Blind (union ctx.unplaced depth) (union ctx depth) := by
  induction depth with
  | zero => exact fun tokens => congrArg Except.error (ctx.unexpected_unplaced tokens)
  | succ depth ih => exact unionWith_blind ctx ih

theorem typeOfTokens_unplaced (ctx : Context) (tokens : List Token) :
    typeOfTokens ctx.unplaced (tokens.map Token.unplaced) =
      (typeOfTokens ctx tokens).mapError (·.unplaced) := by
  rw [typeOfTokens, typeOfTokens, List.length_map, union_blind ctx tokens.length tokens]
  cases union ctx tokens.length tokens with
  | error e => rfl
  | ok result =>
    simp only [unplacedResult, startsWithKind_unplaced, ctx.unexpected_unplaced]
    split <;> rfl

theorem mapError_code_unplaced (result : Except DeclarationError Ty) :
    (result.mapError (·.unplaced)).mapError (·.code) = result.mapError (·.code) := by
  cases result with
  | ok t => rfl
  | error e => exact congrArg Except.error e.code_unplaced

/-- Tokens that differ in their places only have one type, or are refused with one code. -/
theorem typeOfTokens_same {aliases : Aliases} {source source' : Bytes} {tokens tokens' : List Token}
    (same : tokens'.map Token.unplaced = tokens.map Token.unplaced) :
    (typeOfTokens ⟨source', aliases⟩ tokens').mapError (·.code) =
      (typeOfTokens ⟨source, aliases⟩ tokens).mapError (·.code) := by
  rw [← mapError_code_unplaced, ← mapError_code_unplaced (typeOfTokens ⟨source, aliases⟩ tokens),
    ← typeOfTokens_unplaced, ← typeOfTokens_unplaced, same]
  rfl

end Conform.Declaration
