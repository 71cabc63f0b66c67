import Conform.Proofs.Declaration.Pieces
import Conform.Proofs.Declaration.Regular

/-! The readers of declarations as a walk over numbered tokens. A walk is at a place and
looks at the token there, or at the two after it for the key of an element. Where it looks
or steps to a place that holds no token it stops, and so it does where a bound on its
nesting or on the length of a list is reached. A walk and a reader agree if they refuse for
one reason, or read the same and end at the same place. -/
namespace Conform.Declaration

/-- What stops a walk: a place that holds no token, a bound that is reached, or a
declaration that denotes no type. -/
inductive Stop where
  | outside
  | exhausted
  | refused (e : DeclarationError)

/-- A part of a walk: from a place to what it reads and the place where it ends. -/
abbrev Walker (α : Type) := Nat → Except Stop (α × Nat)

namespace Walk

/-! ### Walking -/

section Places

variable (ctx : Context) (tokens : List Token)

def tokenAt (i : Nat) : Except Stop Token :=
  match tokens[i]? with
  | some token => .ok token
  | none => .error .outside

/-- A token of the kind stands at the place. -/
def stands (kind : TokenKind) (i : Nat) : Except Stop Bool := do
  return (← tokenAt tokens i).kind == kind

def unexpected {α : Type} (i : Nat) : Except Stop α := do
  .error (.refused (ctx.unexpected [← tokenAt tokens i]))

/-- The next place. -/
def next (i : Nat) : Except Stop Nat :=
  if i + 1 < tokens.length then .ok (i + 1) else .error .outside

/-- The place after a token of the kind. -/
def skip (kind : TokenKind) (i : Nat) : Except Stop Nat := do
  if ← stands tokens kind i then next tokens i else unexpected ctx tokens i

/-- The key of a shape element, whether it is optional, and the place after the colon. -/
def elementKey? (i : Nat) : Except Stop (Option (Bytes × Bool × Nat)) := do
  let key ← tokenAt tokens i
  if !isKeyToken key then return none
  let mark ← tokenAt tokens (i + 1)
  if mark.kind = .colon then return some (keyTextOf key, false, ← next tokens (i + 1))
  if mark.kind = .question then
    let colon ← tokenAt tokens (i + 2)
    if colon.kind = .colon then return some (keyTextOf key, true, ← next tokens (i + 2))
  return none

end Places

section Readers

variable (ctx : Context) (tokens : List Token) (inner : Walker Ty)

def elements : Nat → Nat → Walker (List (Field Ty))
  | 0, _, _ => .error .exhausted
  | fuel + 1, index, i => do
    if ← stands tokens .rbrace i then return ([], i)
    let (key, optional, nextIndex, start) :=
      match ← elementKey? tokens i with
      | some (key, optional, start) => (key, optional, index, start)
      | none => (decimalNat index, false, index + 1, i)
    let (t, after) ← inner start
    if ← stands tokens .comma after then
      let (rest, j) ← elements fuel nextIndex (← next tokens after)
      return (⟨key, optional, t⟩ :: rest, j)
    return ([⟨key, optional, t⟩], after)

def shape : Walker Ty := fun i => do
  let i ← skip ctx tokens .lbrace i
  let (fields, i) ← elements tokens inner (tokens.length - i) 0 i
  let i ← skip ctx tokens .rbrace i
  match Ty.shape? fields with
  | .ok t => return (t, i)
  | .error e => .error (.refused (.type e))

def arrayRest : Walker Ty := fun i => do
  if ← stands tokens .lbrace i then return ← shape ctx tokens inner i
  if !(← stands tokens .lss i) then return (.array .any .mixed, i)
  let (first, i) ← inner (← next tokens i)
  if ← stands tokens .gtr i then return (.array .any first, ← next tokens i)
  let i ← skip ctx tokens .comma i
  let (value, i) ← inner i
  let i ← skip ctx tokens .gtr i
  match keyKind? first with
  | .ok key => return (.array key value, i)
  | .error e => .error (.refused e)

def listRest : Walker Ty := fun i => do
  if !(← stands tokens .lss i) then return (.list .mixed, i)
  let (value, i) ← inner (← next tokens i)
  let i ← skip ctx tokens .gtr i
  return (.list value, i)

def word (name : Bytes) : Walker Ty := fun i =>
  match keyword? name with
  | some (.type t) => .ok (t, i)
  | some .array => arrayRest ctx tokens inner i
  | some .list => listRest ctx tokens inner i
  | none =>
    match ctx.aliases.find? name with
    | some t => .ok (t, i)
    | none => .error (.refused (.unknownSymbol name))

def atom : Walker Ty := fun i => do
  let token ← tokenAt tokens i
  match token.kind with
  | .integer =>
    let i ← next tokens i
    match readInt64 token.literal with
    | .ok n => return (.integerLit n, i)
    | .error _ => .error (.refused (.integerRange token.literal ctx.source))
  | .float =>
    let i ← next tokens i
    match Binary.read token.literal with
    | .ok x => return (.floatLit x, i)
    | .error _ => .error (.refused (.floatRange token.literal ctx.source))
  | .string => return (.stringLit token.literal token.quote, ← next tokens i)
  | .name => word ctx tokens inner token.literal (← next tokens i)
  | _ => unexpected ctx tokens i

def brackets : Nat → Ty → Walker Ty
  | 0, _, _ => .error .exhausted
  | fuel + 1, t, i => do
    if !(← stands tokens .lbrack i) then return (t, i)
    let i ← skip ctx tokens .rbrack (← next tokens i)
    brackets fuel (.array .any t) i

def suffixed : Walker Ty := fun i => do
  let (t, i) ← atom ctx tokens inner i
  brackets ctx tokens (tokens.length - i) t i

def nullable : Walker Ty := fun i => do
  if ← stands tokens .question i then
    let (t, i) ← suffixed ctx tokens inner (← next tokens i)
    match Ty.union? [.null, t] with
    | .ok u => return (u, i)
    | .error e => .error (.refused (.type e))
  else suffixed ctx tokens inner i

def members (item : Walker Ty) : Nat → Walker (List Ty)
  | 0, _ => .error .exhausted
  | fuel + 1, i => do
    if !(← stands tokens .or i) then return ([], i)
    let (t, i) ← item (← next tokens i)
    let (rest, i) ← members item fuel i
    return (t :: rest, i)

def unionWith : Walker Ty := fun i => do
  let (first, i) ← nullable ctx tokens inner i
  if !(← stands tokens .or i) then return (first, i)
  let (rest, i) ← members tokens (nullable ctx tokens inner) (tokens.length - i) i
  match Ty.union? (first :: rest) with
  | .ok u => return (u, i)
  | .error e => .error (.refused (.type e))

end Readers

/-- A union nested at most so deep. -/
def union (ctx : Context) (tokens : List Token) : Nat → Walker Ty
  | 0, _ => .error .exhausted
  | depth + 1, i => unionWith ctx tokens (union ctx tokens depth) i

/-- The type of the tokens, from the first one to the mark of the end. -/
def typeOfTokens (ctx : Context) (tokens : List Token) : Except Stop Ty := do
  let (t, i) ← union ctx tokens tokens.length 0
  if ← stands tokens .eof i then return t
  unexpected ctx tokens i

end Walk

/-- The type that a declaration denotes, by a walk over its tokens. -/
def walk (aliases : Aliases) (source : Bytes) : Except Stop Ty :=
  match scan source with
  | .error e => .error (.refused (.ofScan e))
  | .ok tokens => Walk.typeOfTokens ⟨source, aliases⟩ tokens

/-! ### Agreement -/

/-- The errors of declarations: of their text, or of a mixed type in a union. -/
def DeclarationError.Tame (e : DeclarationError) : Prop :=
  e.code = .invalidDeclaration ∨ e.code = .forbiddenMixedType

/-- A walk comes to what a reader comes to: both refuse for the same reason, or both read
the same and the walk ends at the first token that the reader leaves. -/
def Agrees {α : Type} (tokens : List Token) (i : Nat) (walked : Except Stop (α × Nat))
    (read : Except DeclarationError (α × List Token)) : Prop :=
  (∃ e, e.Tame ∧ walked = .error (.refused e) ∧ read = .error e) ∨
    ∃ x j, i ≤ j ∧ j < tokens.length ∧ walked = .ok (x, j) ∧ read = .ok (x, tokens.drop j)

namespace Agrees

variable {α : Type} {tokens : List Token} {i : Nat}

theorem refused {e : DeclarationError} (tame : e.Tame) :
    Agrees tokens i (.error (.refused e) : Except Stop (α × Nat)) (.error e) :=
  Or.inl ⟨e, tame, rfl, rfl⟩

theorem done (x : α) {j : Nat} (onward : i ≤ j) (inside : j < tokens.length) :
    Agrees tokens i (.ok (x, j)) (.ok (x, tokens.drop j)) :=
  Or.inr ⟨x, j, onward, inside, rfl, rfl⟩

theorem earlier {j : Nat} {walked : Except Stop (α × Nat)}
    {read : Except DeclarationError (α × List Token)} (agrees : Agrees tokens j walked read)
    (onward : i ≤ j) : Agrees tokens i walked read := by
  rcases agrees with refused | ⟨x, k, further, inside, walked, read⟩
  · exact Or.inl refused
  · exact Or.inr ⟨x, k, onward.trans further, inside, walked, read⟩

end Agrees

theorem Context.unexpected_tame (ctx : Context) (tokens : List Token) :
    (ctx.unexpected tokens).Tame := by
  left
  cases tokens with
  | nil => rfl
  | cons token rest =>
    rw [unexpected]
    split <;> rfl

theorem keyKind?_tame {t : Ty} {e : DeclarationError} (failed : keyKind? t = .error e) :
    e.Tame := by
  left
  cases t with
  | arrayKey | integer | string => contradiction
  | union members =>
    rw [keyKind?] at failed
    split at failed
    · contradiction
    · obtain rfl := Except.error.inj failed
      rfl
  | _ =>
    obtain rfl := Except.error.inj failed
    rfl

/-- Types that keep the rules bring a member each into a union. -/
theorem length_alternatives {types : List Ty} (each : ∀ t ∈ types, t.wellFormed = true) :
    types.length ≤ (types.flatMap alternatives).length := by
  induction types with
  | nil => exact Nat.le_refl 0
  | cons t rest ih =>
    obtain ⟨first, others⟩ := List.forall_mem_cons.mp each
    have one : 1 ≤ (alternatives t).length := by
      apply populated_of_ne
      rintro rfl
      contradiction
    have more := ih others
    rw [List.flatMap_cons, List.length_append, List.length_cons]
    omega

/-- Two types or more that keep the rules have a union, unless one of them is mixed. -/
theorem union?_tame {types : List Ty} {e : TypeError} (two : 2 ≤ types.length)
    (each : ∀ t ∈ types, t.wellFormed = true) (failed : Ty.union? types = .error e) :
    (DeclarationError.type e).Tame := by
  have many := length_alternatives each
  rw [Ty.union?, Ty.unionOf?, flatten_some] at failed
  split at failed
  · rename_i flattened
    split at flattened
    · obtain rfl := Except.error.inj flattened
      obtain rfl := Except.error.inj failed
      exact Or.inr rfl
    · contradiction
  · rename_i flattened
    split at flattened
    · contradiction
    · obtain rfl := Except.ok.inj flattened
      rw [if_neg (by omega)] at failed
      contradiction

theorem checkFields_tame {seen : List Bytes} {fields : List (Field Ty)} {e : TypeError}
    (failed : Ty.checkFields seen (fields.map fun f => ⟨f.key, f.optional, some f.type⟩) =
      .error e) : ∃ key, e = .repeatedField key := by
  induction fields generalizing seen with
  | nil => contradiction
  | cons f rest ih =>
    rw [List.map_cons, Ty.checkFields] at failed
    simp only at failed
    split at failed
    · exact ⟨f.key, (Except.error.inj failed).symm⟩
    · split at failed
      · contradiction
      · rename_i others
        obtain rfl := Except.error.inj failed
        exact ih others

theorem shape?_tame {fields : List (Field Ty)} {e : TypeError}
    (failed : Ty.shape? fields = .error e) : (DeclarationError.type e).Tame := by
  rw [Ty.shape?, Ty.shapeOf?] at failed
  split at failed
  · contradiction
  · rename_i checked
    obtain rfl := Except.error.inj failed
    obtain ⟨key, rfl⟩ := checkFields_tame checked
    exact Or.inl rfl

/-! ### Places -/

section Places

variable {ctx : Context} {tokens : List Token} {i : Nat} (inside : i < tokens.length)

include inside

theorem tokenAt_inside : Walk.tokenAt tokens i = .ok tokens[i] := by
  rw [Walk.tokenAt, List.getElem?_eq_getElem inside]

theorem stands_inside (kind : TokenKind) :
    Walk.stands tokens kind i = .ok (startsWithKind kind (tokens.drop i)) := by
  rw [Walk.stands, tokenAt_inside inside, List.drop_eq_getElem_cons inside]
  rfl

theorem unexpected_inside {α : Type} :
    (Walk.unexpected ctx tokens i : Except Stop α) =
      .error (.refused (ctx.unexpected (tokens.drop i))) := by
  rw [Walk.unexpected, tokenAt_inside inside, List.drop_eq_getElem_cons inside]
  rfl

/-- Only the last token marks the end, so that another follows every other one. -/
theorem Ended.next_inside (ended : Ended tokens) (other : tokens[i].kind ≠ .eof) :
    i + 1 < tokens.length := by
  obtain ⟨front, last, rfl, mark, -⟩ := ended
  rw [List.length_append, List.length_singleton] at inside ⊢
  have : i ≠ front.length := by
    rintro rfl
    apply other
    rw [List.getElem_concat_length rfl]
    exact mark
  omega

theorem Ended.next_of_starts (ended : Ended tokens) {kind : TokenKind} (other : kind ≠ .eof)
    (starts : startsWithKind kind (tokens.drop i) = true) : i + 1 < tokens.length := by
  apply ended.next_inside inside
  rw [List.drop_eq_getElem_cons inside] at starts
  rw [eq_of_beq starts]
  exact other

omit inside in
theorem next_inside (after : i + 1 < tokens.length) : Walk.next tokens i = .ok (i + 1) :=
  if_pos after

theorem skip_agrees (ended : Ended tokens) (kind : TokenKind) (other : kind ≠ .eof) :
    (∃ e : DeclarationError, e.Tame ∧ Walk.skip ctx tokens kind i = .error (.refused e) ∧
        ctx.skip kind (tokens.drop i) = .error e) ∨
      (i + 1 < tokens.length ∧ Walk.skip ctx tokens kind i = .ok (i + 1) ∧
        ctx.skip kind (tokens.drop i) = .ok (tokens.drop (i + 1))) := by
  have walked : Walk.skip ctx tokens kind i =
      if startsWithKind kind (tokens.drop i) then Walk.next tokens i
      else .error (.refused (ctx.unexpected (tokens.drop i))) := by
    rw [Walk.skip, stands_inside inside, unexpected_inside inside]
    rfl
  have read : ctx.skip kind (tokens.drop i) =
      if startsWithKind kind (tokens.drop i) then .ok (tokens.drop (i + 1))
      else .error (ctx.unexpected (tokens.drop i)) := by
    rw [List.drop_eq_getElem_cons inside]
    simp [Context.skip, startsWithKind]
  cases starts : startsWithKind kind (tokens.drop i) with
  | true =>
    have after := ended.next_of_starts inside other starts
    rw [starts, if_pos rfl] at walked read
    exact Or.inr ⟨after, walked.trans (next_inside after), read⟩
  | false =>
    rw [starts] at walked read
    exact Or.inl ⟨_, ctx.unexpected_tame _, walked, read⟩

/-- A key is no mark of the end and neither is a question mark, so that the look ahead
for the colon stays inside. -/
theorem elementKey?_agrees (ended : Ended tokens) :
    (Walk.elementKey? tokens i = .ok none ∧ elementKey? (tokens.drop i) = none) ∨
      ∃ key optional j, i < j ∧ j < tokens.length ∧
        Walk.elementKey? tokens i = .ok (some (key, optional, j)) ∧
        elementKey? (tokens.drop i) = some (key, optional, tokens.drop j) := by
  rw [Walk.elementKey?, tokenAt_inside inside, List.drop_eq_getElem_cons inside]
  simp only [bind, Except.bind, pure, Except.pure]
  cases isKey : isKeyToken tokens[i] with
  | false =>
    refine Or.inl ⟨rfl, ?_⟩
    rw [elementKey?.eq_def]
    split
    · rename_i same
      obtain ⟨rfl, -⟩ := List.cons.inj same
      simp [isKey]
    · rfl
  | true =>
    have next : i + 1 < tokens.length := by
      apply ended.next_inside inside
      intro eof
      simp [isKeyToken, eof] at isKey
    rw [tokenAt_inside next, List.drop_eq_getElem_cons next, elementKey?.eq_def]
    simp only [isKey, Bool.not_true, Bool.false_eq_true, if_false]
    by_cases colon : tokens[i + 1].kind = .colon
    · have after : i + 2 < tokens.length := ended.next_inside next (by simp [colon])
      refine Or.inr ⟨keyTextOf tokens[i], false, i + 2, by omega, after, ?_, ?_⟩
      · rw [if_pos colon, next_inside after]
      · rw [if_pos colon]
    · rw [if_neg colon, if_neg colon]
      by_cases question : tokens[i + 1].kind = .question
      · have after : i + 2 < tokens.length := ended.next_inside next (by simp [question])
        rw [if_pos question, if_pos question, tokenAt_inside after, List.drop_eq_getElem_cons after]
        simp only
        by_cases colon : tokens[i + 2].kind = .colon
        · have last : i + 3 < tokens.length := ended.next_inside after (by simp [colon])
          refine Or.inr ⟨keyTextOf tokens[i], true, i + 3, by omega, last, ?_, ?_⟩
          · rw [if_pos colon, next_inside last]
          · rw [if_pos colon]
        · rw [if_neg colon, if_neg colon]
          exact Or.inl ⟨rfl, rfl⟩
      · rw [if_neg question, if_neg question]
        exact Or.inl ⟨rfl, rfl⟩

end Places

end Conform.Declaration
