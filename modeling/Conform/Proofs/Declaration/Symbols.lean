import Conform.Proofs.Declaration.Grammar
import Conform.Proofs.Declaration.Keyword
import Conform.Proofs.Ty.Build

/-! How the readers' tests look from the grammar: a test for a kind of token is a
test for the first symbol, and the builders of unions and shapes fail exactly where
the trees denote nothing. -/
namespace Conform.Declaration

abbrev symbols (tokens : List Token) : List Symbol := tokens.map Token.symbol

/-- The kinds of tokens that are marks: they have no content of their own. -/
def TokenKind.isMark : TokenKind → Bool
  | .name | .integer | .float | .string => false
  | _ => true

theorem symbol_eq_mark {kind : TokenKind} (mark : kind.isMark = true) (token : Token) :
    token.symbol = .mark kind ↔ token.kind = kind := by
  rw [Token.symbol]
  cases found : token.kind <;> cases kind <;> simp_all [TokenKind.isMark]

theorem symbol_eq_integer {token : Token} {literal : Bytes} :
    token.symbol = .integer literal ↔ token.kind = .integer ∧ token.literal = literal := by
  rw [Token.symbol]
  cases found : token.kind <;> simp

theorem symbol_eq_float {token : Token} {literal : Bytes} :
    token.symbol = .float literal ↔ token.kind = .float ∧ token.literal = literal := by
  rw [Token.symbol]
  cases found : token.kind <;> simp

theorem symbol_eq_string {token : Token} {content : Bytes} {quote : Quote} :
    token.symbol = .string content quote ↔
      token.kind = .string ∧ token.literal = content ∧ token.quote = quote := by
  rw [Token.symbol]
  cases found : token.kind <;> simp

theorem symbol_eq_name {token : Token} {word : Bytes} :
    token.symbol = .name word ↔ token.kind = .name ∧ token.literal = word := by
  rw [Token.symbol]
  cases found : token.kind <;> simp

theorem startsWithKind_iff {kind : TokenKind} (mark : kind.isMark = true) (tokens : List Token) :
    startsWithKind kind tokens = true ↔ symbols tokens = .mark kind :: symbols tokens.tail := by
  cases tokens with
  | nil => simp [startsWithKind]
  | cons token rest => simp [startsWithKind, symbol_eq_mark mark]

theorem skip_eq_ok_iff (ctx : Context) (kind : TokenKind) (tokens rest : List Token) :
    ctx.skip kind tokens = .ok rest ↔ startsWithKind kind tokens = true ∧ rest = tokens.tail := by
  cases tokens with
  | nil => simp [Context.skip, startsWithKind]
  | cons token tail =>
    rw [Context.skip, startsWithKind]
    by_cases same : token.kind = kind
    · simp [same, eq_comm]
    · simp [same]

/-- A skipped mark is the first symbol. -/
theorem symbols_of_skip {ctx : Context} {kind : TokenKind} (mark : kind.isMark = true)
    {tokens rest : List Token} (skipped : ctx.skip kind tokens = .ok rest) :
    symbols tokens = .mark kind :: symbols rest := by
  obtain ⟨starts, rfl⟩ := (skip_eq_ok_iff ctx kind tokens rest).mp skipped
  exact (startsWithKind_iff mark tokens).mp starts

theorem starts_of_symbols {kind : TokenKind} (mark : kind.isMark = true) {tokens : List Token}
    {w : List Symbol} (same : symbols tokens = .mark kind :: w) :
    startsWithKind kind tokens = true ∧ symbols tokens.tail = w := by
  obtain ⟨token, rest, rfl, first, others⟩ := List.map_eq_cons_iff.mp same
  exact ⟨by simp [startsWithKind, (symbol_eq_mark mark token).mp first], others⟩

theorem not_starts {kind : TokenKind} (mark : kind.isMark = true) {tokens : List Token}
    (other : ∀ x, symbols tokens ≠ .mark kind :: x) : startsWithKind kind tokens = false := by
  cases starts : startsWithKind kind tokens with
  | false => rfl
  | true => exact absurd ((startsWithKind_iff mark tokens).mp starts) (other _)

theorem skip_of_symbols (ctx : Context) {kind : TokenKind} (mark : kind.isMark = true)
    {tokens : List Token} {w : List Symbol} (same : symbols tokens = .mark kind :: w) :
    ∃ rest, ctx.skip kind tokens = .ok rest ∧ symbols rest = w := by
  obtain ⟨starts, others⟩ := starts_of_symbols mark same
  exact ⟨tokens.tail, (skip_eq_ok_iff ctx kind tokens _).mpr ⟨starts, rfl⟩, others⟩

theorem toOption_eq_some_iff {ε α : Type} {result : Except ε α} {x : α} :
    result.toOption = some x ↔ result = .ok x := by
  cases result <;> simp [Except.toOption]

theorem flatten_some (types : List Ty) : Ty.flatten (types.map some) =
    if types.any Ty.isMixed then .error .mixedMember else .ok (types.flatMap alternatives) := by
  induction types with
  | nil => rfl
  | cons t rest ih =>
    rw [List.map_cons, List.any_cons, List.flatMap_cons]
    cases mixed : rest.any Ty.isMixed
    all_goals
      simp only [mixed, Bool.false_eq_true, if_true, if_false] at ih
      cases t <;> simp [Ty.flatten, ih, Ty.isMixed, alternatives]

/-- A union is made when none of its members is mixed and there are two at least. -/
theorem union?_eq_ok_iff (types : List Ty) (u : Ty) : Ty.union? types = .ok u ↔
    joined? types = some u ∧ 2 ≤ (types.flatMap alternatives).length := by
  rw [Ty.union?, Ty.unionOf?, flatten_some, joined?]
  by_cases mixed : types.any Ty.isMixed = true
  · simp [mixed]
  · simp only [mixed, Bool.false_eq_true, if_false]
    split
    · rename_i few
      constructor
      · intro made
        cases made
      · rintro ⟨_, many⟩
        omega
    · rename_i many
      simp only [Except.ok.injEq, Option.some.injEq]
      constructor
      · intro same
        exact ⟨same, by omega⟩
      · exact fun both => both.1

/-- The union of one union is that union. -/
theorem joined?_single {t u : Ty} (joined : joined? [t] = some u)
    (two : 2 ≤ ([t].flatMap alternatives).length) : u = t := by
  cases t with
  | union members => simpa [joined?, Ty.isMixed, alternatives, eq_comm] using joined
  | _ => simp [alternatives] at two

theorem checkFields_distinct {seen : List Bytes} {fields : List (Field Ty)}
    (distinct : (fields.map (·.key)).Nodup) (fresh : ∀ f ∈ fields, f.key ∉ seen) :
    Ty.checkFields seen (fields.map fun f => ⟨f.key, f.optional, some f.type⟩) = .ok fields := by
  induction fields generalizing seen with
  | nil => rfl
  | cons f rest ih =>
    obtain ⟨unseen, others⟩ := List.forall_mem_cons.mp fresh
    rw [List.map_cons, List.nodup_cons] at distinct
    have still : ∀ g ∈ rest, g.key ∉ f.key :: seen := by
      intro g member again
      rcases List.mem_cons.mp again with same | inside
      · exact distinct.1 (List.mem_map.mpr ⟨g, member, same⟩)
      · exact others g member inside
    rw [List.map_cons, Ty.checkFields]
    simp only [List.contains_iff_mem, unseen, if_false, ih distinct.2 still]

theorem shape?_eq_ok_iff (fields : List (Field Ty)) (t : Ty) :
    Ty.shape? fields = .ok t ↔ shapeOf? fields = some t := by
  rw [shapeOf?]
  by_cases distinct : (fields.map (·.key)).Nodup
  · rw [Ty.shape?, Ty.shapeOf?, checkFields_distinct distinct (by simp), if_pos distinct]
    simp
  · rw [if_neg distinct]
    constructor
    · intro made
      rw [Ty.shape?, Ty.shapeOf?] at made
      split at made
      · rename_i checked
        exact absurd (Ty.checkFields_ok checked).2.1 distinct
      · contradiction
    · intro made
      cases made

end Conform.Declaration
