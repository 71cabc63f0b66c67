import Conform.Config
import Conform.Proofs.Declaration.Keyword
import Conform.Proofs.Ty.Build

/-! What a declaration denotes is built from literals, built-in words and the types
that its names stand for, so it has every property that the former have and that is
inherited by what is built. In particular it keeps the rules of the algebra, as long
as the names stand for types that do. Hence so do the aliases of a configuration,
which are resolved from declarations in rounds. -/
namespace Conform.Declaration

/-- If the reader succeeds, what it read has the property. -/
def Gives {α : Type} (P : α → Prop) (result : Except DeclarationError (α × List Token)) : Prop :=
  ∀ x rest, result = .ok (x, rest) → P x

namespace Gives

variable {α : Type} {P : α → Prop}

theorem ok {x : α} {rest : List Token} (holds : P x) : Gives P (.ok (x, rest)) := by
  intro y rest' same
  obtain ⟨rfl, rfl⟩ := Prod.mk.inj (Except.ok.inj same)
  exact holds

theorem error (e : DeclarationError) : Gives P (.error e) := nofun

end Gives

/-- Literals and built-in words have the property, and so has what is built from types
that have it. -/
structure Inherited (P : Ty → Prop) : Prop where
  word : ∀ t ∈ wordTypes, P t
  integerLit : ∀ value, P (.integerLit value)
  floatLit : ∀ value, P (.floatLit value)
  stringLit : ∀ value quote, P (.stringLit value quote)
  array : ∀ key {value}, P value → P (.array key value)
  list : ∀ {value}, P value → P (.list value)
  union : ∀ {members t}, Ty.union? members = .ok t → (∀ m ∈ members, P m) → P t
  shape : ∀ {fields t}, Ty.shape? fields = .ok t → (∀ f ∈ fields, P f.type) → P t

theorem Aliases.find?_inherited {P : Ty → Prop} {aliases : Aliases} (names : ∀ a ∈ aliases, P a.2)
    {name : Bytes} {t : Ty} (found : aliases.find? name = some t) : P t := by
  induction aliases with
  | nil => contradiction
  | cons a rest ih =>
    obtain ⟨key, type⟩ := a
    rw [Aliases.find?] at found
    split at found
    · obtain rfl := Option.some.inj found
      exact names (key, type) (by simp)
    · exact ih (fun a member => names a (by simp [member])) found

section Readers

variable {P : Ty → Prop} (inherited : Inherited P) {ctx : Context} {inner : Reader Ty}
  (parts : ∀ tokens, Gives P (inner tokens))

include parts

theorem elements_inherited (fuel index : Nat) (tokens : List Token) :
    Gives (fun fields => ∀ f ∈ fields, P f.type) (elements inner fuel index tokens) := by
  induction fuel generalizing index tokens with
  | zero => exact .ok nofun
  | succ fuel ih =>
    rw [elements]
    split
    · exact .ok nofun
    · split
      rename_i key optional next start _
      cases read : inner start with
      | error e => exact .error e
      | ok pair =>
        obtain ⟨t, after⟩ := pair
        have here := parts start t after read
        simp only
        split
        · cases others : elements inner fuel next after.tail with
          | error e => exact .error e
          | ok pair =>
            obtain ⟨fields, rest⟩ := pair
            exact .ok (List.forall_mem_cons.mpr ⟨here, ih next after.tail fields rest others⟩)
        · exact .ok (List.forall_mem_singleton.mpr here)

include inherited

theorem shape_inherited (tokens : List Token) : Gives P (shape ctx inner tokens) := by
  rw [shape]
  cases ctx.skip .lbrace tokens with
  | error e => exact .error e
  | ok inside =>
    simp only
    cases read : elements inner inside.length 0 inside with
    | error e => exact .error e
    | ok pair =>
      obtain ⟨fields, after⟩ := pair
      simp only
      cases ctx.skip .rbrace after with
      | error e => exact .error e
      | ok rest =>
        simp only
        cases made : Ty.shape? fields with
        | error e => exact .error _
        | ok t => exact .ok (inherited.shape made (elements_inherited parts _ _ _ _ _ read))

theorem arrayRest_inherited (tokens : List Token) : Gives P (arrayRest ctx inner tokens) := by
  rw [arrayRest]
  split
  · exact shape_inherited inherited parts tokens
  · split
    · exact .ok (inherited.array _ (inherited.word .mixed (by simp [wordTypes])))
    · cases read : inner tokens.tail with
      | error e => exact .error e
      | ok pair =>
        obtain ⟨first, after⟩ := pair
        simp only
        split
        · exact .ok (inherited.array _ (parts _ _ _ read))
        · cases ctx.skip .comma after with
          | error e => exact .error e
          | ok after =>
            simp only
            cases read : inner after with
            | error e => exact .error e
            | ok pair =>
              obtain ⟨value, after⟩ := pair
              simp only
              cases ctx.skip .gtr after with
              | error e => exact .error e
              | ok rest =>
                simp only
                cases keyKind? first with
                | error e => exact .error e
                | ok key => exact .ok (inherited.array _ (parts _ _ _ read))

theorem listRest_inherited (tokens : List Token) : Gives P (listRest ctx inner tokens) := by
  rw [listRest]
  split
  · exact .ok (inherited.list (inherited.word .mixed (by simp [wordTypes])))
  · cases read : inner tokens.tail with
    | error e => exact .error e
    | ok pair =>
      obtain ⟨value, after⟩ := pair
      simp only
      cases ctx.skip .gtr after with
      | error e => exact .error e
      | ok rest => exact .ok (inherited.list (parts _ _ _ read))

variable (names : ∀ a ∈ ctx.aliases, P a.2)

include names

theorem word_inherited (name : Bytes) (tokens : List Token) :
    Gives P (word ctx inner name tokens) := by
  rw [word]
  split
  · rename_i t found
    exact .ok (inherited.word t (keyword?_type found))
  · exact arrayRest_inherited inherited parts tokens
  · exact listRest_inherited inherited parts tokens
  · split
    · rename_i t found
      exact .ok (Aliases.find?_inherited names found)
    · exact .error _

theorem atom_inherited (tokens : List Token) : Gives P (atom ctx inner tokens) := by
  cases tokens with
  | nil => exact .error _
  | cons token rest =>
    rw [atom]
    split
    · split
      · exact .ok (inherited.integerLit _)
      · exact .error _
    · split
      · exact .ok (inherited.floatLit _)
      · exact .error _
    · exact .ok (inherited.stringLit _ _)
    · exact word_inherited inherited parts names _ rest
    · exact .error _

omit parts names in
theorem brackets_inherited {t : Ty} (holds : P t) (tokens : List Token) :
    Gives P (brackets ctx t tokens) := by
  fun_induction brackets ctx t tokens with
  | case1 => exact .ok holds
  | case2 => exact .error _
  | case3 t token opens close tail closes ih => exact ih (inherited.array _ holds)
  | case4 => exact .error _
  | case5 => exact .ok holds

theorem suffixed_inherited (tokens : List Token) : Gives P (suffixed ctx inner tokens) := by
  rw [suffixed]
  cases read : atom ctx inner tokens with
  | error e => exact .error e
  | ok pair =>
    exact brackets_inherited inherited (atom_inherited inherited parts names tokens _ _ read) pair.2

theorem nullable_inherited (tokens : List Token) : Gives P (nullable ctx inner tokens) := by
  rw [nullable]
  split
  · cases read : suffixed ctx inner tokens.tail with
    | error e => exact .error e
    | ok pair =>
      obtain ⟨t, rest⟩ := pair
      have here := suffixed_inherited inherited parts names _ _ _ read
      simp only
      cases made : Ty.union? [.null, t] with
      | error e => exact .error _
      | ok u =>
        have null := inherited.word .null (by simp [wordTypes])
        refine .ok (inherited.union made ?_)
        exact List.forall_mem_cons.mpr ⟨null, List.forall_mem_singleton.mpr here⟩
  · exact suffixed_inherited inherited parts names tokens

omit inherited parts names in
theorem members_inherited {item : Reader Ty} (each : ∀ tokens, Gives P (item tokens))
    (fuel : Nat) (tokens : List Token) :
    Gives (fun list => ∀ m ∈ list, P m) (members item fuel tokens) := by
  induction fuel generalizing tokens with
  | zero => exact .ok nofun
  | succ fuel ih =>
    rw [members]
    split
    · cases read : item tokens.tail with
      | error e => exact .error e
      | ok pair =>
        obtain ⟨t, after⟩ := pair
        simp only
        cases others : members item fuel after with
        | error e => exact .error e
        | ok pair =>
          obtain ⟨list, rest⟩ := pair
          exact .ok (List.forall_mem_cons.mpr ⟨each _ _ _ read, ih after list rest others⟩)
    · exact .ok nofun

theorem unionWith_inherited (tokens : List Token) :
    Gives P (unionWith ctx inner tokens) := by
  have each := nullable_inherited inherited parts names
  rw [unionWith]
  cases read : nullable ctx inner tokens with
  | error e => exact .error e
  | ok pair =>
    obtain ⟨first, after⟩ := pair
    have here := each _ _ _ read
    simp only
    split
    · exact .ok here
    · cases others : members (nullable ctx inner) after.length after with
      | error e => exact .error e
      | ok pair =>
        obtain ⟨list, rest⟩ := pair
        simp only
        cases made : Ty.union? (first :: list) with
        | error e => exact .error _
        | ok u =>
          refine .ok (inherited.union made ?_)
          exact List.forall_mem_cons.mpr ⟨here, members_inherited each _ _ _ _ others⟩

end Readers

/-- The readers nest, each handing itself down to what stands in brackets. -/
theorem union_inherited {P : Ty → Prop} (inherited : Inherited P) {ctx : Context}
    (names : ∀ a ∈ ctx.aliases, P a.2) (depth : Nat) (tokens : List Token) :
    Gives P (union ctx depth tokens) := by
  induction depth generalizing tokens with
  | zero => exact .error _
  | succ depth ih => exact unionWith_inherited inherited ih names tokens

/-- What a declaration denotes has every property that is inherited. -/
theorem parse_inherited {P : Ty → Prop} (inherited : Inherited P) {aliases : Aliases}
    (names : ∀ a ∈ aliases, P a.2) {source : Bytes} {t : Ty}
    (read : parse aliases source = .ok t) : P t := by
  rw [parse] at read
  split at read
  · contradiction
  · rename_i tokens _
    rw [typeOfTokens] at read
    split at read
    · contradiction
    · rename_i found
      split at read
      · obtain rfl := Except.ok.inj read
        exact union_inherited inherited names _ _ _ _ found
      · contradiction

/-! ### Types that keep the rules -/

/-- Every name stands for a type that keeps the rules. -/
def Aliases.Regular (aliases : Aliases) : Prop := ∀ a ∈ aliases, a.2.Regular

theorem regular_inherited : Inherited Ty.Regular where
  word := by
    intro t member
    simp only [wordTypes, List.mem_cons, List.not_mem_nil, or_false] at member
    rcases member with rfl | rfl | rfl | rfl | rfl | rfl | rfl | rfl | rfl <;> exact ⟨rfl, rfl⟩
  integerLit _ := ⟨rfl, rfl⟩
  floatLit _ := ⟨rfl, rfl⟩
  stringLit _ _ := ⟨rfl, rfl⟩
  array _ _ := .array
  list := .list
  union := Ty.union?_regular
  shape := Ty.shape?_regular

/-- A declaration that can be read denotes a type that keeps the rules. -/
theorem parse_regular {aliases : Aliases} (names : aliases.Regular) {source : Bytes} {t : Ty}
    (read : parse aliases source = .ok t) : t.Regular :=
  parse_inherited regular_inherited names read

theorem wellFormed_inherited : Inherited fun t => t.wellFormed = true where
  word := by decide
  integerLit _ := rfl
  floatLit _ := rfl
  stringLit _ _ := rfl
  array _ _ wellFormed := wellFormed
  list wellFormed := wellFormed
  union := Ty.union?_wellFormed
  shape := Ty.shape?_wellFormed

/-- Of types that keep the rules none is a union without members. -/
theorem Aliases.ne_empty {aliases : Aliases} (names : ∀ a ∈ aliases, a.2.wellFormed = true)
    (name : Bytes) (t : Ty) (found : aliases.find? name = some t) : t ≠ .union [] := by
  rintro rfl
  have formed : (Ty.union []).wellFormed = true :=
    @find?_inherited (fun t => t.wellFormed = true) _ names _ _ found
  contradiction

theorem resolveRound_regular {known : Aliases} (regular : known.Regular)
    (pending : List (Bytes × Bytes)) : (resolveRound known pending).1.Regular := by
  induction pending with
  | nil => exact nofun
  | cons d rest ih =>
    rw [resolveRound]
    simp only
    split
    · rename_i t read
      exact List.forall_mem_cons.mpr ⟨parse_regular regular read, ih⟩
    · exact ih

theorem resolveRounds_regular {fuel : Nat} {known : Aliases} (regular : known.Regular)
    {pending : List (Bytes × Bytes)} {aliases : Aliases}
    (resolved : resolveRounds fuel known pending = .ok aliases) : aliases.Regular := by
  induction fuel generalizing known pending with
  | zero =>
    obtain rfl := Except.ok.inj resolved
    exact regular
  | succ fuel ih =>
    cases pending with
    | nil =>
      obtain rfl := Except.ok.inj resolved
      exact regular
    | cons d rest =>
      have added := resolveRound_regular regular (d :: rest)
      rw [resolveRounds] at resolved
      split at resolved
      · contradiction
      · rename_i more failed round
        rw [round] at added
        exact ih (List.forall_mem_append.mpr ⟨regular, added⟩) resolved

/-- The aliases of a configuration stand for types that keep the rules. -/
theorem resolveAliases_regular {declarations : List (Bytes × Bytes)} {aliases : Aliases}
    (resolved : resolveAliases declarations = .ok aliases) : aliases.Regular := by
  rw [resolveAliases] at resolved
  split at resolved
  · contradiction
  · exact resolveRounds_regular (show Aliases.Regular [] from nofun) resolved

end Conform.Declaration
