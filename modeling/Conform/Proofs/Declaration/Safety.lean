import Conform.Proofs.Declaration.Walk

/-! Reading is safe. Each reader agrees with its walk on tokens that end in their mark of
the end: since no other token is that mark, a step past a token of another kind stays among
the tokens, and so do looks ahead; since each round of a loop and each level of nesting takes
a token, no bound is ever reached. Nothing is refused but for a declaration that denotes no
type. -/
namespace Conform.Declaration

/-- After a bar there is a further member. -/
theorem members_ne_nil {item : Reader Ty} {fuel : Nat} {tokens rest : List Token} {list : List Ty}
    (bar : startsWithKind .or tokens = true) (enough : 0 < fuel)
    (read : members item fuel tokens = .ok (list, rest)) : list ≠ [] := by
  cases fuel with
  | zero => contradiction
  | succ fuel =>
    rw [members, if_pos bar] at read
    split at read
    · contradiction
    · split at read
      · contradiction
      · obtain ⟨rfl, -⟩ := Prod.mk.inj (Except.ok.inj read)
        exact List.cons_ne_nil _ _

section Readers

variable {ctx : Context} {tokens : List Token} (ended : Ended tokens)

include ended

theorem brackets_agrees {fuel : Nat} {i : Nat} (inside : i < tokens.length)
    (enough : tokens.length - i ≤ fuel) (t : Ty) :
    Agrees tokens i (Walk.brackets ctx tokens fuel t i) (brackets ctx t (tokens.drop i)) := by
  induction fuel generalizing t i with
  | zero => omega
  | succ fuel ih =>
    rw [Walk.brackets, stands_inside inside]
    cases starts : startsWithKind .lbrack (tokens.drop i) with
    | false =>
      have read : brackets ctx t (tokens.drop i) = .ok (t, tokens.drop i) := by
        rw [List.drop_eq_getElem_cons inside] at starts ⊢
        rw [brackets.eq_def]
        simp only
        rw [if_neg (beq_eq_false_iff_ne.mp starts)]
      rw [read]
      exact .done t (Nat.le_refl i) inside
    | true =>
      have next := ended.next_of_starts inside (by decide) starts
      have read : brackets ctx t (tokens.drop i) =
          (ctx.skip .rbrack (tokens.drop (i + 1))).bind (brackets ctx (.array .any t)) := by
        rw [List.drop_eq_getElem_cons inside, List.drop_eq_getElem_cons next] at starts ⊢
        rw [brackets, if_pos (eq_of_beq starts), Context.skip]
        split <;> rfl
      rw [read]
      rcases skip_agrees next ended .rbrack (by decide) with
        ⟨e, tame, walked, read⟩ | ⟨after, walked, read⟩
      · rw [read]
        simp only [bind, Except.bind, next_inside next, walked]
        exact .refused tame
      · rw [read]
        simp only [bind, Except.bind, next_inside next, walked]
        exact (ih after (by omega) _).earlier (by omega)

variable {walker : Walker Ty} {inner : Reader Ty} {low : Nat}
  (parts : ∀ j, low < j → j < tokens.length → Agrees tokens j (walker j) (inner (tokens.drop j)))

include parts

/-- An element and those after it, once it is known whether a key stands before it. -/
theorem element_agrees {fuel : Nat} {i : Nat} (past : low < i)
    (later : ∀ index j, low < j → j < tokens.length → tokens.length - j ≤ fuel →
      Agrees tokens j (Walk.elements tokens walker fuel index j)
        (elements inner fuel index (tokens.drop j)))
    (enough : tokens.length - i ≤ fuel + 1) (key : Bytes) (optional : Bool) (next : Nat) {start : Nat}
    (onward : i ≤ start) (within : start < tokens.length) :
    Agrees tokens i
      (do
        let (t, after) ← walker start
        if ← Walk.stands tokens .comma after then
          let (rest, j) ← Walk.elements tokens walker fuel next (← Walk.next tokens after)
          return (⟨key, optional, t⟩ :: rest, j)
        return ([⟨key, optional, t⟩], after))
      (match inner (tokens.drop start) with
      | .error e => .error e
      | .ok (t, after) =>
        if startsWithKind .comma after then
          match elements inner fuel next after.tail with
          | .error e => .error e
          | .ok (rest, tokens) => .ok (⟨key, optional, t⟩ :: rest, tokens)
        else .ok ([⟨key, optional, t⟩], after)) := by
  rcases parts start (by omega) within with
    ⟨e, tame, walked, read⟩ | ⟨t, after, further, room, walked, read⟩
  · rw [walked, read]
    exact .refused tame
  · rw [walked, read]
    simp only [bind, Except.bind, stands_inside room, List.tail_drop]
    cases comma : startsWithKind .comma (tokens.drop after) with
    | false => exact .done _ (by omega) room
    | true =>
      have room := ended.next_of_starts room (by decide) comma
      rcases later next _ (by omega) room (by omega) with
        ⟨e, tame, walked, read⟩ | ⟨rest, j, beyond, within, walked, read⟩
      · simp only [next_inside room, walked, read, if_true]
        exact .refused tame
      · simp only [next_inside room, walked, read, if_true]
        exact .done _ (by omega) within

theorem elements_agrees {fuel : Nat} (index : Nat) {i : Nat} (past : low < i)
    (inside : i < tokens.length) (enough : tokens.length - i ≤ fuel) :
    Agrees tokens i (Walk.elements tokens walker fuel index i)
      (elements inner fuel index (tokens.drop i)) := by
  induction fuel generalizing index i with
  | zero => omega
  | succ fuel ih =>
    rw [Walk.elements, stands_inside inside, elements]
    cases closes : startsWithKind .rbrace (tokens.drop i) with
    | true => exact .done [] (Nat.le_refl i) inside
    | false =>
      have element := element_agrees ended parts past (fun index _ => ih index) enough
      rcases elementKey?_agrees inside ended with
        ⟨walked, read⟩ | ⟨key, optional, j, further, within, walked, read⟩
      · rw [read]
        simp only [bind, Except.bind, walked]
        exact element _ _ _ (Nat.le_refl i) inside
      · rw [read]
        simp only [bind, Except.bind, walked]
        exact element _ _ _ further.le within

theorem shape_agrees {i : Nat} (past : low < i) (inside : i < tokens.length) :
    Agrees tokens i (Walk.shape ctx tokens walker i) (shape ctx inner (tokens.drop i)) := by
  rw [Walk.shape, shape]
  rcases skip_agrees inside ended .lbrace (by decide) with
    ⟨e, tame, walked, read⟩ | ⟨opened, walked, read⟩
  · rw [walked, read]
    exact .refused tame
  · rw [walked, read]
    simp only [bind, Except.bind, List.length_drop]
    have beyond := past.trans (Nat.lt_succ_self i)
    rcases elements_agrees ended parts 0 beyond opened (Nat.le_refl _) with
      ⟨e, tame, walked, read⟩ | ⟨fields, j, onward, within, walked, read⟩
    · rw [walked, read]
      exact .refused tame
    · rw [walked, read]
      simp only
      rcases skip_agrees within ended .rbrace (by decide) with
        ⟨e, tame, walked, read⟩ | ⟨closed, walked, read⟩
      · rw [walked, read]
        exact .refused tame
      · rw [walked, read]
        simp only
        cases made : Ty.shape? fields with
        | error e => exact .refused (shape?_tame made)
        | ok t => exact .done t (by omega) closed

theorem arrayRest_agrees {i : Nat} (past : low < i) (inside : i < tokens.length) :
    Agrees tokens i (Walk.arrayRest ctx tokens walker i) (arrayRest ctx inner (tokens.drop i)) := by
  rw [Walk.arrayRest, arrayRest, stands_inside inside, stands_inside inside]
  simp only [bind, Except.bind, pure, Except.pure, List.tail_drop]
  cases brace : startsWithKind .lbrace (tokens.drop i) with
  | true =>
    simp only [if_true]
    rcases shape_agrees ended parts past inside with
      ⟨e, tame, walked, read⟩ | ⟨t, j, onward, within, walked, read⟩
    · rw [walked, read]
      exact .refused tame
    · rw [walked, read]
      exact .done t onward within
  | false =>
    cases angle : startsWithKind .lss (tokens.drop i) with
    | false => exact .done _ (Nat.le_refl i) inside
    | true =>
      have opened := ended.next_of_starts inside (by decide) angle
      simp only [Bool.false_eq_true, Bool.not_true, if_false, next_inside opened]
      rcases parts (i + 1) (by omega) opened with
        ⟨e, tame, walked, read⟩ | ⟨first, j, onward, within, walked, read⟩
      · rw [walked, read]
        exact .refused tame
      · rw [walked, read]
        simp only [stands_inside within, List.tail_drop]
        cases closes : startsWithKind .gtr (tokens.drop j) with
        | true =>
          have closed := ended.next_of_starts within (by decide) closes
          simp only [if_true, next_inside closed]
          exact .done _ (by omega) closed
        | false =>
          simp only [Bool.false_eq_true, if_false]
          rcases skip_agrees within ended .comma (by decide) with
            ⟨e, tame, walked, read⟩ | ⟨second, walked, read⟩
          · rw [walked, read]
            exact .refused tame
          · rw [walked, read]
            simp only
            rcases parts (j + 1) (by omega) second with
              ⟨e, tame, walked, read⟩ | ⟨value, k, further, within, walked, read⟩
            · rw [walked, read]
              exact .refused tame
            · rw [walked, read]
              simp only
              rcases skip_agrees within ended .gtr (by decide) with
                ⟨e, tame, walked, read⟩ | ⟨closed, walked, read⟩
              · rw [walked, read]
                exact .refused tame
              · rw [walked, read]
                simp only
                cases made : keyKind? first with
                | error e => exact .refused (keyKind?_tame made)
                | ok key => exact .done _ (by omega) closed

theorem listRest_agrees {i : Nat} (past : low < i) (inside : i < tokens.length) :
    Agrees tokens i (Walk.listRest ctx tokens walker i) (listRest ctx inner (tokens.drop i)) := by
  rw [Walk.listRest, listRest, stands_inside inside]
  simp only [bind, Except.bind, List.tail_drop]
  cases angle : startsWithKind .lss (tokens.drop i) with
  | false => exact .done _ (Nat.le_refl i) inside
  | true =>
    have opened := ended.next_of_starts inside (by decide) angle
    simp only [Bool.false_eq_true, Bool.not_true, if_false, next_inside opened]
    rcases parts (i + 1) (by omega) opened with
      ⟨e, tame, walked, read⟩ | ⟨value, j, onward, within, walked, read⟩
    · rw [walked, read]
      exact .refused tame
    · rw [walked, read]
      simp only
      rcases skip_agrees within ended .gtr (by decide) with
        ⟨e, tame, walked, read⟩ | ⟨closed, walked, read⟩
      · rw [walked, read]
        exact .refused tame
      · rw [walked, read]
        exact .done _ (by omega) closed

theorem word_agrees (name : Bytes) {i : Nat} (past : low < i) (inside : i < tokens.length) :
    Agrees tokens i (Walk.word ctx tokens walker name i)
      (word ctx inner name (tokens.drop i)) := by
  rw [Walk.word, word]
  cases keyword? name with
  | some introduced =>
    cases introduced with
    | type t => exact .done t (Nat.le_refl i) inside
    | array => exact arrayRest_agrees ended parts past inside
    | list => exact listRest_agrees ended parts past inside
  | none =>
    simp only
    cases ctx.aliases.find? name with
    | some t => exact .done t (Nat.le_refl i) inside
    | none => exact .refused (Or.inl rfl)

theorem atom_agrees {i : Nat} (past : low ≤ i) (inside : i < tokens.length) :
    Agrees tokens i (Walk.atom ctx tokens walker i) (atom ctx inner (tokens.drop i)) := by
  have next (other : tokens[i].kind ≠ .eof) := ended.next_inside inside other
  rw [Walk.atom, tokenAt_inside inside, unexpected_inside inside, List.drop_eq_getElem_cons inside,
    atom]
  simp only [bind, Except.bind]
  cases kind : tokens[i].kind with
  | integer =>
    have within := next (by simp [kind])
    simp only [next_inside within]
    cases readInt64 tokens[i].literal with
    | error e => exact .refused (Or.inl rfl)
    | ok n => exact .done _ (Nat.le_succ i) within
  | float =>
    have within := next (by simp [kind])
    simp only [next_inside within]
    cases Binary.read tokens[i].literal with
    | error e => exact .refused (Or.inl rfl)
    | ok x => exact .done _ (Nat.le_succ i) within
  | string =>
    have within := next (by simp [kind])
    simp only [next_inside within]
    exact .done _ (Nat.le_succ i) within
  | name =>
    have within := next (by simp [kind])
    simp only [next_inside within]
    exact (word_agrees ended parts _ (Nat.lt_succ_of_le past) within).earlier (Nat.le_succ i)
  | _ => exact .refused (ctx.unexpected_tame _)

theorem suffixed_agrees {i : Nat} (past : low ≤ i) (inside : i < tokens.length) :
    Agrees tokens i (Walk.suffixed ctx tokens walker i) (suffixed ctx inner (tokens.drop i)) := by
  rw [Walk.suffixed, suffixed]
  rcases atom_agrees ended parts past inside with
    ⟨e, tame, walked, read⟩ | ⟨t, j, onward, within, walked, read⟩
  · rw [walked, read]
    exact .refused tame
  · rw [walked, read]
    exact (brackets_agrees ended within (Nat.le_refl _) t).earlier onward

variable (names : ∀ a ∈ ctx.aliases, a.2.wellFormed = true)
  (formed : ∀ tokens, Gives (fun t => t.wellFormed = true) (inner tokens))

include names formed

theorem nullable_agrees {i : Nat} (past : low ≤ i) (inside : i < tokens.length) :
    Agrees tokens i (Walk.nullable ctx tokens walker i) (nullable ctx inner (tokens.drop i)) := by
  rw [Walk.nullable, nullable, stands_inside inside]
  simp only [bind, Except.bind, List.tail_drop]
  cases marked : startsWithKind .question (tokens.drop i) with
  | false => exact suffixed_agrees ended parts past inside
  | true =>
    have within := ended.next_of_starts inside (by decide) marked
    simp only [if_true, next_inside within]
    rcases suffixed_agrees ended parts (Nat.le_succ_of_le past) within with
      ⟨e, tame, walked, read⟩ | ⟨t, j, onward, within, walked, read⟩
    · rw [walked, read]
      exact .refused tame
    · have here := suffixed_inherited wellFormed_inherited formed names _ _ _ read
      rw [walked, read]
      simp only
      cases made : Ty.union? [.null, t] with
      | error e =>
        have both : ∀ member ∈ [Ty.null, t], member.wellFormed = true :=
          List.forall_mem_cons.mpr ⟨rfl, List.forall_mem_singleton.mpr here⟩
        exact .refused (union?_tame (by simp) both made)
      | ok u => exact .done u (by omega) within

omit parts names formed in
theorem members_agrees {walker : Walker Ty} {item : Reader Ty} {low : Nat}
    (each : ∀ j, low ≤ j → j < tokens.length → Agrees tokens j (walker j) (item (tokens.drop j)))
    {fuel : Nat} {i : Nat} (past : low ≤ i) (inside : i < tokens.length)
    (enough : tokens.length - i ≤ fuel) :
    Agrees tokens i (Walk.members tokens walker fuel i) (members item fuel (tokens.drop i)) := by
  induction fuel generalizing i with
  | zero => omega
  | succ fuel ih =>
    rw [Walk.members, members, stands_inside inside]
    simp only [bind, Except.bind, List.tail_drop]
    cases bar : startsWithKind .or (tokens.drop i) with
    | false => exact .done [] (Nat.le_refl i) inside
    | true =>
      have within := ended.next_of_starts inside (by decide) bar
      simp only [Bool.not_true, Bool.false_eq_true, if_false, if_true, next_inside within]
      rcases each (i + 1) (by omega) within with
        ⟨e, tame, walked, read⟩ | ⟨t, j, onward, within, walked, read⟩
      · rw [walked, read]
        exact .refused tame
      · rw [walked, read]
        simp only
        rcases ih (by omega) within (by omega) with
          ⟨e, tame, walked, read⟩ | ⟨rest, k, further, within, walked, read⟩
        · rw [walked, read]
          exact .refused tame
        · rw [walked, read]
          exact .done _ (by omega) within

theorem unionWith_agrees {i : Nat} (past : low ≤ i) (inside : i < tokens.length) :
    Agrees tokens i (Walk.unionWith ctx tokens walker i) (unionWith ctx inner (tokens.drop i)) := by
  have each := fun j => @nullable_agrees ctx tokens ended walker inner low parts names formed j
  have keep := nullable_inherited wellFormed_inherited formed names
  rw [Walk.unionWith, unionWith]
  rcases each i past inside with ⟨e, tame, walked, read⟩ | ⟨first, j, onward, within, walked, read⟩
  · rw [walked, read]
    exact .refused tame
  · have here := keep _ _ _ read
    rw [walked, read]
    simp only [bind, Except.bind, stands_inside within, List.length_drop]
    cases bar : startsWithKind .or (tokens.drop j) with
    | false => exact .done first onward within
    | true =>
      simp only [Bool.not_true, Bool.false_eq_true, if_false]
      rcases members_agrees ended each (past.trans onward) within (Nat.le_refl _) with
        ⟨e, tame, walked, read⟩ | ⟨rest, k, further, room, walked, read⟩
      · rw [walked, read]
        exact .refused tame
      · have others := members_inherited keep _ _ _ _ read
        rw [walked, read]
        simp only
        cases made : Ty.union? (first :: rest) with
        | error e =>
          have some := members_ne_nil bar (Nat.sub_pos_of_lt within) read
          refine .refused (union?_tame ?_ (List.forall_mem_cons.mpr ⟨here, others⟩) made)
          rw [List.length_cons]
          exact Nat.succ_le_succ (List.length_pos_iff.mpr some)
        | ok u => exact .done u (by omega) room

end Readers

theorem union_agrees {ctx : Context} {tokens : List Token} (ended : Ended tokens)
    (names : ∀ a ∈ ctx.aliases, a.2.wellFormed = true) {depth i : Nat}
    (inside : i < tokens.length) (enough : tokens.length - i ≤ depth) :
    Agrees tokens i (Walk.union ctx tokens depth i) (union ctx depth (tokens.drop i)) := by
  induction depth generalizing i with
  | zero => omega
  | succ depth ih =>
    have parts : ∀ j, i < j → j < tokens.length → Agrees tokens j (Walk.union ctx tokens depth j)
        (union ctx depth (tokens.drop j)) := fun j further within => ih within (by omega)
    have formed := union_inherited wellFormed_inherited names depth
    exact unionWith_agrees ended parts names formed (Nat.le_refl i) inside

theorem Ended.nonempty {tokens : List Token} (ended : Ended tokens) : 0 < tokens.length := by
  obtain ⟨front, last, rfl, -⟩ := ended
  rw [List.length_append]
  exact Nat.succ_pos _

theorem typeOfTokens_agrees {ctx : Context} {tokens : List Token} (ended : Ended tokens)
    (names : ∀ a ∈ ctx.aliases, a.2.wellFormed = true) :
    Walk.typeOfTokens ctx tokens = (typeOfTokens ctx tokens).mapError .refused ∧
      ∀ e, typeOfTokens ctx tokens = .error e → e.Tame := by
  have union := union_agrees ended names ended.nonempty (Nat.le_refl _)
  rw [Nat.sub_zero, List.drop_zero] at union
  rw [Walk.typeOfTokens, typeOfTokens]
  rcases union with ⟨e, tame, walked, read⟩ | ⟨t, j, onward, within, walked, read⟩
  · rw [walked, read]
    refine ⟨rfl, fun other same => ?_⟩
    obtain rfl := Except.error.inj same
    exact tame
  · rw [walked, read]
    simp only [bind, Except.bind, stands_inside within, unexpected_inside within]
    cases startsWithKind .eof (tokens.drop j) with
    | true =>
      refine ⟨rfl, fun other same => ?_⟩
      cases same
    | false =>
      refine ⟨rfl, fun other same => ?_⟩
      obtain rfl := Except.error.inj same
      exact ctx.unexpected_tame _

theorem walk_agrees {aliases : Aliases} (names : ∀ a ∈ aliases, a.2.wellFormed = true)
    (source : Bytes) : walk aliases source = (parse aliases source).mapError .refused ∧
      ∀ e, parse aliases source = .error e → e.Tame := by
  rw [walk, parse]
  cases found : scan source with
  | ok tokens => exact typeOfTokens_agrees (ended_of_scan found) names
  | error e =>
    refine ⟨rfl, fun other same => ?_⟩
    obtain rfl := Except.error.inj same
    cases e with
    | unknownSymbol | unclosedString => exact Or.inl rfl

/-- Reading a declaration is safe. The tokens end in the mark of the end and have no other,
a walk over them stays among them and within its bounds, and what comes of it is a type that
keeps the rules at every depth, or a refusal of the declaration or of a mixed member. In
particular no union is ever refused for having too few members. -/
theorem parse_safe {aliases : Aliases} (names : ∀ a ∈ aliases, a.2.wellFormed = true)
    (source : Bytes) :
    (∀ tokens, scan source = .ok tokens → Ended tokens) ∧
      walk aliases source = (parse aliases source).mapError .refused ∧
      match parse aliases source with
      | .ok t => t.wellFormed = true
      | .error e => e.code = .invalidDeclaration ∨ e.code = .forbiddenMixedType := by
  obtain ⟨walked, tame⟩ := walk_agrees names source
  refine ⟨fun tokens => ended_of_scan, walked, ?_⟩
  cases read : parse aliases source with
  | ok t => exact parse_inherited wellFormed_inherited names read
  | error e => exact tame e read

/-- The key of an element may be the last thing before the end: looking for its colon
stays among the tokens. -/
theorem parse_safe_at_end :
    (∀ a ∈ ([("id", .union [.integer, .string])] : Aliases), a.2.wellFormed = true) ∧
      (∀ tokens, scan "array\x7bid?" = .ok tokens → Ended tokens) ∧
      walk [("id", .union [.integer, .string])] "array\x7bid?" =
        (parse [("id", .union [.integer, .string])] "array\x7bid?").mapError .refused ∧
      match parse [("id", .union [.integer, .string])] "array\x7bid?" with
      | .ok t => t.wellFormed = true
      | .error e => e.code = .invalidDeclaration ∨ e.code = .forbiddenMixedType := by
  have names : ∀ a ∈ ([("id", .union [.integer, .string])] : Aliases), a.2.wellFormed = true :=
    List.forall_mem_singleton.mpr rfl
  exact ⟨names, parse_safe names "array\x7bid?"⟩

end Conform.Declaration
