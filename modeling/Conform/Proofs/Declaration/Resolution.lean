import Conform.Proofs.Declaration.Names
import Mathlib.Data.List.Nodup
import Mathlib.Logic.Relation

/-! Aliases may use each other in any order, and the rounds that resolve them come
to an end with the least set of names that the declarations allow. What a round
may add is compared with an enumeration, in which every declaration is read with
the names before it: a declaration that is read with few names is read alike with
more, so no enumeration gets further than the rounds or anywhere else. -/
namespace Conform.Declaration

/-! ### Enumerations -/

/-- Aliases one after another, each of which is read with those before it. -/
inductive Enumerates (declarations : List (Bytes × Bytes)) : Aliases → Prop
  | nil : Enumerates declarations []
  | snoc {known : Aliases} {name source : Bytes} {t : Ty} : Enumerates declarations known →
      (name, source) ∈ declarations → name ∉ known.map Prod.fst → parse known source = .ok t →
      Enumerates declarations (known ++ [(name, t)])

/-- An enumeration of all the declared names. -/
structure Resolves (declarations : List (Bytes × Bytes)) (aliases : Aliases) : Prop where
  enumerated : Enumerates declarations aliases
  names : (aliases.map Prod.fst).Perm (declarations.map Prod.fst)

/-- Every declaration that can be read with the names has its name among them. -/
def Closed (declarations : List (Bytes × Bytes)) (aliases : Aliases) : Prop :=
  ∀ d ∈ declarations, ∀ t, parse aliases d.2 = .ok t → aliases.find? d.1 = some t

/-- One name uses another one, which is not built in, in its declaration. -/
def Refers (declarations : List (Bytes × Bytes)) (name other : Bytes) : Prop :=
  ∃ source tree, (name, source) ∈ declarations ∧ Derives source tree ∧ other ∈ tree.names ∧
    keyword? other = none

variable {declarations : List (Bytes × Bytes)} {known aliases : Aliases}

theorem source_unique (distinct : (declarations.map Prod.fst).Nodup) {name source source' : Bytes}
    (one : (name, source) ∈ declarations) (other : (name, source') ∈ declarations) :
    source = source' :=
  congrArg Prod.snd (List.inj_on_of_nodup_map distinct one other rfl)

theorem find?_snoc {name name' : Bytes} {t t' : Ty}
    (found : (known ++ [(name, t)] : Aliases).find? name' = some t') :
    known.find? name' = some t' ∨ known.find? name' = none ∧ name' = name ∧ t' = t := by
  rw [Aliases.find?_append] at found
  cases before : known.find? name' with
  | some u =>
    rw [before] at found
    exact .inl found
  | none =>
    rw [before, Option.none_or] at found
    have member := List.mem_singleton.mp (Aliases.mem_of_find? found)
    exact .inr ⟨rfl, Prod.mk.inj member⟩

namespace Enumerates

theorem regular (enumerated : Enumerates declarations known) : known.Regular := by
  induction enumerated with
  | nil => exact nofun
  | snoc _ _ _ read ih =>
    exact List.forall_mem_append.mpr ⟨ih, List.forall_mem_singleton.mpr (parse_regular ih read)⟩

/-- Names that are read with some of an enumeration can follow it in any order. -/
theorem append (enumerated : Enumerates declarations known) {more : Aliases}
    (each : ∀ a ∈ more, ∃ source, (a.1, source) ∈ declarations ∧ parse known source = .ok a.2)
    (distinct : ((known ++ more).map Prod.fst).Nodup) :
    Enumerates declarations (known ++ more) := by
  induction more using List.reverseRecOn with
  | nil => rwa [List.append_nil]
  | append_singleton front a ih =>
    obtain ⟨before, last⟩ := List.forall_mem_append.mp each
    obtain ⟨source, declared, read⟩ := List.forall_mem_singleton.mp last
    rw [← List.append_assoc, List.map_append] at distinct
    obtain ⟨earlier, _, apart⟩ := List.nodup_append.mp distinct
    have shorter := ih before earlier
    rw [← List.append_assoc]
    apply shorter.snoc declared
    · intro member
      exact apart a.1 member a.1 (List.mem_singleton.mpr rfl) rfl
    · exact parse_mono (Aliases.extends_append known front) shorter.regular read

/-- An enumeration stays within every set of names that is closed. -/
theorem within (enumerated : Enumerates declarations known) (regular : aliases.Regular)
    (closed : Closed declarations aliases) : aliases.Extends known := by
  induction enumerated with
  | nil => exact nofun
  | snoc _ declared _ read ih =>
    intro name t found
    rcases find?_snoc found with before | ⟨_, rfl, rfl⟩
    · exact ih name t before
    · exact closed _ declared t (parse_mono ih regular read)

section Distinct

variable (distinct : (declarations.map Prod.fst).Nodup)

include distinct

/-- Read with the whole enumeration, a declaration denotes what its name stands for. -/
theorem fixed (enumerated : Enumerates declarations known) {name source : Bytes} {t : Ty}
    (declared : (name, source) ∈ declarations) (found : known.find? name = some t) :
    parse known source = .ok t := by
  induction enumerated with
  | nil => contradiction
  | @snoc front last _ u earlier declared' fresh read ih =>
    have regular := (earlier.snoc declared' fresh read).regular
    apply parse_mono (Aliases.extends_append front _) regular
    rcases find?_snoc found with before | ⟨_, rfl, rfl⟩
    · exact ih before
    · rwa [source_unique distinct declared declared']

/-- One enumeration covers another, or one more declaration can be read with it. -/
theorem extends_or_next (enumerated : Enumerates declarations known)
    (other : Enumerates declarations aliases) : known.Extends aliases ∨
      ∃ d ∈ declarations, d.1 ∉ known.map Prod.fst ∧ ∃ t, parse known d.2 = .ok t := by
  induction other with
  | nil => exact .inl nofun
  | @snoc front name source t _ declared _ read ih =>
    rcases ih with covered | next
    · have reread := parse_mono covered enumerated.regular read
      by_cases member : name ∈ known.map Prod.fst
      · left
        intro name' t' found
        rcases find?_snoc found with before | ⟨_, rfl, rfl⟩
        · exact covered name' t' before
        · obtain ⟨u, stands⟩ := Aliases.exists_of_mem_names member
          have fixed := enumerated.fixed distinct declared stands
          rw [stands, Except.ok.inj (fixed.symm.trans reread)]
      · exact .inr ⟨(name, source), declared, member, t, reread⟩
    · exact .inr next

/-- The names that the declaration of a known name uses are known. -/
theorem refers_known (enumerated : Enumerates declarations known) {name other : Bytes}
    (member : name ∈ known.map Prod.fst) (refers : Refers declarations name other) :
    other ∈ known.map Prod.fst := by
  obtain ⟨source, tree, declared, derives, used, free⟩ := refers
  obtain ⟨t, found⟩ := Aliases.exists_of_mem_names member
  have read := enumerated.fixed distinct declared found
  exact names_of_parse enumerated.regular read derives used free

/-- No name that uses itself, directly or through others, is enumerated. -/
theorem acyclic (enumerated : Enumerates declarations known) {name : Bytes}
    (cycle : Relation.TransGen (Refers declarations) name name) : name ∉ known.map Prod.fst := by
  induction enumerated with
  | nil => exact List.not_mem_nil
  | @snoc front last source t earlier declared fresh read ih =>
    rw [List.map_append, List.mem_append, not_or]
    refine ⟨ih, fun member => ?_⟩
    obtain rfl : name = last := List.mem_singleton.mp member
    -- Whatever the last name leads to was there before it, and so would it be itself.
    have inside : ∀ other, Relation.TransGen (Refers declarations) name other →
        other ∈ front.map Prod.fst := by
      intro other leads
      induction leads with
      | single refers =>
        obtain ⟨source', tree, declared', derives, used, free⟩ := refers
        rw [source_unique distinct declared' declared] at derives
        exact names_of_parse earlier.regular read derives used free
      | tail _ refers member => exact earlier.refers_known distinct member refers
    exact fresh (inside name cycle)

end Distinct

end Enumerates

namespace Resolves

variable (distinct : (declarations.map Prod.fst).Nodup)

include distinct

theorem fixed (resolves : Resolves declarations aliases) {d : Bytes × Bytes}
    (declared : d ∈ declarations) : ∃ t, aliases.find? d.1 = some t ∧ parse aliases d.2 = .ok t := by
  have member := resolves.names.mem_iff.mpr (List.mem_map_of_mem declared)
  obtain ⟨t, found⟩ := Aliases.exists_of_mem_names member
  exact ⟨t, found, resolves.enumerated.fixed distinct declared found⟩

theorem closed (resolves : Resolves declarations aliases) : Closed declarations aliases := by
  intro d declared t read
  obtain ⟨u, found, fixed⟩ := resolves.fixed distinct declared
  rw [found, Except.ok.inj (fixed.symm.trans read)]

/-- All enumerations of the declared names agree. -/
theorem find?_eq {aliases' : Aliases} (one : Resolves declarations aliases)
    (other : Resolves declarations aliases') (name : Bytes) :
    aliases.find? name = aliases'.find? name := by
  have up := one.enumerated.within other.enumerated.regular (other.closed distinct)
  have down := other.enumerated.within one.enumerated.regular (one.closed distinct)
  exact Option.ext fun t => ⟨up name t, down name t⟩

end Resolves

/-! ### Rounds -/

/-- Rounds without a bound on their number: they end when nothing is pending or
when a round resolves nothing. -/
inductive Rounds : Aliases → List (Bytes × Bytes) → Except ConfigError Aliases → Prop
  | done (known : Aliases) : Rounds known [] (.ok known)
  | stuck {known : Aliases} {pending : List (Bytes × Bytes)} {name source : Bytes}
      {error : DeclarationError} {failed : List ((Bytes × Bytes) × DeclarationError)} :
      resolveRound known pending = ([], ((name, source), error) :: failed) →
      Rounds known pending (.error (.unresolved name error))
  | next {known resolved : Aliases} {pending : List (Bytes × Bytes)}
      {failed : List ((Bytes × Bytes) × DeclarationError)} {result : Except ConfigError Aliases} :
      resolveRound known pending = (resolved, failed) → resolved ≠ [] →
      Rounds (known ++ resolved) (failed.map Prod.fst) result → Rounds known pending result

section Round

variable (known : Aliases) (pending : List (Bytes × Bytes))

/-- A round loses no name and adds none. -/
theorem resolveRound_names : ((resolveRound known pending).1.map Prod.fst ++
    ((resolveRound known pending).2.map Prod.fst).map Prod.fst).Perm (pending.map Prod.fst) := by
  induction pending with
  | nil => exact .nil
  | cons d rest ih =>
    rw [resolveRound]
    simp only
    split
    · exact ih.cons d.1
    · exact List.perm_middle.trans (ih.cons d.1)

theorem resolveRound_resolved : ∀ a ∈ (resolveRound known pending).1, ∃ source,
    (a.1, source) ∈ pending ∧ parse known source = .ok a.2 := by
  induction pending with
  | nil => exact nofun
  | cons d rest ih =>
    have later : ∀ a ∈ (resolveRound known rest).1, ∃ source,
        (a.1, source) ∈ d :: rest ∧ parse known source = .ok a.2 := by
      intro a member
      obtain ⟨source, inside, read⟩ := ih a member
      exact ⟨source, List.mem_cons_of_mem d inside, read⟩
    rw [resolveRound]
    simp only
    split
    · rename_i t read
      exact List.forall_mem_cons.mpr ⟨⟨d.2, List.mem_cons_self, read⟩, later⟩
    · exact later

theorem resolveRound_failed : ∀ f ∈ (resolveRound known pending).2, f.1 ∈ pending := by
  induction pending with
  | nil => exact nofun
  | cons d rest ih =>
    have later : ∀ f ∈ (resolveRound known rest).2, f.1 ∈ d :: rest := fun f member =>
      List.mem_cons_of_mem d (ih f member)
    rw [resolveRound]
    simp only
    split
    · exact later
    · exact List.forall_mem_cons.mpr ⟨List.mem_cons_self, later⟩

theorem mem_resolveRound {known : Aliases} {pending : List (Bytes × Bytes)} {d : Bytes × Bytes}
    (member : d ∈ pending) {t : Ty} (read : parse known d.2 = .ok t) :
    (d.1, t) ∈ (resolveRound known pending).1 := by
  induction pending with
  | nil => contradiction
  | cons first rest ih =>
    rw [resolveRound]
    simp only
    rcases List.mem_cons.mp member with rfl | inside
    · rw [read]
      exact List.mem_cons_self
    · split
      · exact List.mem_cons_of_mem _ (ih inside)
      · exact ih inside

end Round

/-- Bounded rounds are the unbounded ones when the bound is the number of pending
declarations: each round but the last one resolves one at least. -/
theorem rounds_resolveRounds {fuel : Nat} {known : Aliases} {pending : List (Bytes × Bytes)}
    (enough : pending.length ≤ fuel) : Rounds known pending (resolveRounds fuel known pending) := by
  induction fuel generalizing known pending with
  | zero =>
    obtain rfl := List.eq_nil_of_length_eq_zero (Nat.le_zero.mp enough)
    exact .done known
  | succ fuel ih =>
    cases pending with
    | nil => exact .done known
    | cons d rest =>
      have names := (resolveRound_names known (d :: rest)).length_eq
      rw [resolveRounds]
      split
      · rename_i round
        exact .stuck round
      · rename_i resolved failed progress round
        rw [round] at names
        simp only [List.length_append, List.length_map, List.length_cons] at names enough
        have some : resolved ≠ [] := by
          rintro rfl
          cases failed with
          | nil => simp at names
          | cons f others => exact progress f.1.1 f.1.2 f.2 others rfl rfl
        have positive := List.length_pos_iff.mpr some
        apply Rounds.next round some
        apply ih
        rw [List.length_map]
        omega

/-- Between rounds the known names are enumerated, and with the pending ones they
are all that were declared. -/
structure Ongoing (declarations : List (Bytes × Bytes)) (known : Aliases)
    (pending : List (Bytes × Bytes)) : Prop where
  enumerated : Enumerates declarations known
  declared : ∀ d ∈ pending, d ∈ declarations
  names : (known.map Prod.fst ++ pending.map Prod.fst).Perm (declarations.map Prod.fst)

namespace Ongoing

variable {pending : List (Bytes × Bytes)} (distinct : (declarations.map Prod.fst).Nodup)

theorem start (declarations : List (Bytes × Bytes)) : Ongoing declarations [] declarations :=
  ⟨.nil, fun _ => id, .refl _⟩

include distinct

theorem step (ongoing : Ongoing declarations known pending) {resolved : Aliases}
    {failed : List ((Bytes × Bytes) × DeclarationError)}
    (round : resolveRound known pending = (resolved, failed)) :
    Ongoing declarations (known ++ resolved) (failed.map Prod.fst) := by
  have names := resolveRound_names known pending
  have added := resolveRound_resolved known pending
  have left := resolveRound_failed known pending
  rw [round] at names added left
  have all : ((known ++ resolved).map Prod.fst ++ (failed.map Prod.fst).map Prod.fst).Perm
      (declarations.map Prod.fst) := by
    rw [List.map_append, List.append_assoc]
    exact (names.append_left _).trans ongoing.names
  refine ⟨?_, ?_, all⟩
  · apply ongoing.enumerated.append
    · intro a member
      obtain ⟨source, inside, read⟩ := added a member
      exact ⟨source, ongoing.declared _ inside, read⟩
    · exact (List.nodup_append.mp (all.nodup_iff.mpr distinct)).1
  · intro d member
    obtain ⟨f, inside, rfl⟩ := List.mem_map.mp member
    exact ongoing.declared _ (left f inside)

/-- A round without progress leaves a name that no enumeration reaches. -/
theorem not_resolves (ongoing : Ongoing declarations known pending) {d : Bytes × Bytes}
    (waits : d ∈ pending) (stuck : (resolveRound known pending).1 = []) :
    ¬ Resolves declarations aliases := by
  intro resolves
  have apart := (List.nodup_append.mp (ongoing.names.nodup_iff.mpr distinct)).2.2
  have unknown : ∀ d ∈ pending, d.1 ∉ known.map Prod.fst := fun d inside member =>
    apart d.1 member d.1 (List.mem_map_of_mem inside) rfl
  rcases ongoing.enumerated.extends_or_next distinct resolves.enumerated with
    covered | ⟨d', declared, fresh, t, read⟩
  · obtain ⟨t, found, _⟩ := resolves.fixed distinct (ongoing.declared d waits)
    have found := Aliases.mem_of_find? (covered d.1 t found)
    exact unknown d waits (List.mem_map_of_mem found)
  · have member := ongoing.names.mem_iff.mpr (List.mem_map_of_mem declared)
    obtain ⟨d'', inside, same⟩ := List.mem_map.mp ((List.mem_append.mp member).resolve_left fresh)
    obtain rfl := List.inj_on_of_nodup_map distinct (ongoing.declared d'' inside) declared same
    have resolved := mem_resolveRound inside read
    rw [stuck] at resolved
    contradiction

/-- The rounds end with an enumeration of all names, or there is none. -/
theorem outcome {result : Except ConfigError Aliases} (rounds : Rounds known pending result)
    (ongoing : Ongoing declarations known pending) :
    (∃ aliases, result = .ok aliases ∧ Resolves declarations aliases) ∨
      (∃ error, result = .error error) ∧ ∀ aliases, ¬ Resolves declarations aliases := by
  induction rounds with
  | done known =>
    exact .inl ⟨known, rfl, ongoing.enumerated, by simpa using ongoing.names⟩
  | @stuck known pending name source error failed round =>
    have waits := resolveRound_failed known pending
    rw [round] at waits
    refine .inr ⟨⟨_, rfl⟩, fun aliases => ?_⟩
    exact ongoing.not_resolves distinct (waits _ List.mem_cons_self) (by rw [round])
  | next round _ _ ih => exact ih (ongoing.step distinct round)

end Ongoing

/-! ### Resolution -/

/-- No declared name reads as a type that is built in. -/
def NothingBuiltIn (declarations : List (Bytes × Bytes)) : Prop :=
  ∀ d ∈ declarations, ∀ t, parse [] d.1 ≠ .ok t

theorem resolveAliases_of_free (free : NothingBuiltIn declarations) :
    resolveAliases declarations = resolveRounds declarations.length [] declarations := by
  have none : declarations.find? (fun d => (parse [] d.1).toBool) = none := by
    rw [List.find?_eq_none]
    intro d declared
    cases read : parse [] d.1 with
    | ok t => exact absurd read (free d declared t)
    | error e => exact Bool.false_ne_true
  rw [resolveAliases]
  simp only [none]

theorem free_of_resolveAliases (resolved : resolveAliases declarations = .ok aliases) :
    NothingBuiltIn declarations := by
  rw [resolveAliases] at resolved
  split at resolved
  · contradiction
  · rename_i none
    intro d declared t read
    have absent := List.find?_eq_none.mp none d declared
    simp only [read] at absent
    exact absent rfl

/-- The aliases of a configuration are the least fixed point of reading their
declarations. The rounds come to an end; they succeed exactly when no name is
built in and the names can be enumerated so that each declaration is read with
the names before it. The result binds the declared names, agrees with every such
enumeration, gives each name what its declaration denotes under the result
itself, and stays within every closed set of names. A name that leads back to
itself is in no enumeration. -/
theorem resolveAliases_least (declarations : List (Bytes × Bytes))
    (distinct : (declarations.map Prod.fst).Nodup) :
    (NothingBuiltIn declarations → Rounds [] declarations (resolveAliases declarations)) ∧
    ((∃ aliases, resolveAliases declarations = .ok aliases) ↔
      NothingBuiltIn declarations ∧ ∃ aliases, Resolves declarations aliases) ∧
    (∀ aliases, resolveAliases declarations = .ok aliases →
      (aliases.map Prod.fst).Perm (declarations.map Prod.fst) ∧
      (∀ aliases', Resolves declarations aliases' →
        ∀ name, aliases.find? name = aliases'.find? name) ∧
      (∀ d ∈ declarations, ∃ t, aliases.find? d.1 = some t ∧ parse aliases d.2 = .ok t) ∧
      ∀ names : Aliases, names.Regular → Closed declarations names → names.Extends aliases) ∧
    ∀ name, Relation.TransGen (Refers declarations) name name →
      (∀ aliases, Enumerates declarations aliases → name ∉ aliases.map Prod.fst) ∧
        ∃ error, resolveAliases declarations = .error error := by
  have rounds (free : NothingBuiltIn declarations) :
      Rounds [] declarations (resolveAliases declarations) := by
    rw [resolveAliases_of_free free]
    exact rounds_resolveRounds (Nat.le_refl _)
  have outcome (free : NothingBuiltIn declarations) :=
    (Ongoing.start declarations).outcome distinct (rounds free)
  have resolves {aliases} (resolved : resolveAliases declarations = .ok aliases) :
      Resolves declarations aliases := by
    rcases outcome (free_of_resolveAliases resolved) with ⟨_, same, found⟩ | ⟨⟨_, failed⟩, _⟩
    · rwa [← Except.ok.inj (same.symm.trans resolved)]
    · rw [failed] at resolved
      contradiction
  refine ⟨rounds, ⟨?_, ?_⟩, ?_, ?_⟩
  · rintro ⟨aliases, resolved⟩
    exact ⟨free_of_resolveAliases resolved, aliases, resolves resolved⟩
  · rintro ⟨free, aliases, found⟩
    rcases outcome free with ⟨aliases', same, _⟩ | ⟨_, none⟩
    · exact ⟨aliases', same⟩
    · exact absurd found (none aliases)
  · intro aliases resolved
    have found := resolves resolved
    exact ⟨found.names, fun _ other => found.find?_eq distinct other,
      fun d declared => found.fixed distinct declared,
      fun names regular closed => found.enumerated.within regular closed⟩
  · intro name cycle
    refine ⟨fun aliases enumerated => enumerated.acyclic distinct cycle, ?_⟩
    cases resolved : resolveAliases declarations with
    | error error => exact ⟨error, rfl⟩
    | ok aliases =>
      have found := resolves resolved
      obtain ⟨_, ⟨_, _, declared, _⟩, _⟩ := Relation.TransGen.head'_iff.mp cycle
      have member := found.names.mem_iff.mpr (List.mem_map_of_mem declared)
      exact absurd member (found.enumerated.acyclic distinct cycle)

/-- A name that is declared before the one it uses, and one that uses itself. -/
theorem resolveAliases_least_backwards :
    let declarations := [(utf8 "A", utf8 "B[]"), (utf8 "B", utf8 "'x'")]
    let circular := [(utf8 "A", utf8 "?A")]
    ((declarations.map Prod.fst).Nodup ∧ ∃ aliases, resolveAliases declarations = .ok aliases ∧
      aliases.find? (utf8 "A") = some (.array .any (.stringLit (utf8 "x") .single)) ∧
      parse aliases (utf8 "B[]") = .ok (.array .any (.stringLit (utf8 "x") .single))) ∧
    (circular.map Prod.fst).Nodup ∧
      Relation.TransGen (Refers circular) (utf8 "A") (utf8 "A") ∧
      ∃ error, resolveAliases circular = .error error := by
  intro declarations circular
  have distinct : (declarations.map Prod.fst).Nodup := by decide
  have single : (circular.map Prod.fst).Nodup := by decide
  have free : NothingBuiltIn declarations := by
    have none : declarations.all (fun d => !(parse [] d.1).toBool) = true := by decide +kernel
    intro d declared t read
    have rejected := List.all_eq_true.mp none d declared
    rw [read] at rejected
    contradiction
  have first : Enumerates declarations [(utf8 "B", .stringLit (utf8 "x") .single)] :=
    .snoc .nil (show (utf8 "B", utf8 "'x'") ∈ declarations by decide) (by decide) rfl
  have resolves : Resolves declarations [(utf8 "B", .stringLit (utf8 "x") .single),
      (utf8 "A", .array .any (.stringLit (utf8 "x") .single))] := by
    refine ⟨first.snoc (show (utf8 "A", utf8 "B[]") ∈ declarations by decide) ?_ rfl, by decide⟩
    decide
  have letter : Refers circular (utf8 "A") (utf8 "A") := by
    have unknown : keyword? (utf8 "A") = none := Option.isNone_iff_eq_none.mp (by decide +kernel)
    exact ⟨utf8 "?A", .mk (.mk true (.mk (.name ⟨utf8 "A", by decide +kernel⟩) 0)) [], by decide,
      ⟨_, rfl, rfl⟩, by decide, unknown⟩
  have cycle := Relation.TransGen.single letter
  obtain ⟨_, succeeds, result, _⟩ := resolveAliases_least declarations distinct
  obtain ⟨_, _, _, cycles⟩ := resolveAliases_least circular single
  obtain ⟨aliases, resolved⟩ := succeeds.mpr ⟨free, _, resolves⟩
  obtain ⟨_, same, fixed, _⟩ := result aliases resolved
  obtain ⟨t, found, read⟩ := fixed (utf8 "A", utf8 "B[]") (by decide)
  rw [same _ resolves] at found
  obtain rfl := Option.some.inj found
  exact ⟨⟨distinct, aliases, resolved, same _ resolves _, read⟩, single, cycle,
    (cycles _ cycle).2⟩

end Conform.Declaration
