import Conform.Proofs.Declaration.Resolution
import Conform.Proofs.Engine
import Conform.Proofs.Store.Path

/-! Every configured alias can be used under its own name. Names are checked character by
character and scanned octet by octet, but a character outside ASCII is made of octets that
count as letters, so an admitted name is one token. A name that were a built-in word would
have been refused, since such a word is read as a type by itself. So the name is looked up
among the aliases, all of which are resolved, whatever was read before it. -/
namespace Conform

/-! ### Names -/

namespace Utf8

/-- A character beyond ASCII is made of octets beyond ASCII. -/
theorem octets_high {text : Bytes} {p : Piece} (member : p ∈ pieces text) (big : 0x80 ≤ p.code)
    {b : UInt8} (inside : b ∈ p.octets) : 0x80 ≤ b := by
  have proper := pieces_proper text p member
  cases p with
  | stray octet =>
    rw [List.mem_singleton.mp inside]
    exact proper
  | char code octets =>
    obtain ⟨_, rfl⟩ := proper
    exact encodeRune_high big b inside

theorem octets_ne_nil {text : Bytes} {p : Piece} (member : p ∈ pieces text) : p.octets ≠ [] := by
  have proper := pieces_proper text p member
  cases p with
  | stray octet => exact List.cons_ne_nil _ _
  | char code octets =>
    obtain ⟨_, rfl⟩ := proper
    rw [Piece.octets, encodeRune]
    repeat' split
    all_goals exact List.cons_ne_nil _ _

end Utf8

namespace Declaration

open Utf8

/-- The octets of a character that passes a test pass another one, if those of ASCII do and
all others pass it anyway. -/
theorem octets_pass {text : Bytes} {p : Piece} (member : p ∈ pieces text) {test : Nat → Bool}
    {pass : UInt8 → Bool} (ascii : ∀ b : UInt8, test b.toNat = true → pass b = true)
    (high : ∀ b : UInt8, 0x80 ≤ b → pass b = true) (tested : test p.code = true) {b : UInt8}
    (inside : b ∈ p.octets) : pass b = true := by
  rcases Nat.lt_or_ge p.code 0x80 with small | big
  · apply ascii
    rwa [octets_small member small inside]
  · exact high b (octets_high member big inside)

/-- An admitted name starts with a letter and goes on with octets of names. -/
theorem isAliasName_octets {name : Bytes} (named : isAliasName name = true) :
    startsWith isLetter name = true ∧ ∀ b ∈ name, continuesName b = true := by
  have letter {p : Piece} (member : p ∈ pieces name) :=
    @octets_pass name p member startsAlias isLetter
      (octet_cases (P := fun b => startsAlias b.toNat = true → isLetter b = true) (by decide))
      (octet_cases (P := fun b => 0x80 ≤ b → isLetter b = true) (by decide))
  have continues {p : Piece} (member : p ∈ pieces name) :=
    @octets_pass name p member continuesAlias continuesName
      (octet_cases (P := fun b => continuesAlias b.toNat = true → continuesName b = true)
        (by decide))
      (octet_cases (P := fun b => 0x80 ≤ b → continuesName b = true) (by decide))
  have whole := pieces_octets name
  rw [isAliasName] at named
  cases split : pieces name with
  | nil =>
    rw [split] at named
    contradiction
  | cons first rest =>
    rw [split] at named whole letter continues
    rw [List.map_cons, Bool.and_eq_true, List.all_map] at named
    obtain ⟨starts, others⟩ := named
    have nonempty : first.octets ≠ [] := octets_ne_nil (split ▸ List.mem_cons_self)
    constructor
    · obtain ⟨b, tail, octets⟩ := List.exists_cons_of_ne_nil nonempty
      rw [← whole, List.flatMap_cons, octets]
      exact letter List.mem_cons_self starts (by rw [octets]; exact List.mem_cons_self)
    · intro b member
      rw [← whole] at member
      obtain ⟨p, piece, inside⟩ := List.mem_flatMap.mp member
      refine continues piece ?_ inside
      rcases List.mem_cons.mp piece with rfl | later
      · simp [continuesAlias, starts]
      · exact List.all_eq_true.mp others p later

/-! ### Reading a name -/

section Name

variable {name : Bytes} (first : startsWith isLetter name = true)
  (whole : splitName name = (name, []))

include first whole

/-- A text that is a name is scanned as one, followed by the end. -/
theorem scan_name : scan name =
    .ok [⟨.name, name, name, 0, .none⟩, ⟨.eof, [], [], name.length, .none⟩] := by
  cases name with
  | nil => contradiction
  | cons b rest =>
    have letter : isLetter b = true := first
    have solid : ¬ isSpace b = true := by
      rw [isSpace_of_letter letter]
      exact Bool.false_ne_true
    simp [scan, scanned, scanFrom, splitToken, letter, whole, List.dropWhile_cons_of_neg solid,
      List.takeWhile_cons_of_neg solid]

/-- What is read when a declaration is nothing but a name. -/
theorem parse_name (aliases : Aliases) : parse aliases name =
    match keyword? name with
    | some (.type t) => .ok t
    | some .array => .ok (.array .any .mixed)
    | some .list => .ok (.list .mixed)
    | none =>
      match aliases.find? name with
      | some t => .ok t
      | none => .error (.unknownSymbol name) := by
  rw [parse, scan_name first whole]
  simp only [typeOfTokens, List.length_cons, List.length_nil, union, unionWith, nullable,
    startsWithKind, suffixed, atom, word]
  rcases keyword? name with _ | t | _ | _
  · cases aliases.find? name <;> rfl
  all_goals rfl

/-- A name that is no type by itself is read as whatever it stands for. -/
theorem parse_name_of_free (free : ∀ t, parse [] name ≠ .ok t) :
    keyword? name = none ∧ ∀ aliases t, Aliases.find? aliases name = some t →
      parse aliases name = .ok t := by
  have unknown : keyword? name = none := by
    have read := parse_name first whole []
    rcases found : keyword? name with _ | t | _ | _
    · rfl
    all_goals
      rw [found] at read
      exact absurd read (free _)
  refine ⟨unknown, fun aliases t found => ?_⟩
  rw [parse_name first whole, unknown, found]

end Name

/-! ### Resolution -/

/-- The rounds that come to an end bind every name that was known or pending. -/
theorem Rounds.names {known aliases : Aliases} {pending : List (Bytes × Bytes)}
    {result : Except ConfigError Aliases} (rounds : Rounds known pending result)
    (ended : result = .ok aliases) :
    (aliases.map Prod.fst).Perm (known.map Prod.fst ++ pending.map Prod.fst) := by
  induction rounds with
  | done known =>
    obtain rfl := Except.ok.inj ended
    rw [List.map_nil, List.append_nil]
  | stuck => contradiction
  | @next known resolved pending failed _ round _ _ ih =>
    have kept := resolveRound_names known pending
    rw [round] at kept
    refine (ih ended).trans ?_
    rw [List.map_append, List.append_assoc]
    exact kept.append_left _

theorem exists_of_resolveAliases {declarations : List (Bytes × Bytes)} {aliases : Aliases}
    (resolved : resolveAliases declarations = .ok aliases) {d : Bytes × Bytes}
    (declared : d ∈ declarations) : ∃ t, aliases.find? d.1 = some t := by
  have free := free_of_resolveAliases resolved
  rw [resolveAliases_of_free free] at resolved
  have names := (rounds_resolveRounds (Nat.le_refl _)).names resolved
  apply Aliases.exists_of_mem_names
  rw [names.mem_iff]
  exact List.mem_append_right _ (List.mem_map_of_mem declared)

end Declaration

/-! ### Configurations -/

open Declaration (Aliases Catalog)

theorem Config.isAliasName_of_check {config : Config} {result : Config × Aliases}
    (checked : config.check = .ok result) {d : Bytes × Bytes} (declared : d ∈ config.aliases) :
    isAliasName d.1 = true := by
  rw [check] at checked
  split at checked
  · contradiction
  · rename_i none
    have fine : config.withDefaults.aliases.flatMap (fun d => aliasProblems d.1 d.2) = [] :=
      (List.append_eq_nil_iff.mp none).2
    have single := List.flatMap_eq_nil_iff.mp fine d declared
    by_contra other
    simp [aliasProblems, other] at single

namespace Engine

variable {σ : Type} {backing : Backing σ} {stored : σ} {config : Config} {e : Engine σ}
  {events : List Event}

theorem check_of_make (made : make backing stored config = .ok (e, events)) :
    ∃ result, config.check = .ok result := by
  rw [make] at made
  split at made
  · contradiction
  · exact ⟨_, ‹_›⟩

/-- A request leaves the reader as it is, or lets it read a declaration. -/
theorem catalog_after (e : Engine σ) (request : Request) :
    (e.after request).catalog = e.catalog ∨
      ∃ source, (e.after request).catalog = (e.catalog.parse source).2 := by
  have read (source : Bytes) : (e.parse source).2.catalog = (e.catalog.parse source).2 := by
    rw [parse_state]
  have sought (call : Call) (source : Bytes) :
      (e.validator call source).2.1.catalog = (e.catalog.parse source).2 := by
    cases parsed : (e.catalog.parse source).1 with
    | error error => rw [validator_of_rejected parsed]
    | ok t => rw [validator_of_parsed parsed]
  cases request with
  | parse source => exact .inr ⟨source, read source⟩
  | validator call source => exact .inr ⟨source, sought call source⟩
  | accepts call source v =>
    rw [after, accepts_eq]
    exact .inr ⟨source, sought call source⟩
  | cast call source v =>
    rw [after, cast_eq]
    exact .inr ⟨source, sought call source⟩
  | compile source format =>
    rw [after]
    rcases compile_state e source format with same | same
    · exact .inl (by rw [same])
    · exact .inr ⟨source, by rw [same, read]⟩

/-- The reader of an engine stays sound, whatever becomes of the validators. -/
theorem catalog_run {aliases : Aliases} (sound : e.catalog.Sound aliases)
    (history : List Request) : (e.run history).catalog.Sound aliases := by
  induction history generalizing e with
  | nil => exact sound
  | cons request rest ih =>
    apply ih
    rcases catalog_after e request with same | ⟨source, same⟩
    · rwa [same]
    · rw [same]
      exact (sound.parse_answers source).2

theorem parse_of_catalog {aliases : Aliases} (sound : e.catalog.Sound aliases) {source : Bytes}
    {t : Ty} (read : Declaration.parse aliases source = .ok t) : (e.parse source).1 = .ok t := by
  have answer := (sound.parse_answers source).1
  rw [parse]
  cases parsed : e.catalog.parse source with
  | mk result catalog =>
    rw [parsed, read] at answer
    obtain rfl : result = .ok t := answer
    rfl

/-- Every alias of an engine can be used under its name. The name is scanned as one name and
nothing else; it is no built-in word, so that without aliases it is unknown; and after any
requests it is read as the type that the resolution of the aliases gave it. -/
theorem parse_alias (made : make backing stored config = .ok (e, events)) {name source : Bytes}
    (declared : (name, source) ∈ config.aliases) :
    Declaration.scan name =
        .ok [⟨.name, name, name, 0, .none⟩, ⟨.eof, [], [], name.length, .none⟩] ∧
      Declaration.parse [] name = .error (.unknownSymbol name) ∧
      ∃ aliases t, Declaration.resolveAliases config.aliases = .ok aliases ∧
        aliases.find? name = some t ∧
        ∀ history, ((e.run history).parse name).1 = .ok t := by
  obtain ⟨_, checked⟩ := check_of_make made
  obtain ⟨first, all⟩ :=
    Declaration.isAliasName_octets (Config.isAliasName_of_check checked declared)
  have whole := Declaration.splitName_all all
  obtain ⟨aliases, _, _, resolved, fresh⟩ := make_eq_ok made
  have sound : e.catalog.Sound aliases := by
    rw [fresh]
    exact ⟨rfl, Recent.all_empty _⟩
  have free := Declaration.free_of_resolveAliases resolved _ declared
  obtain ⟨t, found⟩ := Declaration.exists_of_resolveAliases resolved declared
  obtain ⟨unknown, reads⟩ := Declaration.parse_name_of_free first whole free
  refine ⟨Declaration.scan_name first whole, ?_, aliases, t, resolved, found, fun history => ?_⟩
  · rw [Declaration.parse_name first whole, unknown]
    rfl
  · exact parse_of_catalog (catalog_run sound history) (reads aliases t found)

/-- A name of two-byte characters and a backslash, whose last part is a built-in word. -/
theorem parse_alias_accented :
    let name : Bytes := "Éé\\int"
    let config : Config := ⟨1, 1, [], [(name, "?'a'")]⟩
    ∃ e events, make (⟨fun _ => [], none⟩ : Backing Unit) () config = .ok (e, events) ∧
      (name, utf8 "?'a'") ∈ config.aliases ∧
      ∀ history, ((e.run history).parse name).1 =
        .ok (.union [.null, .stringLit (utf8 "a") .single]) := by
  intro name config
  have declared : (name, utf8 "?'a'") ∈ config.aliases := List.mem_singleton.mpr rfl
  have clean : config.withDefaults.problems = [] := by decide +kernel
  have free : Declaration.NothingBuiltIn config.aliases := by
    have fails : (Declaration.parse [] name).toBool = false := by decide +kernel
    intro d member t read
    obtain rfl := List.mem_singleton.mp member
    rw [read] at fails
    exact Bool.noConfusion fails
  have read : Declaration.parse [] (utf8 "?'a'") =
    .ok (.union [.null, .stringLit (utf8 "a") .single]) := rfl
  have bound : Declaration.resolveAliases config.aliases =
      .ok [(name, .union [.null, .stringLit (utf8 "a") .single])] := by
    rw [Declaration.resolveAliases_of_free free]
    simp only [config, List.length_singleton, Declaration.resolveRounds, Declaration.resolveRound,
      read]
    rfl
  obtain ⟨⟨e, events⟩, made⟩ :
      ∃ r, make (⟨fun _ => [], none⟩ : Backing Unit) () config = .ok r := by
    simp only [make, Config.check, clean]
    rw [show config.withDefaults.aliases = config.aliases from rfl, bound]
    exact ⟨_, rfl⟩
  obtain ⟨_, _, aliases, t, resolved, found, reads⟩ := parse_alias made declared
  obtain rfl := Except.ok.inj (bound.symm.trans resolved)
  rw [Aliases.find?, if_pos rfl] at found
  obtain rfl := Option.some.inj found
  exact ⟨e, events, made, declared, reads⟩

end Engine

end Conform
