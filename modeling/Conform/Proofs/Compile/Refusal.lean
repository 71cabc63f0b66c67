import Conform.Proofs.Compile
import Conform.Proofs.Source.Emit

/-! Which types no compiler takes. A component of unknown variant has neither a node nor an
expression. Both compilers go through the components of a type in the order in which they
are declared and stop at the first such one, so they refuse the same types and for the same
component. -/
namespace Conform

namespace Ty

/-- The components that a type is declared with, in their order. -/
def parts : Ty → List Ty
  | .union members => members
  | .array key value => [.arrayKey key, value]
  | .list value => [value]
  | .shape fields => fields.map (·.type)
  | _ => []

/-- The one type is the other or a component of it, at any depth. -/
inductive Within (part : Ty) : Ty → Prop
  | self : Within part part
  | inside {t p : Ty} : p ∈ t.parts → Within part p → Within part t

/-- The first component of unknown variant: it is in one of the components that a type is
declared with, and the ones before have none. -/
inductive FirstUnknownIn (u : Ty) : Ty → Prop
  | self : u.kind? = none → FirstUnknownIn u u
  | inside {t p : Ty} {before after : List Ty} : t.parts = before ++ p :: after →
      (∀ q ∈ before, q.known = true) → FirstUnknownIn u p → FirstUnknownIn u t

/-- A property holds of every type once it is inherited from the components. -/
@[elab_as_elim]
theorem partsInduct {P : Ty → Prop} (step : ∀ t, (∀ p ∈ t.parts, P p) → P t) (t : Ty) : P t := by
  induction t using Ty.induct with
  | union members ih => exact step _ ih
  | array key value ih =>
    refine step _ (List.forall_mem_cons.mpr ⟨step _ ?_, List.forall_mem_singleton.mpr ih⟩)
    exact List.forall_mem_nil _
  | list value ih => exact step _ (List.forall_mem_singleton.mpr ih)
  | shape fields ih => exact step _ (List.forall_mem_map.mpr ih)
  | _ => exact step _ (List.forall_mem_nil _)

theorem parts_of_unknown {t : Ty} (unknown : t.kind? = none) : t.parts = [] := by
  cases t with
  | unknown name accepted => rfl
  | _ => contradiction

theorem known_iff_parts (t : Ty) :
    t.known = true ↔ t.kind? ≠ none ∧ ∀ p ∈ t.parts, p.known = true := by
  cases t <;> simp [known, every, parts, kind?, everyMember_iff, everyField_iff]

/-- A type is made of known variants exactly if every component is of one. -/
theorem known_iff_within (t : Ty) : t.known = true ↔ ∀ u, Within u t → u.kind? ≠ none := by
  induction t using partsInduct with
  | step t ih =>
    rw [known_iff_parts]
    constructor
    · rintro ⟨here, parts⟩ u within
      cases within with
      | self => exact here
      | inside member within => exact (ih _ member).mp (parts _ member) u within
    · intro all
      refine ⟨all t .self, fun p member => (ih p member).mpr ?_⟩
      exact fun u within => all u (.inside member within)

/-! ### The first one of a list -/

/-- The first component of unknown variant in a list of types. -/
def FirstAmong (u : Ty) (list : List Ty) : Prop :=
  ∃ before p after, list = before ++ p :: after ∧ (∀ q ∈ before, q.known = true) ∧
    u.FirstUnknownIn p

variable {t u : Ty} {list : List Ty}

theorem firstUnknownIn_iff_parts (known : t.kind? ≠ none) :
    u.FirstUnknownIn t ↔ u.FirstAmong t.parts := by
  constructor
  · intro first
    cases first with
    | self unknown => exact absurd unknown known
    | inside split before first => exact ⟨_, _, _, split, before, first⟩
  · rintro ⟨before, p, after, split, before, first⟩
    exact .inside split before first

theorem firstUnknownIn_unknown (unknown : t.kind? = none) : u.FirstUnknownIn t ↔ u = t := by
  constructor
  · intro first
    cases first with
    | self => rfl
    | inside split =>
      rw [parts_of_unknown unknown] at split
      exact absurd split.symm (List.append_ne_nil_of_right_ne_nil _ (List.cons_ne_nil _ _))
  · rintro rfl
    exact .self unknown

theorem not_firstAmong_nil (u : Ty) : ¬ u.FirstAmong [] := by
  rintro ⟨before, p, after, split, _⟩
  exact List.append_ne_nil_of_right_ne_nil _ (List.cons_ne_nil _ _) split.symm

theorem firstAmong_cons :
    u.FirstAmong (t :: list) ↔ u.FirstUnknownIn t ∨ t.known = true ∧ u.FirstAmong list := by
  constructor
  · rintro ⟨before, p, after, split, known, first⟩
    cases before with
    | nil =>
      cases split
      exact .inl first
    | cons q before =>
      cases split
      obtain ⟨here, known⟩ := List.forall_mem_cons.mp known
      exact .inr ⟨here, before, p, after, rfl, known, first⟩
  · rintro (first | ⟨here, before, p, after, rfl, known, first⟩)
    · exact ⟨[], t, list, rfl, List.forall_mem_nil _, first⟩
    · exact ⟨t :: before, p, after, rfl, List.forall_mem_cons.mpr ⟨here, known⟩, first⟩

theorem exists_firstAmong
    (each : ∀ p ∈ list, p.known = true ∨ ∃ u : Ty, u.FirstUnknownIn p) :
    (∀ p ∈ list, p.known = true) ∨ ∃ u : Ty, u.FirstAmong list := by
  induction list with
  | nil => exact .inl (List.forall_mem_nil _)
  | cons p rest ih =>
    obtain ⟨here, others⟩ := List.forall_mem_cons.mp each
    rcases here with here | ⟨u, first⟩
    · rcases ih others with known | ⟨u, first⟩
      · exact .inl (List.forall_mem_cons.mpr ⟨here, known⟩)
      · exact .inr ⟨u, firstAmong_cons.mpr (.inr ⟨here, first⟩)⟩
    · exact .inr ⟨u, firstAmong_cons.mpr (.inl first)⟩

theorem known_or_first (t : Ty) : t.known = true ∨ ∃ u : Ty, u.FirstUnknownIn t := by
  induction t using partsInduct with
  | step t ih =>
    by_cases unknown : t.kind? = none
    · exact .inr ⟨t, .self unknown⟩
    · rcases exists_firstAmong ih with known | ⟨u, first⟩
      · exact .inl ((known_iff_parts t).mpr ⟨unknown, known⟩)
      · exact .inr ⟨u, (firstUnknownIn_iff_parts unknown).mpr first⟩

theorem FirstUnknownIn.within (first : u.FirstUnknownIn t) : u.Within t ∧ u.kind? = none := by
  induction first with
  | self unknown => exact ⟨.self, unknown⟩
  | inside split _ _ ih => exact ⟨.inside (by simp [split]) ih.1, ih.2⟩

theorem FirstUnknownIn.not_known (first : u.FirstUnknownIn t) : t.known ≠ true := fun known =>
  (known_iff_within t).mp known u first.within.1 first.within.2

/-- There is a first component of unknown variant as soon as there is one. -/
theorem exists_first_iff (t : Ty) :
    (∃ u : Ty, u.FirstUnknownIn t) ↔ ∃ u : Ty, u.Within t ∧ u.kind? = none := by
  constructor
  · rintro ⟨u, first⟩
    exact ⟨u, first.within⟩
  · rintro ⟨u, within, unknown⟩
    refine (known_or_first t).resolve_left fun known => ?_
    exact (known_iff_within t).mp known u within unknown

/-! ### Compilers that stop there -/

/-- The result is a failure for the first component of unknown variant, or none. -/
def StopsAtFirst {α : Type} (t : Ty) (result : Except Ty α) : Prop :=
  ∀ u : Ty, result = .error u ↔ u.FirstUnknownIn t

def StopsAmong {α : Type} (list : List Ty) (result : Except Ty α) : Prop :=
  ∀ u : Ty, result = .error u ↔ u.FirstAmong list

section StopsAtFirst

variable {α β γ : Type}

theorem StopsAtFirst.known_of_ok {result : Except Ty α} (stops : t.StopsAtFirst result) {a : α}
    (taken : result = .ok a) : t.known = true := by
  refine (known_or_first t).resolve_right ?_
  rintro ⟨u, first⟩
  cases taken.symm.trans ((stops u).mpr first)

theorem StopsAtFirst.of_known (known : t.known = true) (a : α) : t.StopsAtFirst (.ok a) := by
  intro u
  exact iff_of_false (by simp) fun first => first.not_known known

theorem StopsAtFirst.unknown (unknown : t.kind? = none) : t.StopsAtFirst (.error t : Except Ty α) := by
  intro u
  rw [firstUnknownIn_unknown unknown, Except.error.injEq]
  exact eq_comm

theorem StopsAmong.nil (a : α) : StopsAmong [] (.ok a) := fun u =>
  iff_of_false (by simp) (not_firstAmong_nil u)

/-- What takes one type after another stops at the first failure. -/
theorem StopsAmong.cons {first : Except Ty α} {rest : α → Except Ty β} (here : t.StopsAtFirst first)
    (others : ∀ a, StopsAmong list (rest a)) (make : α → β → γ) :
    StopsAmong (t :: list) (first.bind fun a => (rest a).map (make a)) := by
  intro u
  rw [firstAmong_cons, ← here u]
  cases found : first with
  | error e =>
    have refused : t.known ≠ true := ((here e).mp found).not_known
    simp [Except.bind, refused]
  | ok a =>
    have known := here.known_of_ok found
    rw [← others a u]
    cases later : rest a <;> simp [Except.bind, Except.map, known, later]

theorem StopsAmong.after_known {result : Except Ty α} (known : t.known = true)
    (others : StopsAmong list result) : StopsAmong (t :: list) result := by
  intro u
  rw [firstAmong_cons, others u]
  exact ⟨fun first => .inr ⟨known, first⟩, fun first =>
    (first.resolve_left fun here => here.not_known known).2⟩

theorem StopsAtFirst.alone {result : Except Ty α} (stops : t.StopsAtFirst result) :
    StopsAmong [t] result := by
  intro u
  rw [firstAmong_cons, stops u]
  exact ⟨.inl, fun first => first.resolve_right fun rest => not_firstAmong_nil u rest.2⟩

/-- A type is refused for the first one among its parts. -/
theorem StopsAtFirst.whole (t : Ty) {result : Except Ty α} (known : t.kind? ≠ none)
    (parts : StopsAmong t.parts result) (make : α → β) : t.StopsAtFirst (result.map make) := by
  intro u
  rw [firstUnknownIn_iff_parts known, ← parts u]
  cases result <;> simp [Except.map]

end StopsAtFirst

/-! ### Programs -/

theorem nodes_cons (t : Ty) (rest : List Ty) :
    nodes (t :: rest) = t.node.bind fun first => (nodes rest).map (first :: ·) := by
  rw [nodes]
  cases t.node with
  | error e => rfl
  | ok first => cases nodes rest <;> rfl

theorem elementNodes_cons (f : Field Ty) (rest : List (Field Ty)) :
    elementNodes (f :: rest) = f.type.node.bind fun first => (elementNodes rest).map
      ({ Node.withChildren .element f.type.text [first] with
        key := f.key, optional := f.optional } :: ·) := by
  rw [elementNodes]
  cases f.type.node with
  | error e => rfl
  | ok first => cases elementNodes rest <;> rfl

theorem nodes_stop {members : List Ty} (each : ∀ m ∈ members, m.StopsAtFirst m.node) :
    StopsAmong members (nodes members) := by
  induction members with
  | nil => exact .nil []
  | cons t rest ih =>
    obtain ⟨here, others⟩ := List.forall_mem_cons.mp each
    rw [nodes_cons]
    exact .cons here (fun _ => ih others) _

theorem elementNodes_stop {fields : List (Field Ty)}
    (each : ∀ f ∈ fields, f.type.StopsAtFirst f.type.node) :
    StopsAmong (fields.map (·.type)) (elementNodes fields) := by
  induction fields with
  | nil => exact .nil []
  | cons f rest ih =>
    obtain ⟨here, others⟩ := List.forall_mem_cons.mp each
    rw [elementNodes_cons]
    exact .cons here (fun _ => ih others) _

theorem node_stops (t : Ty) : t.StopsAtFirst t.node := by
  induction t using Ty.induct with
  | union members ih =>
    have same : (Ty.union members).node =
        (nodes members).map (.withChildren .union (Ty.union members).text) := by
      rw [node]
      cases nodes members <;> rfl
    rw [same]
    exact .whole (.union members) (by simp [kind?]) (nodes_stop ih) _
  | array key value ih =>
    have same : (Ty.array key value).node = value.node.map fun child =>
        .withChildren .array (Ty.array key value).text [key.node, child] := by
      rw [node]
      cases value.node <;> rfl
    rw [same]
    have keyed := ih.alone.after_known (t := .arrayKey key) rfl
    exact .whole (.array key value) (by simp [kind?]) keyed _
  | list value ih =>
    have same : (Ty.list value).node = value.node.map fun child =>
        .withChildren .list (Ty.list value).text [child] := by
      rw [node]
      cases value.node <;> rfl
    rw [same]
    exact .whole (.list value) (by simp [kind?]) ih.alone _
  | shape fields ih =>
    have same : (Ty.shape fields).node =
        (elementNodes fields).map (.withChildren .shape (Ty.shape fields).text) := by
      rw [node]
      cases elementNodes fields <;> rfl
    rw [same]
    exact .whole (.shape fields) (by simp [kind?]) (elementNodes_stop ih) _
  | unknown name accepted => exact .unknown rfl
  | _ => exact .of_known rfl _

end Ty

/-! ### Source text -/

namespace Source

theorem emitAll_cons (var used : Nat) (t : Ty) (rest : List Ty) :
    emitAll var used (t :: rest) = (emit var used t).bind fun first =>
      (emitAll var first.2 rest).map fun others => (first.1 :: others.1, others.2) := by
  rw [emitAll]
  rcases emit var used t with e | ⟨first, next⟩
  · rfl
  · dsimp only [Except.bind]
    rcases emitAll var next rest with e | ⟨others, last⟩ <;> rfl

theorem emitFields_cons (used : Nat) (f : Field Ty) (rest : List (Field Ty)) :
    emitFields used (f :: rest) = (emit (used + 1) (used + 1) f.type).bind fun first =>
      (emitFields first.2 rest).map fun others =>
        (⟨f.key, f.optional, .mk (used + 1) first.1⟩ :: others.1, others.2) := by
  rw [emitFields]
  rcases emit (used + 1) (used + 1) f.type with e | ⟨body, next⟩
  · rfl
  · dsimp only [Except.bind]
    rcases emitFields next rest with e | ⟨others, last⟩ <;> rfl

theorem emitAll_stops {members : List Ty}
    (each : ∀ m ∈ members, ∀ var used, m.StopsAtFirst (emit var used m)) (var used : Nat) :
    Ty.StopsAmong members (emitAll var used members) := by
  induction members generalizing used with
  | nil => exact .nil _
  | cons t rest ih =>
    obtain ⟨here, others⟩ := List.forall_mem_cons.mp each
    rw [emitAll_cons]
    exact .cons (here var used) (fun first => ih others first.2) _

theorem emitFields_stop {fields : List (Field Ty)}
    (each : ∀ f ∈ fields, ∀ var used, f.type.StopsAtFirst (emit var used f.type)) (used : Nat) :
    Ty.StopsAmong (fields.map (·.type)) (emitFields used fields) := by
  induction fields generalizing used with
  | nil => exact .nil _
  | cons f rest ih =>
    obtain ⟨here, others⟩ := List.forall_mem_cons.mp each
    rw [emitFields_cons]
    exact .cons (here (used + 1) (used + 1)) (fun first => ih others first.2) _

theorem emit_stops (t : Ty) (var used : Nat) : t.StopsAtFirst (emit var used t) := by
  induction t using Ty.induct generalizing var used with
  | union members ih =>
    have same : emit var used (.union members) =
        (emitAll var used members).map fun tests => (.any tests.1, tests.2) := by
      rw [emit]
      rcases emitAll var used members with e | ⟨tests, next⟩ <;> rfl
    rw [same]
    exact .whole (.union members) (by simp [Ty.kind?]) (emitAll_stops ih var used) _
  | array key value ih =>
    have same : emit var used (.array key value) =
        (emit (used + 2) (used + 2) value).map fun body =>
          (.acceptsArray var (.mk (used + 1) (keyTest (used + 1) key)) (.mk (used + 2) body.1),
            body.2) := by
      rw [emit]
      rcases emit (used + 2) (used + 2) value with e | ⟨body, next⟩ <;> rfl
    rw [same]
    have keyed := (ih (used + 2) (used + 2)).alone.after_known (t := .arrayKey key) rfl
    exact .whole (.array key value) (by simp [Ty.kind?]) keyed _
  | list value ih =>
    have same : emit var used (.list value) = (emit (used + 1) (used + 1) value).map fun body =>
        (.acceptsList var (.mk (used + 1) body.1), body.2) := by
      rw [emit]
      rcases emit (used + 1) (used + 1) value with e | ⟨body, next⟩ <;> rfl
    rw [same]
    exact .whole (.list value) (by simp [Ty.kind?]) (ih _ _).alone _
  | shape fields ih =>
    have same : emit var used (.shape fields) =
        (emitFields used fields).map fun checks => (.acceptsShape var checks.1, checks.2) := by
      rw [emit]
      rcases emitFields used fields with e | ⟨checks, next⟩ <;> rfl
    rw [same]
    exact .whole (.shape fields) (by simp [Ty.kind?]) (emitFields_stop ih used) _
  | floatLit value => cases value <;> exact .of_known rfl _
  | unknown name accepted => exact .unknown rfl
  | _ => exact .of_known rfl _

end Source

namespace Ty

/-- A compiled form is refused for the component that its part of the compiler stops at. -/
theorem compile_unsupported_iff (t u : Ty) (backend : Backend) :
    t.compile backend = .error (.unsupported u backend.format) ↔ u.FirstUnknownIn t := by
  cases backend with
  | program =>
    rw [compile, program, ← node_stops t u]
    cases t.node <;> simp
  | source packageName functionName =>
    rw [compile, ← Source.emit_stops t 0 0 u]
    cases Source.emit 0 0 t with
    | error part => simp
    | ok emitted =>
      dsimp only
      split <;> simp

/-- Programs and source text are refused for the same types, those with a component of
unknown variant, and for the same component, the first one in depth-first order. -/
theorem refused_for_first_unknown (t : Ty) :
    ((∃ u : Ty, u.FirstUnknownIn t) ↔ ∃ u : Ty, u.Within t ∧ u.kind? = none) ∧
      ∀ u : Ty, (t.node = .error u ↔ u.FirstUnknownIn t) ∧
        (∀ var used, Source.emit var used t = .error u ↔ u.FirstUnknownIn t) ∧
        ∀ backend, (t.compile backend = .error (.unsupported u backend.format) ↔
            u.FirstUnknownIn t) ∧
          (CompileError.unsupported u backend.format).report.code? = some .unsupportedType :=
  ⟨exists_first_iff t, fun u => ⟨node_stops t u, fun var used => Source.emit_stops t var used u,
    fun backend => ⟨compile_unsupported_iff t u backend, rfl⟩⟩⟩

end Ty

end Conform
