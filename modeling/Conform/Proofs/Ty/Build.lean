import Conform.Proofs.Ty.Parts

/-! Types that are built keep the rules of the algebra, given parts that do. -/
namespace Conform.Ty

theorem Regular.array {key : KeyKind} {value : Ty} (regular : value.Regular) :
    (Ty.array key value).Regular :=
  ⟨by rw [Ty.wellFormed, regular.wellFormed], by
    rw [Ty.known, every, Bool.and_eq_true]
    exact ⟨rfl, regular.known⟩⟩

theorem Regular.list {value : Ty} (regular : value.Regular) : (Ty.list value).Regular :=
  ⟨by rw [Ty.wellFormed, regular.wellFormed], by
    rw [Ty.known, every, Bool.and_eq_true]
    exact ⟨rfl, regular.known⟩⟩

theorem Regular.union {members : List Ty} (two : 2 ≤ members.length)
    (each : ∀ m ∈ members, m.Regular ∧ m.isMixed = false ∧ m.kind? ≠ some .union) :
    (Ty.union members).Regular := by
  refine ⟨(wellFormed_union_iff members).mpr
    ⟨two, fun m member => (each m member).2, fun m member => (each m member).1.wellFormed⟩, ?_⟩
  rw [Ty.known, every, Bool.and_eq_true, everyMember_iff]
  exact ⟨rfl, fun m member => (each m member).1.known⟩

theorem Regular.shape {fields : List (Field Ty)} (distinct : (fields.map (·.key)).Nodup)
    (each : ∀ f ∈ fields, f.type.Regular) : (Ty.shape fields).Regular := by
  refine ⟨(wellFormed_shape_iff fields).mpr ⟨distinct, fun f member => (each f member).wellFormed⟩, ?_⟩
  rw [Ty.known, every, Bool.and_eq_true, everyField_iff]
  exact ⟨rfl, fun f member => (each f member).known⟩

section Unions

variable {P : Ty → Prop} (inside : ∀ {members : List Ty}, P (.union members) →
  ∀ m ∈ members, P m ∧ m.isMixed = false ∧ m.kind? ≠ some .union)

include inside

/-- What is flattened are members, and members of unions, so none is mixed or a union. -/
theorem flatten_inherits {members : List (Option Ty)} {flat : List Ty}
    (made : flatten members = .ok flat) (each : ∀ t, some t ∈ members → P t) :
    ∀ m ∈ flat, P m ∧ m.isMixed = false ∧ m.kind? ≠ some .union := by
  fun_induction flatten members generalizing flat with
  | case1 =>
    obtain rfl := Except.ok.inj made
    simp
  | case2 => contradiction
  | case3 => contradiction
  | case4 members rest more found ih =>
    obtain rfl := Except.ok.inj made
    have holds := each (.union members) (by simp)
    refine List.forall_mem_append.mpr ⟨inside holds, ?_⟩
    exact ih found fun t member => each t (by simp [member])
  | case5 => contradiction
  | case6 t rest notMixed notUnion more found ih =>
    obtain rfl := Except.ok.inj made
    refine List.forall_mem_cons.mpr ⟨⟨each t (by simp), ?_, ?_⟩, ?_⟩
    · cases t with
      | mixed => exact absurd rfl notMixed
      | _ => rfl
    · cases t with
      | union members => exact absurd rfl (notUnion members)
      | _ => exact nofun
    · exact ih found fun t member => each t (by simp [member])
  | case7 => contradiction

theorem union?_inherits
    (built : ∀ {flat : List Ty}, 2 ≤ flat.length →
      (∀ m ∈ flat, P m ∧ m.isMixed = false ∧ m.kind? ≠ some .union) → P (.union flat))
    {members : List Ty} {t : Ty} (made : union? members = .ok t) (each : ∀ m ∈ members, P m) :
    P t := by
  rw [union?, unionOf?] at made
  split at made
  · contradiction
  · rename_i flat flattened
    split at made
    · contradiction
    · rename_i two
      obtain rfl := Except.ok.inj made
      refine built (Nat.le_of_not_lt two) (flatten_inherits inside flattened fun t member => ?_)
      simp only [List.mem_map, Option.some.injEq, exists_eq_right] at member
      exact each t member

end Unions

theorem union?_regular {members : List Ty} {t : Ty} (made : union? members = .ok t)
    (each : ∀ m ∈ members, m.Regular) : t.Regular :=
  union?_inherits (fun regular _ member => regular.member member) .union made each

theorem union?_wellFormed {members : List Ty} {t : Ty} (made : union? members = .ok t)
    (each : ∀ m ∈ members, m.wellFormed = true) : t.wellFormed = true := by
  refine union?_inherits (P := fun t => t.wellFormed = true) ?_ ?_ made each
  · intro members wellFormed m member
    obtain ⟨_, kinds, parts⟩ := (wellFormed_union_iff members).mp wellFormed
    exact ⟨parts m member, kinds m member⟩
  · intro flat two parts
    exact (wellFormed_union_iff flat).mpr
      ⟨two, fun m member => (parts m member).2, fun m member => (parts m member).1⟩

/-- Checked fields are the given ones, under keys of their own. -/
theorem checkFields_ok {seen : List Bytes} {fields : List (Field Ty)} {made : List (Field Ty)}
    (checked : checkFields seen (fields.map fun f => ⟨f.key, f.optional, some f.type⟩) = .ok made) :
    made = fields ∧ (fields.map (·.key)).Nodup ∧ ∀ f ∈ fields, f.key ∉ seen := by
  induction fields generalizing seen made with
  | nil =>
    obtain rfl := Except.ok.inj checked
    simp
  | cons f rest ih =>
    rw [List.map_cons, checkFields] at checked
    simp only at checked
    split at checked
    · contradiction
    · rename_i fresh
      split at checked
      · rename_i others rested
        obtain rfl := Except.ok.inj checked
        obtain ⟨rfl, distinct, unseen⟩ := ih rested
        have fresh : f.key ∉ seen := by simpa using fresh
        refine ⟨rfl, ?_, ?_⟩
        · rw [List.map_cons, List.nodup_cons]
          refine ⟨fun member => ?_, distinct⟩
          obtain ⟨g, inside, same⟩ := List.mem_map.mp member
          exact unseen g inside (by simp [same])
        · refine List.forall_mem_cons.mpr ⟨fresh, fun g inside seenToo => ?_⟩
          exact unseen g inside (by simp [seenToo])
      · contradiction

theorem shape?_eq_ok {fields : List (Field Ty)} {t : Ty} (made : shape? fields = .ok t) :
    t = .shape fields ∧ (fields.map (·.key)).Nodup := by
  rw [shape?, shapeOf?] at made
  split at made
  · rename_i checkedFields checked
    obtain rfl := Except.ok.inj made
    obtain ⟨rfl, distinct, _⟩ := checkFields_ok checked
    exact ⟨rfl, distinct⟩
  · contradiction

theorem shape?_regular {fields : List (Field Ty)} {t : Ty} (made : shape? fields = .ok t)
    (each : ∀ f ∈ fields, f.type.Regular) : t.Regular := by
  obtain ⟨rfl, distinct⟩ := shape?_eq_ok made
  exact .shape distinct each

theorem shape?_wellFormed {fields : List (Field Ty)} {t : Ty} (made : shape? fields = .ok t)
    (each : ∀ f ∈ fields, f.type.wellFormed = true) : t.wellFormed = true := by
  obtain ⟨rfl, distinct⟩ := shape?_eq_ok made
  exact (wellFormed_shape_iff fields).mpr ⟨distinct, each⟩

end Conform.Ty
