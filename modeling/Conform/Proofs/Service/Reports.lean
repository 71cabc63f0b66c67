import Conform.Engine
import Conform.Proofs.Ty.CastErrors
import Conform.Proofs.Value.Encoding
import Conform.Service.Query

/-! What errors explain themselves with. The details of every error have names that
differ and plain values, so that they can be sent, unless one of them is an infinity or
not-a-number; and only the errors of conversions can name one of those. -/
namespace Conform

theorem Value.orderly_of_isPlain {v : Value} (plain : v.isPlain = true) : v.orderly = true := by
  cases v with
  | bool | int | double | text => rfl
  | _ => contradiction

/-! ### Details -/

namespace Details

/-- What an error explains itself with: names that differ, and plain values. -/
structure Simple (details : Details) : Prop where
  distinct : (details.map (·.1)).Nodup
  plain : ∀ d ∈ details, d.2.isPlain = true

/-- No detail is an infinity or not-a-number. -/
def finite (details : Details) : Bool := details.all fun d => d.2.finite

/-- The details as the value that is sent. -/
def value (details : Details) : Value :=
  .map .text (details.map fun (name, value) => (.text name, value))

theorem Simple.nil : Simple [] := ⟨List.nodup_nil, nofun⟩

theorem Simple.one (name : Bytes) {v : Value} (plain : v.isPlain = true) : Simple [(name, v)] :=
  ⟨List.nodup_singleton _, List.forall_mem_singleton.mpr plain⟩

theorem Simple.two {name other : Bytes} (differ : name ≠ other) {v w : Value}
    (first : v.isPlain = true) (second : w.isPlain = true) : Simple [(name, v), (other, w)] :=
  ⟨List.nodup_cons.mpr ⟨by simpa using differ, List.nodup_singleton _⟩,
    List.forall_mem_cons.mpr ⟨first, List.forall_mem_singleton.mpr second⟩⟩

theorem mem_set {key : Bytes} {v : Value} {details : Details} {d : Bytes × Value}
    (member : d ∈ details.set key v) : d = (key, v) ∨ d ∈ details := by
  induction details with
  | nil => exact .inl (List.mem_singleton.mp member)
  | cons first rest ih =>
    rw [set] at member
    split at member
    · exact (List.mem_cons.mp member).imp_right (List.mem_cons_of_mem _)
    · rcases List.mem_cons.mp member with rfl | member
      · exact .inr List.mem_cons_self
      · exact (ih member).imp_right (List.mem_cons_of_mem _)

theorem Simple.set {details : Details} (simple : details.Simple) (key : Bytes) {v : Value}
    (plain : v.isPlain = true) : (details.set key v).Simple := by
  refine ⟨?_, ?_⟩
  · induction details with
    | nil => exact List.nodup_singleton _
    | cons first rest ih =>
      obtain ⟨fresh, distinct⟩ := List.nodup_cons.mp simple.distinct
      rw [Details.set]
      split
      · rename_i same
        subst same
        exact List.nodup_cons.mpr ⟨fresh, distinct⟩
      · rename_i other
        have inner := ih ⟨distinct, fun d member => simple.plain d (List.mem_cons_of_mem _ member)⟩
        refine List.nodup_cons.mpr ⟨?_, inner⟩
        intro again
        obtain ⟨d, member, same⟩ := List.mem_map.mp again
        rcases mem_set member with rfl | member
        · exact other same.symm
        · exact fresh (List.mem_map.mpr ⟨d, member, same⟩)
  · intro d member
    rcases mem_set member with rfl | member
    · exact plain
    · exact simple.plain d member

theorem finite_set {details : Details} (finite : details.finite = true) (key : Bytes) {v : Value}
    (value : v.finite = true) : (details.set key v).finite = true := by
  apply List.all_eq_true.mpr
  intro d member
  rcases mem_set member with rfl | member
  · exact value
  · exact List.all_eq_true.mp finite d member

theorem Simple.orderly {details : Details} (simple : details.Simple) :
    details.value.orderly = true := by
  apply (Value.orderly_map_iff _ _).mpr
  refine ⟨.inl rfl, ?_, ?_, ?_⟩
  · intro p member
    obtain ⟨d, _, rfl⟩ := List.mem_map.mp member
    rfl
  · have texts : Value.pairTexts (details.map fun (name, value) => (.text name, value)) =
        details.map (·.1) := by
      rw [Value.pairTexts, List.map_map]
      rfl
    rw [texts]
    exact simple.distinct
  · intro p member
    obtain ⟨d, inside, rfl⟩ := List.mem_map.mp member
    exact ⟨rfl, Value.orderly_of_isPlain (simple.plain d inside)⟩

theorem value_finite (details : Details) : details.value.finite = details.finite := by
  apply Bool.eq_iff_iff.mpr
  rw [value, Value.finite, Value.every_map_iff, finite, List.all_eq_true]
  constructor
  · intro ⟨_, each⟩ d member
    exact (each _ (List.mem_map.mpr ⟨d, member, rfl⟩)).2
  · intro each
    refine ⟨rfl, ?_⟩
    intro p member
    obtain ⟨d, inside, rfl⟩ := List.mem_map.mp member
    exact ⟨rfl, each d inside⟩

end Details

/-! ### Errors -/

/-- A report that is always sent whole. -/
structure Report.Whole (r : Report) : Prop where
  simple : r.details.Simple
  finite : r.details.finite = true

theorem DeclarationError.report_whole (e : Declaration.DeclarationError) : e.report.Whole := by
  cases e with
  | type => exact ⟨.nil, rfl⟩
  | unexpectedToken => exact ⟨.two (by decide) rfl rfl, rfl⟩
  | _ => exact ⟨.one _ rfl, rfl⟩

theorem ArtifactError.report_whole (e : ArtifactError) : e.report.Whole := by
  cases e with
  | format | corrupted | otherSignature | unknownOperation | literal => exact ⟨.one _ rfl, rfl⟩
  | _ => exact ⟨.nil, rfl⟩

theorem CompileError.report_whole (e : CompileError) : e.report.Whole := by
  cases e with
  | unsupported => exact ⟨.one _ rfl, rfl⟩
  | unprintable => exact ⟨.nil, rfl⟩

theorem Problems.details_whole {ρ : Type} (text : ρ → Bytes) (p : Problems ρ) :
    (p.details text).Simple ∧ (p.details text).finite = true := by
  -- by induction on the problems, over the details that are already set
  have after (list : List (Bytes × ρ)) (done : Details) (simple : done.Simple)
      (finite : done.finite = true) :
      let all : Details :=
        list.foldl (fun acc p => Details.set p.1 (.text (text p.2)) acc) done
      all.Simple ∧ all.finite = true := by
    induction list generalizing done with
    | nil => exact ⟨simple, finite⟩
    | cons first rest ih =>
      exact ih _ (simple.set first.1 rfl) (Details.finite_set finite first.1 rfl)
  exact after p.list [] .nil rfl

theorem QueryError.report_whole (e : Service.QueryError) : e.report.Whole := by
  cases e with
  | flag => exact ⟨.nil, rfl⟩
  | invalid problems =>
    obtain ⟨simple, finite⟩ := Problems.details_whole Service.QueryRule.message problems
    exact ⟨simple, finite⟩

theorem CastError.element_details (key : Bytes) (e : CastError) :
    (CastError.element key e).report.details = e.report.details := by
  rw [CastError.report]
  cases e.report <;> rfl

/-- The errors of conversions can be sent unless they name an infinity. -/
theorem CastError.Native.report_simple {e : CastError} (native : e.Native) :
    e.report.details.Simple := by
  induction native with
  | wrongKind | notContainer | noMember => exact .two (by decide) rfl rfl
  | differs plain => exact .two (by decide) plain rfl
  | missing | unexpected => exact .one _ rfl
  | element key _ ih =>
    rw [CastError.element_details]
    exact ih

end Conform
