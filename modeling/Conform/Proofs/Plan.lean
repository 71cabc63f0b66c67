import Conform.Plan
import Conform.Proofs.Ty.CastErrors
import Conform.Proofs.Ty.Encoding

/-! What can be said of every plan, wherever it was loaded from: its conversions fail
with the library's own errors, and what they make of a decoded value can be sent,
floats aside. -/
namespace Conform.Plan

/-- A property holds of every plan once it is inherited from the parts. -/
@[elab_as_elim]
theorem induct {P : Plan → Prop} (leaf : ∀ t, P (.leaf t))
    (union : ∀ expected members, (∀ m ∈ members, P m) → P (.union expected members))
    (array : ∀ expected key value, P value → P (.array expected key value))
    (list : ∀ expected value, P value → P (.list expected value))
    (shape : ∀ expected (fields : List (Field Plan)), (∀ f ∈ fields, P f.type) →
      P (.shape expected fields)) (p : Plan) : P p := by
  refine @Plan.rec P (fun members => ∀ m ∈ members, P m) (fun fields => ∀ f ∈ fields, P f.type)
    (fun f => P f.type) leaf union array list shape nofun ?_ nofun ?_ ?_ p
  · intro first rest hfirst hrest
    exact List.forall_mem_cons.mpr ⟨hfirst, hrest⟩
  · intro first rest hfirst hrest
    exact List.forall_mem_cons.mpr ⟨hfirst, hrest⟩
  · intro key optional type htype
    exact htype

theorem mem_fieldCasts {fields : List (Field Plan)} {c : Field Conversion}
    (member : c ∈ fieldCasts fields) : ∃ f ∈ fields, c.type = f.type.cast := by
  induction fields with
  | nil => contradiction
  | cons f rest ih =>
    rcases List.mem_cons.mp member with rfl | member
    · exact ⟨f, List.mem_cons_self, rfl⟩
    · obtain ⟨g, inside, same⟩ := ih member
      exact ⟨g, List.mem_cons_of_mem f inside, same⟩

theorem castFirst_eq_ok {members : List Plan} {v w : Value} (result : castFirst members v = .ok w) :
    ∃ m ∈ members, m.cast v = .ok w := by
  induction members with
  | nil => contradiction
  | cons p rest ih =>
    rw [castFirst] at result
    split at result
    · rename_i converted
      obtain rfl := Except.ok.inj result
      exact ⟨p, List.mem_cons_self, converted⟩
    · split at result
      · rename_i found
        obtain ⟨m, member, converted⟩ := ih (found.trans result)
        exact ⟨m, List.mem_cons_of_mem p member, converted⟩
      · contradiction

theorem cast_native (p : Plan) (v : Value) : FailsNatively (p.cast v) := by
  induction p using Plan.induct generalizing v with
  | leaf t => exact t.cast_native v
  | union expected members ih =>
    rw [cast]
    split
    · exact .ok _
    · exact .error (.noMember _ _ _)
  | array expected key value ih => exact castArray_native ih key.cast_native _ v
  | list expected value ih => exact castList_native ih _ v
  | shape expected fields ih =>
    refine castShape_native ?_ _ v
    intro c member
    obtain ⟨f, inside, same⟩ := mem_fieldCasts member
    rw [same]
    exact ih f inside

theorem cast_orderly (p : Plan) : GivesOrderly p.cast := by
  induction p using Plan.induct with
  | leaf t => exact t.cast_orderly
  | union expected members ih =>
    intro bound v w decoded result
    rw [cast] at result
    split at result
    · rename_i found
      obtain rfl := Except.ok.inj result
      obtain ⟨m, member, converted⟩ := castFirst_eq_ok found
      exact ih m member decoded converted
    · contradiction
  | array expected key value ih => exact castArray_orderly key ih _
  | list expected value ih => exact castList_orderly ih _
  | shape expected fields ih =>
    refine castShape_orderly ?_ _
    intro c member
    obtain ⟨f, inside, same⟩ := mem_fieldCasts member
    rw [same]
    exact ih f inside

end Conform.Plan
