import Conform.Compile
import Conform.Proofs.Json.Reading
import Conform.Proofs.Program.Nesting

/-! Compiling a type and loading what comes out. The artifact of a type loads
exactly when the signature is well-formed UTF-8, and the loaded validator then
is the type: it has its signature, and it accepts and converts the same values
with the same errors. A signature that is not well-formed is not the one that
the stored program has, so loading refuses it. -/
namespace Conform

theorem ArtifactError.report_code (e : ArtifactError) : e.report.code? = some .invalidArtifact := rfl

/-- What it takes for an artifact to load. -/
theorem Artifact.load_eq_ok_iff (a : Artifact) (v : Validator) : a.load = .ok v ↔
    a.format = Artifact.programFormat ∧ ∃ p root plan, Program.read? a.source = some p ∧
      p.signature = a.signature ∧ p.root = some root ∧ root.plan = .ok plan ∧
      v = ⟨a.signature, plan⟩ := by
  rw [Artifact.load]
  generalize Program.read? a.source = read
  constructor
  · intro loaded
    split at loaded
    · contradiction
    · rename_i format
      split at loaded
      · contradiction
      · rename_i p
        split at loaded
        · contradiction
        · rename_i same
          split at loaded
          · contradiction
          · rename_i root found
            split at loaded
            · rename_i plan planned
              have same := Decidable.not_not.mp same
              refine ⟨Decidable.not_not.mp format, p, root, plan, rfl, same, found, planned, ?_⟩
              rw [← same]
              exact (Except.ok.inj loaded).symm
            · contradiction
  · rintro ⟨format, p, root, plan, rfl, same, found, planned, rfl⟩
    simp only [format, same, found, planned, ne_eq, not_true_eq_false, if_false]

theorem Artifact.signature_of_load {a : Artifact} {v : Validator} (loaded : a.load = .ok v) :
    v.signature = a.signature := by
  obtain ⟨_, _, _, _, _, _, _, _, rfl⟩ := (Artifact.load_eq_ok_iff _ v).mp loaded
  rfl

namespace Ty

/-- The artifact of a type of the algebra's variants. -/
def artifact (t : Ty) : Artifact := .ofProgram ⟨t.signature, some t.tree⟩

theorem compile_of_known {t : Ty} (known : t.known = true) : t.compile .program = .ok t.artifact := by
  simp only [compile, program, node_of_known known, artifact]

theorem stored_shallow {t : Ty} (known : t.known = true) (shallow : t.nesting < 10000) :
    t.tree.toJson.depth < 10000 := by
  rw [tree_depth known]
  exact shallow

/-- An artifact of well-formed text loads as the plan of its type. -/
theorem load_artifact {t : Ty} (regular : t.Regular) (shallow : t.nesting < 10000)
    (valid : Utf8.valid t.signature = true) : t.artifact.load = .ok ⟨t.signature, t.plan⟩ := by
  have legible : t.legible = true := (valid_render .signature regular.known).symm.trans valid
  have read := Program.read?_source (stored_shallow regular.known shallow) valid
    (tree_readable regular.known legible)
  exact (Artifact.load_eq_ok_iff _ _).mpr
    ⟨rfl, _, t.tree, t.plan, read, rfl, rfl, tree_plan regular, rfl⟩

/-- Whatever else a stored program holds, its signature is well-formed. -/
theorem valid_of_load {t : Ty} (regular : t.Regular) (shallow : t.nesting < 10000) {v : Validator}
    (loaded : t.artifact.load = .ok v) : Utf8.valid t.signature = true := by
  obtain ⟨_, p, _, _, read, same, _⟩ := (Artifact.load_eq_ok_iff _ v).mp loaded
  have signature := Program.read?_signature (stored_shallow regular.known shallow) read
  exact (Utf8.repaired_eq_iff t.signature).mp (signature.symm.trans same)

/-- A stored program that is read keeps within the limit of stored documents. -/
theorem shallow_of_load {t : Ty} (known : t.known = true) {v : Validator}
    (loaded : t.artifact.load = .ok v) : t.nesting < 10000 := by
  obtain ⟨_, p, _, _, read, _⟩ := (Artifact.load_eq_ok_iff _ v).mp loaded
  have source : t.artifact.source = (Program.toJson ⟨t.signature, some t.tree⟩).write := rfl
  rw [source, Program.read?] at read
  cases stored : Json.readStored? (Program.toJson ⟨t.signature, some t.tree⟩).write with
  | none => simp only [stored, reduceCtorEq] at read
  | some k =>
    have depth := Json.depth_le_of_readStored (Program.toJson_sound t.signature t.tree) stored
    rw [Program.toJson_depth, tree_depth known] at depth
    omega

theorem signature_of_load {t : Ty} {v : Validator} (loaded : t.artifact.load = .ok v) :
    v.signature = t.signature :=
  Artifact.signature_of_load loaded

/-- When the artifact of a type loads, and as what. -/
theorem load_artifact_iff {t : Ty} (regular : t.Regular) (v : Validator) :
    t.artifact.load = .ok v ↔
      (Utf8.valid t.signature = true ∧ t.nesting < 10000) ∧ v = ⟨t.signature, t.plan⟩ := by
  constructor
  · intro loaded
    have shallow := shallow_of_load regular.known loaded
    have valid := valid_of_load regular shallow loaded
    refine ⟨⟨valid, shallow⟩, ?_⟩
    exact Except.ok.inj (loaded.symm.trans (load_artifact regular shallow valid))
  · rintro ⟨⟨valid, shallow⟩, rfl⟩
    exact load_artifact regular shallow valid

/-- A compiled type loads exactly when its signature is well-formed UTF-8, and
then behaves as the type does. Types that nest beyond the limit of stored
documents are left aside. -/
theorem compile_load_faithful {t : Ty} (regular : t.Regular) (shallow : t.nesting < 10000) :
    ∃ a, t.compile .program = .ok a ∧
      ((∃ v, a.load = .ok v) ↔ Utf8.valid t.signature = true) ∧
      (∀ e, a.load = .error e → e.report.code? = some .invalidArtifact) ∧
      ∀ v, a.load = .ok v → v.signature = t.signature ∧
        ∀ x, v.accepts x = t.accepts x ∧ v.cast x = t.cast x := by
  refine ⟨t.artifact, compile_of_known regular.known, ⟨?_, ?_⟩, ?_, ?_⟩
  · rintro ⟨v, loaded⟩
    exact valid_of_load regular shallow loaded
  · intro valid
    exact ⟨_, load_artifact regular shallow valid⟩
  · intro e _
    exact e.report_code
  · intro v loaded
    have valid := valid_of_load regular shallow loaded
    obtain rfl := Except.ok.inj ((load_artifact regular shallow valid).symm.trans loaded)
    refine ⟨rfl, fun x => ⟨?_, ?_⟩⟩
    · rw [Validator.accepts, plan_accepts]
    · rw [Validator.cast, plan_cast]

/-- A union of an empty literal, an empty shape and a shape whose only key is empty. -/
theorem compile_load_empty_texts :
    let t : Ty := .union [.stringLit [] .double, .shape [], .shape [⟨[], true, .list .mixed⟩]]
    t.Regular ∧ t.nesting < 10000 ∧
      ∃ a v, t.compile .program = .ok a ∧ a.load = .ok v ∧ v.signature = t.signature := by
  intro t
  have regular : t.Regular := ⟨rfl, rfl⟩
  have shallow : t.nesting < 10000 := by decide
  obtain ⟨a, compiled, loads, _, same⟩ := compile_load_faithful regular shallow
  obtain ⟨v, loaded⟩ := loads.mpr ((valid_render .signature regular.known).trans rfl)
  exact ⟨regular, shallow, a, v, compiled, loaded, (same v loaded).1⟩

end Ty

end Conform
