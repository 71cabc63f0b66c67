import Conform.Proofs.Json.Documents

/-! What a reader of documents gives. A property of documents that containers
inherit from their parts is one of every document that is read, so a document
nests no deeper than its reader allows. A reader that allows more depth reads no
less, which makes the limit exact: the text of a document is read if and only if
the document keeps within it. -/
namespace Conform.Json

section Reading

variable {text : List StringUnit → Bytes} {inner : Reader Json} {P : Json → Prop}

/-- Each step reads one item, and the fuel bounds the steps. -/
theorem items_gives (parts : ∀ {input j rest}, inner input = some (j, rest) → P j) {fuel : Nat}
    {done : List Json} (before : ∀ item ∈ done, P item) {input rest : Bytes} {j : Json}
    (read : items inner fuel done input = some (j, rest)) :
    ∃ list, j = .array list ∧ list.length ≤ done.length + fuel ∧ ∀ item ∈ list, P item := by
  induction fuel generalizing done input with
  | zero => contradiction
  | succ fuel ih =>
    cases items_eq_some_iff.mp read with
    | more first _ others =>
      obtain ⟨list, same, bound, each⟩ :=
        ih (List.forall_mem_cons.mpr ⟨parts first, before⟩) others
      exact ⟨list, same, by rw [List.length_cons] at bound; omega, each⟩
    | last first _ =>
      refine ⟨_, rfl, by simp, fun item member => ?_⟩
      exact List.forall_mem_cons.mpr ⟨parts first, before⟩ item (List.mem_reverse.mp member)

theorem members_gives (parts : ∀ {input j rest}, inner input = some (j, rest) → P j) {fuel : Nat}
    {done : List (Bytes × Json)} (before : ∀ m ∈ done, P m.2) {input rest : Bytes} {j : Json}
    (read : members text inner fuel done input = some (j, rest)) :
    ∃ list, j = .object list ∧ ∀ m ∈ list, P m.2 := by
  induction fuel generalizing done input with
  | zero => contradiction
  | succ fuel ih =>
    cases members_eq_some_iff.mp read with
    | more _ first _ others => exact ih (List.forall_mem_cons.mpr ⟨parts first, before⟩) others
    | @last name value _ _ _ _ first _ =>
      refine ⟨_, rfl, fun m member => ?_⟩
      have further : ∀ m ∈ (text name, value) :: done, P m.2 :=
        List.forall_mem_cons.mpr ⟨parts first, before⟩
      exact further m (List.mem_reverse.mp member)

/-- A document without parts. -/
def isScalar : Json → Bool
  | .array _ => false
  | .object _ => false
  | _ => true

theorem isScalar_of_wordOrNumber {b : UInt8} {after rest : Bytes} {j : Json}
    (read : wordOrNumber b after = some (j, rest)) : j.isScalar = true := by
  have scalar : ∀ {word : Option Bytes} {k : Json}, k.isScalar = true →
      word.map (k, ·) = some (j, rest) → j.isScalar = true := by
    intro word k scalar found
    obtain ⟨_, _, same⟩ := Option.map_eq_some_iff.mp found
    obtain ⟨rfl, _⟩ := Prod.mk.inj same
    exact scalar
  rw [wordOrNumber] at read
  split at read
  · exact scalar rfl read
  · split at read
    · exact scalar rfl read
    · split at read
      · exact scalar rfl read
      · split at read
        · obtain ⟨rfl, _⟩ := Prod.mk.inj (Option.some.inj read)
          rfl
        · contradiction

/-- A property of a document and of the depth it was read with holds once it is inherited
from the parts, which are read with one less. -/
theorem value_gives {P : Nat → Json → Prop} {length : Nat}
    (scalar : ∀ depth j, j.isScalar = true → P depth j)
    (array : ∀ depth list, list.length ≤ length → (∀ item ∈ list, P depth item) →
      P (depth + 1) (.array list))
    (object : ∀ depth list, (∀ m ∈ list, P depth m.2) → P (depth + 1) (.object list))
    {depth : Nat} {input rest : Bytes} {j : Json}
    (read : value text length depth input = some (j, rest)) : P depth j := by
  induction depth using Nat.strongRecOn generalizing input rest j with
  | ind depth ih =>
    cases value_eq_some_iff.mp read with
    | string _ => exact scalar depth _ rfl
    | emptyArray deep _ =>
      subst deep
      exact array _ [] (Nat.zero_le _) (List.forall_mem_nil _)
    | array deep _ _ list =>
      subst deep
      obtain ⟨found, rfl, bound, each⟩ :=
        items_gives (ih _ (Nat.lt_succ_self _)) (List.forall_mem_nil _) list
      exact array _ found (by simpa using bound) each
    | emptyObject deep _ =>
      subst deep
      exact object _ [] (List.forall_mem_nil _)
    | object deep _ _ list =>
      subst deep
      obtain ⟨found, rfl, each⟩ :=
        members_gives (ih _ (Nat.lt_succ_self _)) (List.forall_mem_nil _) list
      exact object _ found each
    | wordOrNumber _ _ _ found => exact scalar depth j (isScalar_of_wordOrNumber found)

/-- What is read nests no deeper than the reader allows. -/
theorem value_depth {length depth : Nat} {input rest : Bytes} {j : Json}
    (read : value text length depth input = some (j, rest)) : j.depth ≤ depth := by
  refine value_gives (P := fun depth j => j.depth ≤ depth) ?_ ?_ ?_ read
  · intro depth j plain
    cases j <;> first | exact Nat.zero_le _ | contradiction
  · intro depth list _ each
    exact Nat.succ_le_succ ((depthItems_le list depth).mpr each)
  · intro depth list each
    exact Nat.succ_le_succ ((depthMembers_le list depth).mpr each)

/-- The second reader reads whatever the first one does. -/
def Extends (inner outer : Reader Json) : Prop := ∀ input r, inner input = some r → outer input = some r

variable {outer : Reader Json}

theorem items_extends (wider : Extends inner outer) (fuel : Nat) (done : List Json) :
    Extends (items inner fuel done) (items outer fuel done) := by
  induction fuel generalizing done with
  | zero => exact fun _ _ read => read
  | succ fuel ih =>
    intro input r read
    refine items_eq_some_iff.mpr ?_
    cases items_eq_some_iff.mp read with
    | more first comma others => exact .more (wider _ _ first) comma (ih _ _ _ others)
    | last first close => exact .last (wider _ _ first) close

theorem members_extends (wider : Extends inner outer) (fuel : Nat) (done : List (Bytes × Json)) :
    Extends (members text inner fuel done) (members text outer fuel done) := by
  induction fuel generalizing done with
  | zero => exact fun _ _ read => read
  | succ fuel ih =>
    intro input r read
    refine members_eq_some_iff.mpr ?_
    cases members_eq_some_iff.mp read with
    | more named first comma others => exact .more named (wider _ _ first) comma (ih _ _ _ others)
    | last named first close => exact .last named (wider _ _ first) close

/-- A reader reads what another one does if the readers of their parts stand so. -/
theorem value_extends_of_parts {length depth more : Nat}
    (parts : ∀ less, depth = less + 1 → ∃ most, more = most + 1 ∧
      Extends (value text length less) (value text length most)) :
    Extends (value text length depth) (value text length more) := by
  intro input r read
  refine value_eq_some_iff.mpr ?_
  cases value_eq_some_iff.mp read with
  | string found => exact .string found
  | emptyArray deep close =>
    obtain ⟨most, deeper, -⟩ := parts _ deep
    exact .emptyArray deeper close
  | array deep next nonempty list =>
    obtain ⟨most, deeper, wider⟩ := parts _ deep
    exact .array deeper next nonempty (items_extends wider _ _ _ _ list)
  | emptyObject deep close =>
    obtain ⟨most, deeper, -⟩ := parts _ deep
    exact .emptyObject deeper close
  | object deep next nonempty list =>
    obtain ⟨most, deeper, wider⟩ := parts _ deep
    exact .object deeper next nonempty (members_extends wider _ _ _ _ list)
  | wordOrNumber noText noArray noObject found => exact .wordOrNumber noText noArray noObject found

/-- More depth reads no less. -/
theorem value_extends (length : Nat) {depth more : Nat} (deeper : depth ≤ more) :
    Extends (value text length depth) (value text length more) := by
  induction depth generalizing more with
  | zero => exact value_extends_of_parts nofun
  | succ depth ih =>
    obtain ⟨most, rfl⟩ := Nat.exists_eq_add_of_le' (Nat.le_trans (Nat.le_add_left 1 _) deeper)
    refine value_extends_of_parts ?_
    rintro _ ⟨⟩
    exact ⟨most, rfl, ih (Nat.le_of_succ_le_succ deeper)⟩

end Reading

theorem depth_repaired (j : Json) : j.repaired.depth = j.depth := by
  induction j using Json.induct with
  | array list ih =>
    rw [repaired, depth, depth, repairedItems_eq]
    congr 1
    induction list with
    | nil => rfl
    | cons item rest more =>
      rw [List.map_cons, depthItems, depthItems, ih item (by simp),
        more fun i member => ih i (by simp [member])]
  | object list ih =>
    rw [repaired, depth, depth, repairedMembers_eq]
    congr 1
    induction list with
    | nil => rfl
    | cons m rest more =>
      rw [List.map_cons, depthMembers, depthMembers, ih m (by simp),
        more fun n member => ih n (by simp [member])]
  | _ => rfl

/-- The text of a document is read only if the document keeps within the limit. -/
theorem depth_le_of_read {j : Json} (sound : j.Sound) {text : List StringUnit → Bytes}
    (same : ∀ s, text (stringUnits s) = Utf8.repaired s) {depth : Nat} {k : Json}
    (read : read? text depth j.write = some k) : j.depth ≤ depth := by
  rw [read?] at read
  split at read
  · rename_i document rest found
    have skipped := skipSpace_write sound []
    rw [List.append_nil] at skipped
    rw [skipped] at found
    have deeper := value_extends j.write.length (Nat.le_max_left depth j.depth) _ _ found
    have written := value_write same sound (Nat.le_refl _) (Nat.le_max_right depth j.depth) []
      (Starts.nil _)
    rw [List.append_nil, deeper] at written
    obtain ⟨rfl, _⟩ := Prod.mk.inj (Option.some.inj written)
    rw [← depth_repaired]
    exact value_depth found
  · contradiction

/-- Stored text that nests too deep holds nothing. -/
theorem depth_le_of_readStored {j k : Json} (sound : j.Sound)
    (read : readStored? j.write = some k) : j.depth ≤ 10000 :=
  depth_le_of_read sound (fun s => by rw [pairedText_stringUnits, Utf8.repaired_repaired]) read

end Conform.Json
