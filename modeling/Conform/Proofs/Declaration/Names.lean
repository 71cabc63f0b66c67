import Conform.Proofs.Declaration.Completeness
import Conform.Proofs.Declaration.Regular

/-! What a declaration has to do with the names it uses. It denotes a type only
if each of its names does, and what it denotes does not change when more names
are known. So a set of names can grow while declarations are read with it. -/
namespace Conform.Declaration

/-! ### Sets of names -/

namespace Aliases

theorem find?_append (first second : Aliases) (name : Bytes) :
    (first ++ second : Aliases).find? name = (first.find? name).or (second.find? name) := by
  induction first with
  | nil => rfl
  | cons a rest ih =>
    rw [List.cons_append, Aliases.find?, Aliases.find?]
    split
    · rfl
    · exact ih

theorem mem_of_find? {aliases : Aliases} {name : Bytes} {t : Ty}
    (found : aliases.find? name = some t) : (name, t) ∈ aliases := by
  induction aliases with
  | nil => contradiction
  | cons a rest ih =>
    rw [Aliases.find?] at found
    split at found
    · rename_i same
      obtain rfl := Option.some.inj found
      exact List.mem_cons.mpr (.inl (by rw [← same]))
    · exact List.mem_cons_of_mem a (ih found)

theorem find?_eq_none_iff {aliases : Aliases} {name : Bytes} :
    aliases.find? name = none ↔ name ∉ aliases.map Prod.fst := by
  induction aliases with
  | nil => simp [Aliases.find?]
  | cons a rest ih =>
    rw [Aliases.find?, List.map_cons, List.mem_cons, not_or, ← ih]
    split
    · rename_i same
      exact ⟨fun none => absurd none (Option.some_ne_none _),
        fun absent => absurd same.symm absent.1⟩
    · rename_i other
      exact ⟨fun absent => ⟨Ne.symm other, absent⟩, And.right⟩

theorem exists_of_mem_names {aliases : Aliases} {name : Bytes}
    (member : name ∈ aliases.map Prod.fst) : ∃ t, aliases.find? name = some t := by
  cases found : aliases.find? name with
  | none => exact absurd member (find?_eq_none_iff.mp found)
  | some t => exact ⟨t, rfl⟩

/-- What the second set of names knows, the first one knows alike. -/
def Extends (more aliases : Aliases) : Prop :=
  ∀ name t, aliases.find? name = some t → more.find? name = some t

theorem extends_append (known more : Aliases) : (known ++ more : Aliases).Extends known := by
  intro name t found
  rw [find?_append, found]
  rfl

theorem Regular.ne_empty {aliases : Aliases} (regular : aliases.Regular) (name : Bytes) (t : Ty)
    (found : aliases.find? name = some t) : t ≠ .union [] :=
  Aliases.ne_empty (fun a member => (regular a member).wellFormed) name t found

end Aliases

/-! ### Denotations of parts -/

section Parts

variable {aliases : Aliases} {u : Ty}

/-- The type of a union of one member or more. -/
def unionType? (t : Ty) : List Ty → Option Ty
  | [] => some t
  | types => joined? (t :: types)

theorem UnionTree.type?_eq_some {first : NullableTree} {rest : List NullableTree} :
    (UnionTree.mk first rest).type? aliases = some u ↔ ∃ t types, first.type? aliases = some t ∧
      memberTypes? aliases rest = some types ∧ unionType? t types = some u := by
  rw [UnionTree.type?]
  cases first.type? aliases with
  | none => simp
  | some t =>
    rcases memberTypes? aliases rest with _ | _ | _ <;> simp [unionType?]

theorem NullableTree.type?_eq_some {question : Bool} {body : SuffixedTree} :
    (NullableTree.mk question body).type? aliases = some u ↔ ∃ t, body.type? aliases = some t ∧
      (if question then joined? [.null, t] else some t) = some u := by
  rw [NullableTree.type?]
  cases body.type? aliases <;> simp

theorem ArgumentsTree.type?_keyed_eq_some {key value : UnionTree} :
    (ArgumentsTree.keyed key value).type? aliases = some u ↔ ∃ k v kind,
      key.type? aliases = some k ∧ value.type? aliases = some v ∧ keyKind? k = .ok kind ∧
        .array kind v = u := by
  rw [ArgumentsTree.type?]
  cases key.type? aliases with
  | none => simp
  | some k =>
    cases value.type? aliases with
    | none => simp
    | some v => cases found : keyKind? k <;> simp [found, Except.toOption]

theorem ArgumentsTree.type?_shape_eq_some {first : ElementTree} {rest : List ElementTree}
    {trailing : Bool} : (ArgumentsTree.shape first rest trailing).type? aliases = some u ↔
      ∃ fields, fields? aliases 0 (first :: rest) = some fields ∧ shapeOf? fields = some u := by
  rw [ArgumentsTree.type?_shape, Option.bind_eq_some_iff]

theorem memberTypes?_cons_eq_some {m : NullableTree} {rest : List NullableTree} {types : List Ty} :
    memberTypes? aliases (m :: rest) = some types ↔ ∃ t others, m.type? aliases = some t ∧
      memberTypes? aliases rest = some others ∧ t :: others = types := by
  rw [memberTypes?]
  cases m.type? aliases with
  | none => simp
  | some t => cases memberTypes? aliases rest <;> simp

theorem fields?_cons_eq_some {index : Nat} {e : ElementTree} {rest : List ElementTree}
    {fields : List (Field Ty)} : fields? aliases index (e :: rest) = some fields ↔ ∃ t others,
      e.type? aliases = some t ∧ fields? aliases (nextIndex index e.key) rest = some others ∧
        ⟨fieldText index e.key, fieldOptional e.key, t⟩ :: others = fields := by
  rw [fields?]
  cases e.type? aliases with
  | none => simp
  | some t => cases fields? aliases (nextIndex index e.key) rest <;> simp

end Parts

/-! ### More names -/

section Growth

variable {aliases more : Aliases}

theorem nameType?_mono (extended : more.Extends aliases) {name : Bytes} {t : Ty}
    (denotes : nameType? aliases name = some t) : nameType? more name = some t := by
  rw [nameType?] at denotes ⊢
  cases found : keyword? name with
  | none =>
    rw [found] at denotes
    exact extended name t denotes
  | some word =>
    rw [found] at denotes
    cases word <;> exact denotes

mutual

/-- A tree keeps what it denotes when more names are known. -/
theorem UnionTree.type?_mono (extended : more.Extends aliases) : ∀ (tree : UnionTree) {t : Ty},
    tree.type? aliases = some t → tree.type? more = some t
  | .mk first rest, t, denotes => by
    obtain ⟨s, types, head, others, joined⟩ := UnionTree.type?_eq_some.mp denotes
    exact UnionTree.type?_eq_some.mpr
      ⟨s, types, first.type?_mono extended head, memberTypes?_mono extended rest others, joined⟩

theorem NullableTree.type?_mono (extended : more.Extends aliases) : ∀ (tree : NullableTree)
    {t : Ty}, tree.type? aliases = some t → tree.type? more = some t
  | .mk question (.mk atom pairs), t, denotes => by
    obtain ⟨s, body, made⟩ := NullableTree.type?_eq_some.mp denotes
    refine NullableTree.type?_eq_some.mpr ⟨s, ?_, made⟩
    obtain ⟨inside, typed, arrays⟩ := Option.map_eq_some_iff.mp body
    exact Option.map_eq_some_iff.mpr ⟨inside, atom.type?_mono extended typed, arrays⟩

theorem AtomTree.type?_mono (extended : more.Extends aliases) : ∀ (tree : AtomTree) {t : Ty},
    tree.type? aliases = some t → tree.type? more = some t
  | .integer _, _, denotes | .float _, _, denotes | .string _ _, _, denotes
  | .list _, _, denotes => denotes
  | .name _, _, denotes => nameType?_mono extended denotes
  | .array _ arguments, _, denotes => arguments.type?_mono extended denotes
  | .listOf _ value, _, denotes => by
    obtain ⟨inside, typed, made⟩ := Option.map_eq_some_iff.mp denotes
    exact Option.map_eq_some_iff.mpr ⟨inside, value.type?_mono extended typed, made⟩

theorem ArgumentsTree.type?_mono (extended : more.Extends aliases) : ∀ (tree : ArgumentsTree)
    {t : Ty}, tree.type? aliases = some t → tree.type? more = some t
  | .none, _, denotes | .emptyShape, _, denotes => denotes
  | .value value, _, denotes => by
    obtain ⟨inside, typed, made⟩ := Option.map_eq_some_iff.mp denotes
    exact Option.map_eq_some_iff.mpr ⟨inside, value.type?_mono extended typed, made⟩
  | .keyed key value, _, denotes => by
    obtain ⟨k, v, kind, first, second, made⟩ := ArgumentsTree.type?_keyed_eq_some.mp denotes
    exact ArgumentsTree.type?_keyed_eq_some.mpr
      ⟨k, v, kind, key.type?_mono extended first, value.type?_mono extended second, made⟩
  | .shape (.mk key type) rest trailing, _, denotes => by
    obtain ⟨fields, typed, made⟩ := ArgumentsTree.type?_shape_eq_some.mp denotes
    obtain ⟨t, others, head, tail, same⟩ := fields?_cons_eq_some.mp typed
    exact ArgumentsTree.type?_shape_eq_some.mpr ⟨fields, fields?_cons_eq_some.mpr
      ⟨t, others, type.type?_mono extended head, fields?_mono extended rest tail, same⟩, made⟩

theorem memberTypes?_mono (extended : more.Extends aliases) : ∀ (ms : List NullableTree)
    {types : List Ty}, memberTypes? aliases ms = some types → memberTypes? more ms = some types
  | [], _, denotes => denotes
  | m :: rest, _, denotes => by
    obtain ⟨t, others, head, tail, same⟩ := memberTypes?_cons_eq_some.mp denotes
    exact memberTypes?_cons_eq_some.mpr
      ⟨t, others, m.type?_mono extended head, memberTypes?_mono extended rest tail, same⟩

theorem fields?_mono (extended : more.Extends aliases) : ∀ (es : List ElementTree) {index : Nat}
    {fields : List (Field Ty)}, fields? aliases index es = some fields →
      fields? more index es = some fields
  | [], _, _, denotes => denotes
  | .mk key type :: rest, _, _, denotes => by
    obtain ⟨t, others, head, tail, same⟩ := fields?_cons_eq_some.mp denotes
    exact fields?_cons_eq_some.mpr
      ⟨t, others, type.type?_mono extended head, fields?_mono extended rest tail, same⟩

end

/-- A declaration that can be read keeps its meaning when more names are known. -/
theorem parse_mono (extended : more.Extends aliases) (regular : more.Regular) {source : Bytes}
    {t : Ty} (read : parse aliases source = .ok t) : parse more source = .ok t := by
  have known := regular.ne_empty
  obtain ⟨tree, derives, denotes⟩ :=
    (parse_eq_ok_iff (fun name t found => known name t (extended name t found)) source t).mp read
  exact (parse_eq_ok_iff known source t).mpr
    ⟨tree, derives, UnionTree.type?_mono extended tree denotes⟩

end Growth

/-! ### Names that are used -/

mutual

/-- The names that stand for types in a tree. The keys of shapes are not among them. -/
def UnionTree.names : UnionTree → List Bytes
  | .mk first rest => first.names ++ memberNames rest

def NullableTree.names : NullableTree → List Bytes
  | .mk _ body => body.names

def SuffixedTree.names : SuffixedTree → List Bytes
  | .mk atom _ => atom.names

def AtomTree.names : AtomTree → List Bytes
  | .name word => [word.val]
  | .array _ arguments => arguments.names
  | .listOf _ value => value.names
  | _ => []

def ArgumentsTree.names : ArgumentsTree → List Bytes
  | .value value => value.names
  | .keyed key value => key.names ++ value.names
  | .shape first rest _ => first.names ++ elementNames rest
  | _ => []

def ElementTree.names : ElementTree → List Bytes
  | .mk _ type => type.names

def memberNames : List NullableTree → List Bytes
  | [] => []
  | m :: rest => m.names ++ memberNames rest

def elementNames : List ElementTree → List Bytes
  | [] => []
  | e :: rest => e.names ++ elementNames rest

end

section Use

variable {aliases : Aliases}

/-- The name stands for a type. -/
def Known (aliases : Aliases) (name : Bytes) : Prop := ∃ t, nameType? aliases name = some t

mutual

/-- A tree that denotes a type uses only names that do. -/
theorem UnionTree.names_known : ∀ (tree : UnionTree) {t : Ty}, tree.type? aliases = some t →
    ∀ name ∈ tree.names, Known aliases name
  | .mk first rest, _, denotes => by
    obtain ⟨_, _, head, others, _⟩ := UnionTree.type?_eq_some.mp denotes
    exact List.forall_mem_append.mpr ⟨first.names_known head, memberNames_known rest others⟩

theorem NullableTree.names_known : ∀ (tree : NullableTree) {t : Ty},
    tree.type? aliases = some t → ∀ name ∈ tree.names, Known aliases name
  | .mk question (.mk atom pairs), _, denotes => by
    obtain ⟨_, body, _⟩ := NullableTree.type?_eq_some.mp denotes
    obtain ⟨_, typed, _⟩ := Option.map_eq_some_iff.mp body
    exact atom.names_known typed

theorem AtomTree.names_known : ∀ (tree : AtomTree) {t : Ty}, tree.type? aliases = some t →
    ∀ name ∈ tree.names, Known aliases name
  | .integer _, _, _ | .float _, _, _ | .string _ _, _, _ | .list _, _, _ => nofun
  | .name word, t, denotes => List.forall_mem_singleton.mpr ⟨t, denotes⟩
  | .array _ arguments, _, denotes => arguments.names_known denotes
  | .listOf _ value, _, denotes => by
    obtain ⟨_, typed, _⟩ := Option.map_eq_some_iff.mp denotes
    exact value.names_known typed

theorem ArgumentsTree.names_known : ∀ (tree : ArgumentsTree) {t : Ty},
    tree.type? aliases = some t → ∀ name ∈ tree.names, Known aliases name
  | .none, _, _ | .emptyShape, _, _ => nofun
  | .value value, _, denotes => by
    obtain ⟨_, typed, _⟩ := Option.map_eq_some_iff.mp denotes
    exact value.names_known typed
  | .keyed key value, _, denotes => by
    obtain ⟨_, _, _, first, second, _⟩ := ArgumentsTree.type?_keyed_eq_some.mp denotes
    exact List.forall_mem_append.mpr ⟨key.names_known first, value.names_known second⟩
  | .shape (.mk key type) rest trailing, _, denotes => by
    obtain ⟨_, typed, _⟩ := ArgumentsTree.type?_shape_eq_some.mp denotes
    obtain ⟨_, _, head, tail, _⟩ := fields?_cons_eq_some.mp typed
    exact List.forall_mem_append.mpr ⟨type.names_known head, elementNames_known rest tail⟩

theorem memberNames_known : ∀ (ms : List NullableTree) {types : List Ty},
    memberTypes? aliases ms = some types → ∀ name ∈ memberNames ms, Known aliases name
  | [], _, _ => nofun
  | m :: rest, _, denotes => by
    obtain ⟨_, _, head, tail, _⟩ := memberTypes?_cons_eq_some.mp denotes
    exact List.forall_mem_append.mpr ⟨m.names_known head, memberNames_known rest tail⟩

theorem elementNames_known : ∀ (es : List ElementTree) {index : Nat} {fields : List (Field Ty)},
    fields? aliases index es = some fields → ∀ name ∈ elementNames es, Known aliases name
  | [], _, _, _ => nofun
  | .mk key type :: rest, _, _, denotes => by
    obtain ⟨_, _, head, tail, _⟩ := fields?_cons_eq_some.mp denotes
    exact List.forall_mem_append.mpr ⟨type.names_known head, elementNames_known rest tail⟩

end

/-- A text has one derivation at most. -/
theorem Derives.unique {source : Bytes} {tree tree' : UnionTree} (one : Derives source tree)
    (other : Derives source tree') : tree = tree' := by
  obtain ⟨tokens, scanned, same⟩ := one
  obtain ⟨tokens', scanned', same'⟩ := other
  obtain rfl := Except.ok.inj (scanned.symm.trans scanned')
  exact (tree.cancels tree' _ _ (same.symm.trans same') (.eof []) (.eof [])).1

/-- A text denotes what its derivation denotes. -/
theorem Derives.parse_eq_ok_iff (known : ∀ name t, aliases.find? name = some t → t ≠ .union [])
    {source : Bytes} {tree : UnionTree} (derives : Derives source tree) {t : Ty} :
    parse aliases source = .ok t ↔ tree.type? aliases = some t := by
  rw [Declaration.parse_eq_ok_iff known]
  constructor
  · rintro ⟨tree', other, denotes⟩
    rw [derives.unique other]
    exact denotes
  · intro denotes
    exact ⟨tree, derives, denotes⟩

/-- A declaration can be read only if the names in it that are not built in are known. -/
theorem names_of_parse (regular : aliases.Regular) {source name : Bytes} {t : Ty}
    {tree : UnionTree} (read : parse aliases source = .ok t) (derives : Derives source tree)
    (used : name ∈ tree.names) (free : keyword? name = none) : name ∈ aliases.map Prod.fst := by
  obtain ⟨tree', derives', denotes⟩ := (parse_eq_ok_iff regular.ne_empty source t).mp read
  obtain rfl := derives.unique derives'
  obtain ⟨u, known⟩ := tree.names_known denotes name used
  rw [nameType?, free] at known
  exact List.mem_map_of_mem (Aliases.mem_of_find? known)

end Use

end Conform.Declaration
