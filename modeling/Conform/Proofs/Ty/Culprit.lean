import Conform.Proofs.Ty.CastErrors
import Conform.Proofs.Value.Order

/-! Where a conversion fails. Each container converts its elements one after the other
and stops at the first that fails, so an error of elements spells out the way to one
value or key inside: everything that comes before it on the way can be converted, and
its own conversion fails for a reason that is not about an element. The code, the
details, the message and the causes of the error are those of that reason, seen through
the keys on the way. -/
namespace Conform

/-! ### The first failure of a traversal -/

/-- Some element fails with the error, and every element before it passes. -/
inductive FirstFault {α : Type} (passes : α → Prop) (fails : α → CastError → Prop) :
    List α → CastError → Prop
  | head {x : α} {rest : List α} {fault : CastError} : fails x fault →
      FirstFault passes fails (x :: rest) fault
  | tail {x : α} {rest : List α} {fault : CastError} : passes x →
      FirstFault passes fails rest fault → FirstFault passes fails (x :: rest) fault

namespace FirstFault

variable {α : Type} {passes : α → Prop} {fails : α → CastError → Prop} {list : List α}
  {fault : CastError}

theorem cons_iff {x : α} : FirstFault passes fails (x :: list) fault ↔
    fails x fault ∨ passes x ∧ FirstFault passes fails list fault := by
  constructor
  · rintro (failed | ⟨passed, later⟩)
    · exact Or.inl failed
    · exact Or.inr ⟨passed, later⟩
  · rintro (failed | ⟨passed, later⟩)
    · exact .head failed
    · exact .tail passed later

theorem split_iff : FirstFault passes fails list fault ↔
    ∃ before x after, list = before ++ x :: after ∧ (∀ b ∈ before, passes b) ∧ fails x fault := by
  constructor
  · intro first
    induction first with
    | @head x rest _ failed => exact ⟨[], x, rest, rfl, nofun, failed⟩
    | @tail x _ _ passed _ ih =>
      obtain ⟨before, y, after, rfl, earlier, failed⟩ := ih
      exact ⟨x :: before, y, after, rfl, List.forall_mem_cons.mpr ⟨passed, earlier⟩, failed⟩
  · rintro ⟨before, x, after, rfl, earlier, failed⟩
    induction before with
    | nil => exact .head failed
    | cons b before ih =>
      obtain ⟨passed, earlier⟩ := List.forall_mem_cons.mp earlier
      exact .tail passed (ih earlier)

theorem congr {passes' : α → Prop} {fails' : α → CastError → Prop}
    (pass : ∀ x ∈ list, passes x ↔ passes' x)
    (fail : ∀ x ∈ list, fails x fault ↔ fails' x fault) :
    FirstFault passes fails list fault ↔ FirstFault passes' fails' list fault := by
  induction list with
  | nil => exact ⟨nofun, nofun⟩
  | cons x rest ih =>
    obtain ⟨passHere, pass⟩ := List.forall_mem_cons.mp pass
    obtain ⟨failHere, fail⟩ := List.forall_mem_cons.mp fail
    rw [cons_iff, cons_iff, passHere, failHere, ih pass fail]

end FirstFault

/-- The conversion of the value succeeds. -/
def Conversion.Takes (convert : Conversion) (v : Value) : Prop := ∃ w, convert v = .ok w

/-- The conversion of an item fails, which is an error of the element at its index. -/
def ItemFails (element : Conversion) (e : Entry) (fault : CastError) : Prop :=
  ∃ inner, element e.value = .error inner ∧ fault = .element e.key.keyText inner

theorem castItems_eq_error_iff {element : Conversion} {i : Nat} {items : List Value}
    {fault : CastError} : castItems element i items = .error fault ↔
      FirstFault (fun e => element.Takes e.value) (ItemFails element) (Value.indexed i items)
        fault := by
  induction items generalizing i with
  | nil => exact ⟨nofun, nofun⟩
  | cons v rest ih =>
    have index : (Value.int .int64 i).keyText = decimalNat i := decimalInt_natCast i
    rw [castItems, Value.indexed, FirstFault.cons_iff, ← ih, ItemFails, Conversion.Takes, index]
    cases element v with
    | error inner => simp [eq_comm]
    | ok w => cases castItems element (i + 1) rest <;> simp

/-- Key and value of an entry can be converted. -/
def EntryPasses (key value : Conversion) (e : Entry) : Prop := key.Takes e.key ∧ value.Takes e.value

/-- The conversion of the key of an entry fails or, after it, that of the value. -/
def EntryFails (key value : Conversion) (e : Entry) (fault : CastError) : Prop :=
  ∃ inner, (key e.key = .error inner ∨ key.Takes e.key ∧ value e.value = .error inner) ∧
    fault = .element e.key.keyText inner

theorem castEntries_eq_error_iff {key value : Conversion} {done : List (Value × Value)}
    {entries : List Entry} {fault : CastError} :
    castEntries key value done entries = .error fault ↔
      FirstFault (EntryPasses key value) (EntryFails key value) entries fault := by
  induction entries generalizing done with
  | nil => exact ⟨nofun, nofun⟩
  | cons e rest ih =>
    rw [castEntries, FirstFault.cons_iff, EntryPasses, EntryFails, Conversion.Takes,
      Conversion.Takes]
    cases key e.key with
    | error inner => simp [eq_comm]
    | ok k =>
      cases value e.value with
      | error inner => simp [eq_comm]
      | ok w => simp [ih]

/-- The element of a field is there and can be converted, or may be left out and is. -/
def FieldPasses (entries : List Entry) (f : Field Conversion) : Prop :=
  (∃ x, lookupText f.key entries = some x ∧ f.type.Takes x) ∨
    (lookupText f.key entries = none ∧ f.optional = true)

/-- The element of a field is there and cannot be converted, or is missing. -/
def FieldFails (expected : Bytes) (entries : List Entry) (f : Field Conversion)
    (fault : CastError) : Prop :=
  (∃ x inner, lookupText f.key entries = some x ∧ f.type x = .error inner ∧
    fault = .element f.key inner) ∨
  (lookupText f.key entries = none ∧ f.optional = false ∧ fault = .missing f.key expected)

theorem castFields_eq_error_iff {expected : Bytes} {fields : List (Field Conversion)}
    (distinct : (fields.map (·.key)).Nodup) {entries : List Entry} {fault : CastError} :
    castFields expected fields entries = .error fault ↔
      FirstFault (FieldPasses entries) (FieldFails expected entries) fields fault := by
  induction fields generalizing entries with
  | nil => exact ⟨nofun, nofun⟩
  | cons f rest ih =>
    have others := (List.nodup_cons.mp distinct).2
    -- What was taken for this field is out of the way, but no later field looks for it.
    have same := lookupText_others distinct entries
    have later : castFields expected rest (withoutText f.key entries) = .error fault ↔
        FirstFault (FieldPasses entries) (FieldFails expected entries) rest fault := by
      rw [ih others]
      apply FirstFault.congr
      · intro g inside
        rw [FieldPasses, FieldPasses, same g inside]
      · intro g inside
        rw [FieldFails, FieldFails, same g inside]
    rw [castFields, FirstFault.cons_iff, FieldPasses, FieldFails]
    cases lookupText f.key entries with
    | none =>
      cases f.optional with
      | true => simp [ih others]
      | false => simpa using eq_comm
    | some x =>
      simp only [Option.some.injEq, exists_and_left, exists_eq_left', Conversion.Takes]
      cases f.type x with
      | error inner => simpa using eq_comm
      | ok y =>
        rw [← later]
        cases castFields expected rest (withoutText f.key entries) <;> simp

/-! ### The way to the culprit -/

/-- The element of a field is no obstacle: it is there and can be converted, or it may be
left out and is. -/
def Field.Passes (f : Field Ty) (entries : List Entry) : Prop :=
  (∃ e ∈ entries, e.key.keyText = f.key ∧ Conversion.Takes f.type.cast e.value) ∨
    (f.key ∉ keyTexts entries ∧ f.optional = true)

theorem Field.passes_iff {entries : List Entry} (distinct : (keyTexts entries).Nodup)
    (f : Field Ty) : f.Passes entries ↔ FieldPasses entries ⟨f.key, f.optional, f.type.cast⟩ := by
  rw [Field.Passes, FieldPasses, lookupText_none]
  refine or_congr_left ?_
  constructor
  · rintro ⟨e, member, same, taken⟩
    exact ⟨e.value, same ▸ lookupText_of_mem distinct member, taken⟩
  · rintro ⟨x, found, taken⟩
    obtain ⟨e, member, same, rfl⟩ := mem_of_lookupText found
    exact ⟨e, member, same, taken⟩

namespace Ty

/-- The keys lead from a value of one type to a value or key inside, of the type that is
reached there, past nothing that cannot be converted: a list is gone through by its indices,
an array by its indices or by the texts of its keys, a shape by its declaration. -/
inductive Leads : Ty → Value → List Bytes → Ty → Value → Prop
  | here (t : Ty) (v : Value) : Leads t v [] t v
  | item {value s : Ty} {kind : ListKind} {items : List Value} {before after : List Entry}
      {e : Entry} {path : List Bytes} {x : Value} :
      (Value.list kind items).Listed (before ++ e :: after) →
      (∀ b ∈ before, Conversion.Takes value.cast b.value) →
      Leads value e.value path s x →
      Leads (.list value) (.list kind items) (e.key.keyText :: path) s x
  | key {key : KeyKind} {value s : Ty} {v : Value} {before after : List Entry} {e : Entry}
      {path : List Bytes} {x : Value} :
      v.Listed (before ++ e :: after) →
      (∀ b ∈ before, EntryPasses (Ty.arrayKey key).cast value.cast b) →
      Leads (.arrayKey key) e.key path s x →
      Leads (.array key value) v (e.key.keyText :: path) s x
  | value {key : KeyKind} {value s : Ty} {v : Value} {before after : List Entry} {e : Entry}
      {path : List Bytes} {x : Value} :
      v.Listed (before ++ e :: after) →
      (∀ b ∈ before, EntryPasses (Ty.arrayKey key).cast value.cast b) →
      Conversion.Takes (Ty.arrayKey key).cast e.key →
      Leads value e.value path s x →
      Leads (.array key value) v (e.key.keyText :: path) s x
  | field {before after : List (Field Ty)} {f : Field Ty} {s : Ty} {v : Value}
      {entries : List Entry} {e : Entry} {path : List Bytes} {x : Value} :
      v.Listed entries → (∀ g ∈ before, g.Passes entries) →
      e ∈ entries → e.key.keyText = f.key →
      Leads f.type e.value path s x →
      Leads (.shape (before ++ f :: after)) v (f.key :: path) s x

end Ty

namespace CastError

def isElement : CastError → Bool
  | .element .. => true
  | _ => false

/-- The error as it is seen from outside, through the keys that lead to it. -/
def located (path : List Bytes) (e : CastError) : CastError := path.foldr .element e

/-- A reason that is not about an element is seen through one path only. -/
theorem located_inj {path path' : List Bytes} {e e' : CastError} (plain : e.isElement = false)
    (plain' : e'.isElement = false) (same : located path e = located path' e') :
    path = path' ∧ e = e' := by
  induction path generalizing path' with
  | nil =>
    cases path' with
    | nil => exact ⟨rfl, same⟩
    | cons k path' =>
      obtain rfl : e = .element k (located path' e') := same
      contradiction
  | cons k path ih =>
    cases path' with
    | nil =>
      obtain rfl : .element k (located path e) = e' := same
      contradiction
    | cons k' path' =>
      obtain ⟨rfl, inner⟩ := CastError.element.inj same
      obtain ⟨rfl, rfl⟩ := ih inner
      exact ⟨rfl, rfl⟩

end CastError

namespace Ty

open CastError (located)

theorem conversions_append (before : List (Field Ty)) (f : Field Ty) (after : List (Field Ty)) :
    conversions (before ++ f :: after) =
      conversions before ++ ⟨f.key, f.optional, f.type.cast⟩ :: conversions after := by
  rw [conversions, List.map_append, List.map_cons, ← conversions, ← conversions]

section Containers

variable {v : Value} {fault : CastError}

theorem cast_list_eq_error_iff {value : Ty} {kind : ListKind} {items : List Value} :
    (Ty.list value).cast (.list kind items) = .error fault ↔
      FirstFault (fun e => Conversion.Takes value.cast e.value) (ItemFails value.cast)
        (Value.indexed 0 items) fault := by
  rw [← castItems_eq_error_iff, cast, castList]
  cases castItems value.cast 0 items <;> simp

theorem cast_array_eq_error_iff {key : KeyKind} {value : Ty} {entries : List Entry}
    (contents : v.entries? = some entries) : (Ty.array key value).cast v = .error fault ↔
      FirstFault (EntryPasses (Ty.arrayKey key).cast value.cast)
        (EntryFails (Ty.arrayKey key).cast value.cast) entries fault := by
  have keys : (Ty.arrayKey key).cast = key.cast := funext fun _ => by rw [cast]
  rw [keys, ← @castEntries_eq_error_iff _ _ [], cast, castArray, contents]
  simp only
  cases castEntries key.cast value.cast [] entries <;> simp

/-- A shape fails at the first field whose element cannot be converted or is missing, or
for what no field declares. -/
theorem cast_shape_eq_error_iff {fields : List (Field Ty)} (distinct : (fields.map (·.key)).Nodup)
    {entries : List Entry} (contents : v.entries? = some entries) :
    (Ty.shape fields).cast v = .error fault ↔
      FirstFault (FieldPasses entries) (FieldFails (Ty.shape fields).text entries)
        (conversions fields) fault ∨
      ∃ pairs e left, castFields (Ty.shape fields).text (conversions fields) entries =
          .ok (pairs, e :: left) ∧
        fault = .unexpected (sortBy id ((e :: left).map fun e => e.key.keyText))
          (Ty.shape fields).text := by
  rw [← castFields_eq_error_iff (conversions_unique distinct), cast_shape_eq, castShape, contents]
  simp only
  cases castFields (Ty.shape fields).text (conversions fields) entries with
  | error e => simp
  | ok pair =>
    obtain ⟨pairs, left⟩ := pair
    cases left <;> simp [@eq_comm _ fault]

end Containers

/-- Where the keys lead past everything that can be converted to something that cannot, the
conversion of the whole fails there. -/
theorem Leads.cast_eq_error {t s : Ty} {v x : Value} {path : List Bytes} {e : CastError}
    (leads : Leads t v path s x) (wellFormed : t.wellFormed = true) (failed : s.cast x = .error e) :
    t.cast v = .error (located path e) := by
  induction leads with
  | here t v => exact failed
  | item listed earlier _ ih =>
    rw [Ty.wellFormed] at wellFormed
    rw [cast_list_eq_error_iff, Option.some.inj (Value.listed_iff.mp listed)]
    exact FirstFault.split_iff.mpr ⟨_, _, _, rfl, earlier, _, ih wellFormed failed, rfl⟩
  | key listed earlier _ ih =>
    rw [cast_array_eq_error_iff (Value.listed_iff.mp listed)]
    exact FirstFault.split_iff.mpr ⟨_, _, _, rfl, earlier, _, Or.inl (ih rfl failed), rfl⟩
  | value listed earlier taken _ ih =>
    rw [Ty.wellFormed] at wellFormed
    rw [cast_array_eq_error_iff (Value.listed_iff.mp listed)]
    exact FirstFault.split_iff.mpr
      ⟨_, _, _, rfl, earlier, _, Or.inr ⟨taken, ih wellFormed failed⟩, rfl⟩
  | @field before after f s v entries e path x listed earlier member same _ ih =>
    have contents := Value.listed_iff.mp listed
    have texts := Value.keyTexts_nodup contents
    obtain ⟨distinct, parts⟩ := (wellFormed_shape_iff _).mp wellFormed
    have inner := ih (parts f (List.mem_append_right _ List.mem_cons_self)) failed
    rw [cast_shape_eq_error_iff distinct contents, conversions_append]
    refine Or.inl (FirstFault.split_iff.mpr ⟨_, _, _, rfl, ?_, Or.inl ⟨e.value, _, ?_, inner, rfl⟩⟩)
    · intro c inside
      obtain ⟨g, declared, rfl⟩ := mem_conversions.mp inside
      exact (g.passes_iff texts).mp (earlier g declared)
    · exact same ▸ lookupText_of_mem texts member

/-- The first thing inside a value that cannot be converted: the keys lead to it, and it
fails for a reason of its own. -/
structure FirstCulprit (t : Ty) (v : Value) (path : List Bytes) (s : Ty) (x : Value)
    (e : CastError) : Prop where
  leads : Leads t v path s x
  fails : s.cast x = .error e
  plain : e.isElement = false

/-- The error is that of a first culprit, seen through the keys that lead to it. -/
def HasCulprit (t : Ty) (v : Value) (fault : CastError) : Prop :=
  ∃ path s x e, FirstCulprit t v path s x e ∧ fault = located path e

theorem HasCulprit.here {t : Ty} {v : Value} {fault : CastError} (failed : t.cast v = .error fault)
    (plain : fault.isElement = false) : HasCulprit t v fault :=
  ⟨[], t, v, fault, ⟨.here t v, failed, plain⟩, rfl⟩

theorem isElement_of_cast_arrayKey {key : KeyKind} {v : Value} {fault : CastError}
    (failed : (Ty.arrayKey key).cast v = .error fault) : fault.isElement = false := by
  rw [cast, KeyKind.cast] at failed
  split at failed
  · contradiction
  · split at failed
    · contradiction
    · obtain rfl := Except.error.inj failed
      rfl

section Containers

variable {v : Value} {fault : CastError}

theorem list_hasCulprit {value : Ty}
    (parts : ∀ {x inner}, value.cast x = .error inner → HasCulprit value x inner)
    (failed : (Ty.list value).cast v = .error fault) : HasCulprit (.list value) v fault := by
  cases v with
  | list kind items =>
    obtain ⟨before, e, after, split, earlier, inner, failedHere, rfl⟩ :=
      FirstFault.split_iff.mp (cast_list_eq_error_iff.mp failed)
    obtain ⟨path, s, x, reason, ⟨leads, fails, plain⟩, rfl⟩ := parts failedHere
    have listed : (Value.list kind items).Listed (before ++ e :: after) := split ▸ .list kind items
    exact ⟨_, s, x, reason, ⟨.item listed earlier leads, fails, plain⟩, rfl⟩
  | _ =>
    refine .here failed ?_
    obtain rfl := Except.error.inj failed
    rfl

theorem array_hasCulprit {key : KeyKind} {value : Ty}
    (parts : ∀ {x inner}, value.cast x = .error inner → HasCulprit value x inner)
    (failed : (Ty.array key value).cast v = .error fault) :
    HasCulprit (.array key value) v fault := by
  cases contents : v.entries? with
  | none =>
    refine .here failed ?_
    rw [cast, castArray, contents] at failed
    obtain rfl := Except.error.inj failed
    rfl
  | some entries =>
    obtain ⟨before, e, after, rfl, earlier, inner, failedHere, rfl⟩ :=
      FirstFault.split_iff.mp ((cast_array_eq_error_iff contents).mp failed)
    have listed := Value.listed_iff.mpr contents
    rcases failedHere with failedHere | ⟨taken, failedHere⟩
    · exact ⟨_, _, _, inner, ⟨.key listed earlier (.here _ _), failedHere,
        isElement_of_cast_arrayKey failedHere⟩, rfl⟩
    · obtain ⟨path, s, x, reason, ⟨leads, fails, plain⟩, rfl⟩ := parts failedHere
      exact ⟨_, s, x, reason, ⟨.value listed earlier taken leads, fails, plain⟩, rfl⟩

theorem shape_hasCulprit {fields : List (Field Ty)} (distinct : (fields.map (·.key)).Nodup)
    (parts : ∀ f ∈ fields, ∀ {x inner}, f.type.cast x = .error inner → HasCulprit f.type x inner)
    (failed : (Ty.shape fields).cast v = .error fault) : HasCulprit (.shape fields) v fault := by
  cases contents : v.entries? with
  | none =>
    refine .here failed ?_
    rw [cast, castShape, contents] at failed
    obtain rfl := Except.error.inj failed
    rfl
  | some entries =>
    have texts := Value.keyTexts_nodup contents
    rcases (cast_shape_eq_error_iff distinct contents).mp failed with first | ⟨_, _, _, _, rfl⟩
    · obtain ⟨before, c, after, split, earlier, failedHere⟩ := FirstFault.split_iff.mp first
      obtain ⟨before, rest, rfl, rfl, others⟩ := List.map_eq_append_iff.mp split
      obtain ⟨f, after, rfl, rfl, rfl⟩ := List.map_eq_cons_iff.mp others
      rcases failedHere with ⟨y, inner, found, failedHere, rfl⟩ | ⟨_, _, rfl⟩
      · obtain ⟨e, member, same, rfl⟩ := mem_of_lookupText found
        obtain ⟨path, s, x, reason, ⟨leads, fails, plain⟩, rfl⟩ :=
          parts f (List.mem_append_right _ List.mem_cons_self) failedHere
        refine ⟨_, s, x, reason, ⟨.field (Value.listed_iff.mpr contents) ?_ member same leads,
          fails, plain⟩, rfl⟩
        intro g inside
        exact (g.passes_iff texts).mpr (earlier _ (List.mem_map_of_mem inside))
      · exact .here failed rfl
    · exact .here failed rfl

end Containers

/-- Every error of a conversion comes from a first culprit. -/
theorem hasCulprit {t : Ty} (wellFormed : t.wellFormed = true) {v : Value} {fault : CastError}
    (failed : t.cast v = .error fault) : HasCulprit t v fault := by
  induction t using Ty.induct generalizing v fault with
  | mixed => contradiction
  | null | bool | integer | float | string | unknown name accepted | union members ih =>
    refine .here failed ?_
    rw [cast] at failed
    split at failed
    · contradiction
    · obtain rfl := Except.error.inj failed
      rfl
  | boolLit value | integerLit value | floatLit value | stringLit value quote =>
    refine .here failed ?_
    rw [cast] at failed
    split at failed
    · obtain rfl := Except.error.inj failed
      rfl
    · split at failed
      · contradiction
      · obtain rfl := Except.error.inj failed
        rfl
  | arrayKey kind => exact .here failed (isElement_of_cast_arrayKey failed)
  | array key value ih =>
    rw [Ty.wellFormed] at wellFormed
    exact array_hasCulprit (ih wellFormed) failed
  | list value ih =>
    rw [Ty.wellFormed] at wellFormed
    exact list_hasCulprit (ih wellFormed) failed
  | shape fields ih =>
    obtain ⟨distinct, each⟩ := (wellFormed_shape_iff fields).mp wellFormed
    exact shape_hasCulprit distinct (fun f inside => ih f inside (each f inside)) failed

end Ty

/-! ### The report of the culprit -/

namespace Report

/-- The failures that a failure comes from, each the cause of the one before. -/
def causes : Report → List Report
  | .coded _ _ _ (some cause) _ => cause :: cause.causes
  | _ => []

/-- What an error of an element says before the message of the error inside. -/
def elementNote (key : Bytes) : Bytes := "Element `" ++ key ++ "`: "

/-- The failure is another one seen through keys: it says the same, with the keys before the
message, and comes from it by as many causes as there are keys. -/
structure SeenThrough (path : List Bytes) (inner outer : Report) : Prop where
  code : ∃ code, inner.code? = some code ∧ outer.code? = some code
  details : outer.details = inner.details
  message : outer.message = path.flatMap elementNote ++ inner.message
  depth : outer.causes.length = path.length
  origin : (outer :: outer.causes).getLast? = some inner

end Report

namespace CastError

/-- A native reason that is not about an element has a code and no single cause. -/
theorem Native.report_plain {e : CastError} (native : e.Native) (plain : e.isElement = false) :
    ∃ code message details attempts, e.report = .coded code message details none attempts := by
  cases native with
  | element => contradiction
  | _ => exact ⟨_, _, _, _, rfl⟩

/-- One key more is seen through. -/
theorem seenThrough_element {path : List Bytes} {inner : Report} {e : CastError}
    (seen : Report.SeenThrough path inner e.report) (key : Bytes) :
    Report.SeenThrough (key :: path) inner (CastError.element key e).report := by
  obtain ⟨⟨code, innerCode, outerCode⟩, details, message, depth, origin⟩ := seen
  rw [report]
  cases outer : e.report with
  | plain text =>
    rw [outer] at outerCode
    contradiction
  | coded code' text details' cause attempts =>
    rw [outer] at outerCode details message depth origin
    constructor
    · exact ⟨code, innerCode, outerCode⟩
    · exact details
    · rw [List.flatMap_cons, List.append_assoc (Report.elementNote key), ← message]
      rfl
    · rw [Report.causes, List.length_cons, depth, List.length_cons]
    · rw [Report.causes, List.getLast?_cons_cons, origin]

theorem located_seenThrough {e : CastError} (native : e.Native) (plain : e.isElement = false)
    (path : List Bytes) : Report.SeenThrough path e.report (located path e).report := by
  induction path with
  | nil =>
    obtain ⟨code, message, details, attempts, same⟩ := native.report_plain plain
    rw [located, List.foldr_nil, same]
    exact ⟨⟨code, rfl, rfl⟩, rfl, rfl, rfl, rfl⟩
  | cons key path ih => exact seenThrough_element ih key

end CastError

namespace Ty

/-- A failed conversion points at its first culprit. There is one path of keys, and one only,
that leads past everything that can be converted to a value or key whose own conversion fails
for a reason that is not about an element, and the error is that reason seen through the keys.
A union fails as a whole, so no path leads into one. -/
theorem cast_points_at_first_culprit {t : Ty} (wellFormed : t.wellFormed = true) {v : Value}
    {fault : CastError} (failed : t.cast v = .error fault) :
    ∃ path s x e, FirstCulprit t v path s x e ∧
      (∀ path' s' x' e', FirstCulprit t v path' s' x' e' → path' = path ∧ e' = e) ∧
      Report.SeenThrough path e.report fault.report := by
  obtain ⟨path, s, x, e, culprit, rfl⟩ := hasCulprit wellFormed failed
  refine ⟨path, s, x, e, culprit, ?_, ?_⟩
  · intro path' s' x' e' other
    have again := other.leads.cast_eq_error wellFormed other.fails
    exact CastError.located_inj other.plain culprit.plain
      (Except.error.inj (again.symm.trans failed))
  · exact CastError.located_seenThrough (s.cast_native x e culprit.fails) culprit.plain path

/-- The entries of a map are gone through by the texts of their keys, so `10` comes before
`9`; the item before the culprit and the absent optional element are no obstacle. -/
theorem cast_points_at_first_culprit_nested :
    let t : Ty := .shape [⟨"id", true, .integer⟩, ⟨"rows", false, .array .integer (.list .integer)⟩]
    let v : Value := .map .text [(.text "rows", .map .general
      [(.text "9", .list .general [.null]), (.text "10", .list .general [.text " 7", .bool true])])]
    let path : List Bytes := ["rows", "10", "1"]
    let fault := CastError.located path (.wrongKind "bool" .integer)
    t.wellFormed = true ∧ t.cast v = .error fault ∧
      ∃ s x e, FirstCulprit t v path s x e ∧ Report.SeenThrough path e.report fault.report := by
  intro t v path fault
  have wellFormed : t.wellFormed = true := by decide
  have failed : t.cast v = .error fault := rfl
  obtain ⟨path', s, x, e, culprit, _, seen⟩ := cast_points_at_first_culprit wellFormed failed
  have located := culprit.leads.cast_eq_error wellFormed culprit.fails
  obtain ⟨rfl, -⟩ := CastError.located_inj rfl culprit.plain
    (Except.error.inj (failed.symm.trans located))
  exact ⟨wellFormed, failed, s, x, e, culprit, seen⟩

end Ty

end Conform
