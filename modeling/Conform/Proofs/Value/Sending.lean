import Conform.Proofs.Value.Decoded
import Conform.Proofs.Value.Same
import Conform.Proofs.Value.Written

/-! Values sent as JSON texts. A text has no integer keys and no order of its
members, so a value comes back with every key as the text it was known by, and
with its maps in another order. Nothing else changes, provided that the value
has no floats, its texts are well-formed and its keys are told apart by texts. -/
namespace Conform

theorem insertBy_map {α β : Type} (f : α → β) (key : β → Bytes) (x : α) (list : List α) :
    insertBy key (f x) (list.map f) = (insertBy (fun a => key (f a)) x list).map f := by
  induction list with
  | nil => rfl
  | cons y rest ih =>
    rw [List.map_cons, insertBy, insertBy]
    split
    · rfl
    · rw [ih, List.map_cons]

theorem sortBy_map {α β : Type} (f : α → β) (key : β → Bytes) (list : List α) :
    sortBy key (list.map f) = (sortBy (fun a => key (f a)) list).map f := by
  induction list with
  | nil => rfl
  | cons x rest ih => rw [List.map_cons, sortBy, ih, insertBy_map, sortBy]

namespace Value

section Relations

/-- A key as the name of a member. -/
def asText (key : Value) : Value := .text key.keyText

theorem keyText_asText (key : Value) : key.asText.keyText = key.keyText := rfl

/-- What a value comes back as. -/
inductive Resent : Value → Value → Prop
  | null : Resent .null .null
  | bool (b : Bool) : Resent (.bool b) (.bool b)
  | int (n : Int) : Resent (.int .int64 n) (.int .int64 n)
  | text (s : Bytes) : Resent (.text s) (.text s)
  | list {items items' : List Value} : List.Forall₂ Resent items items' →
      Resent (.list .general items) (.list .general items')
  | map {kind : MapKind} {pairs pairs' shuffled : List (Value × Value)} :
      List.Forall₂ (Renamed asText Resent) pairs pairs' → pairs'.Perm shuffled →
      Resent (.map kind pairs) (.map .text shuffled)

/-- What was read comes back the same, since its keys are texts. -/
theorem Resent.same {bound : Nat} {v v' : Value} (decoded : v.decoded bound = true)
    (resent : Resent v v') : Same v v' := by
  induction v using Value.induct generalizing v' with
  | list kind items ih =>
    cases resent with
    | list each =>
      have inner := ((every_list_iff _ items).mp decoded).2
      refine .list (forall₂_of_mem ?_ each)
      intro v member w resent
      exact ih v member (inner v member) resent
  | map kind pairs ih =>
    obtain ⟨rfl, texts, _⟩ := decoded_map decoded
    cases resent with
    | map each shuffle =>
      have inner := ((every_map_iff _ pairs).mp decoded).2
      refine .map (forall₂_of_mem ?_ each) shuffle
      rintro _ member _ ⟨k, resent⟩
      obtain ⟨s, rfl⟩ := isText_iff.mp (texts _ member)
      exact .intro _ ((ih _ member).2 (inner _ member).2 resent)
  | null | bool | int | text =>
    cases resent
    exact .refl _
  | double | single | foreign => cases resent

end Relations

/-- A part of a value that comes back, its own parts aside. -/
def portablePart : Value → Bool
  | .null => true
  | .bool _ => true
  | .int kind n => kind == .int64 && inInt64 n
  | .text s => Utf8.valid s
  | .list kind _ => kind == .general
  | .map kind pairs => (kind == .text || kind == .general) && pairs.all (fun p => p.1.isHostKey) &&
      decide (pairTexts pairs).Nodup
  | _ => false

/-- A value that can be sent: it has no floats, its texts are well-formed, and the keys of
each map have texts of their own. -/
def portable (v : Value) : Bool := v.every portablePart

theorem portable_list_iff (kind : ListKind) (items : List Value) :
    (Value.list kind items).portable = true ↔
      kind = .general ∧ ∀ v ∈ items, v.portable = true := by
  rw [portable, every_list_iff, portablePart, beq_iff_eq]
  rfl

theorem portable_map_iff (kind : MapKind) (pairs : List (Value × Value)) :
    (Value.map kind pairs).portable = true ↔ (kind = .text ∨ kind = .general) ∧ HostKeys pairs ∧
      (pairTexts pairs).Nodup ∧ ∀ p ∈ pairs, p.1.portable = true ∧ p.2.portable = true := by
  rw [portable, every_map_iff]
  simp only [portablePart, Bool.and_eq_true, Bool.or_eq_true, beq_iff_eq, List.all_eq_true,
    decide_eq_true_eq, and_assoc]
  rfl

theorem memberName_eq_keyText {key : Value} (host : key.isHostKey = true) :
    key.memberName = key.keyText := by
  cases key with
  | int width n => rfl
  | text s => rfl
  | _ => contradiction

theorem valid_keyText {key : Value} (host : key.isHostKey = true)
    (legible : ∀ s, key = .text s → Utf8.valid s = true) : Utf8.valid key.keyText = true := by
  cases key with
  | int width n => exact Utf8.valid_decimalInt n
  | text s => exact legible s rfl
  | _ => contradiction

/-- A text that a key is converted to is well-formed if the key is. -/
theorem legible_of_cast {kind : KeyKind} {key k : Value} (host : key.isHostKey = true)
    (legible : ∀ s, key = .text s → Utf8.valid s = true) (converted : kind.cast key = .ok k) :
    ∀ s, k = .text s → Utf8.valid s = true := by
  rintro s rfl
  rcases (kind.cast_eq_ok_iff key _).mp converted with ⟨_, n, _, same⟩ | ⟨_, _, t, text, same⟩
  · contradiction
  · obtain rfl := Value.text.inj same
    rw [← keyText_of_castText host text]
    exact valid_keyText host legible

section Sending

theorem itemsWithTextKeys_eq (items : List Value) :
    itemsWithTextKeys items = items.map withTextKeys := by
  induction items with
  | nil => rfl
  | cons v rest ih => rw [itemsWithTextKeys, ih, List.map_cons]

/-- An entry under the name of a member. -/
def named (p : Value × Value) : Value × Value := (.text p.1.memberName, p.2.withTextKeys)

theorem hostKeys_named (pairs : List (Value × Value)) : HostKeys (pairs.map named).reverse := by
  intro p member
  obtain ⟨q, _, rfl⟩ := List.mem_map.mp (List.mem_reverse.mp member)
  rfl

theorem entriesWithTextKeys_eq (pairs : List (Value × Value)) :
    entriesWithTextKeys pairs = setAll [] (pairs.map named).reverse := by
  induction pairs with
  | nil => rfl
  | cons p rest ih =>
    rw [entriesWithTextKeys, ih, List.map_cons, List.reverse_cons, setAll, setAll, List.foldl_append]
    rfl

theorem withTextKeys_map {kind : MapKind} (general : kind = .text ∨ kind = .general)
    (pairs : List (Value × Value)) :
    (Value.map kind pairs).withTextKeys = .map .text (entriesWithTextKeys pairs) := by
  rcases general with rfl | rfl <;> rw [withTextKeys]

theorem toJsonMembers_eq (pairs : List (Value × Value)) :
    toJsonMembers pairs = pairs.map fun p => (p.1.memberName, p.2.toJson) := by
  induction pairs with
  | nil => rfl
  | cons p rest ih => rw [toJsonMembers, ih, List.map_cons]

theorem toJsonItems_eq_ok {items : List Value} {documents : List Json}
    (each : List.Forall₂ (fun v j => v.toJson = .ok j) items documents) :
    toJsonItems items = .ok documents := by
  induction each with
  | nil => rfl
  | cons first rest ih => simp only [toJsonItems, first, ih]

theorem collectMembers_eq_ok (members : List (Bytes × Json)) :
    collectMembers (members.map fun m => (m.1, .ok m.2)) = .ok members := by
  induction members with
  | nil => rfl
  | cons m rest ih => simp only [List.map_cons, collectMembers, ih]

/-- A value is sent as a document that can be read back. -/
structure SentAs (v : Value) (j : Json) : Prop where
  encoded : v.withTextKeys.toJson = .ok j
  readable : j.Every (fun s => Utf8.valid s = true) Json.Numeral
  resent : Resent v (ofJson j)

theorem sentAs_int {n : Int} (range : inInt64 n = true) :
    SentAs (.int .int64 n) (.number (decimalInt n)) where
  encoded := rfl
  readable := Json.numeral_decimalInt n
  resent := by
    have same : (Int64.ofInt n).toInt = n := by
      simp only [inInt64, Bool.and_eq_true, decide_eq_true_eq] at range
      exact Int64.toInt_ofInt_of_le (by omega) (by omega)
    simp only [ofJson, ofNumeral, integerLiteral?_decimalInt range, ofInt64, same]
    exact .int n

theorem sentAs_list {items : List Value} {documents : List Json}
    (each : List.Forall₂ SentAs items documents) :
    SentAs (.list .general items) (.array documents) where
  encoded := by
    have encoded : List.Forall₂ (fun v j => v.toJson = .ok j) (items.map withTextKeys) documents := by
      rw [List.forall₂_map_left_iff]
      exact each.imp fun _ _ sent => sent.encoded
    simp only [withTextKeys, itemsWithTextKeys_eq, toJson, toJsonItems_eq_ok encoded]
  readable := by
    apply (Json.everyItem_iff _ _ documents).mpr
    intro j member
    obtain ⟨v, _, sent⟩ := exists_left_of_forall₂ each member
    exact sent.readable
  resent := by
    rw [ofJson, ofJsonItems_eq]
    apply Resent.list
    rw [List.forall₂_map_right_iff]
    exact each.imp fun _ _ sent => sent.resent

/-- An entry is sent as a member under the text of its key. -/
def SentUnder (p : Value × Value) (m : Bytes × Json) : Prop :=
  m.1 = p.1.keyText ∧ SentAs p.2 m.2

variable {pairs : List (Value × Value)} {members : List (Bytes × Json)}

theorem names_of_sentUnder (each : List.Forall₂ SentUnder pairs members) :
    members.map (·.1) = pairTexts pairs := by
  rw [pairTexts, ← List.forall₂_eq_eq_eq, List.forall₂_map_left_iff, List.forall₂_map_right_iff]
  exact List.Forall₂.flip (each.imp fun _ _ sent => sent.1)

/-- Where keys have texts of their own, none of them replaces another. -/
theorem entriesWithTextKeys_of_distinct (hosts : HostKeys pairs)
    (distinct : (pairTexts pairs).Nodup) :
    entriesWithTextKeys pairs = (pairs.map named).reverse := by
  have names : pairKeys (pairs.map named) = (pairTexts pairs).map Value.text := by
    rw [pairKeys, pairTexts, List.map_map, List.map_map]
    refine List.map_congr_left ?_
    intro p member
    exact congrArg Value.text (memberName_eq_keyText (hosts p member))
  have apart : (pairKeys ([] ++ (pairs.map named).reverse)).Nodup := by
    rw [List.nil_append, pairKeys, List.map_reverse, List.nodup_reverse, ← pairKeys, names]
    exact distinct.map fun _ _ => Value.text.inj
  rw [entriesWithTextKeys_eq, setAll_of_distinct (List.forall_mem_nil _) (hostKeys_named pairs) apart,
    List.nil_append]

/-- An entry is encoded as a member under the text of its key. -/
def EncodedUnder (p : Value × Value) (m : Bytes × Json) : Prop :=
  m.1 = p.1.keyText ∧ p.2.withTextKeys.toJson = .ok m.2

theorem toJson_named (hosts : HostKeys pairs) (distinct : (pairTexts pairs).Nodup)
    (each : List.Forall₂ EncodedUnder pairs members) :
    (Value.map .text (entriesWithTextKeys pairs)).toJson =
      .ok (.object (sortBy (·.1) members.reverse)) := by
  have documents : (pairs.map named).map (fun p => (p.1.memberName, p.2.toJson)) =
      members.map fun m => (m.1, .ok m.2) := by
    rw [List.map_map, ← List.forall₂_eq_eq_eq, List.forall₂_map_left_iff,
      List.forall₂_map_right_iff]
    refine forall₂_of_mem ?_ each
    rintro p member m ⟨name, encoded⟩
    rw [name, ← memberName_eq_keyText (hosts p member), ← encoded]
    rfl
  rw [entriesWithTextKeys_of_distinct hosts distinct]
  simp only [toJson, toJsonMembers_eq, List.map_reverse, documents]
  rw [← List.map_reverse, sortBy_map, collectMembers_eq_ok]

theorem ofJson_sorted (distinct : (members.map (·.1)).Nodup) :
    ofJson (.object (sortBy (·.1) members.reverse)) =
      .map .text ((sortBy (·.1) members.reverse).map ofMember) := by
  have perm := (sortBy_perm (fun m : Bytes × Json => m.1) members.reverse).trans
    members.reverse_perm
  have apart : (pairKeys ([] ++ (sortBy (·.1) members.reverse).map ofMember)).Nodup := by
    have names : pairKeys ((sortBy (·.1) members.reverse).map ofMember) =
        ((sortBy (·.1) members.reverse).map (·.1)).map Value.text := by
      rw [pairKeys, List.map_map, List.map_map]
      rfl
    rw [List.nil_append, names]
    exact ((perm.map _).nodup_iff.mpr distinct).map fun _ _ => Value.text.inj
  rw [ofJson, ofJsonMembers_eq,
    setAll_of_distinct (List.forall_mem_nil _) (hostKeys_ofMember _) apart, List.nil_append]

theorem sentAs_map {kind : MapKind} (portable : (Value.map kind pairs).portable = true)
    (each : List.Forall₂ SentUnder pairs members) :
    SentAs (.map kind pairs) (.object (sortBy (·.1) members.reverse)) := by
  obtain ⟨general, hosts, distinct, parts⟩ := (portable_map_iff kind pairs).mp portable
  have names := names_of_sentUnder each
  have perm := (sortBy_perm (fun m : Bytes × Json => m.1) members.reverse).trans
    members.reverse_perm
  refine ⟨?_, ?_, ?_⟩
  · rw [withTextKeys_map general]
    exact toJson_named hosts distinct (each.imp fun _ _ sent => ⟨sent.1, sent.2.encoded⟩)
  · apply (Json.everyMember_iff _ _ _).mpr
    intro m member
    obtain ⟨p, there, name, sent⟩ := exists_left_of_forall₂ each (perm.mem_iff.mp member)
    have key := (parts p there).1
    rw [name]
    refine ⟨valid_keyText (hosts p there) ?_, sent.readable⟩
    intro s same
    rwa [same] at key
  · rw [ofJson_sorted (by rw [names]; exact distinct)]
    refine .map ?_ (perm.map ofMember).symm
    rw [List.forall₂_map_right_iff]
    refine each.imp ?_
    rintro ⟨k, v⟩ ⟨_, j⟩ ⟨rfl, sent⟩
    exact Renamed.intro k sent.resent

/-- Whatever is portable can be sent. -/
theorem exists_sentAs {v : Value} (portable : v.portable = true) : ∃ j, SentAs v j := by
  induction v using Value.induct with
  | null => exact ⟨.null, rfl, trivial, .null⟩
  | bool b => exact ⟨.bool b, rfl, trivial, .bool b⟩
  | int kind n =>
    have part : kind = .int64 ∧ inInt64 n = true := by
      simpa [Value.portable, every, portablePart] using portable
    obtain ⟨rfl, range⟩ := part
    exact ⟨_, sentAs_int range⟩
  | double x => contradiction
  | single x => contradiction
  | text s => exact ⟨.string s, rfl, portable, .text s⟩
  | list kind items ih =>
    obtain ⟨rfl, inner⟩ := (portable_list_iff kind items).mp portable
    obtain ⟨documents, each⟩ := exists_forall₂ fun v member => ih v member (inner v member)
    exact ⟨_, sentAs_list each⟩
  | map kind pairs ih =>
    have inner := ((portable_map_iff kind pairs).mp portable).2.2.2
    have parts : ∀ p ∈ pairs, ∃ m, SentUnder p m := by
      intro p member
      obtain ⟨j, sent⟩ := (ih p member).2 (inner p member).2
      exact ⟨(p.1.keyText, j), rfl, sent⟩
    obtain ⟨members, each⟩ := exists_forall₂ parts
    exact ⟨_, sentAs_map portable each⟩
  | foreign v => contradiction

/-- A portable value has a text, and what is read from it is the value with its keys as texts. -/
theorem readJson_jsonText {v : Value} (portable : v.portable = true) :
    ∃ text v', v.jsonText = .ok text ∧ readJson text = .ok v' ∧ Resent v v' := by
  obtain ⟨j, sent⟩ := exists_sentAs portable
  refine ⟨j.write, ofJson j, ?_, readJson_write sent.readable, sent.resent⟩
  rw [jsonText, sent.encoded]

end Sending

section Received

/-- No part is a float. -/
def floatFree (v : Value) : Bool := v.every fun part => !part.isFloat

def legiblePart : Value → Bool
  | .text s => Utf8.valid s
  | _ => true

/-- Every text, at any depth, is well-formed. -/
def legible (v : Value) : Bool := v.every legiblePart

/-- A value as it was read, without floats and with well-formed texts. -/
structure Received (bound : Nat) (v : Value) : Prop where
  decoded : v.decoded bound = true
  floatFree : v.floatFree = true
  legible : v.legible = true

namespace Received

variable {bound : Nat} {v : Value}

theorem portable (received : Received bound v) : v.portable = true := by
  have floatless : v.every (fun part => decodedPart bound part && !part.isFloat) = true :=
    every_of_both (fun _ left right => Bool.and_eq_true_iff.mpr ⟨left, right⟩) received.decoded
      received.floatFree
  refine every_of_both ?_ floatless received.legible
  intro part left right
  obtain ⟨decoded, float⟩ := Bool.and_eq_true_iff.mp left
  cases part with
  | null | bool => rfl
  | int kind n => exact decoded
  | double x => contradiction
  | single x => contradiction
  | text s => exact right
  | list kind items => exact (Bool.and_eq_true_iff.mp decoded).1
  | map kind pairs =>
    simp only [decodedPart, portablePart, Bool.and_eq_true, Bool.or_eq_true, List.all_eq_true]
      at decoded ⊢
    refine ⟨⟨Or.inl decoded.1.1, ?_⟩, decoded.2⟩
    intro p member
    obtain ⟨s, text⟩ := isText_iff.mp (decoded.1.2 p member)
    rw [text]
    rfl
  | foreign v => contradiction

theorem legibleText (received : Received bound v) : ∀ s, v = .text s → Utf8.valid s = true := by
  rintro s rfl
  exact received.legible

theorem item {kind : ListKind} {items : List Value} (received : Received bound (.list kind items))
    {v : Value} (member : v ∈ items) : Received bound v where
  decoded := ((every_list_iff kind items).mp received.decoded).2 v member
  floatFree := ((every_list_iff kind items).mp received.floatFree).2 v member
  legible := ((every_list_iff kind items).mp received.legible).2 v member

section Entries

variable {entries : List Entry} {e : Entry}

theorem entry (received : Received bound v) (contents : v.entries? = some entries)
    (member : e ∈ entries) : Received bound e.value where
  decoded := every_entry received.decoded contents member
  floatFree := every_entry received.floatFree contents member
  legible := every_entry received.legible contents member

theorem legibleKey (received : Received bound v) (contents : v.entries? = some entries)
    (member : e ∈ entries) {s : Bytes} (text : e.key = .text s) : Utf8.valid s = true := by
  rcases mem_entries contents member with ⟨kind, items, rfl, j, _, key, _⟩ | ⟨kind, pairs, rfl, pair⟩
  · rw [key] at text
    contradiction
  · have legible := (((every_map_iff kind pairs).mp received.legible).2 _ pair).1
    rwa [text] at legible

end Entries

/-- Of what was received, only integers and texts are converted to integers or texts. -/
theorem isHostKey_of_cast (received : Received bound v) {kind : KeyKind} {k : Value}
    (converted : kind.cast v = .ok k) : v.isHostKey = true := by
  have decoded := received.decoded
  have floatFree := received.floatFree
  cases v with
  | int | text => rfl
  | double | single | foreign => contradiction
  | _ => cases kind <;> contradiction

end Received

end Received

end Value

end Conform
