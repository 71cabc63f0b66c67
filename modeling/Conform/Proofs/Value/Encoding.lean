import Conform.Proofs.Binary.Rounding
import Conform.Proofs.Value.Sending

/-! Which values have a document. Of values made of what conversions give, the
containers aside, only infinities and not-a-number have none, and a container has
one exactly when all of its values do. No value is lost on the way, since the keys
of each map have texts of their own. -/
namespace Conform.Value

/-- No float that JSON has no number for, the parts aside. -/
def finitePart : Value → Bool
  | .double x => x.isFinite
  | .single x => x.isFinite
  | _ => true

/-- No part is an infinity or not-a-number. -/
def finite (v : Value) : Bool := v.every finitePart

/-- A part of a value that is sent: lists and maps are general ones, and the keys of a map
are integers or texts that are told apart as texts. -/
def orderlyPart : Value → Bool
  | .list kind _ => kind == .general
  | .map kind pairs => (kind == .text || kind == .general) && pairs.all (fun p => p.1.isHostKey) &&
      decide (pairTexts pairs).Nodup
  | .single _ => false
  | .foreign _ => false
  | _ => true

def orderly (v : Value) : Bool := v.every orderlyPart

theorem orderly_list_iff (kind : ListKind) (items : List Value) :
    (Value.list kind items).orderly = true ↔
      kind = .general ∧ ∀ v ∈ items, v.orderly = true := by
  rw [orderly, every_list_iff, orderlyPart, beq_iff_eq]
  rfl

theorem orderly_map_iff (kind : MapKind) (pairs : List (Value × Value)) :
    (Value.map kind pairs).orderly = true ↔ (kind = .text ∨ kind = .general) ∧ HostKeys pairs ∧
      (pairTexts pairs).Nodup ∧ ∀ p ∈ pairs, p.1.orderly = true ∧ p.2.orderly = true := by
  rw [orderly, every_map_iff]
  simp only [orderlyPart, Bool.and_eq_true, Bool.or_eq_true, beq_iff_eq, List.all_eq_true,
    decide_eq_true_eq, and_assoc]
  rfl

theorem finite_hostKey {key : Value} (host : key.isHostKey = true) : key.finite = true := by
  cases key with
  | int | text => rfl
  | _ => contradiction

/-! ### Documents of finite values -/

theorem exists_document {v : Value} (orderly : v.orderly = true) (finite : v.finite = true) :
    ∃ j, v.withTextKeys.toJson = .ok j ∧ j.Sound := by
  induction v using Value.induct with
  | null => exact ⟨.null, rfl, trivial⟩
  | bool b => exact ⟨.bool b, rfl, trivial⟩
  | int kind n => exact ⟨_, rfl, Json.numeral_decimalInt n⟩
  | double x =>
    have isFinite : x.isFinite = true := finite
    refine ⟨_, if_pos isFinite, ?_⟩
    exact Json.numeral_text Format.double_moderate .json isFinite
  | single x => contradiction
  | text s => exact ⟨.string s, rfl, trivial⟩
  | list kind items ih =>
    obtain ⟨rfl, inner⟩ := (orderly_list_iff kind items).mp orderly
    have finite := ((every_list_iff .general items).mp finite).2
    obtain ⟨documents, each⟩ := exists_forall₂ fun v member =>
      ih v member (inner v member) (finite v member)
    refine ⟨.array documents, ?_, ?_⟩
    · have encoded : List.Forall₂ (fun v j => v.toJson = .ok j) (items.map withTextKeys)
          documents := by
        rw [List.forall₂_map_left_iff]
        exact each.imp fun _ _ both => both.1
      simp only [withTextKeys, itemsWithTextKeys_eq, toJson, toJsonItems_eq_ok encoded]
    · apply (Json.everyItem_iff _ _ documents).mpr
      intro j member
      obtain ⟨v, _, _, sound⟩ := exists_left_of_forall₂ each member
      exact sound
  | map kind pairs ih =>
    obtain ⟨general, hosts, distinct, inner⟩ := (orderly_map_iff kind pairs).mp orderly
    have finite := ((every_map_iff kind pairs).mp finite).2
    have parts : ∀ p ∈ pairs, ∃ m : Bytes × Json, EncodedUnder p m ∧ m.2.Sound := by
      intro p member
      obtain ⟨j, encoded, sound⟩ := (ih p member).2 (inner p member).2 (finite p member).2
      exact ⟨(p.1.keyText, j), ⟨rfl, encoded⟩, sound⟩
    obtain ⟨members, each⟩ := exists_forall₂ parts
    refine ⟨.object (sortBy (·.1) members.reverse), ?_, ?_⟩
    · rw [withTextKeys_map general]
      exact toJson_named hosts distinct (each.imp fun _ _ both => both.1)
    · apply (Json.everyMember_iff _ _ _).mpr
      intro m member
      have inside := List.mem_reverse.mp ((sortBy_perm _ _).mem_iff.mp member)
      obtain ⟨p, _, _, sound⟩ := exists_left_of_forall₂ each inside
      exact ⟨trivial, sound⟩
  | foreign v => contradiction

/-! ### Values without a document -/

theorem toJsonItems_eq_error {items : List Value} {v : Value} (member : v ∈ items)
    {e : EncodeError} (failed : v.toJson = .error e) : ∃ e, toJsonItems items = .error e := by
  induction items with
  | nil => contradiction
  | cons first rest ih =>
    rw [toJsonItems]
    cases encoded : first.toJson with
    | error e => exact ⟨e, rfl⟩
    | ok document =>
      rcases List.mem_cons.mp member with rfl | member
      · cases failed.symm.trans encoded
      · obtain ⟨e, others⟩ := ih member
        exact ⟨e, by simp only [others]⟩

theorem collectMembers_eq_error {members : List (Bytes × Except EncodeError Json)}
    {m : Bytes × Except EncodeError Json} (member : m ∈ members) {e : EncodeError}
    (failed : m.2 = .error e) : ∃ e, collectMembers members = .error e := by
  induction members with
  | nil => contradiction
  | cons first rest ih =>
    obtain ⟨name, result⟩ := first
    cases result with
    | error e => exact ⟨e, rfl⟩
    | ok document =>
      rcases List.mem_cons.mp member with rfl | member
      · contradiction
      · obtain ⟨e, others⟩ := ih member
        exact ⟨e, by simp only [collectMembers, others]⟩

theorem exists_infinite_item {kind : ListKind} {items : List Value}
    (infinite : (Value.list kind items).finite = false) : ∃ v ∈ items, v.finite = false := by
  by_contra none
  refine Bool.eq_false_iff.mp infinite ((every_list_iff kind items).mpr ⟨rfl, ?_⟩)
  intro v member
  by_contra other
  exact none ⟨v, member, Bool.eq_false_of_not_eq_true other⟩

theorem exists_infinite_entry {kind : MapKind} {pairs : List (Value × Value)}
    (hosts : HostKeys pairs) (infinite : (Value.map kind pairs).finite = false) :
    ∃ p ∈ pairs, p.2.finite = false := by
  by_contra none
  refine Bool.eq_false_iff.mp infinite ((every_map_iff kind pairs).mpr ⟨rfl, ?_⟩)
  intro p member
  refine ⟨finite_hostKey (hosts p member), ?_⟩
  by_contra other
  exact none ⟨p, member, Bool.eq_false_of_not_eq_true other⟩

theorem no_document {v : Value} (orderly : v.orderly = true) (infinite : v.finite = false) :
    ∃ e, v.withTextKeys.toJson = .error e := by
  induction v using Value.induct with
  | null | bool | int | text => contradiction
  | double x =>
    have notFinite : ¬ x.isFinite = true := Bool.eq_false_iff.mp infinite
    exact ⟨_, if_neg notFinite⟩
  | single x => contradiction
  | list kind items ih =>
    obtain ⟨rfl, inner⟩ := (orderly_list_iff kind items).mp orderly
    obtain ⟨v, member, part⟩ := exists_infinite_item infinite
    obtain ⟨e, failed⟩ := ih v member (inner v member) part
    obtain ⟨e, failed⟩ := toJsonItems_eq_error (List.mem_map_of_mem member) failed
    exact ⟨e, by simp only [withTextKeys, itemsWithTextKeys_eq, toJson, failed]⟩
  | map kind pairs ih =>
    obtain ⟨general, hosts, distinct, inner⟩ := (orderly_map_iff kind pairs).mp orderly
    obtain ⟨p, member, part⟩ := exists_infinite_entry hosts infinite
    obtain ⟨e, failed⟩ := (ih p member).2 (inner p member).2 part
    have entry : ((named p).1.memberName, (named p).2.toJson) ∈
        sortBy (·.1) (toJsonMembers (pairs.map named).reverse) := by
      rw [(sortBy_perm _ _).mem_iff, toJsonMembers_eq]
      exact List.mem_map.mpr ⟨named p, List.mem_reverse.mpr (List.mem_map_of_mem member), rfl⟩
    obtain ⟨e, failed⟩ := collectMembers_eq_error entry failed
    refine ⟨e, ?_⟩
    rw [withTextKeys_map general, entriesWithTextKeys_of_distinct hosts distinct]
    simp only [toJson, failed]
  | foreign v => contradiction

end Conform.Value
