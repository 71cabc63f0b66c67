import Conform.Proofs.Value.Conversion

/-! Setting one key after another. Keys of hosts are the same key only when they
are equal, so what is set leaves each key once, and as many keys as were set
exactly when no key was set twice. -/
namespace Conform.Value

/-- The entries with further ones set, first to last. -/
def setAll (done new : List (Value × Value)) : List (Value × Value) :=
  new.foldl (fun done p => insertEntry p.1 p.2 done) done

theorem setAll_cons (done : List (Value × Value)) (p : Value × Value)
    (new : List (Value × Value)) :
    setAll done (p :: new) = setAll (insertEntry p.1 p.2 done) new := rfl

/-- The keys of entries. -/
def pairKeys (pairs : List (Value × Value)) : List Value := pairs.map (·.1)

/-- Different keys have different texts where texts tell the keys apart. -/
theorem pairTexts_nodup {pairs : List (Value × Value)}
    (told : ∀ p ∈ pairs, ∀ q ∈ pairs, p.1.keyText = q.1.keyText → p.1 = q.1)
    (distinct : (pairKeys pairs).Nodup) : (pairTexts pairs).Nodup := by
  have renamed : pairTexts pairs = (pairKeys pairs).map keyText := by
    rw [pairTexts, pairKeys, List.map_map]
    rfl
  rw [renamed]
  refine distinct.map_on ?_
  intro k kMember l lMember same
  obtain ⟨p, pMember, rfl⟩ := List.mem_map.mp kMember
  obtain ⟨q, qMember, rfl⟩ := List.mem_map.mp lMember
  exact told p pMember q qMember same

theorem sameKey_iff_of_host {k l : Value} (host : k.isHostKey = true) :
    sameKey k l = true ↔ k = l := by
  cases k <;> cases l <;> simp_all [sameKey, isHostKey]

theorem insertEntry_new {key value : Value} {pairs : List (Value × Value)}
    (new : ∀ p ∈ pairs, sameKey p.1 key = false) :
    insertEntry key value pairs = pairs ++ [(key, value)] := by
  induction pairs with
  | nil => rfl
  | cons first rest ih =>
    obtain ⟨other, others⟩ := List.forall_mem_cons.mp new
    rw [insertEntry, if_neg (by simp [other]), ih others, List.cons_append]

section Hosts

/-- Every key is one of a host. -/
def HostKeys (pairs : List (Value × Value)) : Prop := ∀ p ∈ pairs, p.1.isHostKey = true

theorem HostKeys.insertEntry {key value : Value} {pairs : List (Value × Value)}
    (hosts : HostKeys pairs) (host : key.isHostKey = true) :
    HostKeys (insertEntry key value pairs) := by
  intro p member
  rcases mem_insertEntry member with rfl | inside
  · exact host
  · exact hosts p inside

theorem mem_pairKeys_insertEntry {key value : Value} {pairs : List (Value × Value)}
    (hosts : HostKeys pairs) (k : Value) :
    k ∈ pairKeys (insertEntry key value pairs) ↔ k = key ∨ k ∈ pairKeys pairs := by
  induction pairs with
  | nil => simp [insertEntry, pairKeys]
  | cons first rest ih =>
    obtain ⟨host, others⟩ := List.forall_mem_cons.mp hosts
    rw [insertEntry]
    split
    · rename_i same
      obtain rfl := (sameKey_iff_of_host host).mp same
      simp [pairKeys]
    · have inner := ih others
      simp only [pairKeys, List.map_cons, List.mem_cons] at inner ⊢
      rw [inner]
      tauto

theorem pairKeys_insertEntry_nodup {key value : Value} {pairs : List (Value × Value)}
    (hosts : HostKeys pairs) (distinct : (pairKeys pairs).Nodup) :
    (pairKeys (insertEntry key value pairs)).Nodup := by
  induction pairs with
  | nil => simp [insertEntry, pairKeys]
  | cons first rest ih =>
    obtain ⟨host, others⟩ := List.forall_mem_cons.mp hosts
    rw [pairKeys, List.map_cons, List.nodup_cons] at distinct
    rw [insertEntry]
    split
    · rename_i same
      rw [pairKeys, List.map_cons, List.nodup_cons, ← (sameKey_iff_of_host host).mp same]
      exact distinct
    · rename_i other
      rw [pairKeys, List.map_cons, List.nodup_cons]
      refine ⟨?_, ih others distinct.2⟩
      intro again
      rcases (mem_pairKeys_insertEntry others first.1).mp again with same | inside
      · exact other ((sameKey_iff_of_host host).mpr same)
      · exact distinct.1 inside

variable {done new : List (Value × Value)}

theorem mem_setAll {p : Value × Value} (member : p ∈ setAll done new) : p ∈ done ∨ p ∈ new := by
  induction new generalizing done with
  | nil => exact Or.inl member
  | cons q rest ih =>
    rcases ih member with inside | inside
    · rcases mem_insertEntry inside with rfl | inside
      · exact Or.inr List.mem_cons_self
      · exact Or.inl inside
    · exact Or.inr (List.mem_cons_of_mem _ inside)

/-- No key is there twice after all have been set. -/
theorem pairKeys_setAll_nodup (hosts : HostKeys done) (hosts' : HostKeys new)
    (distinct : (pairKeys done).Nodup) : (pairKeys (setAll done new)).Nodup := by
  induction new generalizing done with
  | nil => exact distinct
  | cons p rest ih =>
    obtain ⟨host, others⟩ := List.forall_mem_cons.mp hosts'
    exact ih (hosts.insertEntry host) others (pairKeys_insertEntry_nodup hosts distinct)

/-- Keys that are all different are all added. -/
theorem setAll_of_distinct (hosts : HostKeys done) (hosts' : HostKeys new)
    (distinct : (pairKeys (done ++ new)).Nodup) : setAll done new = done ++ new := by
  induction new generalizing done with
  | nil => rw [List.append_nil]; rfl
  | cons p rest ih =>
    obtain ⟨host, others⟩ := List.forall_mem_cons.mp hosts'
    have fresh : ∀ q ∈ done, sameKey q.1 p.1 = false := by
      intro q member
      rw [Bool.eq_false_iff, ne_eq, sameKey_iff_of_host (hosts q member)]
      intro same
      rw [pairKeys, List.map_append, List.nodup_append] at distinct
      exact distinct.2.2 q.1 (List.mem_map_of_mem member) p.1 (by simp) same
    have added : insertEntry p.1 p.2 done = done ++ [p] := insertEntry_new fresh
    rw [setAll_cons, ih (hosts.insertEntry host) others (by rw [added]; simpa using distinct),
      added, List.append_assoc, List.singleton_append]

/-- As many keys are there as were set exactly when no key was set twice. -/
theorem length_setAll_iff (hosts : HostKeys new) :
    (setAll [] new).length = new.length ↔ (pairKeys new).Nodup := by
  have none : HostKeys [] := nofun
  constructor
  · intro same
    have inside : pairKeys (setAll [] new) ⊆ pairKeys new := by
      intro k member
      obtain ⟨p, there, rfl⟩ := List.mem_map.mp member
      exact List.mem_map_of_mem ((mem_setAll there).resolve_left List.not_mem_nil)
    have distinct := pairKeys_setAll_nodup none hosts List.nodup_nil
    have perm := (List.subperm_of_subset distinct inside).perm_of_length_le (by simp [pairKeys, same])
    exact perm.nodup_iff.mp distinct
  · intro distinct
    rw [setAll_of_distinct none hosts (by simpa using distinct), List.nil_append]

end Hosts

end Conform.Value
