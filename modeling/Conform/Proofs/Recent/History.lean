import Conform.Declaration.Catalog
import Conform.Proofs.Recent
import Mathlib.Data.List.Dedup
import Mathlib.Data.List.Induction

/-! What a bounded memory holds after any number of calls. A call for a key that can be
made uses that key, whether its value was there or not, and puts it in front. So the
memory is the front part of a list without a bound: the keys that could be made, each
once, the one used last first. A key that was forgotten and is asked for again comes to
the front of both. -/
namespace Conform.Recent

variable {α β ε : Type} [DecidableEq α] {make : α → Except ε β} {history : List α} {key : α}

/-! ### Uses -/

/-- The keys that could be made among those asked for, each once, the one used last first. -/
def lastUsed (make : α → Except ε β) (history : List α) : List α :=
  (history.filter fun key => (make key).toBool).dedup.reverse

theorem dedup_concat (list : List α) (a : α) :
    (list ++ [a]).dedup = list.dedup.filter (· ≠ a) ++ [a] := by
  induction list with
  | nil => simp
  | cons b rest ih =>
    by_cases again : b ∈ rest
    · rw [List.cons_append, List.dedup_cons_of_mem (List.mem_append_left [a] again),
        List.dedup_cons_of_mem again, ih]
    · by_cases same : b = a
      · rw [List.cons_append, List.dedup_cons_of_mem (by simp [same]), ih,
          List.dedup_cons_of_notMem again, List.filter_cons_of_neg (by simp [same])]
      · rw [List.cons_append, List.dedup_cons_of_notMem (by simp [again, same]), ih,
          List.dedup_cons_of_notMem again, List.filter_cons_of_pos (by simp [same]),
          List.cons_append]

theorem lastUsed_of_made {value : β} (made : make key = .ok value) :
    lastUsed make (history ++ [key]) = key :: (lastUsed make history).filter (· ≠ key) := by
  have passes : [key].filter (fun key => (make key).toBool) = [key] :=
    List.filter_cons_of_pos (by rw [made]; rfl)
  rw [lastUsed, List.filter_append, passes, dedup_concat, List.reverse_concat, lastUsed,
    List.filter_reverse]

theorem lastUsed_of_failed {e : ε} (failed : make key = .error e) :
    lastUsed make (history ++ [key]) = lastUsed make history := by
  have fails : [key].filter (fun key => (make key).toBool) = [] :=
    List.filter_cons_of_neg (by rw [failed]; exact Bool.false_ne_true)
  rw [lastUsed, List.filter_append, fails, List.append_nil, lastUsed]

theorem nodup_lastUsed (make : α → Except ε β) (history : List α) : (lastUsed make history).Nodup :=
  List.nodup_reverse.mpr (List.nodup_dedup _)

/-- Without one of its members, a front part that has one place more reaches as far. -/
theorem take_filter_take {list : List α} (distinct : list.Nodup) (a : α) (n : Nat) :
    ((list.take (n + 1)).filter (· ≠ a)).take n = (list.filter (· ≠ a)).take n := by
  induction list generalizing n with
  | nil => rfl
  | cons b rest ih =>
    obtain ⟨fresh, others⟩ := List.nodup_cons.mp distinct
    by_cases same : b = a
    · have whole : ∀ front ⊆ rest, front.filter (· ≠ a) = front := by
        intro front inside
        refine List.filter_eq_self.mpr fun c member => decide_eq_true ?_
        rintro rfl
        exact fresh (same ▸ inside member)
      rw [List.take_succ_cons, List.filter_cons_of_neg (by simp [same]),
        List.filter_cons_of_neg (by simp [same]), whole _ (List.take_subset n rest),
        whole rest (List.Subset.refl rest), List.take_take, Nat.min_self]
    · rw [List.take_succ_cons, List.filter_cons_of_pos (by simp [same]),
        List.filter_cons_of_pos (by simp [same])]
      cases n with
      | zero => rfl
      | succ n => rw [List.take_succ_cons, List.take_succ_cons, ih others]

/-- Putting a member in front forgets the same whether the rest was cut off before or not. -/
theorem take_cons_filter_take {list : List α} (distinct : list.Nodup) (a : α) (n : Nat) :
    (a :: (list.take n).filter (· ≠ a)).take n = (a :: list.filter (· ≠ a)).take n := by
  cases n with
  | zero => rfl
  | succ n => rw [List.take_succ_cons, List.take_succ_cons, take_filter_take distinct]

/-! ### Calls -/

variable {r : Recent α β}

/-- One call: a key that can be made comes to the front, and a failure changes nothing. -/
theorem keys_remember (all : r.All fun k v => make k = .ok v) (key : α) :
    (∀ value, make key = .ok value →
      (r.remember make key).2.keys = (key :: r.keys.filter (· ≠ key)).take r.capacity) ∧
    ∀ e, make key = .error e → (r.remember make key).2 = r := by
  rw [remember]
  cases sought : r.find? key with
  | some value =>
    rw [rememberM_of_find? sought, all.find? sought]
    refine ⟨fun _ _ => keys_add r key value, fun _ failed => ?_⟩
    cases failed
  | none =>
    rw [rememberM_of_absent sought]
    cases make key with
    | ok value =>
      refine ⟨fun _ _ => keys_add r key value, fun _ failed => ?_⟩
      cases failed
    | error e =>
      refine ⟨fun _ made => ?_, fun _ _ => rfl⟩
      cases made

theorem capacity_remember (r : Recent α β) (make : α → Except ε β) (key : α) :
    (r.remember make key).2.capacity = r.capacity := by
  rw [remember]
  cases sought : r.find? key with
  | some value =>
    rw [rememberM_of_find? sought]
    rfl
  | none =>
    rw [rememberM_of_absent sought]
    cases make key <;> rfl

/-! ### Sessions -/

/-- A maker that also writes down the keys it is asked for. -/
def noting (make : α → Except ε β) (key : α) : StateM (List α) (Except ε β) := fun asked =>
  (make key, asked ++ [key])

/-- A memory in use, the answers it gave and the keys that its maker was asked for, first
to last. -/
structure Session (α β ε : Type) where
  memory : Recent α β
  answers : List (Except ε β)
  asked : List α

namespace Session

def start (capacity : Nat) : Session α β ε := ⟨.empty capacity, [], []⟩

/-- The session after one more call. -/
def call (make : α → Except ε β) (s : Session α β ε) (key : α) : Session α β ε :=
  let ((answer, memory), asked) := (s.memory.rememberM (noting make) key).run s.asked
  ⟨memory, s.answers ++ [answer], asked⟩

/-- The session after calls, the first of which comes first. -/
def calls (make : α → Except ε β) (s : Session α β ε) (history : List α) : Session α β ε :=
  history.foldl (call make) s

theorem calls_concat (make : α → Except ε β) (s : Session α β ε) (history : List α) (key : α) :
    s.calls make (history ++ [key]) = (s.calls make history).call make key :=
  List.foldl_concat (call make) s key history

/-- Writing down what the maker is asked for does not change what is remembered, and
nothing is made that was there. -/
theorem call_eq (make : α → Except ε β) (s : Session α β ε) (key : α) :
    s.call make key = ⟨(s.memory.remember make key).2,
      s.answers ++ [(s.memory.remember make key).1],
      s.asked ++ if key ∈ s.memory.keys then [] else [key]⟩ := by
  rw [call, remember]
  cases sought : s.memory.find? key with
  | some value =>
    rw [rememberM_of_find? sought, rememberM_of_find? sought,
      if_pos (mem_keys_iff.mpr ⟨value, sought⟩), List.append_nil]
    rfl
  | none =>
    have absent : key ∉ s.memory.keys := by
      intro member
      obtain ⟨value, found⟩ := mem_keys_iff.mp member
      rw [sought] at found
      contradiction
    rw [rememberM_of_absent sought, rememberM_of_absent sought, if_neg absent]
    unfold noting
    cases make key <;> rfl

/-- A session after calls for the keys: all were answered as the maker answers, and the
memory holds the front part of the keys in the order of their last use. -/
structure Tracks (make : α → Except ε β) (capacity : Nat) (history : List α) (s : Session α β ε) :
    Prop where
  bound : s.memory.capacity = capacity
  answers : s.answers = history.map make
  held : s.memory.keys = (lastUsed make history).take capacity
  made : s.memory.All fun k v => make k = .ok v

variable {capacity : Nat} {s : Session α β ε}

theorem tracks_start (make : α → Except ε β) (capacity : Nat) :
    Tracks make capacity [] (start capacity) :=
  ⟨rfl, rfl, List.take_nil.symm, all_empty capacity⟩

theorem Tracks.call (tracks : Tracks make capacity history s) (key : α) :
    Tracks make capacity (history ++ [key]) (s.call make key) := by
  obtain ⟨answer, made⟩ := tracks.made.remember key
  obtain ⟨used, failed⟩ := keys_remember tracks.made key
  have bound := capacity_remember s.memory make key
  rw [call_eq]
  refine ⟨bound.trans tracks.bound, ?_, ?_, made⟩
  · rw [answer, tracks.answers, List.map_append]
    rfl
  · cases result : make key with
    | ok value =>
      rw [used value result, tracks.held, tracks.bound, lastUsed_of_made result,
        take_cons_filter_take (nodup_lastUsed make history)]
    | error e => rw [failed e result, tracks.held, lastUsed_of_failed result]

theorem tracks_calls (make : α → Except ε β) (capacity : Nat) (history : List α) :
    Tracks make capacity history ((start capacity).calls make history) := by
  induction history using List.reverseRecOn with
  | nil => exact tracks_start make capacity
  | append_singleton front key ih =>
    rw [calls_concat]
    exact ih.call key

end Session

/-- A remembering reader of declarations goes through the session of its function. -/
theorem catalog_session (aliases : Declaration.Aliases) (size : Int) (history : List Bytes) :
    history.foldl (fun c source => (c.parse source).2) (Declaration.Catalog.make aliases size) =
      ⟨aliases, ((Session.start (Declaration.capacityOf size)).calls
        (Declaration.parse aliases) history).memory⟩ := by
  induction history using List.reverseRecOn with
  | nil => rfl
  | append_singleton front source ih =>
    rw [List.foldl_concat, ih, Session.calls_concat, Session.call_eq]
    rfl

/-- A reader of declarations, or of anything else, that remembers as many as its size says
is an exact memory of what was used last. After any calls, each was answered as the maker
answers; what is held are the keys used last of those that could be made, with the values
they have, so their number does not exceed the size; and a further call that fails changes
nothing, while the maker is asked exactly when the key is not among those held. -/
theorem remembers_last_used (make : α → Except ε β) {size : Int} (positive : 1 ≤ size)
    (history : List α) :
    let after (history : List α) := (Session.start (Declaration.capacityOf size)).calls make history
    let held := (lastUsed make history).take size.toNat
    (after history).answers = history.map make ∧
      (after history).memory.keys = held ∧
      (∀ e ∈ (after history).memory.entries, make e.1 = .ok e.2) ∧
      (after history).memory.size ≤ size.toNat ∧
      ∀ key, (∀ e, make key = .error e → (after (history ++ [key])).memory = (after history).memory) ∧
        (after (history ++ [key])).asked =
          (after history).asked ++ if key ∈ held then [] else [key] := by
  intro after held
  have bound : Declaration.capacityOf size = size.toNat := if_pos positive
  have tracks := Session.tracks_calls make (Declaration.capacityOf size) history
  have same : (after history).memory.keys = held := by rw [tracks.held, bound]
  refine ⟨tracks.answers, same, tracks.made, ?_, fun key => ?_⟩
  · rw [size_eq, same]
    exact List.length_take_le size.toNat _
  · have next : after (history ++ [key]) = (after history).call make key := Session.calls_concat ..
    rw [next, Session.call_eq, ← same]
    exact ⟨(keys_remember tracks.made key).2, rfl⟩

/-- A reader with room for two: one declaration fails, one is used twice, and one is
forgotten for a third and has to be read again. -/
theorem remembers_last_used_declarations :
    let history : List Bytes := ["'a'", "x", "1", "'a'", "2"]
    let after := (Session.start (Declaration.capacityOf 2)).calls (Declaration.parse [])
    (1 : Int) ≤ 2 ∧ (after history).answers = history.map (Declaration.parse []) ∧
      (history.foldl (fun c source => (c.parse source).2)
        (Declaration.Catalog.make [] 2)).recent.keys = ["2", "'a'"] ∧
      (after (history ++ [utf8 "1"])).asked = (after history).asked ++ [utf8 "1"] := by
  intro history after
  have held : (lastUsed (Declaration.parse []) history).take 2 = ["2", "'a'"] := by decide +kernel
  obtain ⟨answers, keys, _, _, next⟩ :=
    remembers_last_used (Declaration.parse []) (by decide : (1 : Int) ≤ 2) history
  have asked := (next (utf8 "1")).2
  rw [if_neg (by rw [show (2 : Int).toNat = 2 from rfl, held]; decide)] at asked
  rw [catalog_session]
  exact ⟨by decide, answers, keys.trans held, asked⟩

end Conform.Recent
