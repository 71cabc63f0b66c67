import Conform.Proofs.Store.Items
import Conform.Proofs.Store.Path

/-! A directory is as good as memory. Memory checks a key and a call and then looks
up or sets an item; a directory checks them in another order, makes itself, takes a
lock, writes a temporary file and renames it. What can be seen of a directory, its
files without a leading dot, are nevertheless the items of a memory that was asked
the same, and either both fail or neither does. -/
namespace Conform

namespace Directory

variable {d d' : Directory} {name : Bytes}

section Paths

variable (step : IsStep name) (same : d'.root = d.root)

include step same

theorem nameAt?_pathOf : d'.nameAt? (d.pathOf name) = some name := by
  simp [nameAt?, pathOf, Path.under_step step, same]

theorem readAt?_pathOf : d'.readAt? (d.pathOf name) = d'.files.find? name := by
  rw [readAt?, nameAt?_pathOf step same, Option.bind_some]

theorem writeAt_pathOf (data : Bytes) : d'.writeAt (d.pathOf name) data = d'.write name data := by
  rw [writeAt, nameAt?_pathOf step same]

theorem removeAt_pathOf :
    d'.removeAt (d.pathOf name) = { d' with files := d'.files.remove name } := by
  rw [removeAt, nameAt?_pathOf step same]

/-- A file that was just written is renamed with its data. -/
theorem rename_written {target : Bytes} (step' : IsStep target) (data : Bytes) :
    (d'.write name data).rename (d.pathOf name) (d.pathOf target) =
      { d' with place := .made, files := ((d'.files.set name data).remove name).set target data } := by
  have same' : (d'.write name data).root = d.root := same
  have read : (d'.write name data).readAt? (d.pathOf name) = some data := by
    rw [readAt?_pathOf step same', write, Items.find?_set, Function.update_self]
  rw [rename, read]
  simp only
  rw [removeAt_pathOf step same']
  apply writeAt_pathOf step'
  exact same

end Paths

/-- The files after data was put under a key, by way of a temporary file. -/
def filesAfter (files : Items) (number : Nat) (key data : Bytes) : Items :=
  (((files.set lockName []).set (temporaryName number) data).remove (temporaryName number)).set key
    data

section Reachable

variable (reachable : ∀ file, d.place ≠ .under file)

include reachable

theorem get_eq (unlimited : d.nameLimit = none) (call : Call) (key : Bytes) :
    d.get call key = (Store.allow call key).map fun _ => d.files.find? key := by
  rw [get, Store.allow]
  cases checked : checkKey key with
  | error e => rfl
  | ok _ =>
    have short : d.tooLong key = false := by rw [tooLong, unlimited]
    simp only [readAt?_pathOf (isStep_of_key checked) rfl, short]
    cases call.canceled with
    | true => rfl
    | false =>
      cases stands : d.place with
      | under file => exact absurd stands (reachable file)
      | made => rfl
      | unmade => rfl

theorem put_canceled (number : Nat) {key : Bytes} (checked : checkKey key = .ok ()) (data : Bytes) :
    d.put number ⟨true⟩ key data = (.error (.lockRefused d.root), { d with place := .made }) := by
  rw [put, checked]
  cases stands : d.place with
  | under file => exact absurd stands (reachable file)
  | made => rfl
  | unmade => rfl

theorem put_live (unlimited : d.nameLimit = none) (number : Nat) {key : Bytes}
    (checked : checkKey key = .ok ()) (data : Bytes) :
    d.put number ⟨false⟩ key data =
      (.ok (), { d with place := .made, files := filesAfter d.files number key data }) := by
  have short : d.tooLong key = false := by rw [tooLong, unlimited]
  let made : Directory := { d with place := .made }
  have locked : made.writeAt (d.pathOf lockName) [] = made.write lockName [] :=
    writeAt_pathOf isStep_lockName rfl []
  have written : (made.write lockName []).writeAt (d.pathOf (temporaryName number)) data =
      (made.write lockName []).write (temporaryName number) data :=
    writeAt_pathOf (isStep_temporaryName number) rfl data
  have renamed : ((made.write lockName []).write (temporaryName number) data).rename
      (d.pathOf (temporaryName number)) (d.pathOf key) =
        { d with place := .made, files := filesAfter d.files number key data } :=
    rename_written (isStep_temporaryName number) rfl (isStep_of_key checked) data
  rw [put, checked]
  cases stands : d.place with
  | under file => exact absurd stands (reachable file)
  | made => simp only [Bool.false_eq_true, if_false, short, locked, written, renamed, made]
  | unmade => simp only [Bool.false_eq_true, if_false, short, locked, written, renamed, made]

end Reachable

/-- The directory shows the items, and of hidden files it has the lock at most. -/
structure Shows (d : Directory) (items : Items) : Prop where
  reachable : ∀ file, d.place ≠ .under file
  unlimited : d.nameLimit = none
  visible : d.visible = items
  tidy : ∀ file ∈ d.files, isHidden file.1 = true → file.1 = lockName

theorem visible_eq (d : Directory) : d.visible = d.files.selected fun name => !isHidden name := rfl

theorem visible_filesAfter {key : Bytes} (checked : checkKey key = .ok ()) (files : Items)
    (number : Nat) (data : Bytes) :
    (filesAfter files number key data).selected (fun name => !isHidden name) =
      (files.selected fun name => !isHidden name).set key data := by
  have shown : (!isHidden key) = true := by rw [isHidden_of_key checked]; rfl
  have lock : (!isHidden lockName) = false := by rw [isHidden_lockName]; rfl
  have temporary : (!isHidden (temporaryName number)) = false := by
    rw [isHidden_temporaryName]; rfl
  rw [filesAfter, Items.selected_set shown, Items.selected_remove temporary,
    Items.selected_set_other temporary, Items.selected_set_other lock]

theorem tidy_filesAfter {files : Items}
    (tidy : ∀ file ∈ files, isHidden file.1 = true → file.1 = lockName) {key : Bytes}
    (checked : checkKey key = .ok ()) (number : Nat) (data : Bytes) :
    ∀ file ∈ filesAfter files number key data, isHidden file.1 = true → file.1 = lockName := by
  intro file member hidden
  rcases Items.mem_set member with rfl | member
  · rw [isHidden_of_key checked] at hidden
    contradiction
  · obtain ⟨inside, other⟩ := List.mem_filter.mp member
    rw [bne_iff_ne] at other
    rcases Items.mem_set inside with rfl | inside
    · exact absurd rfl other
    · rcases Items.mem_set inside with rfl | inside
      · rfl
      · exact tidy file inside hidden

end Directory

/-! ### Histories -/

/-- What a store can be asked. -/
inductive StoreCall where
  | get (call : Call) (key : Bytes)
  | put (call : Call) (key data : Bytes)

/-- What a caller learns, the reasons of failures aside. -/
inductive StoreAnswer where
  | found (data : Option Bytes)
  | stored
  | failed
  deriving DecidableEq

namespace Store

variable {σ : Type}

def answer (store : Store σ) (state : σ) : StoreCall → StoreAnswer × σ
  | .get call key =>
    match store.get state call key with
    | (.ok data, state) => (.found data, state)
    | (.error _, state) => (.failed, state)
  | .put call key data =>
    match store.put state call key data with
    | (.ok (), state) => (.stored, state)
    | (.error _, state) => (.failed, state)

/-- The answers of stores of one kind to calls in turn, and the state they leave. With
each call comes what is chosen for it. -/
def run {γ : Type} (store : γ → Store σ) : σ → List (StoreCall × γ) → List StoreAnswer × σ
  | state, [] => ([], state)
  | state, (call, choice) :: rest =>
    let (first, state) := (store choice).answer state call
    let (others, state) := run store state rest
    (first :: others, state)

end Store

open Store

/-- One call: both answer alike, and the directory still shows the items. -/
theorem Directory.Shows.answer {d : Directory} {items : Items} (shows : d.Shows items)
    (choose : Directory → Nat) (call : StoreCall) :
    ((directoryBy choose).answer d call).1 = (memory.answer items call).1 ∧
      ((directoryBy choose).answer d call).2.Shows (memory.answer items call).2 ∧
      ((directoryBy choose).answer d call).2.root = d.root := by
  obtain ⟨reachable, unlimited, visible, tidy⟩ := shows
  cases call with
  | get call key =>
    have same : (allow call key).map (fun _ => d.files.find? key) =
        (allow call key).map fun _ => items.find? key := by
      rw [allow]
      cases checked : checkKey key with
      | error e => rfl
      | ok _ =>
        have shown : (!isHidden key) = true := by rw [isHidden_of_key checked]; rfl
        rw [← visible, Directory.visible_eq, Items.find?_selected shown]
    simp only [Store.answer, directoryBy, memory, Directory.get_eq reachable unlimited, same]
    cases allow call key with
    | error e => exact ⟨rfl, ⟨reachable, unlimited, visible, tidy⟩, rfl⟩
    | ok _ => exact ⟨rfl, ⟨reachable, unlimited, visible, tidy⟩, rfl⟩
  | put call key data =>
    obtain ⟨canceled⟩ := call
    simp only [Store.answer, directoryBy, memory, allow]
    cases checked : checkKey key with
    | error e =>
      rw [Directory.put, checked]
      exact ⟨rfl, ⟨reachable, unlimited, visible, tidy⟩, rfl⟩
    | ok _ =>
      cases canceled with
      | true =>
        rw [Directory.put_canceled reachable _ checked]
        exact ⟨rfl, ⟨nofun, unlimited, visible, tidy⟩, rfl⟩
      | false =>
        rw [Directory.put_live reachable unlimited _ checked]
        refine ⟨rfl, ⟨nofun, unlimited, ?_, ?_⟩, rfl⟩
        · rw [Directory.visible_eq, Directory.visible_filesAfter checked, ← visible]
          rfl
        · exact Directory.tidy_filesAfter tidy checked _ data

theorem Directory.Shows.run {d : Directory} {items : Items} (shows : d.Shows items)
    (calls : List (StoreCall × (Directory → Nat))) :
    (Store.run directoryBy d calls).1 = (Store.run (fun _ => memory) items calls).1 ∧
      (Store.run directoryBy d calls).2.Shows (Store.run (fun _ => memory) items calls).2 ∧
      (Store.run directoryBy d calls).2.root = d.root := by
  induction calls generalizing d items with
  | nil => exact ⟨rfl, shows, rfl⟩
  | cons first rest ih =>
    obtain ⟨call, choose⟩ := first
    obtain ⟨same, next, root⟩ := shows.answer choose call
    obtain ⟨others, after, root'⟩ := ih next
    refine ⟨?_, after, root'.trans root⟩
    simp only [Store.run, same, others]

/-- A directory that is empty at first answers all calls, with keys of any octets and
whether they were given up or not, as memory does: it fails when memory fails and
finds what memory finds. Afterwards its visible files are the items in memory, and no
temporary file is left. Whatever numbers temporary files get, a key leads to a file of
its own directly in the directory, which is not the lock and no temporary file. -/
theorem Directory.refines_memory {d : Directory} (empty : d.files = [])
    (reachable : ∀ file, d.place ≠ .under file) (unlimited : d.nameLimit = none)
    (calls : List (StoreCall × (Directory → Nat))) :
    (Store.run directoryBy d calls).1 = (Store.run (fun _ => memory) [] calls).1 ∧
      (Store.run directoryBy d calls).2.visible = (Store.run (fun _ => memory) [] calls).2 ∧
      (∀ file ∈ (Store.run directoryBy d calls).2.files, isHidden file.1 = true →
        file.1 = lockName) ∧
      ∀ key, checkKey key = .ok () →
        ((Store.run directoryBy d calls).2.pathOf key).parent = .ofText d.root ∧
        ((Store.run directoryBy d calls).2.pathOf key).name? = some key ∧
        key ≠ lockName ∧ ∀ number, key ≠ temporaryName number := by
  have start : d.Shows [] := by
    refine ⟨reachable, unlimited, ?_, ?_⟩
    · rw [Directory.visible_eq, empty]
      rfl
    · rw [empty]
      exact nofun
  obtain ⟨same, shows, root⟩ := start.run calls
  refine ⟨same, shows.visible, shows.tidy, fun key checked => ?_⟩
  have path := Path.under_step (isStep_of_key checked) d.root
  have plain := isHidden_of_key checked
  rw [Directory.pathOf, root, path, Path.parent_child, Path.name?_child]
  exact ⟨rfl, rfl, ne_of_isHidden plain isHidden_lockName,
    fun number => ne_of_isHidden plain (isHidden_temporaryName number)⟩

/-- A write that was given up, the same write again, a key that would leave the
directory, and a read. -/
theorem Directory.refines_memory_retried :
    let d := Directory.fresh (utf8 "cache") none
    let calls : List (StoreCall × (Directory → Nat)) :=
      [(.put ⟨true⟩ (utf8 "a.json") (utf8 "x"), unusedNumber),
        (.put ⟨false⟩ (utf8 "a.json") (utf8 "x"), unusedNumber),
        (.put ⟨false⟩ (utf8 "../b") (utf8 "y"), unusedNumber),
        (.get ⟨false⟩ (utf8 "a.json"), unusedNumber)]
    d.files = [] ∧ (∀ file, d.place ≠ .under file) ∧ d.nameLimit = none ∧
      (Store.run directoryBy d calls).1 = [.failed, .stored, .failed, .found (some (utf8 "x"))] ∧
      (Store.run directoryBy d calls).2.visible = [(utf8 "a.json", utf8 "x")] := by
  intro d calls
  obtain ⟨same, shown, _⟩ := @Directory.refines_memory d rfl nofun rfl calls
  refine ⟨rfl, nofun, rfl, same.trans ?_, shown.trans ?_⟩
  · decide +kernel
  · decide +kernel

end Conform
