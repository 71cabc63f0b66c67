/-! A bounded memory of what was used last. The entries stand in the order of
their last use, the latest first; when a new one exceeds the bound, the one that
was not used for longest goes. -/
namespace Conform

structure Recent (α β : Type) where
  capacity : Nat
  entries : List (α × β)
  deriving Repr

namespace Recent

variable {α β ε : Type} [DecidableEq α]

def empty (capacity : Nat) : Recent α β := ⟨capacity, []⟩

/-- The value under a key. -/
def find? (r : Recent α β) (key : α) : Option β :=
  (r.entries.find? fun e => e.1 = key).map (·.2)

def size (r : Recent α β) : Nat := r.entries.length

/-- Puts a value under a key in front, in place of an older one of that key. -/
def add (r : Recent α β) (key : α) (value : β) : Recent α β :=
  { r with entries := ((key, value) :: r.entries.filter fun e => e.1 ≠ key).take r.capacity }

/-- Looks a key up; a key that is there moves to the front. -/
def get (r : Recent α β) (key : α) : Option β × Recent α β :=
  match r.find? key with
  | none => (none, r)
  | some value => (some value, r.add key value)

def purge (r : Recent α β) : Recent α β := { r with entries := [] }

/-- The value of a key, made on demand by a maker that may have effects. Failures
are not remembered. -/
def rememberM {m : Type → Type} [Monad m] (r : Recent α β) (make : α → m (Except ε β)) (key : α) :
    m (Except ε β × Recent α β) :=
  match r.get key with
  | (some value, r) => pure (.ok value, r)
  | (none, r) => do
    match ← make key with
    | .ok value => pure (.ok value, r.add key value)
    | .error e => pure (.error e, r)

/-- The value of a key, made on demand by a function. -/
def remember (r : Recent α β) (make : α → Except ε β) (key : α) : Except ε β × Recent α β :=
  Id.run (r.rememberM (fun key => pure (make key)) key)

end Recent

end Conform
