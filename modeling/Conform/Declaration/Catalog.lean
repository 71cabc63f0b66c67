import Conform.Declaration.Parse
import Conform.Recent

/-! Readers of declarations that remember what they read, and pools of them. A
pool has one reader without aliases, which is made when it is first asked for
and shared from then on; every set of aliases gets a reader of its own. -/
namespace Conform.Declaration

/-- A remembering reader. -/
structure Catalog where
  aliases : Aliases
  recent : Recent Bytes Ty
  deriving Repr

/-- The number of declarations remembered when no positive number is given. -/
def usualCapacity : Nat := 512

def capacityOf (size : Int) : Nat := if 0 < size then size.toNat else usualCapacity

namespace Catalog

def make (aliases : Aliases) (size : Int) : Catalog := ⟨aliases, .empty (capacityOf size)⟩

def parse (c : Catalog) (source : Bytes) : Except DeclarationError Ty × Catalog :=
  let (result, recent) := c.recent.remember (Declaration.parse c.aliases) source
  (result, { c with recent })

end Catalog

/-- What a pool is asked for. -/
inductive Specification where
  | plain
  | aliases (names : Aliases)
  /-- Something that specifies no reader, of the named type. -/
  | other (typeName : Bytes)
  deriving Repr

/-- Nothing can be made of a specification of this type. -/
structure SpecificationError where
  typeName : Bytes
  deriving DecidableEq, Repr

def SpecificationError.report (e : SpecificationError) : Report :=
  .simple .unhandledSpecification ("Unhandled specification of type `" ++ e.typeName ++ "`.")
    [("specification", .text e.typeName)]

/-- Readers by number, with the number of the shared one. -/
structure Pool where
  size : Int
  catalogs : List Catalog
  shared : Option Nat

namespace Pool

def empty (size : Int) : Pool := ⟨size, [], none⟩

/-- Adds a reader; it is known by its number. -/
def insert (p : Pool) (catalog : Catalog) : Nat × Pool :=
  (p.catalogs.length, { p with catalogs := p.catalogs ++ [catalog] })

/-- The number of the reader that a specification asks for. -/
def get (p : Pool) : Specification → Except SpecificationError Nat × Pool
  | .other typeName => (.error ⟨typeName⟩, p)
  | .aliases names =>
    let (number, p) := p.insert (.make names p.size)
    (.ok number, p)
  | .plain =>
    match p.shared with
    | some number => (.ok number, p)
    | none =>
      let (number, p) := p.insert (.make [] p.size)
      (.ok number, { p with shared := some number })

/-- Reads with the reader of a number. -/
def parse (p : Pool) (number : Nat) (source : Bytes) : Option (Except DeclarationError Ty) × Pool :=
  match p.catalogs[number]? with
  | none => (none, p)
  | some catalog =>
    let (result, catalog) := catalog.parse source
    (some result, { p with catalogs := p.catalogs.set number catalog })

end Pool

end Conform.Declaration
