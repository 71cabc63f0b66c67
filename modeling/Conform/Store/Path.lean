import Conform.Bytes

/-! Paths of files. A path is a way by steps from the root of the file system or
from wherever one is, with the detours taken out. -/
namespace Conform

structure Path where
  absolute : Bool
  steps : List Bytes
  deriving DecidableEq, Repr

namespace Path

/-- One step further. Nothing and a single dot lead nowhere. Two dots take the last
step back; where there is none to take back they lead out of the place one is in,
and nowhere from the root. -/
def go (p : Path) (step : Bytes) : Path :=
  if step = [] ∨ step = "." then p
  else if step = ".." then
    match p.steps.getLast? with
    | none => if p.absolute then p else { p with steps := [".."] }
    | some last =>
      if last = ".." then { p with steps := p.steps ++ [utf8 ".."] }
      else { p with steps := p.steps.dropLast }
  else { p with steps := p.steps ++ [step] }

def ofText (text : Bytes) : Path :=
  (Bytes.splitAt 0x2F text).foldl go ⟨text.head? == some 0x2F, []⟩

def text (p : Path) : Bytes :=
  if p.absolute then 0x2F :: Bytes.join "/" p.steps
  else if p.steps.isEmpty then "."
  else Bytes.join "/" p.steps

/-- The path of a name under a directory; no directory stands for the place one is in. -/
def under (root name : Bytes) : Path :=
  if root.isEmpty then ofText name else ofText (root ++ 0x2F :: name)

def parent (p : Path) : Path := { p with steps := p.steps.dropLast }

def name? (p : Path) : Option Bytes := p.steps.getLast?

end Path

end Conform
