import MiddleEnd.Diagnostic.Basic

/-!
A bounded collection of diagnostics. When it is full, a new one may take the place of the first of
the least severe ones.
-/

namespace MiddleEnd.Diagnostic

structure Bag where
  limit : Nat
  items : List Diagnostic
  dropped : Nat
  deriving DecidableEq, Repr, Inhabited

namespace Bag

def defaultLimit : Nat := 100

def empty (limit : Int) : Bag where
  limit := if limit ≤ 0 then defaultLimit else limit.toNat
  items := []
  dropped := 0

def leastRank : List Diagnostic → UInt8
  | [] => 0
  | [d] => d.severity.rank
  | d :: ds => min d.severity.rank (leastRank ds)

def leastSevere (items : List Diagnostic) : Nat :=
  items.findIdx fun d => d.severity.rank == leastRank items

def add (b : Bag) (d : Diagnostic) : Bag × Bool :=
  if b.items.length < b.limit then ({ b with items := b.items ++ [d] }, true)
  else
    let b := { b with dropped := b.dropped + 1 }
    if leastRank b.items < d.severity.rank then
      ({ b with items := b.items.set (leastSevere b.items) d }, true)
    else (b, false)

def addAll (b : Bag) (ds : List Diagnostic) : Bag :=
  ds.foldl (fun b d => (b.add d).1) b

def hasErrors (b : Bag) : Bool :=
  b.items.any fun d => Severity.error.rank ≤ d.severity.rank

/-- By file, node, severity from the highest down, and code. -/
def precedes (c d : Diagnostic) : Bool :=
  if c.file ≠ d.file then c.file.lt d.file
  else if c.node ≠ d.node then c.node < d.node
  else if c.severity.rank ≠ d.severity.rank then d.severity.rank < c.severity.rank
  else c.code ≤ d.code

/-- Equal items keep their order. -/
def sort (b : Bag) : Bag :=
  { b with items := b.items.mergeSort precedes }

def repeats (c d : Diagnostic) : Bool :=
  c.code == d.code && c.file == d.file && c.node == d.node && c.message == d.message

def dedupFrom : (kept : List Diagnostic) → List Diagnostic → List Diagnostic
  | _, [] => []
  | kept, d :: ds =>
    if kept.any (repeats d) then dedupFrom kept ds else d :: dedupFrom (d :: kept) ds

def dedup (b : Bag) : Bag :=
  { b with items := dedupFrom [] b.items }

end Bag

end MiddleEnd.Diagnostic
