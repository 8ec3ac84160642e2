import MiddleEnd.Ir.Basic

/-!
Control-flow simplification: jumps skip empty blocks, blocks that control cannot reach are removed,
and the rest is renumbered.
-/

namespace MiddleEnd.Ir

namespace Block

def trivialTarget? (b : Block) : Option BlockId :=
  match b.instrs, b.term with
  | [], .goto target => some target
  | _, _ => none

end Block

namespace Terminator

def mapTargets (change : BlockId → BlockId) : Terminator → Terminator
  | .goto target => .goto (change target)
  | .branch cond yes no => .branch cond (change yes) (change no)
  | term => term

end Terminator

/-- Where jumps to a block go instead. The latest entry for a block counts. -/
abbrev Redirects := List (BlockId × BlockId)

namespace Redirects

def apply (redirects : Redirects) (id : BlockId) : BlockId :=
  (redirects.lookup id).getD id

end Redirects

namespace Func

/-- Follows a chain until it leaves the empty blocks or comes back. Every step visits another
block. -/
def chase (f : Func) (redirects : Redirects) :
    (fuel : Nat) → (visited : List BlockId) → (target : BlockId) → BlockId
  | 0, _, target => target
  | fuel + 1, visited, target =>
    if visited.contains target then target
    else
      match redirects.lookup target with
      | some next => f.chase redirects fuel (target :: visited) next
      | none =>
        match (f.block? target).bind Block.trivialTarget? with
        | some next => f.chase redirects fuel (target :: visited) next
        | none => target

def redirectsFrom (f : Func) : Redirects → List Block → Redirects
  | redirects, [] => redirects
  | redirects, b :: rest =>
    match b.trivialTarget? with
    | none => f.redirectsFrom redirects rest
    | some target =>
      let target := f.chase redirects (2 * f.blocks.length + 1) [b.id] target
      f.redirectsFrom ((b.id, target) :: redirects) rest

def redirects (f : Func) : Redirects :=
  f.redirectsFrom [] f.blocks

def mapTargets (f : Func) (change : BlockId → BlockId) : Func :=
  { f with
    blocks := f.blocks.map fun b => { b with term := b.term.mapTargets change }
    entry := change f.entry }

/-- The blocks reached from a worklist, which takes a block at most twice for every block that is
reached. -/
def reachableFrom (f : Func) : (fuel : Nat) → (seen work : List BlockId) → List BlockId
  | 0, seen, _ => seen
  | _ + 1, seen, [] => seen
  | fuel + 1, seen, id :: work =>
    if seen.contains id then f.reachableFrom fuel seen work
    else
      match f.block? id with
      | none => f.reachableFrom fuel seen work
      | some b => f.reachableFrom fuel (id :: seen) (b.term.successors ++ work)

def reachable (f : Func) : List BlockId :=
  f.reachableFrom (2 * f.blocks.length + 2) [] [f.entry]

def keepBlocks (f : Func) (kept : List BlockId) : Func :=
  let positions := (List.range f.blocks.length).filter fun (i : Nat) => kept.contains (i : Int)
  let renumber (id : BlockId) : BlockId :=
    match positions.findIdx? fun (i : Nat) => (i : Int) == id with
    | some position => position
    | none => id
  { f with
    blocks := positions.zipIdx.filterMap fun (i, position) =>
      f.blocks[i]?.map fun b =>
        { b with id := position, term := b.term.mapTargets renumber }
    entry := renumber f.entry }

def simplify (f : Func) : Func :=
  let redirected := f.mapTargets f.redirects.apply
  redirected.keepBlocks redirected.reachable

end Func

end MiddleEnd.Ir
