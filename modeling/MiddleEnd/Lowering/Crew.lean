import MiddleEnd.Lowering.Lower

/-!
The functions of a module, lowered side by side over one table. Each is begun and ended in turns of
its own, and behind a failure no other is begun.
-/

namespace MiddleEnd.Lowering

open Scoping (Table)

/-- Functions go by their positions. The first failure is the one that counts. -/
structure Crew where
  table : Table
  working : List Nat := []
  done : List (Nat × Ir.Func) := []
  failure : Option LowerFailure := none

inductive Move where
  | begun (f : Func)
  | ended (outcome : Except LowerError Ir.Func)

namespace Crew

def fail (s : Crew) (e : LowerFailure) : Crew :=
  { s with failure := s.failure.or (some e) }

def finish (s : Crew) (i : Nat) (f : Func) (outcome : Except LowerError Ir.Func) : Crew :=
  let s := { s with working := s.working.erase i }
  match outcome with
  | .ok g => { s with done := (i, g) :: s.done }
  | .error e => s.fail (.inFunction ⟨f.name, e⟩)

/-- There is nothing left to begin at a position. -/
def closed (s : Crew) (i : Nat) : Bool :=
  s.failure.isSome || (s.done.lookup i).isSome

/-- The function at a position has its turn: it is begun, or is lowered and ends. -/
def step (m : Module) (s : Crew) (i : Nat) : Option Move × Crew :=
  match m.entries[i]? with
  | none => (none, s)
  | some none => (none, if s.closed i then s else s.fail .missingFunction)
  | some (some f) =>
    if i ∈ s.working then
      let lowered := func m.id s.table f
      (some (.ended lowered.1), { s with table := lowered.2 }.finish i f lowered.1)
    else if s.closed i then (none, s)
    else (some (.begun f), { s with working := i :: s.working })

def result (s : Crew) (count : Nat) : Except LowerFailure Ir.Module :=
  match s.failure with
  | some e => .error e
  | none => .ok (.ofFuncs ((List.range count).filterMap fun i => s.done.lookup i))

end Crew

/-- All turns that are had: some in any order, then each function as many as it may still need. -/
def turns (first : List Nat) (count : Nat) : List Nat :=
  first ++ (List.range count).flatMap fun i => [i, i]

end MiddleEnd.Lowering
