import MiddleEnd.Failure
import MiddleEnd.Folding.DeadBranch
import MiddleEnd.Ir.Forwarding
import MiddleEnd.Ir.Simplify
import MiddleEnd.Lowering.Crew
import MiddleEnd.Trace.Recorder

/-!
The passes over a module, each in a span of its own.
-/

namespace MiddleEnd.Pipeline

open Trace (Context Notes Span TraceM start point)

def foldModule (ctx : Context) (m : Module) : TraceM (Except (InFunction FoldError) Module) := do
  let (ctx, span) ← start ctx .pass "fold"
  m.deadBranches.forM fun b => point ctx .node "fold.dead-branch" b.detail
  span.finish
  return m.fold

/-- A function that was lowered tells its size. -/
def funcNotes : Except Lowering.LowerError Ir.Func → Notes
  | .ok g => [("blocks", .ofNat g.blocks.length), ("locals", .ofNat g.locals.length)]
  | .error _ => []

/-- One function behind the other, until one fails. -/
def lowerInOrder (ctx : Context) (module : NodeId) :
    Scoping.Table → List (Option Func) → TraceM (Except Lowering.LowerFailure (List Ir.Func))
  | _, [] => return .ok []
  | _, none :: _ => return .error .missingFunction
  | table, some f :: rest => do
    let (_, span) ← start ctx .module ("fn " ++ f.name)
    let (outcome, table) := Lowering.func module table f
    (span.noteAll (funcNotes outcome)).finish
    match outcome with
    | .error e => return .error (.inFunction ⟨f.name, e⟩)
    | .ok g => return (← lowerInOrder ctx module table rest).map (g :: ·)

/-- Functions side by side. Each has a span from its first turn to its last. -/
def lowerInTurns (ctx : Context) (m : Module) :
    Lowering.Crew → List (Nat × Span) → List Nat → TraceM Lowering.Crew
  | crew, _, [] => return crew
  | crew, spans, i :: rest =>
    match crew.step m i with
    | (none, crew) => lowerInTurns ctx m crew spans rest
    | (some (.begun f), crew) => do
      let (_, span) ← start ctx .module ("fn " ++ f.name)
      lowerInTurns ctx m crew ((i, span) :: spans) rest
    | (some (.ended outcome), crew) => do
      (((spans.lookup i).getD default).noteAll (funcNotes outcome)).finish
      lowerInTurns ctx m crew spans rest

/-- A canceled run takes on no function. With a schedule, functions are lowered side by side in its
turns. -/
def lowerFuncs (ctx : Context) (canceled : Bool) (schedule : Option (List Nat)) (m : Module)
    (table : Scoping.Table) : TraceM (Except Lowering.LowerFailure Ir.Module) :=
  if canceled && !m.entries.isEmpty then return .error .canceled
  else match schedule with
    | none => do
      let funcs ← lowerInOrder ctx m.id table m.entries
      return funcs.map Ir.Module.ofFuncs
    | some first => do
      let count := m.entries.length
      let crew ← lowerInTurns ctx m { table := table } [] (Lowering.turns first count)
      return crew.result count

def lowerModule (ctx : Context) (canceled : Bool) (schedule : Option (List Nat)) (m : Module)
    (table : Scoping.Table) : TraceM (Except Lowering.LowerFailure Ir.Module) := do
  let (ctx, span) ← start ctx .pass "lower"
  let result ← lowerFuncs ctx canceled schedule m table
  (span.noteAll (match result with
    | .ok code => [("funcs", .ofNat code.funcs.length)]
    | .error _ => [])).finish
  return result

def firstLine (t : Text) : Text :=
  t.takeWhile (· != Text.newline)

def verify (code : Ir.Module) : Except Failure Unit :=
  match code.faults with
  | [] => .ok ()
  | faults => .error (.ofModuleFaults faults)

def validateModule (ctx : Context) (code : Ir.Module) : TraceM (Except Failure Unit) := do
  let (_, span) ← start ctx .pass "validate"
  let result := verify code
  (span.noteAll (match result with
    | .ok _ => []
    | .error cause => [("error", firstLine cause.message)])).finish
  return result.mapError .validation

/-- Code that was validated can always be forwarded. -/
def simplifyFunc (f : Ir.Func) : Ir.Func :=
  (f.forwardStores?.getD f).simplify

def blockCount (code : Ir.Module) : Nat :=
  (code.funcs.map fun f => (f.map fun f => f.blocks.length).getD 0).foldr (· + ·) 0

def simplifyModule (ctx : Context) (code : Ir.Module) : TraceM Ir.Module := do
  let (_, span) ← start ctx .pass "simplify"
  let tidy := code.mapFuncs simplifyFunc
  (span.noteAll
    [("blocks", .concat [.ofNat (blockCount code), "->", .ofNat (blockCount tidy)])]).finish
  return tidy

end MiddleEnd.Pipeline
