import MiddleEnd.Ir.Printer
import MiddleEnd.Pipeline.Log
import MiddleEnd.Pipeline.Passes
import MiddleEnd.Syntax.Printer

/-!
The way of a module from its tree to the text that a build writes: folding, scope check, lowering,
validation, simplification and rendering.
-/

namespace MiddleEnd.Pipeline

/-- `emit` names what is written, the listing of the block code if it is empty. The last four are
what a compilation finds around it; `schedule` are the turns that its functions happen to have where
several jobs lower them. -/
structure Options where
  fold : Bool := false
  simplify : Bool := false
  jobs : Int := 0
  emit : Text := []
  canceled : Bool := false
  schedule : List Nat := []
  recorder : Trace.Recorder := .ofTracer .off
  span : Trace.Context := 0
  deriving Repr, Inhabited

namespace Options

def emitMode (o : Options) : Text :=
  if o.emit.isEmpty then "ir" else o.emit

def schedule? (o : Options) (m : Module) : Option (List Nat) :=
  if 1 < o.jobs && 1 < m.entries.length then some o.schedule else none

end Options

def foldStage (ctx : Trace.Context) (m : Module) : PipelineM Module := do
  enter .fold
  let folded ← foldModule ctx m
  timed "fold" (fun _ => []) (folded.mapError .ofModuleFold)

def checkStage (m : Module) : PipelineM Scoping.Table := do
  enter .check
  timed "check" (fun table => .concat [.ofNat table.size, " scopes"])
    ((Scoping.Table.ofModule m).mapError .ofCheck)

def lowerStage (o : Options) (m : Module) (table : Scoping.Table) : PipelineM Ir.Module := do
  enter .lower
  let lowered ← lowerModule o.span o.canceled (o.schedule? m) m table
  timed "lower" (fun code => .concat [.ofNat code.funcs.length, " funcs"])
    (lowered.mapError .ofModuleLower)

def validate (ctx : Trace.Context) (code : Ir.Module) : PipelineM Unit := do
  let valid ← validateModule ctx code
  timed "validate" (fun _ => []) valid

def simplifyStage (ctx : Trace.Context) (code : Ir.Module) : PipelineM Ir.Module := do
  enter .simplify
  let tidy ← simplifyModule ctx code
  addPhase "simplify" (.concat
    [.ofNat (blockCount code), " -> ", .ofNat (blockCount tidy), " blocks"])
  tryCatch (validate ctx tidy) fun e => throw (.context "after simplify: " e)
  return tidy

def render (emit : Text) (m : Module) (code : Ir.Module) : Except Failure Text :=
  if emit == Text.ofString "ast" then .ok m.print
  else if emit == Text.ofString "ir" then .ok code.print
  else .error (.plain (.concat ["driver: unknown emit mode ", emit.quoted]))

structure Product where
  module : Module
  code : Ir.Module
  output : Text

def produce (o : Options) (m : Module) : PipelineM Product := do
  let m ← (if o.fold then foldStage o.span m else pure m)
  let table ← checkStage m
  let code ← lowerStage o m table
  enter .validate
  validate o.span code
  let code ← (if o.simplify then simplifyStage o.span code else pure code)
  enter .render
  let output ← timed "render" (fun _ => []) (render o.emitMode m code)
  return ⟨m, code, output⟩

end MiddleEnd.Pipeline
