import MiddleEnd.CommandLine.Console
import MiddleEnd.CommandLine.Flag
import MiddleEnd.Project.Config

/-!
The trace of a command: where it goes and how much it tells.
-/

namespace MiddleEnd.CommandLine

structure Tracing where
  tracer : Trace.Tracer
  output : Text

def Tracing.isFile (t : Tracing) : Bool :=
  match t.tracer with
  | .stream _ => !t.output.isEmpty && t.output != Text.ofString "-"
  | .off | .ring _ => false

/-- The tracer that flags ask for, or else the project. Naming an output alone traces the passes. -/
def startTracing (env : Environment) (given : Given) (config : Project.Config) : RunM Tracing := do
  let level ←
    if given.isSet "trace-level" then
      ((Trace.Level.parse (given.text "trace-level" [])).mapError Failure.plain :
        Except Failure Trace.Level)
    else pure config.traceLevel
  let output := given.text "trace" config.traceOutput
  let level := if given.isSet "trace" && level == .off then .phase else level
  let format ← ((Trace.Format.parse (given.text "trace-format" "auto")).mapError Failure.plain :
    Except Failure Trace.Format)
  let tracing : Tracing :=
    { tracer := .ofLevel level format output (given.number "trace-ring-size" 4096) env.now, output }
  if tracing.isFile then
    match (← getFiles).write output [] with
    | .ok files => setFiles files
    | .error e =>
      throw (.context "failed to create tracer: failed to open trace output: " (.path e))
  return tracing

def Tracing.write (t : Tracing) : RunM Unit := do
  if t.isFile then
    match (← getFiles).write t.output t.tracer.written with
    | .ok files => setFiles files
    | .error _ => pure ()
  else printTrace t.tracer.written

end MiddleEnd.CommandLine
