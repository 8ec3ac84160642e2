import MiddleEnd.CommandLine.Choice
import MiddleEnd.CommandLine.Settings
import MiddleEnd.CommandLine.Tracing

/-!
Builds on the command line: what is told about them, and in which order.
-/

namespace MiddleEnd.CommandLine

def renderedText (results : List Pipeline.FileResult) : Text :=
  let good := results.filter fun f => f.failure.isNone
  match good with
  | [f] => f.rendered
  | _ => Text.join "\n" (good.map fun f => Text.concat ["; ", f.display, "\n", f.rendered])

def milliseconds (nanoseconds : Nat) : Text :=
  .concat [Decimal.fixed 1 nanoseconds 1000000, " ms"]

def timingText (report : Pipeline.BuildReport) : Text :=
  match report.results with
  | [_] => report.log.timer.summary
  | results =>
    let lines : List Text := results.map fun f =>
      let note : Text :=
        if f.failure.isSome then "  // failed" else if f.cached then "  // cached" else []
      .concat [f.display, " ", milliseconds 0, note]
    .lines (lines ++ if report.started then [.concat ["built ", milliseconds 0]] else [])

def openBuildCache (env : Environment) (quiet : Bool) : RunM (Option Pipeline.Cache) :=
  tryCatch (some <$> openCache env) fun e => do
    if !quiet then printError (.concat ["warning: disk cache disabled: ", e.message, "\n"])
    return none

/-- Gives back the failure, if any, so that the trace can still be written. -/
def runBuild (env : Environment) (given : Given) (settings : Settings) (tracer : Trace.Tracer) :
    RunM (Pipeline.BuildReport) := do
  let quiet := given.switch "quiet" false
  let ui ← (Choice.parse "ui" (given.text "ui" "auto") : Except Failure Choice)
  let color ← (Choice.parse "color" (given.text "color" "auto") : Except Failure Choice)
  let cache ← if settings.config.cache then openBuildCache env quiet else pure none
  let report := Pipeline.build env.build
    { files := settings.files
      baseDir := settings.baseDir
      outDir := settings.outDir
      options := { settings.options with recorder := .ofTracer tracer }
      cache
      maxDiagnostics := given.number "max-diagnostics" 100
      werror := settings.config.werror }
    (← getFiles)
  setFiles report.files
  printError (Diagnostic.renderAll color.isOn report.diagnostics.items)
  if !report.diagnostics.items.isEmpty && 0 < report.diagnostics.dropped then
    printError (.concat
      ["... ", .ofNat report.diagnostics.dropped, " more diagnostics not shown\n"])
  if settings.outDir.isEmpty then print (renderedText report.results)
  else if report.failure.isNone && !quiet && !ui.isOn then
    print (.concat
      ["wrote ", .ofNat report.outputs.length, " files to ", settings.outDir, "\n"])
  if given.switch "timings" false then printError (timingText report)
  return report

def resolveSettings (env : Environment) (given : Given) : RunM Settings := do
  (Settings.resolve env.build.version env.processors given given.args (← getFiles) :
    Except Failure Settings)

def tracedBuild (env : Environment) (given : Given) (settings : Settings) :
    RunM (Tracing × Option Failure) := do
  let tracing ← startTracing env given settings.config
  let outcome ← tryCatch (Except.ok <$> runBuild env given settings tracing.tracer) fun e =>
    pure (.error e)
  let (tracer, failure) :=
    match outcome with
    | .ok report => (report.recorder.tracer, report.failure)
    | .error e => (tracing.tracer, some e)
  let tracing := { tracing with tracer }
  tracing.write
  return (tracing, failure)

def runBuildCommand (env : Environment) (given : Given) : RunM Unit := do
  let settings ← resolveSettings env given
  let (tracing, failure) ← tracedBuild env given settings
  if let some e := failure then
    printError tracing.tracer.dumpOnFailure
    throw e

/-- Builds once and names the directories whose changes call for another build. A failed build does
not end watching. -/
def runWatchCommand (env : Environment) (given : Given) : RunM Unit := do
  let settings ← resolveSettings env given
  let given := { given with values := ("ui", "off") :: given.values }
  let (tracing, failure) ← tracedBuild env given settings
  if let some e := failure then
    if !e.hasCondition .buildFailed then
      printError (failureLine env e)
      printError tracing.tracer.dumpOnFailure
  printError (.concat ["watching ", Text.join ", " settings.inputDirs, " (ctrl-c to stop)\n"])

end MiddleEnd.CommandLine
