import MiddleEnd.Diagnostic.Bag
import MiddleEnd.Diagnostic.OfFailure
import MiddleEnd.Pipeline.Compile
import MiddleEnd.Pipeline.Event

/-!
Builds: many files are compiled, each on its own. A file that fails does not stop the others.
-/

namespace MiddleEnd.Pipeline

/-- Names of files are shown relative to `baseDir`; without an `outDir` nothing is written. Files
are built side by side, and `schedule` is the order in which they happen to be. -/
structure Request where
  files : List Text
  baseDir : Text := []
  outDir : Text := []
  options : Options := {}
  cache : Option Cache := none
  maxDiagnostics : Int := 0
  werror : Bool := false
  schedule : List Nat := []
  deriving Inhabited

structure FileResult where
  file : Text
  display : Text
  output : Text := []
  rendered : Text := []
  cached : Bool := false
  failure : Option Failure := none
  warnings : List Diagnostic := []
  deriving Inhabited

/-- A build that could not start has no results. -/
structure BuildReport where
  results : List FileResult := []
  diagnostics : Diagnostic.Bag
  failure : Option Failure := none
  started : Bool := true
  events : List Event := []
  log : Log := {}
  recorder : Trace.Recorder
  files : FileTree
  deriving Inhabited

namespace BuildReport

def outputs (r : BuildReport) : List Text :=
  Text.sort ((r.results.map FileResult.output).filter fun path => !path.isEmpty)

def failedCount (r : BuildReport) : Nat :=
  r.results.countP fun f => f.failure.isSome

end BuildReport

/-- A file relative to a base directory if it lies below it, and as an absolute path otherwise. -/
def displayName (workDir file base : Text) : Text :=
  let path := Path.clean file
  let base := base.trim
  if base.isEmpty then path
  else
    let path := Path.absolute workDir path
    match Path.below? (Path.absolute workDir base) path with
    | none => path
    | some rest =>
      if rest == Text.ofString "." || Text.startsWith Path.dots rest then path else rest

namespace Request

def outputExtension (r : Request) : Text :=
  if r.options.emit == Text.ofString "ast" then ".ast" else ".ir"

def stem (path : Text) : Text :=
  let base := Path.base path
  let extension := Path.extension path
  if Text.endsWith extension base then base.take (base.length - extension.length) else base

def outputPath (r : Request) (file : Text) : Text :=
  Path.join r.outDir (stem file ++ r.outputExtension)

/-- An output for every file. No two files may write the same one. -/
def outputPathsFrom (r : Request) (owners : List (Text × Text)) :
    List Text → Except Failure (List Text)
  | [] => .ok []
  | file :: files =>
    let path := r.outputPath file
    match owners.lookup path with
    | some owner =>
      .error (.plain (.concat
        ["inputs ", owner.quoted, " and ", file.quoted, " both write ", path.quoted]))
    | none => do
      let paths ← r.outputPathsFrom ((path, file) :: owners) files
      .ok (path :: paths)

def outputPaths (r : Request) : Except Failure (List Text) :=
  if r.outDir.isEmpty then .ok (r.files.map fun _ => []) else r.outputPathsFrom [] r.files

end Request

def warningCode (w : Failure) : Diagnostic.Code :=
  if w.hasCondition .producer then Diagnostic.Code.versionClash else Diagnostic.Code.unknown

def warningDiagnostics (werror : Bool) (display : Text) (w : Failure) : List Diagnostic :=
  (Diagnostic.ofFailure display (warningCode w) w).map fun d =>
    { d with severity := if werror then .error else .warning }

structure BuiltFile where
  result : FileResult
  events : List Event
  log : Log := {}
  recorder : Trace.Recorder
  files : FileTree

def buildFile (build : BuildInfo) (r : Request) (file display output : Text) (files : FileTree) :
    BuiltFile :=
  let result : FileResult := { file, display }
  let event (step : Step) (status : Status) : Event := { file := display, step, status }
  let failing (step : Step) (e : Failure) : Event := { event step .error with failure := some e }
  if r.options.canceled then
    let e := Failure.condition .canceled
    { result := { result with failure := some e }, events := [failing (.stage .decode) e]
      recorder := r.options.recorder, files }
  else
    let outcome := compileFile build r.options r.cache file files
    let begun := outcome.log.stages.map fun s => event (.stage s) .working
    match outcome.result with
    | .error e =>
      let last := outcome.log.stages.getLast?.getD .decode
      { result := { result with failure := some e }
        events := begun ++ [failing (.stage last) e]
        log := outcome.log, recorder := outcome.recorder, files := outcome.files }
    | .ok c =>
      let result :=
        { result with
          rendered := c.output
          cached := c.cached
          warnings := c.warnings.flatMap (warningDiagnostics r.werror display) }
      let finished : Event := { event .write .done with cached := c.cached }
      if output.isEmpty then
        { result, events := begun ++ [finished]
          log := outcome.log, recorder := outcome.recorder, files := outcome.files }
      else
        let begun := begun ++ [event .write .working]
        match outcome.files.write output c.output with
        | .ok files =>
          { result := { result with output }, events := begun ++ [finished]
            log := outcome.log, recorder := outcome.recorder, files }
        | .error e =>
          let e := Failure.context (.concat ["failed to write ", output.quoted, ": "]) (.path e)
          { result := { result with failure := some e }
            events := begun ++ [failing .write e]
            log := outcome.log, recorder := outcome.recorder, files := outcome.files }

/-- The files that were built, by their positions and the last one first. -/
structure Building where
  built : List (Nat × BuiltFile) := []
  recorder : Trace.Recorder
  files : FileTree

def Building.step (info : BuildInfo) (r : Request) (jobs : List (Text × Text × Text)) (s : Building)
    (i : Nat) : Building :=
  match s.built.lookup i, jobs[i]? with
  | none, some (file, display, output) =>
    let r := { r with options := { r.options with recorder := s.recorder } }
    let b := buildFile info r file display output s.files
    { built := (i, b) :: s.built, recorder := b.recorder, files := b.files }
  | _, _ => s

def Building.inOrder (s : Building) (count : Nat) : List BuiltFile :=
  (List.range count).filterMap fun i => s.built.lookup i

/-- Every file is built once, be it on the schedule or not. -/
def buildFiles (info : BuildInfo) (r : Request) (jobs : List (Text × Text × Text))
    (files : FileTree) : Building :=
  (r.schedule ++ List.range jobs.length).foldl (Building.step info r jobs)
    { recorder := r.options.recorder, files }

/-- All errors, and behind them all warnings, so that a full bag keeps the errors. -/
def collect (limit : Int) (results : List FileResult) : Diagnostic.Bag :=
  let errors := results.flatMap fun f =>
    match f.failure with
    | some e => Diagnostic.ofFailure f.display Diagnostic.Code.unknown e
    | none => []
  let warnings := results.flatMap FileResult.warnings
  ((Diagnostic.Bag.empty limit).addAll (errors ++ warnings)).sort.dedup

def verdict (r : Request) (results : List FileResult) (bag : Diagnostic.Bag) : Option Failure :=
  let failed := results.countP fun f => f.failure.isSome
  let because (text : Text) : Option Failure := some (.wrap [] (.condition .buildFailed) text)
  if r.options.canceled then some (.condition .canceled)
  else if failed = 0 then
    if r.werror && bag.hasErrors then because ": warnings treated as errors" else none
  else
    because (.concat [": ", .ofNat failed, " of ", .ofNat r.files.length, " files"])

def buildTimer (built : List BuiltFile) : Timer :=
  match built with
  | [b] => b.log.timer
  | _ => []

def build (info : BuildInfo) (r : Request) (files : FileTree) : BuildReport :=
  let refuse (e : Failure) (files : FileTree) : BuildReport :=
    { diagnostics := .empty r.maxDiagnostics, failure := some e, started := false
      recorder := r.options.recorder, files }
  if r.files.isEmpty then refuse (.plain "no input files") files
  else match r.outputPaths with
    | .error e => refuse e files
    | .ok outputs =>
      match (if r.outDir.isEmpty then .ok files else files.makeDirs r.outDir) with
      | .error e => refuse (.context "failed to create output dir: " (.path e)) files
      | .ok files =>
        let displays := r.files.map fun f => displayName files.workDir f r.baseDir
        let ((ctx, span), recorder) :=
          (Trace.start r.options.span .driver "build").run r.options.recorder
        let span := span.note "files" (.ofNat r.files.length)
        let inner := { r with options := { r.options with recorder, span := ctx } }
        let whole := buildFiles info inner (r.files.zip (displays.zip outputs)) files
        let built := whole.inOrder r.files.length
        let results := built.map BuiltFile.result
        let diagnostics := collect r.maxDiagnostics results
        let failure := verdict r results diagnostics
        let failed := results.countP fun f => f.failure.isSome
        let span :=
          if failed = 0 || r.options.canceled then span else span.note "failed" (.ofNat failed)
        let ((), recorder) := span.finish.run whole.recorder
        let last : Event :=
          { step := .build, status := if failure.isSome then .error else .done, failure }
        { results, diagnostics, failure, recorder
          events :=
            displays.map (fun file => { file, step := .stage .decode, status := .queued })
              ++ { step := .build, status := .working } ::
                whole.built.reverse.flatMap (fun (_, b) => b.events) ++ [last]
          log := { timer := buildTimer built }
          files := whole.files }

def build? (info : BuildInfo) : Option Request → FileTree → Except Failure BuildReport
  | none, _ => .error (.plain "missing build request")
  | some r, files => .ok (build info r files)

end MiddleEnd.Pipeline
