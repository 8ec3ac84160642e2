import MiddleEnd.Pipeline.Cache
import MiddleEnd.Version.Build

/-!
The compilation of modules and of files that hold them. A cache may answer in place of
the stages; trouble with the cache is never more than a warning.
-/

namespace MiddleEnd.Pipeline

/-- A cached result has no code. -/
structure Compiled where
  module : Module
  code : Option Ir.Module
  output : Text
  cached : Bool := false
  warnings : List Failure := []

structure Outcome where
  result : Except Failure Compiled
  log : Log := {}
  recorder : Trace.Recorder
  files : FileTree

def produced (o : Options) (m : Module) (files : FileTree) : Outcome :=
  let ((result, log), recorder) := ((produce o m).run.run {}).run o.recorder
  { result := result.map fun p => { module := p.module, code := some p.code, output := p.output },
    log, recorder, files }

def Outcome.keep (outcome : Outcome) (version : Text) (o : Options) (m : Module) (cache : Cache)
    (key : Digest) (warnings : List Failure) : Outcome :=
  match outcome.result with
  | .error _ => outcome
  | .ok compiled =>
    let entry : CacheEntry :=
      { name := m.name, emit := o.emitMode, version, output := compiled.output }
    match cache.put outcome.files key entry with
    | .ok files => { outcome with result := .ok { compiled with warnings }, files }
    | .error e =>
      let warnings := warnings ++ [.cache "write" key.hex (.path e)]
      { outcome with result := .ok { compiled with warnings } }

def cacheHit (o : Options) (m : Module) (entry : CacheEntry) (key : Digest) (files : FileTree) :
    Outcome :=
  let ((), recorder) := (Trace.point o.span .module "cache.hit" (key.hex.take 12)).run o.recorder
  { result := .ok { module := m, code := none, output := entry.output, cached := true }
    recorder, files }

def throughCache (version : Text) (o : Options) (m : Module) (cache : Cache) (files : FileTree) :
    Outcome :=
  match Cache.key version o m with
  | .error e =>
    { result := .error (.context "driver: cache key: " (.ofEncode e))
      recorder := o.recorder, files }
  | .ok key =>
    match cache.get files key with
    | .ok (some entry) => cacheHit o m entry key files
    | .ok none => (produced o m files).keep version o m cache key []
    | .error e => (produced o m files).keep version o m cache key [e]

/-- Whatever becomes of the module, the span of its compilation ends. -/
def compile (version : Text) (o : Options) (cache : Option Cache) (m : Option Module)
    (files : FileTree) : Outcome :=
  match m with
  | none => { result := .error (.plain "driver: nil module"), recorder := o.recorder, files }
  | some m =>
    let ((ctx, span), recorder) :=
      (Trace.start o.span .module ("compile " ++ m.name)).run o.recorder
    let o := { o with recorder, span := ctx }
    let outcome :=
      match cache with
      | none => produced o m files
      | some cache => throughCache version o m cache files
    let notes : Trace.Notes :=
      match outcome.result with
      | .ok _ => []
      | .error e => [("error", e.message)]
    let ((), recorder) := (span.noteAll notes).finish.run outcome.recorder
    { outcome with recorder }

/-- A producer that does not go with this tool is a warning, before all others. -/
def compileFile (build : BuildInfo) (o : Options) (cache : Option Cache) (path : Text)
    (files : FileTree) : Outcome :=
  let phase (note : Text) : Phase := { name := "decode " ++ Path.base path, note }
  match files.readSource path with
  | .error e =>
    { result := .error e, log := { stages := [.decode], timer := [phase "failed"] }
      recorder := o.recorder, files }
  | .ok source =>
    let producer := (build.checkProducer source.producer).toList.map fun e =>
      Failure.context (path ++ ": ") e
    let outcome := compile build.version o cache (some source.module) files
    { outcome with
      result := outcome.result.map fun c => { c with warnings := producer ++ c.warnings }
      log :=
        { outcome.log with
          stages := .decode :: outcome.log.stages
          timer := phase [] :: outcome.log.timer } }

end MiddleEnd.Pipeline
