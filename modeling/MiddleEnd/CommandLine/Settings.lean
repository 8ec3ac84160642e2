import MiddleEnd.CommandLine.Command
import MiddleEnd.Pipeline.Build
import MiddleEnd.Project.Manifest

/-!
The settings of a build: those of the project, overruled by the flags that are given.
-/

namespace MiddleEnd.CommandLine

def resolveAgainst (dir path : Text) : Text :=
  if path.isEmpty || Path.isAbsolute path then path else Path.join dir path

def inputExtensions : List Text := [".last", ".json"]

def matchesExtension (extensions : List Text) (path : Text) : Bool :=
  extensions.contains (Path.extension path)

structure Settings where
  dir : Text
  manifest : Option Project.Manifest
  args : List Text
  config : Project.Config
  jobs : Int
  baseDir : Text
  outDir : Text
  files : List Text := []
  deriving Inhabited

namespace Settings

def expandInput (files : FileTree) (path : Text) : Except Failure (List Text) := do
  match ← (files.stat path).mapError Failure.path with
  | .file _ => .ok [path]
  | .dir =>
    let found ← inputExtensions.mapM fun extension =>
      match files.glob (Path.join path ("*" ++ extension)) with
      | some paths => .ok paths
      | none => .error (Failure.plain "syntax error in pattern")
    .ok (Text.sort found.flatten)

def noInputs : Failure :=
  .plain (.concat
    ["no input files: pass .last/.json files or directories, ",
      "or add [build].inputs to lowc.toml"])

def refresh (s : Settings) (files : FileTree) : Except Failure (List Text) := do
  let found ←
    if s.args.isEmpty then
      match s.manifest with
      | some m => m.inputs files
      | none => .ok []
    else
      let expanded ← s.args.mapM fun arg => expandInput files (resolveAgainst s.dir arg)
      .ok expanded.flatten
  if found.isEmpty then .error noInputs else .ok found

def override (c : Project.Config) (given : Given) : Project.Config :=
  { c with
    fold := given.switch "fold" c.fold
    simplify := given.switch "simplify" c.simplify
    jobs := given.number "jobs" c.jobs
    emit := given.text "emit" c.emit
    werror := given.switch "werror" c.werror
    cache := given.switch "cache" c.cache }

def checkRequires (version : Text) (m : Project.Manifest) : Except Failure Unit :=
  match m.config.checkRequires version with
  | none => .ok ()
  | some e => .error (.context (m.path ++ ": ") e)

/-- Without a number of jobs there is one for every processor. -/
def resolve (version : Text) (processors : Int) (given : Given) (args : List Text)
    (files : FileTree) : Except Failure Settings := do
  let dir := given.text "dir" "."
  let manifest ← Project.Manifest.load files dir
  let projectConfig : Project.Config := (manifest.map (·.config)).getD {}
  if let some m := manifest then checkRequires version m
  let config := override projectConfig given
  let outDir :=
    if given.isSet "out" then resolveAgainst dir (given.text "out" [])
    else (manifest.map (·.outDir)).getD []
  if let some problems := config.validate then throw problems
  let settings : Settings :=
    { dir, manifest, args, config, outDir
      jobs := if config.jobs ≤ 0 then processors else config.jobs
      baseDir := (manifest.map (·.root)).getD dir }
  let found ← settings.refresh files
  return { settings with files := found }

def options (s : Settings) : Pipeline.Options where
  fold := s.config.fold
  simplify := s.config.simplify
  jobs := s.jobs
  emit := s.config.emit

def inputDirs (s : Settings) : List Text :=
  let dirs := s.files.map Path.dir
  let root := (s.manifest.map (·.root)).toList
  Text.sort (dirs ++ root).eraseDups

def displayFiles (s : Settings) (workDir : Text) : List Text :=
  s.files.map fun f => Pipeline.displayName workDir f s.baseDir

end Settings

end MiddleEnd.CommandLine
