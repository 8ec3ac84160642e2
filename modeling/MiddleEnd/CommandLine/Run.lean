import MiddleEnd.CommandLine.Building
import MiddleEnd.CommandLine.VersionReport

/-!
Running a command line on a file system. What a command writes and the files as it leaves them are
its result.
-/

namespace MiddleEnd.CommandLine

def runAst (env : Environment) (given : Given) : RunM Unit := do
  let dir := given.text "dir" "."
  let path := resolveAgainst dir (given.args.head?.getD [])
  let source ← ((← getFiles).readSource path : Except Failure Interchange.File)
  if let some e := env.build.checkProducer source.producer then
    printError (.concat ["warning: ", path, ": ", e.message, "\n"])
  let module ←
    if given.switch "fold" false then
      (source.module.fold.mapError Failure.ofModuleFold : Except Failure Module)
    else pure source.module
  let target := given.text "convert" []
  if target.isEmpty then print module.print
  else
    let (result, files) := (← getFiles).writeSource (resolveAgainst dir target)
      { schema := 0, producer := .concat ["lowc ", env.build.version], module }
    setFiles files
    (result : Except Failure Unit)

def runCacheDir (env : Environment) : RunM Unit := do
  let cache ← openCache env
  print (cache.dir ++ "\n")

def runCacheClean (env : Environment) (given : Given) : RunM Unit := do
  let cache ← openCache env
  setFiles (cache.dropAll (← getFiles))
  if !given.switch "quiet" false then
    print (.concat ["removed cached IR under ", cache.dir, "\n"])

def usage : Text :=
  .lines
    ["Usage: lowc [command]", [], "Commands: build, watch, ast, cache dir, cache clean, version"]

def runCommand (env : Environment) (command : Command) (given : Given) : RunM Unit :=
  match command with
  | .build => runBuildCommand env given
  | .watch => runWatchCommand env given
  | .ast => runAst env given
  | .cacheDir => runCacheDir env
  | .cacheClean => runCacheClean env given
  | .version => runVersion env given
  | .root | .cache | .help | .completion => print usage

def dispatch (env : Environment) (words : List Text) : RunM Unit := do
  let refuse (e : CommandError) : Failure := .plain e.message
  let (command, words) ← ((Command.find words).mapError refuse :
    Except Failure (Command × List Text))
  let hasVersion := !env.build.version.isEmpty
  let given ← (((command.flags hasVersion).read words).mapError fun e => refuse (.flag e) :
    Except Failure Given)
  if given.switch "help" false then print usage
  else if command == .root && given.switch "version" false then
    print (.concat ["lowc version ", env.build.version, "\n"])
  else
    ((command.checkArgs given.args).mapError refuse : Except Failure Unit)
    runCommand env command given

structure Exit where
  output : Output
  failure : Option Failure
  files : FileTree
  deriving Inhabited

def run (env : Environment) (words : List Text) (files : FileTree) : Exit :=
  let (result, console) := (dispatch env words).run.run { files := files }
  match result with
  | .ok _ => { output := console.output, failure := none, files := console.files }
  | .error e =>
    let output := console.output
    { output := { output with stderr := output.stderr ++ failureLine env e }
      failure := some e
      files := console.files }

end MiddleEnd.CommandLine
