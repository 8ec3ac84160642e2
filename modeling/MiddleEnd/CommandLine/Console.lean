import MiddleEnd.Pipeline.Cache
import MiddleEnd.Version.Build

/-!
What a command sees of the place it runs in, and what it leaves there: texts on its outputs, and
files.
-/

namespace MiddleEnd.CommandLine

structure Environment where
  build : BuildInfo := {}
  cacheHome : Text := []
  home : Text := []
  colored : Bool := false
  processors : Int := 1
  now : Trace.Instant := 0
  deriving Inhabited

/-- What a run wrote. What a trace wrote at once is kept apart from the rest of the errors. -/
structure Output where
  stdout : Text := []
  stderr : Text := []
  traced : Text := []
  deriving DecidableEq, Repr, Inhabited

structure Console where
  output : Output := {}
  files : FileTree
  deriving Inhabited

/-- A failure keeps what was written before it. -/
abbrev RunM := ExceptT Failure (StateM Console)

def print (t : Text) : RunM Unit :=
  modify fun c => { c with output := { c.output with stdout := c.output.stdout ++ t } }

def printError (t : Text) : RunM Unit :=
  modify fun c => { c with output := { c.output with stderr := c.output.stderr ++ t } }

def printTrace (t : Text) : RunM Unit :=
  modify fun c => { c with output := { c.output with traced := c.output.traced ++ t } }

def setFiles (files : FileTree) : RunM Unit :=
  modify fun c => { c with files }

def getFiles : RunM FileTree := do
  return (← get).files

def cacheDir (env : Environment) : Except Failure Text :=
  if !env.cacheHome.isEmpty then .ok (Path.join env.cacheHome "lowc")
  else if env.home.isEmpty then .error (.plain "$HOME is not defined")
  else .ok (Path.join (Path.join env.home ".cache") "lowc")

def openCache (env : Environment) : RunM Pipeline.Cache := do
  let dir ← (cacheDir env : Except Failure Text)
  match Pipeline.Cache.open dir (← getFiles) with
  | .error e => throw (.path e)
  | .ok (cache, files) =>
    setFiles files
    return cache

def failureLine (env : Environment) (e : Failure) : Text :=
  .concat [Paint.boldRed.apply env.colored "error:", " ", e.message, "\n"]

end MiddleEnd.CommandLine
