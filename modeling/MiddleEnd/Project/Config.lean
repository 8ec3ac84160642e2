import MiddleEnd.Failure
import MiddleEnd.Trace.Level
import MiddleEnd.Version.Constraint

/-!
The settings of a project.
-/

namespace MiddleEnd.Project

/-- What a manifest can say. No jobs at all means one for every processor. -/
structure Config where
  name : Text := []
  requires : Text := []
  fold : Bool := true
  simplify : Bool := true
  jobs : Int := 0
  emit : Text := "ir"
  cache : Bool := true
  werror : Bool := false
  inputs : List Text := ["*.last"]
  outDir : Text := "build"
  traceLevel : Trace.Level := .off
  traceOutput : Text := "-"
  deriving DecidableEq, Repr, Inhabited

namespace Config

def emitModes : List Text := ["ir", "ast"]

def requiresFailure (e : Version.ConstraintError) : Failure :=
  .context "[package].requires: " (.plain e.message)

def emitProblems (c : Config) : List Failure :=
  if emitModes.contains c.emit then []
  else
    [.plain (.concat
      ["[build].emit must be \"ir\" or \"ast\", got ", c.emit.quoted])]

def jobsProblems (c : Config) : List Failure :=
  if 0 ≤ c.jobs then []
  else [.plain (.concat ["[build].jobs must not be negative, got ", .ofInt c.jobs])]

def requiresProblems (c : Config) : List Failure :=
  if c.requires.isEmpty then []
  else match Version.Constraint.parse c.requires with
    | .ok _ => []
    | .error e => [requiresFailure e]

def problems (c : Config) : List Failure :=
  c.emitProblems ++ c.jobsProblems ++ c.requiresProblems

def validate (c : Config) : Option Failure :=
  match c.problems with
  | [] => none
  | problems => some (.join problems)

def checkRequires (c : Config) (version : Text) : Option Failure :=
  if c.requires.isEmpty then none
  else match Version.Constraint.parse c.requires with
    | .error e => some (requiresFailure e)
    | .ok constraint =>
      match Version.parse version with
      | .error e =>
        some (.context (.concat ["tool version ", version.quoted, ": "]) (.plain e.message))
      | .ok v =>
        if constraint.holds v then none
        else
          some (.wrap [] (.condition .incompatible)
            (.concat [": ", v.print, " does not match ", c.requires.quoted]))

end Config

end MiddleEnd.Project
