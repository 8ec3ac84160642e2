import MiddleEnd.Failure
import MiddleEnd.Pipeline.Timer
import MiddleEnd.Trace.Recorder

/-!
What a compilation tells while it runs.
-/

namespace MiddleEnd.Pipeline

inductive Stage where
  | decode
  | fold
  | check
  | lower
  | validate
  | simplify
  | render
  deriving DecidableEq, Repr, Inhabited

def Stage.name : Stage → Text
  | .decode => "decode"
  | .fold => "fold"
  | .check => "check"
  | .lower => "lower"
  | .validate => "validate"
  | .simplify => "simplify"
  | .render => "render"

structure Log where
  stages : List Stage := []
  timer : Timer := []
  deriving Inhabited

/-- A failure keeps what was told and recorded before it. -/
abbrev PipelineM := ExceptT Failure (StateT Log Trace.TraceM)

def enter (stage : Stage) : PipelineM Unit :=
  modify fun log => { log with stages := log.stages ++ [stage] }

def addPhase (name note : Text) : PipelineM Unit :=
  modify fun log => { log with timer := log.timer ++ [{ name, note }] }

def timed {α : Type} (name : Text) (note : α → Text) : Except Failure α → PipelineM α
  | .ok a => do
    addPhase name (note a)
    return a
  | .error e => do
    addPhase name "failed"
    throw e

end MiddleEnd.Pipeline
