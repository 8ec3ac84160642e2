import MiddleEnd.Pipeline.Log

/-!
What a build tells about its progress.
-/

namespace MiddleEnd.Pipeline

inductive Step where
  | stage (s : Stage)
  | write
  | build
  deriving DecidableEq, Repr, Inhabited

def Step.name : Step → Text
  | .stage s => s.name
  | .write => "write"
  | .build => "build"

def Step.all : List Step :=
  [Stage.decode, .fold, .check, .lower, .validate, .simplify, .render].map Step.stage
    ++ [.write, .build]

def Step.ofName? (name : Text) : Option Step :=
  Step.all.find? fun s => s.name == name

inductive Status where
  | queued
  | working
  | done
  | error
  deriving DecidableEq, Repr, Inhabited

def Status.name : Status → Text
  | .queued => "queued"
  | .working => "working"
  | .done => "done"
  | .error => "error"

def Status.ofName? (name : Text) : Option Status :=
  [Status.queued, .working, .done, .error].find? fun s => s.name == name

/-- The build itself has no file. -/
structure Event where
  file : Text := []
  step : Step
  status : Status
  failure : Option Failure := none
  cached : Bool := false
  deriving Inhabited

end MiddleEnd.Pipeline
