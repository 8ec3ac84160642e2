import MiddleEnd.Syntax.Walk

/-!
Node ids key scopes and diagnostics, so a module must number its nodes and use no number twice.
-/

namespace MiddleEnd

structure Labelled where
  id : NodeId
  label : Text
  deriving Repr, Inhabited

inductive IdProblem where
  | missing (label : Text)
  | repeated (id : NodeId) (label : Text)
  deriving DecidableEq, Repr, Inhabited

def IdProblem.message : IdProblem → Text
  | .missing label => .concat ["ast: ", label, " without id"]
  | .repeated id label =>
    .concat ["ast: duplicate node id ", .ofNat id.toNat, " (", label, ")"]

def Visited.labelled (v : Visited) : Labelled :=
  { id := v.id
    label := match v with
      | .func f => "func " ++ f.name
      | .stmt s => s.kind.name ++ " statement"
      | .expr e => e.kind.name ++ " expression" }

def Module.labelled (m : Module) : List Labelled :=
  ⟨m.id, "module"⟩ :: m.nodes.map Visited.labelled

def idProblemsFrom : (seen : List NodeId) → List Labelled → List IdProblem
  | _, [] => []
  | seen, node :: rest =>
    if node.id = 0 then .missing node.label :: idProblemsFrom seen rest
    else if node.id ∈ seen then .repeated node.id node.label :: idProblemsFrom seen rest
    else idProblemsFrom (node.id :: seen) rest

def Module.idProblems (m : Module) : List IdProblem :=
  idProblemsFrom [] m.labelled

end MiddleEnd
