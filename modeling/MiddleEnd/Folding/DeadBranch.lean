import MiddleEnd.Folding.Fold

/-!
The branches that folding drops, for the trace. Folding stops at its first failure, and so does the
list of dropped branches.
-/

namespace MiddleEnd

/-- Conditional `cond` lost its branch `dropped`. -/
structure DeadBranch where
  cond : NodeId
  dropped : NodeId
  deriving DecidableEq, Repr, Inhabited

def DeadBranch.detail (b : DeadBranch) : Text :=
  .concat ["if ", .ofNat b.cond.toNat, " drops stmt ", .ofNat b.dropped.toNat]

namespace Stmt

def deadBranch (cond : NodeId) (dropped : Stmt) : List DeadBranch :=
  if dropped.isAbsent then [] else [⟨cond, dropped.id⟩]

mutual
def deadBranches : Stmt → List DeadBranch
  | .block _ (some stmts) => deadBranchesOfList stmts
  | .cond node test yes no =>
    match test.fold with
    | .error _ => []
    | .ok (.bool _ true) => deadBranch node.id no ++ deadBranches yes
    | .ok (.bool _ false) => deadBranch node.id yes ++ deadBranches no
    | .ok _ =>
      deadBranches yes ++ match fold yes with
        | .ok _ => deadBranches no
        | .error _ => []
  | .loop _ test body =>
    match test.fold with
    | .ok _ => deadBranches body
    | .error _ => []
  | _ => []
def deadBranchesOfList : List Stmt → List DeadBranch
  | [] => []
  | stmt :: stmts =>
    deadBranches stmt ++ match fold stmt with
      | .ok _ => deadBranchesOfList stmts
      | .error _ => []
end

end Stmt

def Module.deadBranchesOfEntries : List (Option Func) → List DeadBranch
  | [] => []
  | none :: rest => deadBranchesOfEntries rest
  | some f :: rest =>
    f.body.deadBranches ++ match f.fold with
      | .ok _ => deadBranchesOfEntries rest
      | .error _ => []

def Module.deadBranches (m : Module) : List DeadBranch :=
  deadBranchesOfEntries m.entries

end MiddleEnd
