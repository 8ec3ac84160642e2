import MiddleEnd.Proofs.Scoping.Lexical
import MiddleEnd.Proofs.Semantics.Operators

/-!
The reference evaluation of functions. Every declaration statement owns one storage cell.
-/

namespace MiddleEnd

/-- The contents of the cells, by the number of the declaration that owns the cell. -/
abbrev Cells := NodeId → Constant

namespace Cells

def set (cells : Cells) (cell : NodeId) (v : Constant) : Cells :=
  fun other => if other = cell then v else cells other

@[simp] theorem set_same (cells : Cells) (cell : NodeId) (v : Constant) :
    cells.set cell v cell = v := by
  simp [set]

theorem set_other (cells : Cells) (v : Constant) (distinct : other ≠ cell) :
    cells.set cell v other = cells other := by
  simp [set, distinct]

end Cells

def Expr.eval (ops : TruthOperators) (env : Env) (cells : Cells) : Expr → Except Halt Constant
  | .int _ n => .ok (.int n)
  | .bool _ b => .ok (.bool b)
  | .ident _ name =>
    match env.find? name with
    | some d => .ok (cells d.node)
    | none => .error .stuck
  | .unary _ op operand => do
    let v ← operand.eval ops env cells
    (ops.unary op v).result
  | .binary _ op left right => do
    let l ← left.eval ops env cells
    let r ← right.eval ops env cells
    (ops.binary op l r).result
  | .absent | .unknown _ _ => .error .stuck

def Expr.name? : Expr → Option Text
  | .ident _ name => some name
  | _ => none

/-- How a statement ends: control passes its end, or leaves the function. -/
inductive Flow where
  | next (cells : Cells)
  | returned (value : Option Constant)
  | halted (why : Halt)

/-- Goes on with what follows where control passes the end. Nothing is known of an unfinished
statement. -/
def Flow.andThen (first : Option Flow) (rest : Cells → Option Flow) : Option Flow :=
  match first with
  | some (.next cells) => rest cells
  | other => other

/-- Branches on the value of a condition, which must be a truth value. -/
def Flow.choose (test : Except Halt Constant) (yes no : Option Flow) : Option Flow :=
  match test with
  | .ok (.bool true) => yes
  | .ok (.bool false) => no
  | .ok (.int _) => some (.halted .stuck)
  | .error why => some (.halted why)

/-- At most `fuel` rounds of a loop. -/
def Flow.iterate (test : Cells → Except Halt Constant) (body : Cells → Option Flow) :
    (fuel : Nat) → Cells → Option Flow
  | 0, _ => none
  | fuel + 1, cells =>
    choose (test cells) (andThen (body cells) (iterate test body fuel)) (some (.next cells))

namespace Stmt

def assignCell (cells : Cells) (cell : NodeId) : Except Halt Constant → Flow
  | .ok v => .next (cells.set cell v)
  | .error why => .halted why

def returnValue : Except Halt Constant → Flow
  | .ok v => .returned (some v)
  | .error why => .halted why

mutual
/-- Runs a statement with at most `fuel` rounds of each loop; none if that is not enough. A
declaration without initial value leaves its cell as it is. -/
def exec (ops : TruthOperators) (fuel : Nat) (env : Env) (cells : Cells) : Stmt → Option Flow
  | .absent => some (.next cells)
  | .block _ none => some (.next cells)
  | .block _ (some stmts) => execList ops fuel ([] :: env) cells stmts
  | .decl node _ _ _ value =>
    if value.isAbsent then some (.next cells)
    else some (assignCell cells node.id (value.eval ops env cells))
  | .assign _ target value =>
    match target.name?.bind env.find? with
    | some d => some (assignCell cells d.node (value.eval ops env cells))
    | none => some (.halted .stuck)
  | .ret _ value =>
    if value.isAbsent then some (.returned none)
    else some (returnValue (value.eval ops env cells))
  | .cond _ test yes no =>
    Flow.choose (test.eval ops env cells) (exec ops fuel env cells yes)
      (exec ops fuel (yes.declare env) cells no)
  | .loop _ test body =>
    Flow.iterate (fun cells => test.eval ops env cells) (fun cells => exec ops fuel env cells body)
      fuel cells
  | .unknown _ _ => some (.halted .stuck)
def execList (ops : TruthOperators) (fuel : Nat) (env : Env) (cells : Cells) :
    List Stmt → Option Flow
  | [] => some (.next cells)
  | s :: rest =>
    Flow.andThen (exec ops fuel env cells s) fun cells =>
      execList ops fuel (s.declare env) cells rest
end

end Stmt

inductive Outcome where
  | returned (value : Option Constant)
  | fellThrough
  | halted (why : Halt)
  deriving DecidableEq, Repr, Inhabited

def Flow.outcome : Flow → Outcome
  | .next _ => .fellThrough
  | .returned value => .returned value
  | .halted why => .halted why

namespace Func

def run (ops : TruthOperators) (fuel : Nat) (f : Func) (cells : Cells) : Option Outcome :=
  (f.body.exec ops fuel .ofFunction cells).map Flow.outcome

/-- The function ends with this outcome, given enough rounds for its loops. -/
def Ends (ops : TruthOperators) (f : Func) (cells : Cells) (outcome : Outcome) : Prop :=
  ∃ fuel, f.run ops fuel cells = some outcome

def Diverges (ops : TruthOperators) (f : Func) (cells : Cells) : Prop :=
  ∀ fuel, f.run ops fuel cells = none

end Func

end MiddleEnd
