import MiddleEnd.Folding.Arithmetic
import MiddleEnd.Folding.Error

/-!
Constant folding rebuilds a tree with its statically known parts evaluated. A folded node keeps the
number of the node it stands for.
-/

namespace MiddleEnd

namespace Expr

def literal (id : NodeId) : Constant → Expr
  | .int n => .int ⟨id, []⟩ n
  | .bool b => .bool ⟨id, []⟩ b

def foldUnary (id : NodeId) (op : UnaryOp) (operand : Expr) : Except FoldError Expr :=
  match operand, op with
  | .absent, _ => .error (.noOperand id)
  | _, .other code => .error (.unknownUnary (.other code) id)
  | .int _ n, .not => .ok (literal id (.int (~~~n)))
  | .bool _ b, .not => .ok (literal id (.bool (!b)))
  | operand, .not => .ok (.unary ⟨id, []⟩ .not operand)

/-- A binary node over operands that are folded already. Only two integers are evaluated. -/
def foldBinary (id : NodeId) (op : BinaryOp) (left right : Expr) : Except FoldError Expr :=
  match left, right with
  | .absent, _ | _, .absent => .error (.missingOperand id)
  | .int _ l, .int _ r =>
    match op.applyInts l r with
    | .value v => .ok (literal id v)
    | .zeroDivisor => .error (.divisionByZero ⟨op, l, r, id⟩)
    | .meaningless => .error (.unknownBinary op id)
  | left, right => .ok (.binary ⟨id, []⟩ op left right)

def fold : Expr → Except FoldError Expr
  | .absent => .ok .absent
  | .int node value => .ok (.int node value)
  | .bool node value => .ok (.bool node value)
  | .ident node name => .ok (.ident node name)
  | .unary node op operand => do
    let operand ← operand.fold
    foldUnary node.id op operand
  | .binary node op left right => do
    let left ← left.fold
    let right ← right.fold
    foldBinary node.id op left right
  | .unknown node kind => .error (.unknownExpr kind node.id)

end Expr

namespace Stmt

def orEmpty (folded source : Stmt) : Stmt :=
  if folded.isAbsent && !source.isAbsent then .emptyBlock source.id else folded

mutual
/-- The folded statement, `absent` where it folds to nothing. -/
def fold : Stmt → Except FoldError Stmt
  | .absent => .ok .absent
  | .block node none => .ok (.emptyBlock node.id)
  | .block node (some stmts) => do
    let stmts ← foldList stmts
    .ok (.block ⟨node.id, []⟩ (some stmts))
  | .decl node mutable name type value => do
    let value ← value.fold
    .ok (.decl ⟨node.id, []⟩ mutable name type value)
  | .assign node target value => do
    let target ← target.fold
    let value ← value.fold
    .ok (.assign ⟨node.id, []⟩ target value)
  | .ret node value => do
    let value ← value.fold
    .ok (.ret ⟨node.id, []⟩ value)
  | .cond node test yes no => do
    match ← test.fold with
    | .bool _ true => fold yes
    | .bool _ false => fold no
    | test =>
      let yes' ← fold yes
      let no' ← fold no
      .ok (.cond ⟨node.id, []⟩ test (orEmpty yes' yes) (orEmpty no' no))
  | .loop node test body => do
    let test ← test.fold
    let body' ← fold body
    .ok (.loop ⟨node.id, []⟩ test (orEmpty body' body))
  | .unknown node kind => .error (.unknownStmt kind node.id)
def foldList : List Stmt → Except FoldError (List Stmt)
  | [] => .ok []
  | stmt :: stmts => do
    let stmt ← fold stmt
    let stmts ← foldList stmts
    .ok (if stmt.isAbsent then stmts else stmt :: stmts)
end

end Stmt

namespace Func

/-- A body that folds to nothing becomes an empty block. -/
def fold (f : Func) : Except FoldError Func := do
  let body ← f.body.fold
  .ok { f with body := body.orEmpty f.body }

end Func

namespace Module

def foldEntries : List (Option Func) → Except (InFunction FoldError) (List (Option Func))
  | [] => .ok []
  | none :: rest => do
    let rest ← foldEntries rest
    .ok (none :: rest)
  | some f :: rest => do
    let f ← f.fold.mapError (InFunction.mk f.name)
    let rest ← foldEntries rest
    .ok (some f :: rest)

def fold (m : Module) : Except (InFunction FoldError) Module := do
  let funcs ← foldEntries m.entries
  .ok { m with funcs := some funcs }

end Module

end MiddleEnd
