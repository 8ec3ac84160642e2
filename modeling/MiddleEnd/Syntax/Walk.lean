import MiddleEnd.Syntax.Tree

/-!
Walking a module in source order, each node before its children.
-/

namespace MiddleEnd

inductive Visited where
  | func (f : Func)
  | stmt (s : Stmt)
  | expr (e : Expr)
  deriving Repr, Inhabited

namespace Visited

def id : Visited → NodeId
  | .func f => f.id
  | .stmt s => s.id
  | .expr e => e.id

def kindName : Visited → Text
  | .func _ => "func"
  | .stmt s => s.kind.name
  | .expr e => e.kind.name

end Visited

/-- The expressions met from `e` on; the children of a node are met where `enter` holds of it. -/
def Expr.walk (enter : Visited → Bool) (e : Expr) : List Visited :=
  match e with
  | .absent => []
  | .int _ _ | .bool _ _ | .ident _ _ | .unknown _ _ => [.expr e]
  | .unary _ _ operand => .expr e :: if enter (.expr e) then operand.walk enter else []
  | .binary _ _ left right =>
    .expr e :: if enter (.expr e) then left.walk enter ++ right.walk enter else []

mutual
def Stmt.walk (enter : Visited → Bool) : Stmt → List Visited
  | .absent => []
  | .block node none => [.stmt (.block node none)]
  | .block node (some stmts) =>
    .stmt (.block node (some stmts)) ::
      if enter (.stmt (.block node (some stmts))) then Stmt.walkList enter stmts else []
  | .decl node mutable name type value =>
    .stmt (.decl node mutable name type value) ::
      if enter (.stmt (.decl node mutable name type value)) then value.walk enter else []
  | .assign node target value =>
    .stmt (.assign node target value) ::
      if enter (.stmt (.assign node target value)) then target.walk enter ++ value.walk enter
      else []
  | .ret node value =>
    .stmt (.ret node value) :: if enter (.stmt (.ret node value)) then value.walk enter else []
  | .cond node test yes no =>
    .stmt (.cond node test yes no) ::
      if enter (.stmt (.cond node test yes no)) then
        test.walk enter ++ Stmt.walk enter yes ++ Stmt.walk enter no
      else []
  | .loop node test body =>
    .stmt (.loop node test body) ::
      if enter (.stmt (.loop node test body)) then test.walk enter ++ Stmt.walk enter body
      else []
  | .unknown node kind => [.stmt (.unknown node kind)]
def Stmt.walkList (enter : Visited → Bool) : List Stmt → List Visited
  | [] => []
  | stmt :: stmts => Stmt.walk enter stmt ++ Stmt.walkList enter stmts
end

def Func.walk (enter : Visited → Bool) (f : Func) : List Visited :=
  .func f :: if enter (.func f) then f.body.walk enter else []

def Module.walk (enter : Visited → Bool) (m : Module) : List Visited :=
  m.entries.flatMap fun
    | none => []
    | some f => f.walk enter

def Module.nodes (m : Module) : List Visited :=
  m.walk fun _ => true

end MiddleEnd
