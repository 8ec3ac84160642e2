import MiddleEnd.Syntax.Tree

/-!
Renaming every name of a module: of the module itself, of functions, declarations and identifiers.
-/

namespace MiddleEnd

def Expr.mapNames (rename : Text → Text) : Expr → Expr
  | .ident node name => .ident node (rename name)
  | .unary node op operand => .unary node op (operand.mapNames rename)
  | .binary node op left right =>
    .binary node op (left.mapNames rename) (right.mapNames rename)
  | e => e

mutual
def Stmt.mapNames (rename : Text → Text) : Stmt → Stmt
  | .absent => .absent
  | .block node none => .block node none
  | .block node (some stmts) => .block node (some (Stmt.mapNamesList rename stmts))
  | .decl node mutable name type value =>
    .decl node mutable (rename name) type (value.mapNames rename)
  | .assign node target value => .assign node (target.mapNames rename) (value.mapNames rename)
  | .ret node value => .ret node (value.mapNames rename)
  | .cond node test yes no =>
    .cond node (test.mapNames rename) (Stmt.mapNames rename yes) (Stmt.mapNames rename no)
  | .loop node test body => .loop node (test.mapNames rename) (Stmt.mapNames rename body)
  | .unknown node kind => .unknown node kind
def Stmt.mapNamesList (rename : Text → Text) : List Stmt → List Stmt
  | [] => []
  | stmt :: stmts => Stmt.mapNames rename stmt :: Stmt.mapNamesList rename stmts
end

def Func.mapNames (rename : Text → Text) (f : Func) : Func :=
  { f with name := rename f.name, body := f.body.mapNames rename }

def Module.mapNames (rename : Text → Text) (m : Module) : Module :=
  { m with
    name := rename m.name
    funcs := m.funcs.map fun fs => fs.map fun f => f.map (Func.mapNames rename) }

end MiddleEnd
