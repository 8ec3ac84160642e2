import MiddleEnd.Interchange.Datum
import MiddleEnd.Syntax.Kind
import MiddleEnd.Syntax.Operator
import MiddleEnd.Syntax.Ty

/-!
Trees of the language: modules of parameterless functions over mutable and immutable locals,
assignments, conditionals and loops.
-/

namespace MiddleEnd

/-- Zero numbers no node. -/
abbrev NodeId := UInt32

/-- What every node carries: its number, and the fields of its record that its kind does not
read. -/
structure Node where
  id : NodeId
  unread : List (String × Datum) := []
  deriving Repr, BEq, Inhabited

/-- An operand, a condition or a value that a file leaves out is `absent`. -/
inductive Expr where
  | absent
  | int (node : Node) (value : Int32)
  | bool (node : Node) (value : Bool)
  | ident (node : Node) (name : Text)
  | unary (node : Node) (op : UnaryOp) (operand : Expr)
  | binary (node : Node) (op : BinaryOp) (left right : Expr)
  | unknown (node : Node) (kind : UInt8)
  deriving Repr, BEq, Inhabited

/-- A block may carry no list at all. What is left out of a statement is an `absent` part. -/
inductive Stmt where
  | absent
  | block (node : Node) (stmts : Option (List Stmt))
  | decl (node : Node) (mutable : Bool) (name : Text) (type : Ty) (value : Expr)
  | assign (node : Node) (target value : Expr)
  | ret (node : Node) (value : Expr)
  | cond (node : Node) (test : Expr) (yes no : Stmt)
  | loop (node : Node) (test : Expr) (body : Stmt)
  | unknown (node : Node) (kind : UInt8)
  deriving Repr, BEq, Inhabited

structure Func where
  id : NodeId
  name : Text
  result : Ty
  body : Stmt
  deriving Repr, BEq, Inhabited

structure Module where
  id : NodeId
  name : Text
  funcs : Option (List (Option Func))
  deriving Repr, BEq, Inhabited

namespace Expr

def isAbsent : Expr → Bool
  | .absent => true
  | _ => false

def id : Expr → NodeId
  | .absent => 0
  | .int node _ | .bool node _ | .ident node _ | .unary node _ _ | .binary node _ _ _
  | .unknown node _ => node.id

def kind : Expr → ExprKind
  | .absent | .int _ _ => .int
  | .bool _ _ => .bool
  | .ident _ _ => .ident
  | .unary _ _ _ => .unary
  | .binary _ _ _ _ => .binary
  | .unknown _ code => .other code

def isLiteral : Expr → Bool
  | .int _ _ | .bool _ _ => true
  | _ => false

end Expr

namespace Stmt

def isAbsent : Stmt → Bool
  | .absent => true
  | _ => false

def id : Stmt → NodeId
  | .absent => 0
  | .block node _ | .decl node _ _ _ _ | .assign node _ _ | .ret node _ | .cond node _ _ _
  | .loop node _ _ | .unknown node _ => node.id

def kind : Stmt → StmtKind
  | .absent | .block _ _ => .block
  | .decl _ mutable _ _ _ => if mutable then .var else .val
  | .assign _ _ _ => .assign
  | .ret _ _ => .ret
  | .cond _ _ _ _ => .cond
  | .loop _ _ _ => .loop
  | .unknown _ code => .other code

def isDecl : Stmt → Bool
  | .decl _ _ _ _ _ => true
  | _ => false

def emptyBlock (id : NodeId) : Stmt :=
  .block ⟨id, []⟩ (some [])

end Stmt

def Module.entries (m : Module) : List (Option Func) :=
  m.funcs.getD []

end MiddleEnd
