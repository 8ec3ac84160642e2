import MiddleEnd.Folding.Error
import MiddleEnd.Scoping.Error

/-!
Why lowering can fail.
-/

namespace MiddleEnd.Lowering

inductive Feature where
  | missingExpr
  | unaryOp (op : UnaryOp)
  | binaryOp (op : BinaryOp)
  | expr (kind : UInt8)
  | stmt (kind : UInt8)
  | missingTarget
  | target (kind : ExprKind)
  | storage (type : Ty)
  | result (type : Ty)
  | named (text : Text)
  deriving DecidableEq, Repr, Inhabited

def Feature.text : Feature → Text
  | .missingExpr => "missing expression"
  | .unaryOp op => "unary operator " ++ op.name
  | .binaryOp op => "binary operator " ++ op.name
  | .expr kind => "expression " ++ (ExprKind.other kind).name
  | .stmt kind => "statement " ++ (StmtKind.other kind).name
  | .missingTarget => "assignment to missing target"
  | .target kind => .concat ["assignment to ", kind.name, " target"]
  | .storage type => "storage of type " ++ type.name
  | .result type => "result type " ++ type.name
  | .named text => text

/-- A name without visible declaration, or one whose declaration has no storage. -/
structure Unresolved where
  name : Text
  node : NodeId
  scope : NodeId
  deriving DecidableEq, Repr, Inhabited

def Unresolved.message (e : Unresolved) : Text :=
  .concat ["lower: unresolved identifier ", e.name.quoted, " at node ", .ofNat e.node.toNat,
    " (scope ", .ofNat e.scope.toNat, ")"]

structure Unimplemented where
  feature : Feature
  node : NodeId
  deriving DecidableEq, Repr, Inhabited

def Unimplemented.message (e : Unimplemented) : Text :=
  .concat ["lower: unimplemented: ", e.feature.text, " (node ", .ofNat e.node.toNat, ")"]

inductive LowerError where
  | unresolved (e : Unresolved)
  | unimplemented (e : Unimplemented)
  | scope (e : Scoping.ScopeError)
  deriving DecidableEq, Repr, Inhabited

inductive LowerFailure where
  | missingModule
  | missingTable
  | missingFunction
  | canceled
  | inFunction (e : InFunction LowerError)

end MiddleEnd.Lowering
