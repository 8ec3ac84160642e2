import MiddleEnd.Syntax.Tree

/-!
Why folding can fail.
-/

namespace MiddleEnd

structure DivisionByZero where
  op : BinaryOp
  left : Int32
  right : Int32
  node : NodeId
  deriving DecidableEq, Repr, Inhabited

def DivisionByZero.message (e : DivisionByZero) : Text :=
  .concat ["fold: ", .ofInt e.left.toInt, " ", e.op.name, " ", .ofInt e.right.toInt,
    ": division by zero (node ", .ofNat e.node.toNat, ")"]

inductive FoldError where
  | divisionByZero (e : DivisionByZero)
  | noOperand (node : NodeId)
  | missingOperand (node : NodeId)
  | unknownUnary (op : UnaryOp) (node : NodeId)
  | unknownBinary (op : BinaryOp) (node : NodeId)
  | unknownExpr (kind : UInt8) (node : NodeId)
  | unknownStmt (kind : UInt8) (node : NodeId)
  deriving DecidableEq, Repr, Inhabited

def FoldError.message : FoldError → Text
  | .divisionByZero e => e.message
  | .noOperand node => .concat ["fold: unary node ", .ofNat node.toNat, " has no operand"]
  | .missingOperand node =>
    .concat ["fold: binary node ", .ofNat node.toNat, " is missing an operand"]
  | .unknownUnary op node =>
    .concat ["fold: unknown unary operator ", op.name, " (node ", .ofNat node.toNat, ")"]
  | .unknownBinary op node =>
    .concat ["fold: unknown binary operator ", op.name, " (node ", .ofNat node.toNat, ")"]
  | .unknownExpr kind node =>
    .concat ["fold: unknown expression kind ", (ExprKind.other kind).name, " (node ",
      .ofNat node.toNat, ")"]
  | .unknownStmt kind node =>
    .concat ["fold: unknown statement kind ", (StmtKind.other kind).name, " (node ",
      .ofNat node.toNat, ")"]

structure InFunction (ε : Type) where
  name : Text
  cause : ε
  deriving Repr

end MiddleEnd
