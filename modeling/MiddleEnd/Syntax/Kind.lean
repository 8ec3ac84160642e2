import MiddleEnd.Text.Basic

/-!
Kinds of nodes, as files spell them.
-/

namespace MiddleEnd

inductive ExprKind where
  | int | bool | ident | unary | binary
  | other (code : UInt8)
  deriving DecidableEq, Repr, Inhabited

namespace ExprKind

def known : List ExprKind :=
  [.int, .bool, .ident, .unary, .binary]

def code : ExprKind → UInt8
  | .int => 0
  | .bool => 1
  | .ident => 2
  | .unary => 3
  | .binary => 4
  | .other code => code

def ofCode (code : UInt8) : ExprKind :=
  known.getD code.toNat (.other code)

def name : ExprKind → Text
  | .int => "int"
  | .bool => "bool"
  | .ident => "ident"
  | .unary => "unary"
  | .binary => "binary"
  | .other code => .concat ["expr(", .ofNat code.toNat, ")"]

def isKnown : ExprKind → Bool
  | .other _ => false
  | _ => true

def ofName? (name : Text) : Option ExprKind :=
  known.find? fun kind => kind.name == name

end ExprKind

inductive StmtKind where
  | block | var | val | assign | ret | cond | loop
  | other (code : UInt8)
  deriving DecidableEq, Repr, Inhabited

namespace StmtKind

def known : List StmtKind :=
  [.block, .var, .val, .assign, .ret, .cond, .loop]

def code : StmtKind → UInt8
  | .block => 0
  | .var => 1
  | .val => 2
  | .assign => 3
  | .ret => 4
  | .cond => 5
  | .loop => 6
  | .other code => code

def ofCode (code : UInt8) : StmtKind :=
  known.getD code.toNat (.other code)

def name : StmtKind → Text
  | .block => "block"
  | .var => "var"
  | .val => "val"
  | .assign => "assign"
  | .ret => "return"
  | .cond => "if"
  | .loop => "while"
  | .other code => .concat ["stmt(", .ofNat code.toNat, ")"]

def isKnown : StmtKind → Bool
  | .other _ => false
  | _ => true

def ofName? (name : Text) : Option StmtKind :=
  known.find? fun kind => kind.name == name

end StmtKind

end MiddleEnd
