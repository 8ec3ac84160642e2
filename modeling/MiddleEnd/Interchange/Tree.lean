import MiddleEnd.Interchange.Shape
import MiddleEnd.Syntax.Tree

/-!
Trees as records. A tree reads the fields of its own kind; the others stay with the node and are
written back as they were.
-/

namespace MiddleEnd

open Interchange (RecordType Shape)

/-- What the fields behind the kind hold, but for the one that is read. -/
def unreadFields (r : RecordType) (reads : String) (data : List Datum) : List (String × Datum) :=
  ((r.fields.drop 2).zip data).filterMap fun (field, datum) =>
    if field.name != reads && !field.shape.isZero datum then some (field.name, datum) else none

def Node.assemble (node : Node) (r : RecordType) (kind : UInt8) (given : List (String × Datum)) :
    Datum :=
  let said := ("id", .number node.id.toNat) :: ("kind", .number kind.toNat) :: given ++ node.unread
  .record (r.fields.map fun field => (said.lookup field.name).getD field.shape.zero)

def Expr.ofDatum : Datum → Expr
  | .record [.number id, .number kind, .number value, .flag truth, .text name,
      .record [.number unaryOp, operand], .record [.number binaryOp, left, right]] =>
    let node (reads : String) : Node :=
      { id := UInt32.ofInt id
        unread := unreadFields .expr reads
          [.number value, .flag truth, .text name, .record [.number unaryOp, operand],
            .record [.number binaryOp, left, right]] }
    match ExprKind.ofCode (UInt8.ofInt kind) with
    | .int => .int (node "int") (Int32.ofInt value)
    | .bool => .bool (node "bool") truth
    | .ident => .ident (node "name") name
    | .unary => .unary (node "unary") (UnaryOp.ofCode (UInt8.ofInt unaryOp)) (Expr.ofDatum operand)
    | .binary =>
      .binary (node "binary") (BinaryOp.ofCode (UInt8.ofInt binaryOp)) (Expr.ofDatum left)
        (Expr.ofDatum right)
    | .other code => .unknown (node "") code
  | _ => .absent

mutual
def Stmt.ofDatum : Datum → Stmt
  | .record [.number id, .number kind, .record [stmts],
      .record [.text name, .number type, initial], .record [target, assigned],
      .record [returned], .record [test, yes, no], .record [loopTest, body]] =>
    let node (reads : String) : Node :=
      { id := UInt32.ofInt id
        unread := unreadFields .stmt reads
          [.record [stmts], .record [.text name, .number type, initial],
            .record [target, assigned], .record [returned], .record [test, yes, no],
            .record [loopTest, body]] }
    let decl (mutable : Bool) : Stmt :=
      .decl (node "decl") mutable name (Ty.ofCode (UInt8.ofInt type)) (Expr.ofDatum initial)
    match StmtKind.ofCode (UInt8.ofInt kind) with
    | .block => .block (node "block") (Stmt.blockOfDatum stmts)
    | .var => decl true
    | .val => decl false
    | .assign => .assign (node "assign") (Expr.ofDatum target) (Expr.ofDatum assigned)
    | .ret => .ret (node "return") (Expr.ofDatum returned)
    | .cond => .cond (node "if") (Expr.ofDatum test) (Stmt.ofDatum yes) (Stmt.ofDatum no)
    | .loop => .loop (node "while") (Expr.ofDatum loopTest) (Stmt.ofDatum body)
    | .other code => .unknown (node "") code
  | _ => .absent
def Stmt.blockOfDatum : Datum → Option (List Stmt)
  | .list items _ => some (Stmt.ofData items)
  | _ => none
def Stmt.ofData : List Datum → List Stmt
  | [] => []
  | item :: items => Stmt.ofDatum item :: Stmt.ofData items
end

def Func.ofDatum : Datum → Option Func
  | .record [.number id, .text name, .number result, body] =>
    some
      { id := UInt32.ofInt id
        name
        result := Ty.ofCode (UInt8.ofInt result)
        body := Stmt.ofDatum body }
  | _ => none

def Module.ofDatum : Datum → Option Module
  | .record [.number id, .text name, funcs] =>
    some
      { id := UInt32.ofInt id
        name
        funcs :=
          match funcs with
          | .list items _ => some (items.map Func.ofDatum)
          | _ => none }
  | _ => none

def Expr.toDatum : Expr → Datum
  | .absent => .absent
  | .int node value =>
    node.assemble .expr ExprKind.int.code [("int", .number value.toInt)]
  | .bool node value => node.assemble .expr ExprKind.bool.code [("bool", .flag value)]
  | .ident node name => node.assemble .expr ExprKind.ident.code [("name", .text name)]
  | .unary node op operand =>
    node.assemble .expr ExprKind.unary.code
      [("unary", .record [.number op.code.toNat, operand.toDatum])]
  | .binary node op left right =>
    node.assemble .expr ExprKind.binary.code
      [("binary", .record [.number op.code.toNat, left.toDatum, right.toDatum])]
  | .unknown node kind => node.assemble .expr kind []

mutual
def Stmt.toDatum : Stmt → Datum
  | .absent => .absent
  | .block node none => node.assemble .stmt StmtKind.block.code [("block", .record [.absent])]
  | .block node (some stmts) =>
    node.assemble .stmt StmtKind.block.code [("block", .record [.list (Stmt.toData stmts) []])]
  | .decl node mutable name type value =>
    node.assemble .stmt (if mutable then StmtKind.var else StmtKind.val).code
      [("decl", .record [.text name, .number type.code.toNat, value.toDatum])]
  | .assign node target value =>
    node.assemble .stmt StmtKind.assign.code
      [("assign", .record [target.toDatum, value.toDatum])]
  | .ret node value =>
    node.assemble .stmt StmtKind.ret.code [("return", .record [value.toDatum])]
  | .cond node test yes no =>
    node.assemble .stmt StmtKind.cond.code
      [("if", .record [test.toDatum, Stmt.toDatum yes, Stmt.toDatum no])]
  | .loop node test body =>
    node.assemble .stmt StmtKind.loop.code
      [("while", .record [test.toDatum, Stmt.toDatum body])]
  | .unknown node kind => node.assemble .stmt kind []
def Stmt.toData : List Stmt → List Datum
  | [] => []
  | stmt :: stmts => Stmt.toDatum stmt :: Stmt.toData stmts
end

def Func.toDatum (f : Func) : Datum :=
  .record [.number f.id.toNat, .text f.name, .number f.result.code.toNat, f.body.toDatum]

def Module.toDatum (m : Module) : Datum :=
  let funcs : Datum :=
    match m.funcs with
    | some fs => .list (fs.map fun f => (f.map Func.toDatum).getD .absent) []
    | none => .absent
  .record [.number m.id.toNat, .text m.name, funcs]

def Expr.ofKind (id : NodeId) (kind : UInt8) : Expr :=
  .ofDatum (Node.assemble ⟨id, []⟩ .expr kind [])

def Stmt.ofKind (id : NodeId) (kind : UInt8) : Stmt :=
  .ofDatum (Node.assemble ⟨id, []⟩ .stmt kind [])

end MiddleEnd
