import MiddleEnd.Ir.Builder
import MiddleEnd.Lowering.Error
import MiddleEnd.Scoping.Stack

/-!
Lowering walks a function once with a stack of scopes and a builder. Statements behind a terminator
are still visited, but the builder ignores all requests.
-/

namespace MiddleEnd.Lowering

open Scoping (Stack Table ScopeError ScopeKind)

structure State where
  builder : Ir.Builder
  stack : Stack
  table : Table
  deriving Inhabited

/-- What was recorded before a failure stays recorded. -/
abbrev LowerM := EStateM LowerError State

def fail {α : Type} (feature : Feature) (node : NodeId) : LowerM α :=
  throw (.unimplemented ⟨feature, node⟩)

def storageType? : Ty → Option Ir.Ty
  | .int => some .i32
  | .bool => some .i1
  | _ => none

def resultType? : Ty → Option Ir.Ty
  | .unit => some .void
  | type => storageType? type

def arithmeticOp? : BinaryOp → Option Ir.BinOp
  | .add => some .add
  | .sub => some .sub
  | .mul => some .mul
  | .div => some .div
  | .mod => some .rem
  | .and => some .and
  | .or => some .or
  | .xor => some .xor
  | _ => none

def comparison? : BinaryOp → Option Ir.CmpPred
  | .eq => some .eq
  | .ne => some .ne
  | .lt => some .lt
  | .le => some .le
  | .gt => some .gt
  | .ge => some .ge
  | _ => none

def isLive : LowerM Bool := do
  return !(← get).builder.isTerminated

def build (change : Ir.Builder → Ir.Builder) : LowerM Unit :=
  modify fun s => { s with builder := change s.builder }

def produce {α : Type} (request : Ir.Builder → Ir.Builder × α) : LowerM α :=
  modifyGet fun s =>
    let (builder, result) := request s.builder
    (result, { s with builder })

def push (kind : ScopeKind) (id : NodeId) : LowerM Unit := do
  let s ← get
  match s.stack.push s.table kind id with
  | .ok (stack, table) => set { s with stack, table }
  | .error e => throw (.scope e)

def pop (id : NodeId) : LowerM Unit := do
  let s ← get
  match s.stack.pop s.table id with
  | .ok stack => set { s with stack }
  | .error e => throw (.scope e)

def declare (name : Text) (mutable : Bool) (type : Ty) (storage : Ir.LocalId) : LowerM Unit := do
  let s ← get
  match s.stack.declare s.table name mutable type storage with
  | (table, .ok (stack, _)) => set { s with stack, table }
  | (table, .error e) =>
    set { s with table }
    throw (.scope e)

def binding? (name : Text) : LowerM (Option Scoping.Binding) := do
  let s ← get
  return (s.stack.resolve? name).bind fun (_, ref) => s.table.binding? ref

/-- The visible binding of an identifier. Live code also needs its storage. -/
def resolve (node : NodeId) (name : Text) : LowerM Scoping.Binding := do
  let live ← isLive
  match ← binding? name with
  | some b =>
    if live && b.storage < 0 then unresolved else return b
  | none => unresolved
where
  unresolved : LowerM Scoping.Binding := do
    let s ← get
    throw (.unresolved ⟨name, node, s.stack.topId s.table⟩)

def expr : Expr → LowerM Ir.Operand
  | .absent => fail .missingExpr 0
  | .int _ value => return .int value
  | .bool _ value => return .bool value
  | .ident node name => do
    let b ← resolve node.id name
    if ← isLive then produce fun builder => builder.load b.storage
    else return .undef ((storageType? b.type).getD .void)
  | .unary node op operand => do
    let operand ← expr operand
    match op with
    | .not => produce fun builder => builder.unary .not operand
    | .other _ => fail (.unaryOp op) node.id
  | .binary node op left right => do
    let left ← expr left
    let right ← expr right
    match comparison? op, arithmeticOp? op with
    | some pred, _ => produce fun builder => builder.compare pred left right
    | none, some arithmetic => produce fun builder => builder.binary arithmetic left right
    | none, none => fail (.binaryOp op) node.id
  | .unknown node kind => fail (.expr kind) node.id

/-- The initial value is lowered before the name becomes visible. -/
def decl (node : NodeId) (mutable : Bool) (name : Text) (type : Ty) (value : Expr) :
    LowerM Unit := do
  match storageType? type with
  | none => fail (.storage type) node
  | some slot =>
    let storage ← if ← isLive then produce fun builder => builder.alloc name slot
      else pure Ir.noId
    unless value.isAbsent do
      let value ← expr value
      if storage ≥ 0 then build fun builder => builder.store storage value
    declare name mutable type storage

def assign (node : NodeId) (target value : Expr) : LowerM Unit :=
  match target with
  | .ident targetNode name => do
    let b ← resolve targetNode.id name
    let value ← expr value
    if ← isLive then build fun builder => builder.store b.storage value
  | .absent => fail .missingTarget node
  | target => fail (.target target.kind) target.id

def ret (value : Expr) : LowerM Unit :=
  match value with
  | .absent => build fun builder => builder.terminate (.ret none)
  | value => do
    let value ← expr value
    build fun builder => builder.terminate (.ret (some value))

mutual
def stmt : Stmt → LowerM Unit
  | .absent => return
  | .block node none => do
    push .block node.id
    pop node.id
  | .block node (some stmts) => do
    push .block node.id
    stmtList stmts
    pop node.id
  | .decl node mutable name type value => decl node.id mutable name type value
  | .assign node target value => assign node.id target value
  | .ret _ value => ret value
  | .cond _ test yes no => do
    let test ← expr test
    if ← isLive then
      -- Without alternative the block for it is where both ways meet.
      let thenBlock ← produce Ir.Builder.newBlock
      let elseBlock ← produce Ir.Builder.newBlock
      let merge ← if no.isAbsent then pure elseBlock else produce Ir.Builder.newBlock
      build fun builder => builder.terminate (.branch test thenBlock elseBlock)
      build fun builder => builder.select thenBlock
      stmt yes
      build fun builder => builder.terminate (.goto merge)
      build fun builder => builder.select elseBlock
      unless no.isAbsent do
        stmt no
        build fun builder => builder.terminate (.goto merge)
      build fun builder => builder.select merge
    else
      stmt yes
      stmt no
  | .loop _ test body => do
    if ← isLive then
      let testBlock ← produce Ir.Builder.newBlock
      let bodyBlock ← produce Ir.Builder.newBlock
      let exitBlock ← produce Ir.Builder.newBlock
      build fun builder => builder.terminate (.goto testBlock)
      build fun builder => builder.select testBlock
      let test ← expr test
      build fun builder => builder.terminate (.branch test bodyBlock exitBlock)
      build fun builder => builder.select bodyBlock
      stmt body
      build fun builder => builder.terminate (.goto testBlock)
      build fun builder => builder.select exitBlock
    else
      let _ ← expr test
      stmt body
  | .unknown node kind => fail (.stmt kind) node.id
def stmtList : List Stmt → LowerM Unit
  | [] => return
  | s :: rest => do
    stmt s
    stmtList rest
end

def body (module : NodeId) (f : Func) : LowerM Unit := do
  push .module module
  push .function f.id
  let entry ← produce Ir.Builder.newBlock
  build fun builder => builder.select entry
  stmt f.body
  pop f.id
  pop module

/-- A body that may run off its end returns from a function without result, and cannot do so in any
other. -/
def finish (builder : Ir.Builder) : Ir.Func :=
  let last := if builder.func.result = .void then Ir.Terminator.ret none else .unreachable
  (builder.terminate last).finalize.func

def func (module : NodeId) (table : Table) (f : Func) : Except LowerError Ir.Func × Table :=
  match resultType? f.result with
  | none => (.error (.unimplemented ⟨.result f.result, f.id⟩), table)
  | some result =>
    match (body module f).run ⟨.start f.name result [], .empty, table⟩ with
    | .ok _ s => (.ok (finish s.builder), s.table)
    | .error e s => (.error e, s.table)

structure Attempt where
  name : Text
  outcome : Except LowerError Ir.Func

def attempts (module : NodeId) : Table → List (Option Func) → List (Option Attempt) × Table
  | table, [] => ([], table)
  | table, none :: _ => ([none], table)
  | table, some f :: rest =>
    match func module table f with
    | (.error e, table) => ([some ⟨f.name, .error e⟩], table)
    | (.ok lowered, table) =>
      let (others, table) := attempts module table rest
      (some ⟨f.name, .ok lowered⟩ :: others, table)

def collect : List (Option Attempt) → Except LowerFailure (List Ir.Func)
  | [] => .ok []
  | none :: _ => .error .missingFunction
  | some attempt :: rest => do
    let f ← attempt.outcome.mapError fun e => .inFunction ⟨attempt.name, e⟩
    let rest ← collect rest
    .ok (f :: rest)

structure Run where
  attempts : List (Option Attempt)
  result : Except LowerFailure Ir.Module
  table : Table

/-- A canceled run takes on no function. -/
def module (canceled : Bool) (m : Module) (table : Table) : Run :=
  if canceled && !m.entries.isEmpty then ⟨[], .error .canceled, table⟩
  else
    let (attempts, table) := attempts m.id table m.entries
    ⟨attempts, (collect attempts).map Ir.Module.ofFuncs, table⟩

def module? (canceled : Bool) : Option Module → Option Table → Except LowerFailure Run
  | none, _ => .error .missingModule
  | some _, none => .error .missingTable
  | some m, some table => .ok (module canceled m table)

end MiddleEnd.Lowering
