import MiddleEnd.Folding.Error
import MiddleEnd.Scoping.Consistency
import MiddleEnd.Scoping.Stack

/-!
The scope check builds the table of a module, with a scope for the module, for each function and for
each block, and reports all violations of scoping.
-/

namespace MiddleEnd.Scoping

structure Checker where
  table : Table
  stack : Stack
  problems : List CheckError
  deriving Inhabited

inductive CheckFailure where
  | missingModule
  | missingFunction
  | scope (e : ScopeError)
  | inFunction (e : InFunction ScopeError)
  | problems (es : List CheckError)
  | inconsistent (faults : List TableFault)

namespace Checker

def start : Checker := ⟨.empty, .empty, []⟩

def problem (c : Checker) (kind : CheckKind) (name : Text) (node : NodeId) : CheckError :=
  ⟨kind, name, node, c.stack.topId c.table⟩

def report (c : Checker) (problems : List CheckError) : Checker :=
  { c with problems := c.problems ++ problems }

def push (c : Checker) (kind : ScopeKind) (id : NodeId) : Except ScopeError Checker := do
  let (stack, table) ← c.stack.push c.table kind id
  .ok { c with stack, table }

def pop (c : Checker) (id : NodeId) : Except ScopeError Checker := do
  let stack ← c.stack.pop c.table id
  .ok { c with stack }

def exprProblems (c : Checker) : Expr → List CheckError
  | .ident node name =>
    match c.stack.resolve? name with
    | some _ => []
    | none => [c.problem .unresolved name node.id]
  | .unary _ _ operand => c.exprProblems operand
  | .binary _ _ left right => c.exprProblems left ++ c.exprProblems right
  | _ => []

def targetProblems (c : Checker) (target : Expr) : List CheckError :=
  match target with
  | .absent => []
  | .ident node name =>
    match c.stack.resolve? name with
    | none => [c.problem .unresolved name node.id]
    | some (_, ref) =>
      match c.table.binding? ref with
      | some b => if b.mutable then [] else [c.problem .immutable name node.id]
      | none => [c.problem .immutable name node.id]
  | target => c.problem .invalidTarget [] target.id :: c.exprProblems target

/-- A repeated declaration is a problem of the program, every other refusal ends the check. -/
def declare (c : Checker) (node : NodeId) (mutable : Bool) (name : Text) (type : Ty) :
    Except ScopeError Checker :=
  match c.stack.declare c.table name mutable type Ir.noId with
  | (table, .ok (stack, _)) => .ok { c with table, stack }
  | (table, .error (.problem e)) =>
    .ok ({ c with table }.report [c.problem e.kind name node])
  | (_, .error e) => .error e

mutual
def stmt (c : Checker) : Stmt → Except ScopeError Checker
  | .absent => .ok c
  | .block node none => do
    let c ← c.push .block node.id
    c.pop node.id
  | .block node (some stmts) => do
    let c ← c.push .block node.id
    let c ← stmtList c stmts
    c.pop node.id
  | .decl node mutable name type value =>
    (c.report (c.exprProblems value)).declare node.id mutable name type
  | .assign _ target value => .ok (c.report (c.targetProblems target ++ c.exprProblems value))
  | .ret _ value => .ok (c.report (c.exprProblems value))
  | .cond _ test yes no => do
    let c ← stmt (c.report (c.exprProblems test)) yes
    stmt c no
  | .loop _ test body => stmt (c.report (c.exprProblems test)) body
  | .unknown _ _ => .ok c
def stmtList (c : Checker) : List Stmt → Except ScopeError Checker
  | [] => .ok c
  | s :: rest => do
    let c ← stmt c s
    stmtList c rest
end

def func (c : Checker) : Option Func → Except CheckFailure Checker
  | none => .error .missingFunction
  | some f => do
    let inside : Except ScopeError Checker := do
      let c ← c.push .function f.id
      c.stmt f.body
    let c ← inside.mapError fun e => .inFunction ⟨f.name, e⟩
    (c.pop f.id).mapError .scope

def funcs (c : Checker) : List (Option Func) → Except CheckFailure Checker
  | [] => .ok c
  | f :: rest => do
    let c ← c.func f
    c.funcs rest

end Checker

def Table.ofModule (m : Module) : Except CheckFailure Table := do
  let c ← (Checker.start.push .module m.id).mapError .scope
  let c ← c.funcs m.entries
  if c.problems.isEmpty then
    if c.table.faults.isEmpty then .ok c.table else .error (.inconsistent c.table.faults)
  else .error (.problems c.problems)

def Table.ofModule? : Option Module → Except CheckFailure Table
  | none => .error .missingModule
  | some m => Table.ofModule m

end MiddleEnd.Scoping
