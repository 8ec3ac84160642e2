import MiddleEnd.Ir.Basic
import MiddleEnd.Syntax.Tree
import MiddleEnd.Text.Quoted

/-!
What can be wrong with scopes: problems of the checked program, and misuse of the scope records.
-/

namespace MiddleEnd.Scoping

inductive CheckKind where
  | duplicate
  | unresolved
  | immutable
  | invalidTarget
  deriving DecidableEq, Repr, Inhabited

namespace CheckKind

def title : CheckKind → Text
  | .duplicate => "duplicate declaration"
  | .unresolved => "unresolved identifier"
  | .immutable => "assignment to immutable binding"
  | .invalidTarget => "invalid assignment target"

end CheckKind

structure CheckError where
  kind : CheckKind
  name : Text
  node : NodeId
  scope : NodeId
  deriving DecidableEq, Repr, Inhabited

def CheckError.message (e : CheckError) : Text :=
  .concat ["symbols: ", e.kind.title,
    if e.name.isEmpty then [] else " " ++ e.name.quoted,
    if e.node = 0 then [] else " at node " ++ .ofNat e.node.toNat,
    " (scope ", .ofNat e.scope.toNat, ")"]

inductive ScopeKind where
  | invalid
  | module
  | function
  | block
  | other (code : UInt8)
  deriving DecidableEq, Repr, Inhabited

namespace ScopeKind

def ofCode (code : UInt8) : ScopeKind :=
  match code with
  | 0 => .invalid
  | 1 => .module
  | 2 => .function
  | 3 => .block
  | _ => .other code

def name : ScopeKind → Text
  | .module => "module"
  | .function => "function"
  | .block => "block"
  | .invalid | .other _ => "invalid"

end ScopeKind

inductive ScopeError where
  | unnumbered
  | reentered (id : NodeId) (kind : ScopeKind) (parent : NodeId)
      (recordedKind : ScopeKind) (recordedParent : NodeId)
  | unknownParent (id parent : NodeId)
  | declareInUnknown (name : Text) (scope : NodeId)
  | bindInUnknown (name : Text) (scope : NodeId)
  | bindUndeclared (name : Text) (scope : NodeId)
  | declareOutside (name : Text)
  | popEmpty (id : NodeId)
  | popOther (id innermost : NodeId)
  | problem (e : CheckError)
  deriving DecidableEq, Repr, Inhabited

def ScopeError.message : ScopeError → Text
  | .unnumbered => "symbols: scope without node id"
  | .reentered id kind parent recordedKind recordedParent =>
    .concat ["symbols: scope ", .ofNat id.toNat, " re-entered as ", kind.name, " under ",
      .ofNat parent.toNat, ", recorded as ", recordedKind.name, " under ",
      .ofNat recordedParent.toNat]
  | .unknownParent id parent =>
    .concat ["symbols: scope ", .ofNat id.toNat, " has unknown parent ", .ofNat parent.toNat]
  | .declareInUnknown name scope =>
    .concat ["symbols: declare ", name.quoted, " in unknown scope ", .ofNat scope.toNat]
  | .bindInUnknown name scope =>
    .concat ["symbols: bind ", name.quoted, " in unknown scope ", .ofNat scope.toNat]
  | .bindUndeclared name scope =>
    .concat ["symbols: bind of undeclared ", name.quoted, " in scope ", .ofNat scope.toNat]
  | .declareOutside name =>
    .concat ["symbols: declare ", name.quoted, " outside of any scope"]
  | .popEmpty id =>
    .concat ["symbols: pop of scope ", .ofNat id.toNat, " on empty stack"]
  | .popOther id innermost =>
    .concat ["symbols: pop of scope ", .ofNat id.toNat, ", innermost is ",
      .ofNat innermost.toNat]
  | .problem e => e.message

end MiddleEnd.Scoping
