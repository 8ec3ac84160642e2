import MiddleEnd.Scoping.Table

/-!
Structural faults of a table: records under a wrong key, wrong nesting, an index that does not match
the bindings, and chains of parents that never end.
-/

namespace MiddleEnd.Scoping

inductive TableFault where
  | misplaced (id key : NodeId)
  | invalidKind (key : NodeId)
  | unknownParent (key parent : NodeId)
  | moduleWithParent (key parent : NodeId)
  | misnestedFunction (key : NodeId) (around : ScopeKind) (parent : NodeId)
  | declaredTwice (key : NodeId) (name : Text)
  | staleIndex (key : NodeId) (name : Text)
  | cyclic (key : NodeId)
  deriving DecidableEq, Repr, Inhabited

def TableFault.message : TableFault → Text
  | .misplaced id key =>
    .concat ["scope ", .ofNat id.toNat, " stored under key ", .ofNat key.toNat]
  | .invalidKind key => .concat ["scope ", .ofNat key.toNat, " has invalid kind"]
  | .unknownParent key parent =>
    .concat ["scope ", .ofNat key.toNat, " has unknown parent ", .ofNat parent.toNat]
  | .moduleWithParent key parent =>
    .concat ["module scope ", .ofNat key.toNat, " has parent ", .ofNat parent.toNat]
  | .misnestedFunction key around parent =>
    .concat ["function scope ", .ofNat key.toNat, " nested in ", around.name, " scope ",
      .ofNat parent.toNat]
  | .declaredTwice key name =>
    .concat ["scope ", .ofNat key.toNat, " declares ", name.quoted, " twice"]
  | .staleIndex key name =>
    .concat ["scope ", .ofNat key.toNat, " index for ", name.quoted, " is stale"]
  | .cyclic key => .concat ["scope ", .ofNat key.toNat, " has cyclic parent chain"]

namespace Table

def nestingFaults (t : Table) (key : NodeId) (s : Scope) : List TableFault :=
  if s.parent = 0 then []
  else match t.scope? s.parent with
    | none => [.unknownParent key s.parent]
    | some around =>
      if s.kind = .module then [.moduleWithParent key s.parent]
      else if s.kind = .function && around.kind ≠ .module then
        [.misnestedFunction key around.kind s.parent]
      else []

def bindingFaults (key : NodeId) (s : Scope) :
    (seen : List Text) → (position : Nat) → List Binding → List TableFault
  | _, _, [] => []
  | seen, position, b :: rest =>
    (if b.name ∈ seen then [.declaredTwice key b.name] else []) ++
      (if s.position? b.name = some position then [] else [.staleIndex key b.name]) ++
      bindingFaults key s (b.name :: seen) (position + 1) rest

/-- Whether the chain of parents from a scope has more than `fuel` links. -/
def chainExceeds (t : Table) : (fuel : Nat) → NodeId → Bool
  | 0, scope => scope ≠ 0 && (t.scope? scope).isSome
  | fuel + 1, scope =>
    if scope = 0 then false
    else match t.scope? scope with
      | none => false
      | some s => t.chainExceeds fuel s.parent

def scopeFaults (t : Table) (key : NodeId) (s : Scope) : List TableFault :=
  (if s.id = key then [] else [.misplaced s.id key]) ++
    (if s.kind = .invalid then [.invalidKind key] else []) ++
    t.nestingFaults key s ++
    bindingFaults key s [] 0 s.bindings ++
    (if t.chainExceeds t.size s.parent then [.cyclic key] else [])

def sorted (t : Table) : List (NodeId × Scope) :=
  t.scopes.mergeSort fun a b => a.1 ≤ b.1

def faults (t : Table) : List TableFault :=
  t.sorted.flatMap fun (key, s) => t.scopeFaults key s

end Table

end MiddleEnd.Scoping
