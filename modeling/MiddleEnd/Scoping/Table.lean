import MiddleEnd.Scoping.Error

/-!
The table of scope records, keyed by the node that opens the scope.
-/

namespace MiddleEnd.Scoping

/-- The storage is none until the declaration has been lowered. -/
structure Binding where
  name : Text
  mutable : Bool
  type : Ty
  storage : Ir.LocalId
  deriving DecidableEq, Repr, Inhabited

structure Scope where
  id : NodeId
  kind : ScopeKind
  parent : NodeId
  bindings : List Binding
  index : List (Text × Nat)
  deriving DecidableEq, Repr, Inhabited

/-- Where a binding is recorded: the key of its scope and its position there. -/
structure BindingRef where
  scope : NodeId
  position : Nat
  deriving DecidableEq, Repr, Inhabited

structure Table where
  scopes : List (NodeId × Scope)
  deriving DecidableEq, Repr, Inhabited

namespace Scope

def empty (kind : ScopeKind) (id parent : NodeId) : Scope :=
  ⟨id, kind, parent, [], []⟩

def position? (s : Scope) (name : Text) : Option Nat :=
  s.index.lookup name

def push (s : Scope) (b : Binding) : Scope :=
  { s with
    bindings := s.bindings ++ [b]
    index := (b.name, s.bindings.length) :: s.index }

def modifyBinding (s : Scope) (position : Nat) (change : Binding → Binding) : Scope :=
  { s with bindings := s.bindings.modify position change }

end Scope

namespace Table

def empty : Table := ⟨[]⟩

def size (t : Table) : Nat := t.scopes.length

def scope? (t : Table) (key : NodeId) : Option Scope :=
  t.scopes.lookup key

def keys (t : Table) : List NodeId :=
  t.scopes.map Prod.fst

def modify (t : Table) (key : NodeId) (change : Scope → Scope) : Table :=
  ⟨t.scopes.map fun (k, s) => if k = key then (k, change s) else (k, s)⟩

def binding? (t : Table) (ref : BindingRef) : Option Binding :=
  (t.scope? ref.scope).bind fun s => s.bindings[ref.position]?

def modifyBinding (t : Table) (ref : BindingRef) (change : Binding → Binding) : Table :=
  t.modify ref.scope fun s => s.modifyBinding ref.position change

/-- Opens the scope keyed by `id`. A record that exists must agree on kind and parent. -/
def enter (t : Table) (kind : ScopeKind) (id parent : NodeId) : Except ScopeError Table :=
  if id = 0 then .error .unnumbered
  else match t.scope? id with
    | some s =>
      if s.kind = kind && s.parent = parent then .ok t
      else .error (.reentered id kind parent s.kind s.parent)
    | none =>
      if parent = 0 || (t.scope? parent).isSome then
        .ok ⟨t.scopes ++ [(id, .empty kind id parent)]⟩
      else .error (.unknownParent id parent)

def find? (t : Table) (key : NodeId) (name : Text) : Option BindingRef :=
  (t.scope? key).bind fun s => (s.position? name).map (BindingRef.mk key)

def declare (t : Table) (scope : NodeId) (name : Text) (mutable : Bool) (type : Ty) :
    Except ScopeError (Table × BindingRef) :=
  match t.scope? scope with
  | none => .error (.declareInUnknown name scope)
  | some s =>
    match s.position? name with
    | some _ => .error (.problem ⟨.duplicate, name, 0, scope⟩)
    | none =>
      .ok (t.modify scope fun s => s.push ⟨name, mutable, type, Ir.noId⟩,
        ⟨scope, s.bindings.length⟩)

def bind (t : Table) (scope : NodeId) (name : Text) (storage : Ir.LocalId) :
    Except ScopeError Table :=
  match t.scope? scope with
  | none => .error (.bindInUnknown name scope)
  | some _ =>
    match t.find? scope name with
    | none => .error (.bindUndeclared name scope)
    | some ref => .ok (t.modifyBinding ref fun b => { b with storage })

def resolveWithin (t : Table) : (fuel : Nat) → (scope : NodeId) → (name : Text) →
    Option BindingRef
  | 0, _, _ => none
  | fuel + 1, scope, name =>
    if scope = 0 then none
    else match t.scope? scope with
      | none => none
      | some s =>
        match t.find? scope name with
        | some ref => some ref
        | none => t.resolveWithin fuel s.parent name

def resolve? (t : Table) (scope : NodeId) (name : Text) : Option BindingRef :=
  t.resolveWithin (t.size + 1) scope name

end Table

end MiddleEnd.Scoping
