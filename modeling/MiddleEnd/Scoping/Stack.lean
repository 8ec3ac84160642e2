import MiddleEnd.Scoping.Table

/-!
The stack of open scopes. A name becomes visible in its frame when its declaration is reached.
-/

namespace MiddleEnd.Scoping

structure Frame where
  scope : NodeId
  visible : List (Text × BindingRef)
  deriving DecidableEq, Repr, Inhabited

structure Stack where
  frames : List Frame
  deriving DecidableEq, Repr, Inhabited

namespace Stack

def empty : Stack := ⟨[]⟩

def depth (s : Stack) : Nat := s.frames.length

def top? (s : Stack) (t : Table) : Option Scope :=
  s.frames.head?.bind fun frame => t.scope? frame.scope

/-- The number of the innermost scope, zero outside of all scopes. -/
def topId (s : Stack) (t : Table) : NodeId :=
  match s.top? t with
  | some scope => scope.id
  | none => 0

def push (s : Stack) (t : Table) (kind : ScopeKind) (id : NodeId) :
    Except ScopeError (Stack × Table) := do
  let t ← t.enter kind id (s.topId t)
  .ok (⟨⟨id, []⟩ :: s.frames⟩, t)

def pop (s : Stack) (t : Table) (id : NodeId) : Except ScopeError Stack :=
  match s.frames with
  | [] => .error (.popEmpty id)
  | _ :: rest =>
    if s.topId t = id then .ok ⟨rest⟩ else .error (.popOther id (s.topId t))

def unwind (s : Stack) (depth : Nat) : Stack :=
  ⟨s.frames.drop (s.frames.length - depth)⟩

def declare (s : Stack) (t : Table) (name : Text) (mutable : Bool) (type : Ty)
    (storage : Ir.LocalId) : Table × Except ScopeError (Stack × BindingRef) :=
  match s.frames with
  | [] => (t, .error (.declareOutside name))
  | frame :: outer =>
    let scope := s.topId t
    match frame.visible.lookup name with
    | some _ => (t, .error (.problem ⟨.duplicate, name, 0, scope⟩))
    | none =>
      let declared : Except ScopeError (Table × BindingRef) :=
        match t.find? frame.scope name with
        | some ref => .ok (t, ref)
        | none => t.declare scope name mutable type
      match declared with
      | .error e => (t, .error e)
      | .ok (t, ref) =>
        let t := t.modifyBinding ref fun b => { b with mutable, type }
        match t.bind scope name storage with
        | .error e => (t, .error e)
        | .ok t => (t, .ok (⟨{ frame with visible := (name, ref) :: frame.visible } :: outer⟩, ref))

def find? (name : Text) : List Frame → Option (NodeId × BindingRef)
  | [] => none
  | frame :: outer =>
    match frame.visible.lookup name with
    | some ref => some (frame.scope, ref)
    | none => find? name outer

def resolve? (s : Stack) (name : Text) : Option (NodeId × BindingRef) :=
  find? name s.frames

end Stack

end MiddleEnd.Scoping
