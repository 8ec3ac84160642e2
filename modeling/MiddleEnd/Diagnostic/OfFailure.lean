import MiddleEnd.Diagnostic.Basic
import MiddleEnd.Failure

/-!
Diagnostics of a failure: one for each part of the joins in it. The text around a join goes in front
of every part.
-/

namespace MiddleEnd.Diagnostic

/-- A part without joins, with the text around these and the code it gets when its own class is
unknown. -/
structure Leaf where
  before : Text
  failure : Failure
  fallback : Code
  deriving Inhabited

def trimEnd (t ending : Text) : Text :=
  if Text.endsWith ending t then t.take (t.length - ending.length) else t

mutual
/-- The parts of a failure reached from `top` through contexts only. Faults of block code pass on
their class. -/
def leavesWithin (before : Text) (fallback : Code) (top : Failure) (inner : Code) :
    Failure → List Leaf
  | .join parts =>
    leavesOf (before ++ trimEnd top.message (Failure.join parts).message) inner parts
  | .pair b m first second =>
    let before := before ++ trimEnd top.message (Failure.pair b m first second).message
    leavesWithin before inner first inner first ++ leavesWithin before inner second inner second
  | .validation cause => leavesWithin before fallback top Code.invalidIr cause
  | .cache _ _ cause => leavesWithin before fallback top inner cause
  | .manifest _ _ (some cause) => leavesWithin before fallback top inner cause
  | .wrap _ cause _ => leavesWithin before fallback top inner cause
  | _ => [⟨before, top, fallback⟩]
def leavesOf (before : Text) (fallback : Code) : List Failure → List Leaf
  | [] => []
  | part :: parts =>
    leavesWithin before fallback part fallback part ++ leavesOf before fallback parts
end

def checkCode : Scoping.CheckKind → Code
  | .duplicate => Code.duplicateDecl
  | .unresolved => Code.unresolvedName
  | .immutable => Code.assignToVal
  | .invalidTarget => Code.invalidTarget

def classes : List (Failure → Option (Code × NodeId)) :=
  [fun | .check e => some (checkCode e.kind, e.node) | _ => none,
    fun | .division e => some (Code.arithmetic, e.node) | _ => none,
    fun | .unresolved e => some (Code.missingStorage, e.node) | _ => none,
    fun | .unimplemented e => some (Code.unimplemented, e.node) | _ => none,
    fun | .validation _ => some (Code.invalidIr, 0) | _ => none,
    fun | .cache _ _ _ => some (Code.cacheFailed, 0) | _ => none,
    fun | .condition .schema => some (Code.decodeFailed, 0) | _ => none,
    fun | .path _ => some (Code.readFailed, 0) | _ => none]

def classify (f : Failure) (fallback : Code) : Code × NodeId :=
  (classes.findSome? fun ask => f.findSome? ask).getD (fallback, 0)

def Leaf.diagnostic (file : Text) (l : Leaf) : Diagnostic :=
  let (code, node) := classify l.failure l.fallback
  { severity := .error, code, message := l.before ++ l.failure.message, file, node }

def ofFailure (file : Text) (fallback : Code) (f : Failure) : List Diagnostic :=
  (leavesOf [] fallback [f]).map (Leaf.diagnostic file)

end MiddleEnd.Diagnostic
