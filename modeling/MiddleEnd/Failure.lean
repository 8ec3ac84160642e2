import MiddleEnd.Ir.Validation
import MiddleEnd.Lowering.Error
import MiddleEnd.Scoping.Check
import MiddleEnd.Syntax.NodeIds

/-!
Failures as trees. A leaf is one cause; around it stand the contexts that it was reported through,
and several failures may be joined into one.
-/

namespace MiddleEnd

inductive Condition where
  | schema
  | producer
  | incompatible
  | buildFailed
  | canceled
  deriving DecidableEq, Repr, Inhabited

def Condition.message : Condition → Text
  | .schema => "ast: unsupported file schema"
  | .producer => "incompatible producer version"
  | .incompatible => "tool version does not satisfy [package].requires"
  | .buildFailed => "build failed"
  | .canceled => "context canceled"

structure PathError where
  action : Text
  path : Text
  reason : Text
  deriving DecidableEq, Repr, Inhabited

def PathError.message (e : PathError) : Text :=
  .concat [e.action, " ", e.path, ": ", e.reason]

/-- A `pair` tells two failures in one text and is split like a join. -/
inductive Failure where
  | plain (message : Text)
  | condition (c : Condition)
  | check (e : Scoping.CheckError)
  | division (e : DivisionByZero)
  | unresolved (e : Lowering.Unresolved)
  | unimplemented (e : Lowering.Unimplemented)
  | path (e : PathError)
  | validation (cause : Failure)
  | cache (action key : Text) (cause : Failure)
  | manifest (path message : Text) (cause : Option Failure)
  | wrap (before : Text) (cause : Failure) (behind : Text)
  | join (parts : List Failure)
  | pair (before between : Text) (first second : Failure)
  deriving Inhabited

namespace Failure

mutual
def message : Failure → Text
  | .plain message => message
  | .condition c => c.message
  | .check e => e.message
  | .division e => e.message
  | .unresolved e => e.message
  | .unimplemented e => e.message
  | .path e => e.message
  | .validation cause => "invalid IR: " ++ cause.message
  | .cache action key cause =>
    .concat ["driver: cache ", action, " ", key.take 12, ": ", cause.message]
  | .manifest file text none => .concat [file, ": ", text]
  | .manifest file text (some cause) => .concat [file, ": ", text, ": ", cause.message]
  | .wrap before cause behind => .concat [before, cause.message, behind]
  | .join parts => .joinLines (messages parts)
  | .pair before between first second =>
    .concat [before, first.message, between, second.message]
def messages : List Failure → List Text
  | [] => []
  | part :: parts => part.message :: messages parts
end

mutual
/-- The first answer that a node of the tree gives, from the outside in and from left to right. -/
def findSome? {α : Type} (ask : Failure → Option α) (failure : Failure) : Option α :=
  match ask failure with
  | some answer => some answer
  | none =>
    match failure with
    | .validation cause | .cache _ _ cause | .manifest _ _ (some cause) | .wrap _ cause _ =>
      cause.findSome? ask
    | .join parts => findSomeOf? ask parts
    | .pair _ _ first second =>
      match first.findSome? ask with
      | some answer => some answer
      | none => second.findSome? ask
    | _ => none
def findSomeOf? {α : Type} (ask : Failure → Option α) : List Failure → Option α
  | [] => none
  | part :: parts =>
    match part.findSome? ask with
    | some answer => some answer
    | none => findSomeOf? ask parts
end

def has (holds : Failure → Bool) (failure : Failure) : Bool :=
  (failure.findSome? fun f => if holds f then some () else none).isSome

def hasCondition (c : Condition) (failure : Failure) : Bool :=
  failure.has fun
    | .condition d => d == c
    | _ => false

def context (before : Text) (cause : Failure) : Failure :=
  .wrap before cause []

def inFunction (name : Text) (cause : Failure) : Failure :=
  .context (.concat ["function ", name, ": "]) cause

def ofFold : FoldError → Failure
  | .divisionByZero e => .division e
  | e => .plain e.message

def ofModuleFold (e : InFunction FoldError) : Failure :=
  .inFunction e.name (.ofFold e.cause)

def ofScope : Scoping.ScopeError → Failure
  | .problem e => .check e
  | e => .plain e.message

def ofCheck : Scoping.CheckFailure → Failure
  | .missingModule => .plain "symbols: nil module"
  | .missingFunction => .plain "symbols: nil function"
  | .scope e => .ofScope e
  | .inFunction e => .inFunction e.name (.ofScope e.cause)
  | .problems es => .join (es.map .check)
  | .inconsistent faults =>
    .context "symbols: inconsistent table: " (.join (faults.map fun f => .plain f.message))

def ofLower : Lowering.LowerError → Failure
  | .unresolved e => .unresolved e
  | .unimplemented e => .unimplemented e
  | .scope e => .ofScope e

def ofModuleLower : Lowering.LowerFailure → Failure
  | .missingModule => .plain "lower: nil module"
  | .missingTable => .plain "lower: nil symbol table"
  | .missingFunction => .plain "lower: nil function"
  | .canceled => .condition .canceled
  | .inFunction e => .inFunction e.name (.ofLower e.cause)

def ofFaults (faults : List Ir.Fault) : Failure :=
  .join (faults.map fun f => .plain f.message)

def ofModuleFaults (faults : List (Text × List Ir.Fault)) : Failure :=
  .join (faults.map fun (name, faults) => .inFunction name (.ofFaults faults))

def ofIdProblems (problems : List IdProblem) : Failure :=
  .join (problems.map fun p => .plain p.message)

end Failure

end MiddleEnd
