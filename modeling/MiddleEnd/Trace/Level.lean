import MiddleEnd.Text.Quoted
import MiddleEnd.Text.Word

/-!
How much is traced, and how coarse an event is.
-/

namespace MiddleEnd.Trace

/-- From the coarsest to the finest, behind a value for none of them. -/
inductive Scope where
  | unknown
  | driver
  | pass
  | module
  | node
  | other (code : UInt8)
  deriving DecidableEq, Repr, Inhabited

namespace Scope

def ofCode (code : UInt8) : Scope :=
  match code with
  | 0 => .unknown
  | 1 => .driver
  | 2 => .pass
  | 3 => .module
  | 4 => .node
  | _ => .other code

def code : Scope → UInt8
  | .unknown => 0
  | .driver => 1
  | .pass => 2
  | .module => 3
  | .node => 4
  | .other code => code

def name : Scope → Text
  | .driver => "driver"
  | .pass => "pass"
  | .module => "module"
  | .node => "node"
  | .unknown | .other _ => "unknown"

end Scope

/-- At `error` everything is kept in memory and shown only after a failure. -/
inductive Level where
  | off
  | error
  | phase
  | detail
  | debug
  | other (code : UInt8)
  deriving DecidableEq, Repr, Inhabited

namespace Level

def known : List Level := [.off, .error, .phase, .detail, .debug]

def ofCode (code : UInt8) : Level :=
  known.getD code.toNat (.other code)

def name : Level → Text
  | .off => "off"
  | .error => "error"
  | .phase => "phase"
  | .detail => "detail"
  | .debug => "debug"
  | .other _ => "unknown"

/-- Nothing at all means off. -/
def parse? (t : Text) : Option Level :=
  let word := t.keyword
  if word.isEmpty then some .off else known.find? fun level => level.name == word

def parse (t : Text) : Except Text Level :=
  match parse? t with
  | some level => .ok level
  | none =>
    .error (.concat
      ["invalid trace level: ", t.quoted, " (expected: off|error|phase|detail|debug)"])

def records (level : Level) (scope : Scope) : Bool :=
  match level with
  | .error | .debug => true
  | .phase => scope.code ≤ Scope.pass.code
  | .detail => scope.code ≤ Scope.module.code
  | .off | .other _ => false

def isOn (level : Level) : Bool :=
  level != .off

end Level

end MiddleEnd.Trace
