import MiddleEnd.Text.Basic

/-!
The declared types of the language. Only integers and truth values can be stored; a function may
also have no result.
-/

namespace MiddleEnd

/-- A type as a file may carry it, numbers without a meaning included. -/
inductive Ty where
  | invalid
  | unit
  | int
  | bool
  | string
  | other (code : UInt8)
  deriving DecidableEq, Repr, Inhabited

namespace Ty

def ofCode (code : UInt8) : Ty :=
  match code with
  | 0 => .invalid
  | 1 => .unit
  | 2 => .int
  | 3 => .bool
  | 4 => .string
  | _ => .other code

def code : Ty → UInt8
  | .invalid => 0
  | .unit => 1
  | .int => 2
  | .bool => 3
  | .string => 4
  | .other code => code

def name : Ty → Text
  | .unit => "Unit"
  | .int => "Int"
  | .bool => "Bool"
  | .string => "String"
  | .invalid | .other _ => "Invalid"

def named : List (Text × Ty) :=
  [("Unit", .unit), ("Int", .int), ("Bool", .bool), ("String", .string), ("Invalid", .invalid),
    ("", .invalid)]

def ofName? (name : Text) : Option Ty :=
  named.lookup name

end Ty

end MiddleEnd
