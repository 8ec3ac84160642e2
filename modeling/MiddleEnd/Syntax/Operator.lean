import MiddleEnd.Text.Basic

/-!
Operators of the language, with the spelling each has in a listing and in a file.
-/

namespace MiddleEnd

/-- The one known operator complements the bits of an integer and negates a truth value. -/
inductive UnaryOp where
  | not
  | other (code : UInt8)
  deriving DecidableEq, Repr, Inhabited

namespace UnaryOp

def ofCode (code : UInt8) : UnaryOp :=
  if code = 0 then .not else .other code

def code : UnaryOp → UInt8
  | .not => 0
  | .other code => code

def name : UnaryOp → Text
  | .not => "not"
  | .other code => .concat ["unary(", .ofNat code.toNat, ")"]

def named : List (Text × UnaryOp) :=
  [("not", .not), ("!", .not)]

def ofName? (name : Text) : Option UnaryOp :=
  named.lookup name

end UnaryOp

inductive BinaryOp where
  | add | sub | mul | div | mod
  | and | or | xor
  | eq | ne
  | lt | le | gt | ge
  | other (code : UInt8)
  deriving DecidableEq, Repr, Inhabited

namespace BinaryOp

def known : List BinaryOp :=
  [.add, .sub, .mul, .div, .mod, .and, .or, .xor, .eq, .ne, .lt, .le, .gt, .ge]

def code : BinaryOp → UInt8
  | .add => 0
  | .sub => 1
  | .mul => 2
  | .div => 3
  | .mod => 4
  | .and => 5
  | .or => 6
  | .xor => 7
  | .eq => 8
  | .ne => 9
  | .lt => 10
  | .le => 11
  | .gt => 12
  | .ge => 13
  | .other code => code

def ofCode (code : UInt8) : BinaryOp :=
  known.getD code.toNat (.other code)

def name : BinaryOp → Text
  | .add => "+"
  | .sub => "-"
  | .mul => "*"
  | .div => "/"
  | .mod => "%"
  | .and => "&"
  | .or => "|"
  | .xor => "^"
  | .eq => "=="
  | .ne => "!="
  | .lt => "<"
  | .le => "<="
  | .gt => ">"
  | .ge => ">="
  | .other code => .concat ["binary(", .ofNat code.toNat, ")"]

def isKnown : BinaryOp → Bool
  | .other _ => false
  | _ => true

def ofName? (name : Text) : Option BinaryOp :=
  known.find? fun op => op.name == name

/-- Comparisons yield a truth value, every other known operator yields an integer from integers. -/
def isComparison : BinaryOp → Bool
  | .eq | .ne | .lt | .le | .gt | .ge => true
  | _ => false

end BinaryOp

end MiddleEnd
