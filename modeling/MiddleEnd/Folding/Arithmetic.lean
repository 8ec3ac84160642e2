import MiddleEnd.Syntax.Operator

/-!
Integers are 32-bit words in two's complement. Sums, differences and products wrap around, division
truncates toward zero and its remainder has the sign of the dividend.
-/

namespace MiddleEnd

inductive Constant where
  | int (n : Int32)
  | bool (b : Bool)
  deriving DecidableEq, Repr, Inhabited

inductive Applied where
  | value (v : Constant)
  | zeroDivisor
  | meaningless
  deriving DecidableEq, Repr, Inhabited

def BinaryOp.applyInts (op : BinaryOp) (l r : Int32) : Applied :=
  match op with
  | .add => .value (.int (l + r))
  | .sub => .value (.int (l - r))
  | .mul => .value (.int (l * r))
  | .div => if r = 0 then .zeroDivisor else .value (.int (l / r))
  | .mod => if r = 0 then .zeroDivisor else .value (.int (l % r))
  | .and => .value (.int (l &&& r))
  | .or => .value (.int (l ||| r))
  | .xor => .value (.int (l ^^^ r))
  | .eq => .value (.bool (l = r))
  | .ne => .value (.bool (l ≠ r))
  | .lt => .value (.bool (l < r))
  | .le => .value (.bool (l ≤ r))
  | .gt => .value (.bool (r < l))
  | .ge => .value (.bool (r ≤ l))
  | .other _ => .meaningless

end MiddleEnd
