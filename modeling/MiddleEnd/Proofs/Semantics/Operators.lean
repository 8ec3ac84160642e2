import MiddleEnd.Folding.Arithmetic

/-!
The reference meaning of operators. What an operator does with truth values is left open.
-/

namespace MiddleEnd

/-- Why a computation ends without a value: it divides by zero, or its operands have no meaning. -/
inductive Halt where
  | trap
  | stuck
  deriving DecidableEq, Repr, Inhabited

namespace Applied

def wrapped (n : Int) : Applied := .value (.int (.ofInt n))

def decided (p : Prop) [Decidable p] : Applied := .value (.bool (decide p))

def result : Applied → Except Halt Constant
  | .value v => .ok v
  | .zeroDivisor => .error .trap
  | .meaningless => .error .stuck

end Applied

/-- The operator on two integers. Division truncates toward zero. -/
def BinaryOp.onInts (op : BinaryOp) (l r : Int32) : Applied :=
  match op with
  | .add => .wrapped (l.toInt + r.toInt)
  | .sub => .wrapped (l.toInt - r.toInt)
  | .mul => .wrapped (l.toInt * r.toInt)
  | .div => if r.toInt = 0 then .zeroDivisor else .wrapped (l.toInt.tdiv r.toInt)
  | .mod => if r.toInt = 0 then .zeroDivisor else .wrapped (l.toInt.tmod r.toInt)
  | .and => .value (.int (.ofBitVec (l.toBitVec &&& r.toBitVec)))
  | .or => .value (.int (.ofBitVec (l.toBitVec ||| r.toBitVec)))
  | .xor => .value (.int (.ofBitVec (l.toBitVec ^^^ r.toBitVec)))
  | .eq => .decided (l.toInt = r.toInt)
  | .ne => .decided (l.toInt ≠ r.toInt)
  | .lt => .decided (l.toInt < r.toInt)
  | .le => .decided (l.toInt ≤ r.toInt)
  | .gt => .decided (r.toInt < l.toInt)
  | .ge => .decided (r.toInt ≤ l.toInt)
  | .other _ => .meaningless

theorem BinaryOp.applyInts_eq_onInts (op : BinaryOp) (l r : Int32) :
    op.applyInts l r = op.onInts l r := by
  have zero_iff : r = 0 ↔ r.toInt = 0 := by
    rw [← Int32.toInt_inj]
    simp
  cases op with
  | add => simp [applyInts, onInts, Applied.wrapped, Int32.ofInt_add]
  | sub => simp [applyInts, onInts, Applied.wrapped, Int32.ofInt_sub]
  | mul => simp [applyInts, onInts, Applied.wrapped, Int32.ofInt_mul]
  | div =>
    simp only [applyInts, onInts, Applied.wrapped, zero_iff]
    rw [Int32.ofInt_tdiv (Int32.minValue_le_toInt l) (Int32.toInt_le l) (Int32.minValue_le_toInt r) (Int32.toInt_le r)]
    simp
  | mod =>
    simp only [applyInts, onInts, Applied.wrapped, zero_iff]
    rw [Int32.ofInt_tmod (Int32.minValue_le_toInt l) (Int32.toInt_le l) (Int32.minValue_le_toInt r) (Int32.toInt_le r)]
    simp
  | and => rfl
  | or => rfl
  | xor => rfl
  | eq => simp [applyInts, onInts, Applied.decided, Int32.toInt_inj]
  | ne => simp [applyInts, onInts, Applied.decided, Int32.toInt_inj]
  | lt => simp [applyInts, onInts, Applied.decided, Int32.lt_iff_toInt_lt]
  | le => simp [applyInts, onInts, Applied.decided, Int32.le_iff_toInt_le]
  | gt => simp [applyInts, onInts, Applied.decided, Int32.lt_iff_toInt_lt]
  | ge => simp [applyInts, onInts, Applied.decided, Int32.le_iff_toInt_le]
  | other _ => rfl

/-- What operators give on operands that are not both integers. -/
structure TruthOperators where
  negate : Bool → Constant
  combine : BinaryOp → Constant → Constant → Applied

namespace TruthOperators

def unary (ops : TruthOperators) : UnaryOp → Constant → Applied
  | .not, .int n => .value (.int (~~~n))
  | .not, .bool b => .value (ops.negate b)
  | .other _, _ => .meaningless

def binary (ops : TruthOperators) (op : BinaryOp) : Constant → Constant → Applied
  | .int l, .int r => op.onInts l r
  | l, r => ops.combine op l r

/-- Truth values are negated as usual, every other operator on them is open. -/
def negating (combine : BinaryOp → Constant → Constant → Applied) : TruthOperators :=
  ⟨fun b => .bool !b, combine⟩

end TruthOperators

end MiddleEnd
