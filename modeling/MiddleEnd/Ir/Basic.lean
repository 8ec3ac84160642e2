import MiddleEnd.Text.Basic

/-!
Block code: functions of typed storage slots, values defined once by instructions, and blocks that
each end in one terminator. Numbers are positions, and minus one stands for none.
-/

namespace MiddleEnd.Ir

abbrev BlockId := Int

abbrev LocalId := Int

abbrev ValueId := Int

def noId : Int := -1

inductive Ty where
  | void
  | i1
  | i32
  | other (code : UInt8)
  deriving DecidableEq, Repr, Inhabited

namespace Ty

def ofCode (code : UInt8) : Ty :=
  match code with
  | 0 => .void
  | 1 => .i1
  | 2 => .i32
  | _ => .other code

def name : Ty → Text
  | .void => "void"
  | .i1 => "i1"
  | .i32 => "i32"
  | .other _ => "?"

end Ty

inductive BinOp where
  | add | sub | mul | div | rem | and | or | xor
  | other (code : UInt8)
  deriving DecidableEq, Repr, Inhabited

namespace BinOp

def known : List BinOp :=
  [.add, .sub, .mul, .div, .rem, .and, .or, .xor]

def ofCode (code : UInt8) : BinOp :=
  known.getD code.toNat (.other code)

def name : BinOp → Text
  | .add => "add"
  | .sub => "sub"
  | .mul => "mul"
  | .div => "sdiv"
  | .rem => "srem"
  | .and => "and"
  | .or => "or"
  | .xor => "xor"
  | .other code => .concat ["bin(", .ofNat code.toNat, ")"]

end BinOp

inductive CmpPred where
  | eq | ne | lt | le | gt | ge
  | other (code : UInt8)
  deriving DecidableEq, Repr, Inhabited

namespace CmpPred

def known : List CmpPred :=
  [.eq, .ne, .lt, .le, .gt, .ge]

def ofCode (code : UInt8) : CmpPred :=
  known.getD code.toNat (.other code)

def name : CmpPred → Text
  | .eq => "eq"
  | .ne => "ne"
  | .lt => "slt"
  | .le => "sle"
  | .gt => "sgt"
  | .ge => "sge"
  | .other code => .concat ["cmp(", .ofNat code.toNat, ")"]

end CmpPred

inductive UnOp where
  | not
  | other (code : UInt8)
  deriving DecidableEq, Repr, Inhabited

namespace UnOp

def ofCode (code : UInt8) : UnOp :=
  if code = 0 then .not else .other code

def name : UnOp → Text
  | .not => "not"
  | .other code => .concat ["un(", .ofNat code.toNat, ")"]

end UnOp

inductive Operand where
  | undef (type : Ty)
  | const (type : Ty) (n : Int)
  | value (id : ValueId) (type : Ty)
  deriving DecidableEq, Repr, Inhabited

namespace Operand

def int (n : Int32) : Operand := .const .i32 n.toInt

def bool (b : Bool) : Operand := .const .i1 (if b then 1 else 0)

def type : Operand → Ty
  | .undef type | .const type _ | .value _ type => type

end Operand

inductive Instr where
  | load (dst : ValueId) (src : LocalId)
  | store (dst : LocalId) (value : Operand)
  | binary (dst : ValueId) (op : BinOp) (left right : Operand)
  | compare (dst : ValueId) (pred : CmpPred) (left right : Operand)
  | unary (dst : ValueId) (op : UnOp) (operand : Operand)
  | unknown (dst : ValueId) (kind : UInt8)
  deriving DecidableEq, Repr, Inhabited

def Instr.ofKind (dst : ValueId) (kind : UInt8) : Instr :=
  match kind with
  | 0 => .load dst 0
  | 1 => .store 0 (.undef .void)
  | 2 => .binary dst .add (.undef .void) (.undef .void)
  | 3 => .compare dst .eq (.undef .void) (.undef .void)
  | 4 => .unary dst .not (.undef .void)
  | _ => .unknown dst kind

def Instr.defines : Instr → Option ValueId
  | .store _ _ => none
  | .load dst _ | .binary dst _ _ _ | .compare dst _ _ _ | .unary dst _ _ | .unknown dst _ => some dst

/-- A block under construction is `pending`. -/
inductive Terminator where
  | pending
  | ret (value : Option Operand)
  | goto (target : BlockId)
  | branch (cond : Operand) (yes no : BlockId)
  | unreachable
  | unknown (kind : UInt8)
  deriving DecidableEq, Repr, Inhabited

namespace Terminator

def ofKind (kind : UInt8) : Terminator :=
  match kind with
  | 0 => .pending
  | 1 => .ret none
  | 2 => .goto 0
  | 3 => .branch (.undef .void) 0 0
  | 4 => .unreachable
  | _ => .unknown kind

def isPending : Terminator → Bool
  | .pending => true
  | _ => false

def successors : Terminator → List BlockId
  | .goto target => [target]
  | .branch _ yes no => [yes, no]
  | _ => []

end Terminator

structure Block where
  id : BlockId
  instrs : List Instr
  term : Terminator
  deriving DecidableEq, Repr, Inhabited

structure Slot where
  type : Ty
  name : Text
  deriving DecidableEq, Repr, Inhabited

/-- Position `i` of `values` is the type of value `i`. -/
structure Func where
  id : Int
  name : Text
  result : Ty
  params : List Ty
  locals : List Slot
  values : List Ty
  blocks : List Block
  entry : BlockId
  deriving DecidableEq, Repr, Inhabited

def at? {α : Type} (xs : List α) (position : Int) : Option α :=
  if position < 0 then none else xs[position.toNat]?

def Func.block? (f : Func) (id : BlockId) : Option Block :=
  at? f.blocks id

def Func.predecessors (f : Func) : List Nat :=
  (List.range f.blocks.length).map fun (i : Nat) =>
    (f.blocks.flatMap fun b => b.term.successors).countP (· == (i : Int))

/-- A module put together by hand may have gaps. -/
structure Module where
  funcs : List (Option Func)
  deriving DecidableEq, Repr, Inhabited

namespace Module

def ofFuncs (funcs : List Func) : Module :=
  ⟨funcs.zipIdx.map fun (f, i) => some { f with id := i }⟩

def lookup? (m : Module) (name : Text) : Option Func :=
  m.funcs.findSome? fun f? => f?.filter fun f => f.name == name

def mapFuncs (pass : Func → Func) (m : Module) : Module :=
  ⟨m.funcs.map (Option.map pass)⟩

end Module

end MiddleEnd.Ir
