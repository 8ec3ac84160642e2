import MiddleEnd.Ir.Basic

/-!
Building a function block by block. Requests against a terminated block, or with no block selected,
are ignored.
-/

namespace MiddleEnd.Ir

structure Builder where
  func : Func
  current : BlockId
  deriving DecidableEq, Repr, Inhabited

namespace Builder

def start (name : Text) (result : Ty) (params : List Ty) : Builder where
  func :=
    { id := noId, name, result, params, locals := [], values := [], blocks := [], entry := noId }
  current := noId

def currentBlock? (b : Builder) : Option Block :=
  b.func.block? b.current

def isTerminated (b : Builder) : Bool :=
  match b.currentBlock? with
  | none => true
  | some block => !block.term.isPending

def newBlock (b : Builder) : Builder × BlockId :=
  let id : BlockId := b.func.blocks.length
  ({ b with
      func :=
        { b.func with
          blocks := b.func.blocks ++ [⟨id, [], .pending⟩]
          entry := if b.func.entry = noId then id else b.func.entry } },
    id)

def select (b : Builder) (id : BlockId) : Builder :=
  { b with current := id }

def select? (b : Builder) (id : BlockId) : Option Builder :=
  (b.func.block? id).map fun _ => b.select id

def unknownBlock (b : Builder) (id : BlockId) : Text :=
  .concat ["ir: select of unknown block bb", .ofInt id, " in ", b.func.name]

def alloc (b : Builder) (name : Text) (type : Ty) : Builder × LocalId :=
  ({ b with func := { b.func with locals := b.func.locals ++ [⟨type, name⟩] } },
    b.func.locals.length)

def modifyBlock (b : Builder) (change : Block → Block) : Builder :=
  { b with func := { b.func with blocks := b.func.blocks.modify b.current.toNat change } }

def append (b : Builder) (instr : Instr) : Builder :=
  b.modifyBlock fun block => { block with instrs := block.instrs ++ [instr] }

def define (b : Builder) (type : Ty) (instr : ValueId → Instr) : Builder × Operand :=
  if b.isTerminated then (b, .undef type)
  else
    let id : ValueId := b.func.values.length
    let b := { b with func := { b.func with values := b.func.values ++ [type] } }
    (b.append (instr id), .value id type)

def store (b : Builder) (dst : LocalId) (value : Operand) : Builder :=
  if b.isTerminated then b else b.append (.store dst value)

def load (b : Builder) (src : LocalId) : Builder × Operand :=
  b.define (((at? b.func.locals src).map Slot.type).getD .void) fun dst => .load dst src

/-- The result has the type of the left operand. -/
def binary (b : Builder) (op : BinOp) (left right : Operand) : Builder × Operand :=
  b.define left.type fun dst => .binary dst op left right

def compare (b : Builder) (pred : CmpPred) (left right : Operand) : Builder × Operand :=
  b.define .i1 fun dst => .compare dst pred left right

def unary (b : Builder) (op : UnOp) (operand : Operand) : Builder × Operand :=
  b.define operand.type fun dst => .unary dst op operand

def terminate (b : Builder) (term : Terminator) : Builder :=
  if b.isTerminated then b else b.modifyBlock fun block => { block with term }

def finalize (b : Builder) : Builder :=
  { func :=
      { b.func with
        blocks := b.func.blocks.map fun block =>
          if block.term.isPending then { block with term := .unreachable } else block }
    current := noId }

end Builder

end MiddleEnd.Ir
