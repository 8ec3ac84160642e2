import MiddleEnd.Ir.Basic

/-!
Store forwarding: within one block a load gives way to the operand that the slot is known to hold.
Then unused loads and stores are dropped.
-/

namespace MiddleEnd.Ir

namespace Operand

def value? : Operand → Option ValueId
  | .value id _ => some id
  | _ => none

def replace (forwarded : List (ValueId × Operand)) (operand : Operand) : Operand :=
  match operand.value? with
  | none => operand
  | some id => (forwarded.lookup id).getD operand

end Operand

namespace Instr

def mapOperands (change : Operand → Operand) : Instr → Instr
  | .load dst src => .load dst src
  | .store dst value => .store dst (change value)
  | .binary dst op left right => .binary dst op (change left) (change right)
  | .compare dst pred left right => .compare dst pred (change left) (change right)
  | .unary dst op operand => .unary dst op (change operand)
  | .unknown dst kind => .unknown dst kind

def operands : Instr → List Operand
  | .load _ _ | .unknown _ _ => []
  | .store _ value => [value]
  | .binary _ _ left right | .compare _ _ left right => [left, right]
  | .unary _ _ operand => [operand]

end Instr

namespace Terminator

def mapOperands (change : Operand → Operand) : Terminator → Terminator
  | .ret value => .ret (value.map change)
  | .branch cond yes no => .branch (change cond) yes no
  | term => term

def operands : Terminator → List Operand
  | .ret (some value) => [value]
  | .branch cond _ _ => [cond]
  | _ => []

end Terminator

/-- The values forwarded so far, and what the slots are known to hold. The latest entry for a key
counts. -/
structure Known where
  forwarded : List (ValueId × Operand)
  slots : List (LocalId × Operand)
  deriving Repr, Inhabited

namespace Known

/-- Goes over an instruction, which is kept or gives way. -/
def step (values : List Ty) (known : Known) (instr : Instr) : Option (Known × List Instr) :=
  match instr.mapOperands (Operand.replace known.forwarded) with
  | .store dst value =>
    some ({ known with slots := (dst, value) :: known.slots }, [.store dst value])
  | .load dst src =>
    match known.slots.lookup src with
    | some operand => some ({ known with forwarded := (dst, operand) :: known.forwarded }, [])
    | none =>
      (at? values dst).map fun type =>
        ({ known with slots := (src, .value dst type) :: known.slots }, [.load dst src])
  | instr => some (known, [instr])

def steps (values : List Ty) : Known → List Instr → Option (Known × List Instr)
  | known, [] => some (known, [])
  | known, instr :: rest => do
    let (known, kept) ← known.step values instr
    let (known, rest) ← known.steps values rest
    some (known, kept ++ rest)

end Known

namespace Func

/-- Forwards within each block in turn; what is forwarded in one block is replaced in all later
ones too. -/
def forwardBlocks (values : List Ty) : (forwarded : List (ValueId × Operand)) → List Block →
    Option (List Block)
  | _, [] => some []
  | forwarded, b :: rest => do
    let (known, instrs) ← Known.steps values ⟨forwarded, []⟩ b.instrs
    let rest ← forwardBlocks values known.forwarded rest
    some ({ b with instrs, term := b.term.mapOperands (Operand.replace known.forwarded) } :: rest)

def filterInstrs (f : Func) (keep : Instr → Bool) : Func :=
  { f with blocks := f.blocks.map fun b => { b with instrs := b.instrs.filter keep } }

def usedValues (f : Func) : List ValueId :=
  f.blocks.flatMap fun b =>
    (b.instrs.flatMap Instr.operands ++ b.term.operands).filterMap Operand.value?

def dropDeadLoads (f : Func) : Func :=
  let used := f.usedValues
  f.filterInstrs fun
    | .load dst _ => used.contains dst
    | _ => true

def loadedLocals (f : Func) : List LocalId :=
  f.blocks.flatMap fun b => b.instrs.filterMap fun
    | .load _ src => some src
    | _ => none

def dropDeadStores (f : Func) : Func :=
  let loaded := f.loadedLocals
  f.filterInstrs fun
    | .store dst _ => loaded.contains dst
    | _ => true

/-- Fails on a load that defines a value the function does not have. -/
def forwardStores? (f : Func) : Option Func :=
  (forwardBlocks f.values [] f.blocks).map fun blocks =>
    ({ f with blocks }.dropDeadLoads).dropDeadStores

end Func

end MiddleEnd.Ir
