import MiddleEnd.Ir.Basic
import MiddleEnd.Proofs.Semantics.Operators

/-!
The reference machine for block code. It gets stuck where the code has no meaning.
-/

namespace MiddleEnd.Ir

variable {m m' : Machine} {ops : TruthOperators} {f : Func}

/-- The operator of the language that an operation computes. -/
def BinOp.meaning : BinOp → BinaryOp
  | .add => .add
  | .sub => .sub
  | .mul => .mul
  | .div => .div
  | .rem => .mod
  | .and => .and
  | .or => .or
  | .xor => .xor
  | .other code => .other code

def CmpPred.meaning : CmpPred → BinaryOp
  | .eq => .eq
  | .ne => .ne
  | .lt => .lt
  | .le => .le
  | .gt => .gt
  | .ge => .ge
  | .other code => .other code

def UnOp.meaning : UnOp → UnaryOp
  | .not => .not
  | .other code => .other code

structure Machine where
  values : ValueId → Option Constant
  locals : LocalId → Constant

namespace Machine

def start (locals : LocalId → Constant) : Machine := ⟨fun _ => none, locals⟩

def define (m : Machine) (id : ValueId) (v : Constant) : Machine :=
  { m with values := fun other => if other = id then some v else m.values other }

def write (m : Machine) (slot : LocalId) (v : Constant) : Machine :=
  { m with locals := fun other => if other = slot then v else m.locals other }

@[simp] theorem define_locals (m : Machine) (id : ValueId) (v : Constant) :
    (m.define id v).locals = m.locals := rfl

@[simp] theorem write_values (m : Machine) (slot : LocalId) (v : Constant) :
    (m.write slot v).values = m.values := rfl

@[simp] theorem define_same (m : Machine) (id : ValueId) (v : Constant) :
    (m.define id v).values id = some v := by
  simp [define]

theorem define_other (m : Machine) {id : ValueId} (v : Constant) (distinct : other ≠ id) :
    (m.define id v).values other = m.values other := by
  simp [define, distinct]

@[simp] theorem write_same (m : Machine) (slot : LocalId) (v : Constant) :
    (m.write slot v).locals slot = v := by
  simp [write]

theorem write_other (m : Machine) (v : Constant) (distinct : other ≠ slot) :
    (m.write slot v).locals other = m.locals other := by
  simp [write, distinct]

end Machine

/-- A constant of one bit is a truth value, every other one a word. -/
def Operand.eval (values : ValueId → Option Constant) : Operand → Option Constant
  | .undef _ => none
  | .const .i1 n => some (.bool (n ≠ 0))
  | .const _ n => some (.int (.ofInt n))
  | .value id _ => values id

def Machine.read (m : Machine) (operand : Operand) : Except Halt Constant :=
  match operand.eval m.values with
  | some v => .ok v
  | none => .error .stuck

def Machine.assign (m : Machine) (id : ValueId) : Except Halt Constant → Except Halt Machine
  | .ok v => .ok (m.define id v)
  | .error why => .error why

def Instr.exec (ops : TruthOperators) (slots : List Slot) (m : Machine) :
    Instr → Except Halt Machine
  | .load dst src =>
    if (at? slots src).isSome then .ok (m.define dst (m.locals src)) else .error .stuck
  | .store dst value =>
    match m.read value with
    | .ok v => if (at? slots dst).isSome then .ok (m.write dst v) else .error .stuck
    | .error why => .error why
  | .binary dst op left right =>
    m.assign dst do
      let l ← m.read left
      let r ← m.read right
      (ops.binary op.meaning l r).result
  | .compare dst pred left right =>
    m.assign dst do
      let l ← m.read left
      let r ← m.read right
      (ops.binary pred.meaning l r).result
  | .unary dst op operand =>
    m.assign dst do
      let v ← m.read operand
      (ops.unary op.meaning v).result
  | .unknown _ _ => .error .stuck

def execAll (ops : TruthOperators) (slots : List Slot) : Machine → List Instr → Except Halt Machine
  | m, [] => .ok m
  | m, instr :: rest => do
    let m ← instr.exec ops slots m
    execAll ops slots m rest

inductive Exit where
  | returned (value : Option Constant)
  | unreachable
  | halted (why : Halt)
  deriving DecidableEq, Repr, Inhabited

/-- What a block comes to: control enters another block, or leaves the function. -/
inductive Step where
  | into (target : BlockId) (m : Machine)
  | out (exit : Exit)

def Terminator.exec (m : Machine) : Terminator → Step
  | .goto target => .into target m
  | .branch cond yes no =>
    match m.read cond with
    | .ok (.bool b) => .into (if b then yes else no) m
    | .ok (.int _) => .out (.halted .stuck)
    | .error why => .out (.halted why)
  | .ret none => .out (.returned none)
  | .ret (some value) =>
    match m.read value with
    | .ok v => .out (.returned (some v))
    | .error why => .out (.halted why)
  | .unreachable => .out .unreachable
  | .pending | .unknown _ => .out (.halted .stuck)

def finish (ops : TruthOperators) (slots : List Slot) (m : Machine) (instrs : List Instr)
    (term : Terminator) : Step :=
  match execAll ops slots m instrs with
  | .ok m => term.exec m
  | .error why => .out (.halted why)

theorem read_congr (same : operand'.eval m'.values = operand.eval m.values) :
    m'.read operand' = m.read operand := by
  unfold Machine.read
  rw [same]

theorem read_eq_ok : m.read operand = .ok v ↔ operand.eval m.values = some v := by
  unfold Machine.read
  cases operand.eval m.values <;> simp

theorem execAll_singleton (ops : TruthOperators) (slots : List Slot) (m : Machine) (instr : Instr) :
    execAll ops slots m [instr] = instr.exec ops slots m := by
  simp only [execAll]
  cases instr.exec ops slots m <;> rfl

theorem execAll_append (ops : TruthOperators) (slots : List Slot) (m : Machine)
    (first second : List Instr) :
    execAll ops slots m (first ++ second) =
      (execAll ops slots m first >>= fun m => execAll ops slots m second) := by
  induction first generalizing m with
  | nil => rfl
  | cons instr rest ih =>
    simp only [List.cons_append, execAll]
    cases instr.exec ops slots m with
    | error why => rfl
    | ok n => exact ih n

theorem finish_append (ops : TruthOperators) (slots : List Slot) (m : Machine)
    (first second : List Instr) (term : Terminator) :
    finish ops slots m (first ++ second) term =
      match execAll ops slots m first with
      | .ok m => finish ops slots m second term
      | .error why => .out (.halted why) := by
  unfold finish
  rw [execAll_append]
  cases execAll ops slots m first <;> rfl

theorem finish_cons (ops : TruthOperators) (slots : List Slot) (m : Machine) (instr : Instr)
    (rest : List Instr) (term : Terminator) :
    finish ops slots m (instr :: rest) term =
      match instr.exec ops slots m with
      | .ok m => finish ops slots m rest term
      | .error why => .out (.halted why) := by
  unfold finish
  simp only [execAll]
  cases instr.exec ops slots m <;> rfl

namespace Func

def step (ops : TruthOperators) (f : Func) (id : BlockId) (m : Machine) : Step :=
  match f.block? id with
  | some b => finish ops f.locals m b.instrs b.term
  | none => .out (.halted .stuck)

/-- Runs at most `fuel` blocks, the first of them `id`; none if that is not enough. -/
def runFrom (ops : TruthOperators) (f : Func) : (fuel : Nat) → BlockId → Machine → Option Exit
  | 0, _, _ => none
  | fuel + 1, id, m =>
    match f.step ops id m with
    | .out exit => some exit
    | .into target m => runFrom ops f fuel target m

def run (ops : TruthOperators) (fuel : Nat) (f : Func) (locals : LocalId → Constant) :
    Option Exit :=
  f.runFrom ops fuel f.entry (.start locals)

/-- The function ends in this way, given enough steps. -/
def Ends (ops : TruthOperators) (f : Func) (locals : LocalId → Constant) (exit : Exit) : Prop :=
  ∃ fuel, f.run ops fuel locals = some exit

def Diverges (ops : TruthOperators) (f : Func) (locals : LocalId → Constant) : Prop :=
  ∀ fuel, f.run ops fuel locals = none

theorem runFrom_add {id : BlockId} (ends : f.runFrom ops fuel id m = some exit) (more : Nat) :
    f.runFrom ops (fuel + more) id m = some exit := by
  induction fuel generalizing id m with
  | zero => cases ends
  | succ fuel ih =>
    rw [Nat.succ_add]
    simp only [runFrom] at ends ⊢
    cases stepped : f.step ops id m with
    | out exit' =>
      rw [stepped] at ends
      exact ends
    | into target m' =>
      rw [stepped] at ends
      exact ih ends

theorem Ends.unique {locals : LocalId → Constant} (hfirst : f.Ends ops locals first)
    (hsecond : f.Ends ops locals second) : first = second := by
  obtain ⟨m, hfirst⟩ := hfirst
  obtain ⟨n, hsecond⟩ := hsecond
  have left := runFrom_add hfirst n
  have right := runFrom_add hsecond m
  rw [Nat.add_comm] at right
  exact Option.some.inj (left.symm.trans right)

end Func

/-- Two steps end alike, or enter the same block with related machines. -/
inductive Step.Related (R : Machine → Machine → Prop) : Step → Step → Prop where
  | into {target : BlockId} {m m' : Machine} (related : R m m') :
      Related R (.into target m) (.into target m')
  | out {exit : Exit} : Related R (.out exit) (.out exit)

theorem Func.runFrom_congr {g : Func} {R : Machine → Machine → Prop}
    (steps : ∀ id m m', R m m' → Step.Related R (f.step ops id m) (g.step ops id m')) (fuel : Nat)
    (id : BlockId) (related : R m m') : f.runFrom ops fuel id m = g.runFrom ops fuel id m' := by
  induction fuel generalizing id m m' with
  | zero => rfl
  | succ fuel ih =>
    simp only [runFrom]
    have stepped := steps id m m' related
    generalize f.step ops id m = left at stepped ⊢
    generalize g.step ops id m' = right at stepped ⊢
    cases stepped with
    | into related => exact ih _ related
    | out => rfl

theorem Func.runFrom_congr_blocks {g : Func} {R : Machine → Machine → Prop}
    (length : g.blocks.length = f.blocks.length)
    (each : ∀ (i : Nat) b, f.blocks[i]? = some b → ∃ b', g.blocks[i]? = some b' ∧
      ∀ m m', R m m' → Step.Related R (finish ops f.locals m b.instrs b.term)
        (finish ops g.locals m' b'.instrs b'.term)) (fuel : Nat) (id : BlockId) (related : R m m') :
    f.runFrom ops fuel id m = g.runFrom ops fuel id m' := by
  refine runFrom_congr ?_ fuel id related
  intro id m m' related
  unfold step block? at?
  by_cases negative : id < 0
  · simp only [if_pos negative]
    exact .out
  · simp only [if_neg negative]
    cases position : f.blocks[id.toNat]? with
    | some b =>
      obtain ⟨b', position', steps⟩ := each _ b position
      rw [position']
      exact steps m m' related
    | none =>
      rw [List.getElem?_eq_none (by rw [length]; exact List.getElem?_eq_none_iff.mp position)]
      exact .out

end MiddleEnd.Ir
