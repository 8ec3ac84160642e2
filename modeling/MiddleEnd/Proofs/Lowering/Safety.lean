import MiddleEnd.Proofs.Lowering.Soundness

/-!
Type safety of block code: an execution of lowered and validated code never gets stuck.
-/

namespace MiddleEnd

open List Option

variable {b : Block}

def Constant.type : Constant → Ir.Ty
  | .int _ => .i32
  | .bool _ => .i1

/-- Operators on truth values give truth values, save that a division may meet a zero divisor. -/
structure TruthOperators.Total (ops : TruthOperators) : Prop where
  negate : ∀ b, ∃ c, ops.negate b = .bool c
  combine : ∀ op l r, (∀ code, op ≠ .other code) →
    (∃ c, ops.combine op (.bool l) (.bool r) = .value (.bool c)) ∨
      (op = .div ∨ op = .mod) ∧ ops.combine op (.bool l) (.bool r) = .zeroDivisor

namespace Ir

variable {ops : TruthOperators}

theorem BinOp.onInts_typed {op : BinOp} (known : ∀ code, op ≠ .other code) (l r : Int32) :
    (∃ n, op.meaning.onInts l r = .value (.int n)) ∨
      (op = .div ∨ op = .rem) ∧ op.meaning.onInts l r = .zeroDivisor := by
  cases op with
  | div | rem =>
    simp only [BinOp.meaning, BinaryOp.onInts]
    split
    · exact .inr ⟨by simp, rfl⟩
    · exact .inl ⟨_, rfl⟩
  | other code => exact absurd rfl (known code)
  | _ => exact .inl ⟨_, rfl⟩

theorem CmpPred.onInts_typed {pred : CmpPred} (known : ∀ code, pred ≠ .other code) (l r : Int32) :
    ∃ b, pred.meaning.onInts l r = .value (.bool b) := by
  cases pred with
  | other code => exact absurd rfl (known code)
  | _ => exact ⟨_, rfl⟩

theorem BinOp.result_typed (total : ops.Total) {op : BinOp} (known : ∀ code, op ≠ .other code)
    (same : l.type = r.type) :
    (∃ v, (ops.binary op.meaning l r).result = .ok v ∧ v.type = l.type) ∨
      (op = .div ∨ op = .rem) ∧ (ops.binary op.meaning l r).result = .error .trap := by
  cases l with
  | int l =>
    cases r with
    | bool r => cases same
    | int r =>
      simp only [TruthOperators.binary]
      rcases BinOp.onInts_typed known l r with ⟨n, value⟩ | ⟨divides, zero⟩
      · exact .inl ⟨.int n, by rw [value]; rfl, rfl⟩
      · exact .inr ⟨divides, by rw [zero]; rfl⟩
  | bool l =>
    cases r with
    | int r => cases same
    | bool r =>
      have meaningful : ∀ code, op.meaning ≠ .other code := by
        intro code isOther
        cases op <;> first | exact absurd rfl (known _) | cases isOther
      simp only [TruthOperators.binary]
      rcases total.combine op.meaning l r meaningful with ⟨c, value⟩ | ⟨divides, zero⟩
      · exact .inl ⟨.bool c, by rw [value]; rfl, rfl⟩
      · refine .inr ⟨?_, by rw [zero]; rfl⟩
        cases op <;> simp [BinOp.meaning] at divides ⊢

theorem CmpPred.result_typed (total : ops.Total) {pred : CmpPred}
    (known : ∀ code, pred ≠ .other code) (same : l.type = r.type) :
    ∃ b, (ops.binary pred.meaning l r).result = .ok (.bool b) := by
  cases l with
  | int l =>
    cases r with
    | bool r => cases same
    | int r =>
      obtain ⟨b, value⟩ := CmpPred.onInts_typed known l r
      exact ⟨b, by rw [TruthOperators.binary, value]; rfl⟩
  | bool l =>
    cases r with
    | int r => cases same
    | bool r =>
      have meaningful : ∀ code, pred.meaning ≠ .other code := by
        intro code isOther
        cases pred <;> first | exact absurd rfl (known _) | cases isOther
      simp only [TruthOperators.binary]
      rcases total.combine pred.meaning l r meaningful with ⟨c, value⟩ | ⟨divides, -⟩
      · exact ⟨c, by rw [value]; rfl⟩
      · cases pred <;> simp [CmpPred.meaning] at divides

theorem UnOp.result_typed (total : ops.Total) (v : Constant) :
    ∃ w, (ops.unary UnOp.not.meaning v).result = .ok w ∧ w.type = v.type := by
  cases v with
  | int n => exact ⟨_, rfl, rfl⟩
  | bool b =>
    obtain ⟨c, negated⟩ := total.negate b
    refine ⟨.bool c, ?_, rfl⟩
    simp only [UnOp.meaning, TruthOperators.unary, negated, Applied.result]

/-- Each slot holds a constant of its type. -/
def CellsTyped (slots : List Slot) (locals : LocalId → Constant) : Prop :=
  ∀ id slot, at? slots id = some slot → (locals id).type = slot.type

/-- The slots hold what their types say, and so do the values that are defined. -/
structure Machine.Fits (slots : List Slot) (values : List Ty) (before : List ValueId)
    (m : Machine) : Prop where
  cells : CellsTyped slots m.locals
  values : ∀ id ∈ before, ∃ v, m.values id = some v ∧ at? values id = some v.type

/-- The operand is a constant or was defined before, and reading it gives a constant of its
type. -/
def Machine.Knows (m : Machine) (before : List ValueId) (operand : Operand) : Prop :=
  operand.DefinedIn before ∧ ∃ v, m.read operand = .ok v ∧ v.type = operand.type

section Steps

variable {slots : List Slot} {values : List Ty} {before : List ValueId} {m : Machine}

theorem Machine.Fits.knows (fits : m.Fits slots values before) {operand : Operand}
    (typed : operand.Typed values) (given : operand.DefinedIn before) : m.Knows before operand := by
  refine ⟨given, ?_⟩
  simp only [read_eq_ok]
  cases operand with
  | undef type => cases given
  | const type n =>
    rcases typed with rfl | rfl
    · exact ⟨_, rfl, rfl⟩
    · exact ⟨_, rfl, rfl⟩
  | value id type =>
    obtain ⟨v, found, valueType⟩ := fits.values id given
    exact ⟨v, found, Option.some.inj (valueType.symm.trans typed)⟩

theorem Machine.Fits.define (fits : m.Fits slots values before) {id : ValueId} {v : Constant}
    (typed : at? values id = some v.type) : (m.define id v).Fits slots values (id :: before) where
  cells := fits.cells
  values other member := by
    simp only [Machine.define]
    split
    · next same =>
      subst same
      exact ⟨v, rfl, typed⟩
    · next distinct => exact fits.values other ((mem_cons.mp member).resolve_left distinct)

theorem Machine.Fits.write (fits : m.Fits slots values before) {id : LocalId} {slot : Slot}
    (found : at? slots id = some slot) (typed : v.type = slot.type) :
    (m.write id v).Fits slots values before where
  cells other slot' found' := by
    simp only [Machine.write]
    split
    · next same =>
      subst same
      cases found.symm.trans found'
      exact typed
    · exact fits.cells other slot' found'
  values := fits.values

theorem Machine.Fits.mono (fits : m.Fits slots values before) (subset : fewer ⊆ before) :
    m.Fits slots values fewer :=
  ⟨fits.cells, fun id member => fits.values id (subset member)⟩

inductive Instr.Divides : Instr → Prop where
  | div {dst : ValueId} {left right : Operand} : Divides (.binary dst .div left right)
  | rem {dst : ValueId} {left right : Operand} : Divides (.binary dst .rem left right)

theorem Machine.Fits.exec (total : ops.Total) (fits : m.Fits slots values before) {instr : Instr}
    (typed : instr.Typed slots values) (meaningful : instr.Meaningful)
    (reads : ∀ operand ∈ instr.operands, operand.DefinedIn before) :
    (∃ n, instr.exec ops slots m = .ok n ∧
      n.Fits slots values (instr.defines.toList ++ before)) ∨
    instr.Divides ∧ instr.exec ops slots m = .error .trap := by
  cases typed with
  | @load dst src slot found result =>
    refine .inl ⟨m.define dst (m.locals src), ?_, fits.define ?_⟩
    · simp only [Instr.exec, found, isSome_some, if_true]
    · rw [result, fits.cells src slot found]
  | @store dst value slot found typed same =>
    obtain ⟨-, v, read, valueType⟩ := fits.knows typed (reads value (by simp [Instr.operands]))
    refine .inl ⟨m.write dst v, ?_, fits.write found (valueType.trans same.symm)⟩
    simp only [Instr.exec, read, found, isSome_some, if_true]
  | @binary dst op left right typedLeft typedRight same result =>
    obtain ⟨-, l, readLeft, leftType⟩ :=
      fits.knows typedLeft (reads left (by simp [Instr.operands]))
    obtain ⟨-, r, readRight, rightType⟩ :=
      fits.knows typedRight (reads right (by simp [Instr.operands]))
    have unfolded : (Instr.binary dst op left right).exec ops slots m =
        m.assign dst (ops.binary op.meaning l r).result := by
      simp only [Instr.exec, readLeft, readRight]
      rfl
    have sameType : l.type = r.type := by rw [leftType, rightType, same]
    rw [unfolded]
    rcases BinOp.result_typed total meaningful sameType with
      ⟨v, value, valueType⟩ | ⟨divides, trap⟩
    · refine .inl ⟨m.define dst v, by rw [value]; rfl, fits.define ?_⟩
      rw [result, valueType, leftType]
    · refine .inr ⟨?_, by rw [trap]; rfl⟩
      rcases divides with rfl | rfl
      · exact .div
      · exact .rem
  | @compare dst pred left right typedLeft typedRight same result =>
    obtain ⟨-, l, readLeft, leftType⟩ :=
      fits.knows typedLeft (reads left (by simp [Instr.operands]))
    obtain ⟨-, r, readRight, rightType⟩ :=
      fits.knows typedRight (reads right (by simp [Instr.operands]))
    have unfolded : (Instr.compare dst pred left right).exec ops slots m =
        m.assign dst (ops.binary pred.meaning l r).result := by
      simp only [Instr.exec, readLeft, readRight]
      rfl
    have sameType : l.type = r.type := by rw [leftType, rightType, same]
    obtain ⟨b, value⟩ := CmpPred.result_typed total meaningful sameType
    exact .inl ⟨m.define dst (.bool b), by rw [unfolded, value]; rfl, fits.define result⟩
  | @unary dst op operand typed result =>
    obtain rfl : op = .not := meaningful
    obtain ⟨-, v, read, valueType⟩ := fits.knows typed (reads operand (by simp [Instr.operands]))
    obtain ⟨w, value, sameType⟩ := UnOp.result_typed total v
    refine .inl ⟨m.define dst w, ?_, fits.define ?_⟩
    · simp only [Instr.exec, read]
      change m.assign dst (ops.unary UnOp.not.meaning v).result = _
      rw [value]
      rfl
    · rw [result, sameType, valueType]

end Steps

/-- How an execution of a function with this result may end. -/
def Exit.Proper (result : Ty) : Exit → Prop
  | .returned none => result = .void
  | .returned (some v) => v.type = result
  | .unreachable => result ≠ .void
  | .halted why => why = .trap

namespace Func

variable {f : Func} {locals : LocalId → Constant} {p : Point} {m : Machine}

/-- An execution that started from these contents of the slots comes to a place, instruction by
instruction. -/
inductive Reaches (ops : TruthOperators) (f : Func) (locals : LocalId → Constant) :
    Point → Machine → Prop where
  | start : Reaches ops f locals ⟨f.entry, 0⟩ (.start locals)
  | next {p : Point} {m m' : Machine} {b : Block} {instr : Instr}
      (before : Reaches ops f locals p m) (found : f.block? p.block = some b)
      (here : b.instrs[p.index]? = some instr) (steps : instr.exec ops f.locals m = .ok m') :
      Reaches ops f locals (p.skip 1) m'
  | jump {p : Point} {m m' : Machine} {b : Block} {target : BlockId}
      (before : Reaches ops f locals p m) (found : f.block? p.block = some b)
      (atEnd : p.index = b.instrs.length) (steps : b.term.exec m = .into target m') :
      Reaches ops f locals ⟨target, 0⟩ m'

/-- The instruction can be executed here: it reads what is known, names a slot that exists, and
leads on or divides by zero. -/
structure InstrSafe (ops : TruthOperators) (f : Func) (before : List ValueId) (m : Machine)
    (instr : Instr) : Prop where
  operands : ∀ operand ∈ instr.operands, m.Knows before operand
  slot : ∀ id, instr.slot? = some id → (at? f.locals id).isSome
  steps : (∃ n, instr.exec ops f.locals m = .ok n) ∨
    instr.Divides ∧ instr.exec ops f.locals m = .error .trap

/-- The terminator can be executed here, and leaves the function only in a proper way. -/
structure TermSafe (f : Func) (before : List ValueId) (m : Machine) (term : Terminator) : Prop where
  operands : ∀ operand ∈ term.operands, m.Knows before operand
  condition : ∀ cond yes no, term = .branch cond yes no → ∃ b, m.read cond = .ok (.bool b)
  targets : ∀ target ∈ term.successors, (f.block? target).isSome
  exits : ∀ exit, term.exec m = .out exit → exit.Proper f.result

/-- The place lies in a block, the slots hold what their types say, and what stands at the place can
be executed. -/
structure SafeAt (ops : TruthOperators) (f : Func) (p : Point) (m : Machine) (b : Block) :
    Prop where
  block : f.block? p.block = some b
  inside : p.index ≤ b.instrs.length
  cells : CellsTyped f.locals m.locals
  instr : ∀ instr, b.instrs[p.index]? = some instr →
    f.InstrSafe ops (defined (b.instrs.take p.index)) m instr
  term : p.index = b.instrs.length → f.TermSafe (defined b.instrs) m b.term

/-- Code whose executions are safe: it is typed, its operations have a meaning, and only functions
with a result have ends that are not to be reached. -/
structure Executable (f : Func) : Prop where
  typed : f.WellTyped
  orderly : f.Orderly

theorem Executable.term_safe (executable : f.Executable) (block : b ∈ f.blocks)
    (fits : m.Fits f.locals f.values (defined b.instrs)) :
    f.TermSafe (defined b.instrs) m b.term := by
  have typed := executable.typed.terms b block
  have reads := (executable.typed.reads b block).definedIn.2
  have targets := executable.typed.targets.targets b block
  have reached := fun void => executable.orderly.reached void b block
  generalize b.term = term at typed reads targets reached
  cases typed with
  | goto => exact ⟨by simp [Terminator.operands], by simp, targets, by simp [Terminator.exec]⟩
  | @branch cond yes no typed truth =>
    have knows := fits.knows typed (reads cond (by simp [Terminator.operands]))
    have isTruth : ∃ b, m.read cond = .ok (.bool b) := by
      obtain ⟨-, v, read, valueType⟩ := knows
      cases v with
      | int n =>
        rw [truth] at valueType
        cases valueType
      | bool b => exact ⟨b, read⟩
    refine ⟨by simpa [Terminator.operands] using knows, ?_, targets, ?_⟩
    · rintro _ _ _ ⟨⟩
      exact isTruth
    · obtain ⟨b, read⟩ := isTruth
      simp [Terminator.exec, read]
  | finish void =>
    refine ⟨by simp [Terminator.operands], by simp, targets, ?_⟩
    rintro _ ⟨⟩
    exact void
  | @ret value typed same notVoid =>
    have knows := fits.knows typed (reads value (by simp [Terminator.operands]))
    refine ⟨by simpa [Terminator.operands] using knows, by simp, targets, ?_⟩
    obtain ⟨-, v, read, valueType⟩ := knows
    simp only [Terminator.exec, read]
    rintro _ ⟨⟩
    exact valueType.trans same
  | unreachable =>
    refine ⟨by simp [Terminator.operands], by simp, targets, ?_⟩
    rintro _ ⟨⟩
    exact fun void => reached void rfl

theorem Executable.reads_before (executable : f.Executable) (block : b ∈ f.blocks) {instr : Instr}
    (here : b.instrs[i]? = some instr) :
    ∀ operand ∈ instr.operands, operand.DefinedIn (defined (b.instrs.take i)) := by
  intro operand member
  obtain ⟨bound, rfl⟩ := List.getElem?_eq_some_iff.mp here
  have reads := executable.typed.reads b block
  rw [← take_append_drop i b.instrs, drop_eq_getElem_cons bound] at reads
  exact ((Reads.append.mp reads).2.1 operand member).mono fun id earlier => by simpa using earlier

theorem exec_into {term : Terminator} (steps : term.exec m = .into target m') : m' = m := by
  cases term with
  | goto next =>
    cases steps
    rfl
  | branch cond yes no =>
    simp only [Terminator.exec] at steps
    split at steps <;> cases steps
    rfl
  | ret value =>
    cases value with
    | none => cases steps
    | some value =>
      simp only [Terminator.exec] at steps
      split at steps <;> cases steps
  | pending | unreachable | unknown => cases steps

section Safe

variable (executable : f.Executable) (total : ops.Total) (cells : CellsTyped f.locals locals)

include executable total cells

theorem Reaches.fits (reaches : f.Reaches ops locals p m) :
    ∃ b, f.block? p.block = some b ∧ p.index ≤ b.instrs.length ∧
      m.Fits f.locals f.values (defined (b.instrs.take p.index)) := by
  induction reaches with
  | start =>
    obtain ⟨b, found⟩ := isSome_iff_exists.mp executable.typed.targets.entry
    exact ⟨b, found, Nat.zero_le _, cells, by simp [defined]⟩
  | @next p m m' b instr _ found here steps ih =>
    obtain ⟨b', found', -, fits⟩ := ih
    cases found.symm.trans found'
    obtain ⟨i, -, position⟩ := at?_eq_some found
    have block := mem_of_getElem? position
    have bound := (List.getElem?_eq_some_iff.mp here).1
    refine ⟨b, found, bound, ?_⟩
    rcases fits.exec total
      (executable.typed.instrs b block instr (mem_of_getElem? here))
      (executable.orderly.meaningful b block instr (mem_of_getElem? here))
      (executable.reads_before block here) with ⟨n, steps', fits'⟩ | ⟨-, traps⟩
    · cases steps.symm.trans steps'
      refine fits'.mono ?_
      intro id member
      simp only [Point.skip, defined, take_add_one, here, toList_some,
        filterMap_append, mem_append] at member ⊢
      rcases member with earlier | last
      · exact .inr earlier
      · exact .inl (by simpa using last)
    · rw [steps] at traps
      cases traps
  | @jump p m m' b target _ found _ steps ih =>
    obtain ⟨b', found', -, fits⟩ := ih
    obtain ⟨i, -, position⟩ := at?_eq_some found
    obtain ⟨b'', found''⟩ := isSome_iff_exists.mp (executable.typed.targets.targets b
      (mem_of_getElem? position) target (Terminator.target_mem_successors steps))
    rw [exec_into steps]
    exact ⟨b'', found'', Nat.zero_le _, fits.mono (by simp [defined])⟩

theorem Reaches.safe (reaches : f.Reaches ops locals p m) : ∃ b, f.SafeAt ops p m b := by
  obtain ⟨b, found, inside, fits⟩ := reaches.fits executable total cells
  obtain ⟨i, -, position⟩ := at?_eq_some found
  have block := mem_of_getElem? position
  refine ⟨b, found, inside, fits.cells, fun instr here => ?_, fun atEnd => ?_⟩
  · have member := mem_of_getElem? here
    have typed := executable.typed.instrs b block instr member
    have reads := executable.reads_before block here
    refine ⟨fun operand isOperand => ?_, ?_, ?_⟩
    · obtain ⟨use, faultless⟩ :=
        instrFaults_operands (executable.typed.valid.instr block member) operand isOperand
      exact fits.knows (operandFaults_eq_nil.mp faultless).1 (reads operand isOperand)
    · exact executable.typed.valid.slotsExist b block instr member
    · rcases fits.exec total typed (executable.orderly.meaningful b block instr member) reads with
        ⟨n, steps, -⟩ | traps
      · exact .inl ⟨n, steps⟩
      · exact .inr traps
  · rw [atEnd, take_length] at fits
    exact executable.term_safe block fits

theorem Reaches.finish (reaches : f.Reaches ops locals p m) (found : f.block? p.block = some b) :
    match Ir.finish ops f.locals m (b.instrs.drop p.index) b.term with
    | .into target m' => f.Reaches ops locals ⟨target, 0⟩ m'
    | .out exit => exit.Proper f.result := by
  -- The induction is on the number of instructions that are left.
  generalize left : b.instrs.length - p.index = count
  induction count generalizing p m with
  | zero =>
    obtain ⟨b', safe⟩ := reaches.safe executable total cells
    cases found.symm.trans safe.block
    have inside := safe.inside
    have atEnd : p.index = b.instrs.length := by omega
    have unfolded : Ir.finish ops f.locals m (b.instrs.drop p.index) b.term = b.term.exec m := by
      rw [atEnd, drop_length]
      rfl
    rw [unfolded]
    cases steps : b.term.exec m with
    | into target m' => exact .jump reaches found atEnd steps
    | out exit => exact (safe.term atEnd).exits exit steps
  | succ count ih =>
    obtain ⟨b', safe⟩ := reaches.safe executable total cells
    cases found.symm.trans safe.block
    have bound : p.index < b.instrs.length := by omega
    have here := List.getElem?_eq_getElem bound
    rw [drop_eq_getElem_cons bound, finish_cons]
    rcases (safe.instr _ here).steps with ⟨n, steps⟩ | ⟨-, traps⟩
    · rw [steps]
      have fewer : b.instrs.length - (p.skip 1).index = count := by
        change b.instrs.length - (p.index + 1) = count
        omega
      exact ih (.next reaches found here steps) found fewer
    · rw [traps]
      exact rfl

theorem Reaches.runFrom {id : BlockId} (reaches : f.Reaches ops locals ⟨id, 0⟩ m)
    (ends : f.runFrom ops fuel id m = some exit) : exit.Proper f.result := by
  induction fuel generalizing id m with
  | zero => cases ends
  | succ fuel ih =>
    obtain ⟨b, safe⟩ := reaches.safe executable total cells
    have found : f.block? id = some b := safe.block
    have finished := reaches.finish executable total cells found
    rw [drop_zero] at finished
    simp only [Func.runFrom, step, found] at ends
    cases stepped : Ir.finish ops f.locals m b.instrs b.term with
    | into target m' =>
      rw [stepped] at finished ends
      exact ih finished ends
    | out exit' =>
      rw [stepped] at finished ends
      cases ends
      exact finished

end Safe

end Func

end Ir

/-- An execution of lowered and validated code that starts from slots of their types never gets
stuck, and ends in a return of the result, in a division by zero, or at an unreachable end of a
function that has a result. -/
theorem lowered_code_is_safe {canceled : Bool} {m : Module} {table : Scoping.Table}
    {lowered : Ir.Module} (succeeded : (Lowering.module canceled m table).result = .ok lowered)
    (valid : lowered.faults = []) {g : Ir.Func} (function : some g ∈ lowered.funcs)
    {ops : TruthOperators} (total : ops.Total) {locals : Ir.LocalId → Constant}
    (cells : Ir.CellsTyped g.locals locals) :
    (∀ p machine, g.Reaches ops locals p machine → ∃ b, g.SafeAt ops p machine b) ∧
      ∀ exit, g.Ends ops locals exit → exit.Proper g.result := by
  have orderly := Lowering.module_orderly succeeded function
  have faultless := g.faults_eq_nil_iff.mp (Ir.Module.faults_eq_nil.mp valid g function)
  have executable : g.Executable := ⟨faultless.wellTyped orderly.reads, orderly⟩
  constructor
  · intro p machine reaches
    exact reaches.safe executable total cells
  · rintro exit ⟨fuel, ends⟩
    exact Ir.Func.Reaches.runFrom executable total cells .start ends

/-- Truth values as numbers of one bit in two's complement, where the set bit is minus one. -/
def TruthOperators.oneBit : TruthOperators :=
  .negating fun op l r =>
    match l, r with
    | .bool l, .bool r =>
      match op with
      | .add | .sub | .xor | .ne => .value (.bool (l != r))
      | .mul | .and => .value (.bool (l && r))
      | .or => .value (.bool (l || r))
      | .div => if r then .value (.bool l) else .zeroDivisor
      | .mod => if r then .value (.bool false) else .zeroDivisor
      | .eq => .value (.bool (l == r))
      | .lt => .value (.bool (l && !r))
      | .le => .value (.bool (l || !r))
      | .gt => .value (.bool (!l && r))
      | .ge => .value (.bool (!l || r))
      | .other _ => .meaningless
    | _, _ => .meaningless

theorem TruthOperators.oneBit_total : oneBit.Total where
  negate b := ⟨!b, rfl⟩
  combine op l r known := by
    cases op with
    | div | mod =>
      cases r with
      | false => exact .inr ⟨by simp, rfl⟩
      | true => exact .inl ⟨_, rfl⟩
    | other code => exact absurd rfl (known code)
    | _ => exact .inl ⟨_, rfl⟩

/-- Negates a truth value three times in a loop and returns it. -/
def negateThrice : Module where
  id := 1
  name := [109]
  funcs := some [some {
    id := 2
    name := [102]
    result := .bool
    body := .block ⟨3, []⟩ (some [
      .decl ⟨4, []⟩ true [98] .bool .absent,
      .decl ⟨5, []⟩ true [110] .int (.int ⟨6, []⟩ 3),
      .loop ⟨7, []⟩ (.binary ⟨8, []⟩ .gt (.ident ⟨9, []⟩ [110]) (.int ⟨10, []⟩ 0))
        (.block ⟨11, []⟩ (some [
          .assign ⟨12, []⟩ (.ident ⟨13, []⟩ [98]) (.unary ⟨14, []⟩ .not (.ident ⟨15, []⟩ [98])),
          .assign ⟨16, []⟩ (.ident ⟨17, []⟩ [110])
            (.binary ⟨18, []⟩ .sub (.ident ⟨19, []⟩ [110]) (.int ⟨20, []⟩ 1))])),
      .cond ⟨21, []⟩ (.ident ⟨22, []⟩ [98])
        (.ret ⟨23, []⟩ (.binary ⟨24, []⟩ .xor (.ident ⟨25, []⟩ [98]) (.bool ⟨26, []⟩ false)))
        .absent,
      .ret ⟨27, []⟩ (.ident ⟨28, []⟩ [98])]) }]

def falseThenZeros (id : Ir.LocalId) : Constant :=
  if id = 0 then .bool false else .int 0

theorem negateThrice_is_safe :
    ∃ lowered g, (Lowering.module false negateThrice .empty).result = .ok lowered ∧
      lowered.faults = [] ∧ some g ∈ lowered.funcs ∧ TruthOperators.oneBit.Total ∧
      Ir.CellsTyped g.locals falseThenZeros ∧
      (∀ p machine, g.Reaches .oneBit falseThenZeros p machine →
        ∃ b, g.SafeAt .oneBit p machine b) ∧
      g.Ends .oneBit falseThenZeros (.returned (some (.bool true))) ∧ g.result = .i1 := by
  have runs : (Lowering.module false negateThrice .empty).result.toOption.any (fun lowered =>
      decide (lowered.faults = []) && lowered.funcs.any fun entry => entry.any fun g =>
        decide (g.locals.map Ir.Slot.type = [.i1, .i32] ∧
          g.run .oneBit 12 falseThenZeros = some (.returned (some (.bool true))))) = true := by
    decide +kernel
  cases result : (Lowering.module false negateThrice .empty).result with
  | error failure =>
    rw [result] at runs
    cases runs
  | ok lowered =>
    rw [result] at runs
    obtain ⟨valid, found⟩ := Bool.and_eq_true_iff.mp runs
    obtain ⟨entry, member, isFunction⟩ := any_eq_true.mp found
    cases entry with
    | none => cases isFunction
    | some g =>
      obtain ⟨types, ran⟩ := of_decide_eq_true isFunction
      have cells : Ir.CellsTyped g.locals falseThenZeros := by
        intro id slot found
        have type := Ir.at?_map g.locals Ir.Slot.type id
        rw [types, found, map_some] at type
        obtain ⟨i, rfl, here⟩ := Ir.at?_eq_some type
        match i with
        | 0 => exact Option.some.inj here
        | 1 => exact Option.some.inj here
      obtain ⟨safe, proper⟩ := lowered_code_is_safe result (of_decide_eq_true valid) member
        TruthOperators.oneBit_total cells
      exact ⟨lowered, g, rfl, of_decide_eq_true valid, member, TruthOperators.oneBit_total,
        cells,
        safe, ⟨12, ran⟩, (proper _ ⟨12, ran⟩).symm⟩

end MiddleEnd
