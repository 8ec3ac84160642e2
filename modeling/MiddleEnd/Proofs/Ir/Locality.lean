import MiddleEnd.Ir.Forwarding
import MiddleEnd.Proofs.Ir.Validity
import MiddleEnd.Proofs.Semantics.Machine

/-!
Blocks that read only what they have defined themselves. Such a block never meets an undefined
operand, whatever ran before it.
-/

namespace MiddleEnd.Ir

open List

variable {operand : Operand}

namespace Operand

/-- A value read here is one of those defined before. -/
def LocalTo (before : List ValueId) : Operand → Prop
  | .value id _ => id ∈ before
  | _ => True

instance (before : List ValueId) : DecidablePred (LocalTo before)
  | .value id _ => inferInstanceAs (Decidable (id ∈ before))
  | .undef _ | .const _ _ => inferInstanceAs (Decidable True)

/-- A constant, or a value defined before. -/
def DefinedIn (before : List ValueId) : Operand → Prop
  | .undef _ => False
  | .const _ _ => True
  | .value id _ => id ∈ before

theorem DefinedIn.mono (given : operand.DefinedIn before) (subset : before ⊆ more) :
    operand.DefinedIn more := by
  cases operand with
  | undef type => exact given
  | const type n => exact given
  | value id type => exact subset given

theorem DefinedIn.eval_define (given : operand.DefinedIn before) (m : Machine) {id : ValueId}
    (fresh : id ∉ before) (v : Constant) :
    operand.eval (m.define id v).values = operand.eval m.values := by
  cases operand with
  | undef type => rfl
  | const type n => cases type <;> rfl
  | value other type =>
    apply m.define_other
    rintro rfl
    exact fresh given

end Operand

/-- Instructions and a terminator whose operands all satisfy `P` of the values defined before them,
those in `before` included. -/
def Reads (P : List ValueId → Operand → Prop) (term : Terminator) :
    (before : List ValueId) → List Instr → Prop
  | before, [] => ∀ operand ∈ term.operands, P before operand
  | before, instr :: rest =>
    (∀ operand ∈ instr.operands, P before operand) ∧
      Reads P term (instr.defines.toList ++ before) rest

instance Reads.decidable {P : List ValueId → Operand → Prop} [∀ before, DecidablePred (P before)]
    (term : Terminator) : ∀ before instrs, Decidable (Reads P term before instrs)
  | before, [] => inferInstanceAs (Decidable (∀ operand ∈ term.operands, P before operand))
  | before, instr :: rest =>
    have : Decidable (Reads P term (instr.defines.toList ++ before) rest) := decidable term _ rest
    inferInstanceAs (Decidable ((∀ operand ∈ instr.operands, P before operand) ∧
      Reads P term (instr.defines.toList ++ before) rest))

/-- Every value that a block reads is defined by an earlier instruction of the same block. -/
def Func.BlockLocal (f : Func) : Prop :=
  ∀ b ∈ f.blocks, Reads Operand.LocalTo b.term [] b.instrs

instance (f : Func) : Decidable f.BlockLocal :=
  inferInstanceAs (Decidable (∀ b ∈ f.blocks, Reads Operand.LocalTo b.term [] b.instrs))

/-- All that a block reads is known before it reads it. -/
def Func.Defined (f : Func) : Prop :=
  ∀ b ∈ f.blocks, Reads Operand.DefinedIn b.term [] b.instrs

variable {term : Terminator} {before : List ValueId} {f : Func}

theorem Reads.strengthen {P Q : List ValueId → Operand → Prop} (reads : Reads P term before instrs)
    (inInstrs : ∀ instr ∈ instrs, ∀ operand ∈ instr.operands, ∀ before, P before operand → Q before
      operand) (inTerm : ∀ operand ∈ term.operands, ∀ before, P before operand → Q before operand) :
    Reads Q term before instrs := by
  induction instrs generalizing before with
  | nil => exact fun operand member => inTerm operand member before (reads operand member)
  | cons instr rest ih =>
    refine ⟨fun operand member => inInstrs instr (by simp) operand member before
      (reads.1 operand member), ih reads.2 ?_⟩
    exact fun other member => inInstrs other (by simp [member])

theorem Reads.append {P : List ValueId → Operand → Prop} :
    Reads P term before (instrs ++ rest) ↔
      Reads P .pending before instrs ∧ Reads P term ((defined instrs).reverse ++ before) rest := by
  induction instrs generalizing before with
  | nil => simp [Reads, Terminator.operands, defined]
  | cons instr instrs ih =>
    have order : (defined (instr :: instrs)).reverse ++ before =
        (defined instrs).reverse ++ (instr.defines.toList ++ before) := by
      cases defines : instr.defines <;> simp [defined, defines]
    simp only [cons_append, Reads, ih, order, and_assoc]

theorem operandFaults_undef (valid : f.operandFaults use operand = [])
    (given : operand.LocalTo before) : operand.DefinedIn before := by
  cases operand with
  | undef type => cases valid
  | const type n => trivial
  | value id type => exact given

theorem instrFaults_operands (valid : f.instrFaults instr = []) :
    ∀ operand ∈ instr.operands, ∃ use, f.operandFaults use operand = [] := by
  intro operand member
  cases instr with
  | load dst src => cases member
  | unknown dst kind => cases member
  | store dst value | unary dst op value =>
    simp only [Func.instrFaults, append_eq_nil_iff] at valid
    cases mem_singleton.mp member
    exact ⟨_, valid.1⟩
  | binary dst op left right | compare dst op left right =>
    simp only [Func.instrFaults, append_eq_nil_iff] at valid
    simp only [Instr.operands, mem_cons, not_mem_nil, or_false] at member
    rcases member with rfl | rfl
    · exact ⟨_, valid.1.1.1⟩
    · exact ⟨_, valid.1.1.2⟩

theorem termFaults_operands (valid : f.termFaults term = []) :
    ∀ operand ∈ term.operands, ∃ use, f.operandFaults use operand = [] := by
  intro operand member
  cases term with
  | pending | goto _ | unreachable | unknown _ => cases member
  | branch cond yes no =>
    simp only [Func.termFaults, append_eq_nil_iff] at valid
    cases mem_singleton.mp member
    exact ⟨_, valid.1.1.1⟩
  | ret value =>
    cases value with
    | none => cases member
    | some value =>
      simp only [Func.termFaults] at valid
      split at valid
      · cases valid
      · simp only [append_eq_nil_iff] at valid
        cases mem_singleton.mp member
        exact ⟨_, valid.1⟩

def Instr.slot? : Instr → Option LocalId
  | .load _ src => some src
  | .store dst _ => some dst
  | _ => none

/-- Every load and store names a slot that the function has. -/
def Func.SlotsExist (f : Func) : Prop :=
  ∀ b ∈ f.blocks, ∀ instr ∈ b.instrs, ∀ slot, instr.slot? = some slot → (at? f.locals slot).isSome

theorem Func.Valid.slotsExist (valid : f.Valid) : f.SlotsExist := by
  intro b block instr member slot names
  have faultless := valid.instr block member
  cases found : at? f.locals slot with
  | some _ => rfl
  | none =>
    cases instr with
    | load dst src =>
      cases names
      simp [Func.instrFaults, found] at faultless
    | store dst value =>
      cases names
      simp [Func.instrFaults, found] at faultless
    | binary | compare | unary | unknown => cases names

theorem Func.Valid.defined (valid : f.Valid) (blockLocal : f.BlockLocal) : f.Defined := by
  intro b member
  apply (blockLocal b member).strengthen
  · intro instr inBlock operand isOperand before given
    obtain ⟨use, none⟩ := instrFaults_operands (valid.instr member inBlock) operand isOperand
    exact operandFaults_undef none given
  · intro operand isOperand before given
    obtain ⟨use, none⟩ := termFaults_operands (valid.term member) operand isOperand
    exact operandFaults_undef none given

end MiddleEnd.Ir
