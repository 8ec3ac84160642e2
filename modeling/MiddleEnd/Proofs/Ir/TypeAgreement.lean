import MiddleEnd.Proofs.Ir.Soundness

/-!
Types that go together. In sound code this is all that validation decides, and it can be followed
from one request to a builder to the next.
-/

namespace MiddleEnd.Ir

open List

variable {values : List Ty}

/-- What the instruction brings together has one type. -/
def Instr.TypesAgree (slots : List Slot) : Instr → Prop
  | .store dst value => ∀ slot, at? slots dst = some slot → slot.type = value.type
  | .binary _ _ left right | .compare _ _ left right => left.type = right.type
  | _ => True

/-- Branches are on truth values, and only a function with a result returns one, of its type. -/
def Terminator.TypesAgree (result : Ty) : Terminator → Prop
  | .branch cond _ _ => cond.type = .i1
  | .ret none => result = .void
  | .ret (some value) => value.type = result ∧ result ≠ .void
  | _ => True

structure Block.TypesAgree (slots : List Slot) (result : Ty) (b : Block) : Prop where
  instrs : ∀ instr ∈ b.instrs, instr.TypesAgree slots
  term : b.term.TypesAgree result

def Func.TypesAgree (f : Func) : Prop :=
  ∀ b ∈ f.blocks, b.TypesAgree f.locals f.result

theorem Instr.Typed.typesAgree {instr : Instr} (typed : instr.Typed slots values) :
    instr.TypesAgree slots := by
  cases typed with
  | load | unary => trivial
  | store found _ same =>
    intro slot found'
    cases found.symm.trans found'
    exact same
  | binary _ _ same | compare _ _ same => exact same

theorem Terminator.Typed.typesAgree {term : Terminator} (typed : term.Typed values result) :
    term.TypesAgree result := by
  cases typed with
  | goto | unreachable => trivial
  | branch _ truth => exact truth
  | finish void => exact void
  | ret _ same notVoid => exact ⟨same, notVoid⟩

theorem Instr.Fits.typed {instr : Instr} (fits : instr.Fits slots values)
    (typed : ∀ operand ∈ instr.operands, operand.Typed values) (agree : instr.TypesAgree slots) :
    instr.Typed slots values := by
  cases instr with
  | load dst src =>
    obtain ⟨slot, found, result⟩ := fits
    exact .load found result
  | store dst value =>
    obtain ⟨slot, found⟩ := Option.isSome_iff_exists.mp fits
    exact .store found (typed value (by simp [Instr.operands])) (agree slot found)
  | binary dst op left right =>
    exact .binary (typed left (by simp [Instr.operands]))
      (typed right (by simp [Instr.operands])) agree fits.2
  | compare dst pred left right =>
    exact .compare (typed left (by simp [Instr.operands]))
      (typed right (by simp [Instr.operands])) agree fits.2
  | unary dst op operand => exact .unary (typed operand (by simp [Instr.operands])) fits.2
  | unknown dst kind => exact fits.elim

namespace Func.Sound

variable {g : Func}

theorem defined (sound : g.Sound) : g.Defined := fun b member =>
  (sound.reads b member).strengthen (fun _ _ _ _ _ fits => fits.typed.2)
    fun _ _ _ fits => fits.typed.2

theorem operand_typed (sound : g.Sound) (member : b ∈ g.blocks) {operand : Operand}
    (isOperand : operand ∈ b.instrs.flatMap Instr.operands ++ b.term.operands) :
    operand.Typed g.values := by
  obtain ⟨seen, -, fits⟩ := (sound.reads b member).each isOperand
  exact fits.typed.1

theorem term_typed (sound : g.Sound) (member : b ∈ g.blocks) (agree : b.term.TypesAgree g.result) :
    b.term.Typed g.values g.result := by
  have ends := sound.ends b member
  have operands : ∀ operand ∈ b.term.operands, operand.Typed g.values := fun operand isOperand =>
    sound.operand_typed member (mem_append_right _ isOperand)
  generalize b.term = term at agree ends operands
  cases term with
  | pending => exact absurd rfl ends.1
  | unknown kind => exact absurd rfl (ends.2 kind)
  | goto target => exact .goto
  | unreachable => exact .unreachable
  | branch cond yes no => exact .branch (operands cond (by simp [Terminator.operands])) agree
  | ret value =>
    cases value with
    | none => exact .finish agree
    | some value => exact .ret (operands value (by simp [Terminator.operands])) agree.1 agree.2

theorem wellTyped (sound : g.Sound) (agree : g.TypesAgree) : g.WellTyped where
  targets := sound.targets
  numbered := sound.numbered
  nodup := sound.defines.once
  instrs b member instr isInstr := by
    refine (sound.instrs b member instr isInstr).typed (fun operand isOperand => ?_)
      ((agree b member).instrs instr isInstr)
    exact sound.operand_typed member
      (mem_append_left _ (mem_flatMap.mpr ⟨instr, isInstr, isOperand⟩))
  terms b member := sound.term_typed member (agree b member).term
  reads := sound.defined

theorem renumbered (sound : g.Sound) (id : Int) : Func.Sound { g with id := id } :=
  ⟨sound.entry, sound.numbered, sound.ends, ⟨sound.targets.entry, sound.targets.targets⟩,
    ⟨sound.defines.once, sound.defines.all⟩, sound.reads, sound.instrs⟩

theorem faults_eq_nil_iff (sound : g.Sound) : g.faults = [] ↔ g.TypesAgree := by
  rw [Func.faults_eq_nil_iff]
  constructor
  · intro valid b member
    have typed := valid.wellTyped sound.defined
    exact ⟨fun instr isInstr => (typed.instrs b member instr isInstr).typesAgree,
      (typed.terms b member).typesAgree⟩
  · exact fun agree => (sound.wellTyped agree).valid

end Func.Sound

theorem forall_mem_modify {α : Type} {P : α → Prop} {xs : List α} {x : α} {change : α → α}
    (found : xs[i]? = some x) (changed : P (change x) ↔ P x ∧ Q) :
    (∀ y ∈ xs.modify i change, P y) ↔ (∀ y ∈ xs, P y) ∧ Q := by
  induction xs generalizing i with
  | nil => cases found
  | cons y rest ih =>
    cases i with
    | zero =>
      cases found
      rw [modify_zero_cons, forall_mem_cons, forall_mem_cons, changed, and_right_comm]
    | succ i =>
      rw [modify_succ_cons, forall_mem_cons, forall_mem_cons, ih found, and_assoc]

namespace Builder

variable {b : Builder} {p : Point}

theorem typesAgree_newBlock (b : Builder) :
    b.newBlock.1.func.TypesAgree ↔ b.func.TypesAgree := by
  have fresh : Block.TypesAgree b.func.locals b.func.result
      ⟨(b.func.blocks.length : Int), [], .pending⟩ := ⟨by simp, trivial⟩
  simp only [Func.TypesAgree, newBlock, forall_mem_append, forall_mem_singleton, and_iff_left fresh]

theorem typesAgree_fork (b : Builder) (short : Bool) :
    (b.fork short).builder.func.TypesAgree ↔ b.func.TypesAgree := by
  cases short with
  | true => exact (typesAgree_newBlock _).trans (typesAgree_newBlock b)
  | false =>
    exact (typesAgree_newBlock _).trans
      ((typesAgree_newBlock _).trans (typesAgree_newBlock b))

theorem typesAgree_alloc (sound : b.Sound True) (name : Text) (type : Ty) :
    (b.alloc name type).1.func.TypesAgree ↔ b.func.TypesAgree := by
  have same : ∀ block ∈ b.func.blocks, ∀ instr ∈ block.instrs,
      (instr.TypesAgree (b.func.locals ++ [⟨type, name⟩]) ↔ instr.TypesAgree b.func.locals) := by
    intro block member instr isInstr
    have fits := ((sound.blocks block member).instrs instr isInstr).2 trivial
    cases instr with
    | store dst value =>
      obtain ⟨slot, found⟩ := Option.isSome_iff_exists.mp fits
      simp only [Instr.TypesAgree, found, at?_append found]
    | _ => rfl
  refine forall₂_congr fun block member => ?_
  constructor
  · exact fun agree => ⟨fun instr isInstr =>
      (same block member instr isInstr).mp (agree.instrs instr isInstr), agree.term⟩
  · exact fun agree => ⟨fun instr isInstr =>
      (same block member instr isInstr).mpr (agree.instrs instr isInstr), agree.term⟩

theorem typesAgree_modifyBlock (place : b.place? = some p) {change : Block → Block}
    (changed : ∀ block, block.term = .pending →
      ((change block).TypesAgree b.func.locals b.func.result ↔
        block.TypesAgree b.func.locals b.func.result ∧ Q)) :
    (b.modifyBlock change).func.TypesAgree ↔ b.func.TypesAgree ∧ Q := by
  obtain ⟨current, block, found, -, pending⟩ := place?_eq_some.mp place
  obtain ⟨i, same, here⟩ := at?_eq_some found
  have selected : b.current.toNat = i := by rw [← current, same, Int.toNat_natCast]
  simp only [Func.TypesAgree, modifyBlock, selected]
  exact forall_mem_modify here (changed block pending)

theorem typesAgree_append (place : b.place? = some p) (instr : Instr) :
    (b.append instr).func.TypesAgree ↔
      b.func.TypesAgree ∧ instr.TypesAgree b.func.locals := by
  refine typesAgree_modifyBlock place fun block _ => ?_
  constructor
  · rintro ⟨instrs, term⟩
    rw [forall_mem_append, forall_mem_singleton] at instrs
    exact ⟨⟨instrs.1, term⟩, instrs.2⟩
  · rintro ⟨⟨instrs, term⟩, last⟩
    exact ⟨forall_mem_append.mpr ⟨instrs, forall_mem_singleton.mpr last⟩, term⟩

theorem typesAgree_define (place : b.place? = some p) (type : Ty) (instr : ValueId → Instr) :
    (b.define type instr).1.func.TypesAgree ↔
      b.func.TypesAgree ∧ (instr b.func.values.length).TypesAgree b.func.locals := by
  obtain ⟨-, samePlace⟩ := @grows_of_blocks b
    { b with func := { b.func with values := b.func.values ++ [type] } } rfl rfl rfl rfl
  rw [define_eq place]
  exact typesAgree_append (samePlace.trans place) _

theorem typesAgree_store (place : b.place? = some p) (slot : LocalId) (value : Operand) :
    (b.store slot value).func.TypesAgree ↔
      b.func.TypesAgree ∧ (Instr.store slot value).TypesAgree b.func.locals := by
  rw [store, not_isTerminated place, if_neg Bool.false_ne_true]
  exact typesAgree_append place _

theorem typesAgree_terminate (place : b.place? = some p) (term : Terminator) :
    (b.terminate term).func.TypesAgree ↔ b.func.TypesAgree ∧ term.TypesAgree b.func.result := by
  rw [terminate, not_isTerminated place, if_neg Bool.false_ne_true]
  refine typesAgree_modifyBlock place fun block pending => ?_
  have opened : block.term.TypesAgree b.func.result := by
    rw [pending]
    trivial
  exact ⟨fun agree => ⟨⟨agree.instrs, opened⟩, agree.term⟩, fun agree => ⟨agree.1.instrs, agree.2⟩⟩

theorem typesAgree_goto (b : Builder) (target id : BlockId) :
    (b.leave (.goto target) id).func.TypesAgree ↔ b.func.TypesAgree := by
  cases place : b.place? with
  | none =>
    rw [leave, terminate_dead place]
    rfl
  | some p => exact (typesAgree_terminate place (.goto target)).trans (and_iff_left trivial)

theorem typesAgree_finalize (b : Builder) :
    b.finalize.func.TypesAgree ↔ b.func.TypesAgree := by
  simp only [Func.TypesAgree, finalize, forall_mem_map]
  refine forall₂_congr fun block _ => ?_
  split
  · next pending =>
    have opened : block.term.TypesAgree b.func.result := by
      rw [isPending_iff.mp pending]
      trivial
    exact ⟨fun agree => ⟨agree.instrs, opened⟩, fun agree => ⟨agree.instrs, trivial⟩⟩
  · rfl

end Builder

end MiddleEnd.Ir
