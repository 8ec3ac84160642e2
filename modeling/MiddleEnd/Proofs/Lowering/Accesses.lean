import MiddleEnd.Proofs.Lowering.Translation
import Mathlib.Data.List.Forall2

/-!
The instructions that read or write a slot are, one by one and in order, the uses of variables in
live code.
-/

namespace MiddleEnd

open List Ir Builder

variable {stmts : List Stmt}

namespace Ir

/-- Whether an instruction writes a slot or reads it, and which one. -/
def Instr.access? : Instr → Option (Bool × LocalId)
  | .load _ slot => some (false, slot)
  | .store slot _ => some (true, slot)
  | _ => none

def Func.instr? (g : Func) (p : Point) : Option Instr :=
  (g.block? p.block).bind fun block => block.instrs[p.index]?

namespace Builder

/-- Builder `b'` has the instructions of `b` and these, each in a place that was free. -/
structure Adds (b b' : Builder) (log : List (Point × Instr)) : Prop where
  placed : ∀ p instr, b'.func.instr? p = some instr ↔
    b.func.instr? p = some instr ∨ (p, instr) ∈ log
  fresh : ∀ entry ∈ log, b.func.instr? entry.1 = none
  nodup : (log.map Prod.fst).Nodup

variable {b b' : Builder}

theorem Adds.still (same : ∀ p, b'.func.instr? p = b.func.instr? p) : b.Adds b' [] where
  placed p instr := by simp [same]
  fresh := by simp
  nodup := .nil

theorem Adds.trans {b₁ : Builder} (first : b₁.Adds b₂ log) (second : b₂.Adds b₃ more) :
    b₁.Adds b₃ (log ++ more) where
  placed p instr := by rw [second.placed, first.placed, mem_append, or_assoc]
  fresh entry member := by
    rcases mem_append.mp member with earlier | later
    · exact first.fresh entry earlier
    · have missing := second.fresh entry later
      rw [Option.eq_none_iff_forall_ne_some] at missing ⊢
      exact fun instr placed => missing instr ((first.placed _ _).mpr (.inl placed))
  nodup := by
    rw [map_append]
    refine nodup_append.mpr ⟨first.nodup, second.nodup, ?_⟩
    intro p earlier p' later same
    subst same
    obtain ⟨entry, member, rfl⟩ := mem_map.mp earlier
    obtain ⟨entry', member', same⟩ := mem_map.mp later
    have placed := (first.placed entry.1 entry.2).mpr (.inr member)
    rw [← same, second.fresh entry' member'] at placed
    cases placed

section Live

variable {p : Point} (place : b.place? = some p)

include place

theorem instr?_append (instr : Instr) (q : Point) :
    (b.append instr).func.instr? q = if q = p then some instr else b.func.instr? q := by
  obtain ⟨current, block, found, index, -⟩ := place?_eq_some.mp place
  rw [current] at found
  obtain ⟨id, i⟩ := q
  obtain ⟨_, _⟩ := p
  cases current
  cases index
  rw [Func.instr?, append, block?_modifyBlock found]
  by_cases here : id = b.current
  · have found' : b.func.block? b.current = some block := found
    simp only [here, if_true, Option.bind_some, Func.instr?, found', List.getElem?_append,
      List.getElem?_singleton, Point.mk.injEq, true_and]
    rcases Nat.lt_trichotomy i block.instrs.length with before | rfl | behind
    · rw [if_pos before, if_neg (by omega)]
    · simp
    · rw [if_neg (by omega), if_neg (by omega), if_neg (by omega), List.getElem?_eq_none (by omega)]
  · rw [if_neg here, if_neg fun same => here (congrArg Point.block same)]
    rfl

theorem instr?_place : b.func.instr? p = none := by
  obtain ⟨-, block, found, index, -⟩ := place?_eq_some.mp place
  rw [Func.instr?, found, Option.bind_some, ← index]
  exact List.getElem?_eq_none (Nat.le_refl _)

theorem adds_append (instr : Instr) : b.Adds (b.append instr) [(p, instr)] where
  placed q other := by
    rw [instr?_append place, mem_singleton, Prod.mk.injEq]
    by_cases here : q = p
    · rw [if_pos here, here, instr?_place place]
      simp [eq_comm]
    · simp [here]
  fresh entry member := by
    rw [mem_singleton.mp member]
    exact instr?_place place
  nodup := by simp

theorem adds_define (type : Ty) (instr : ValueId → Instr) :
    b.Adds (b.define type instr).1 [(p, instr b.func.values.length)] := by
  rw [define, not_isTerminated place, if_neg Bool.false_ne_true]
  have counted : b.Adds { b with func := { b.func with values := b.func.values ++ [type] } } [] :=
    .still fun _ => rfl
  exact counted.trans (@adds_append { b with
    func := { b.func with values := b.func.values ++ [type] } } p place _)

theorem adds_store (slot : LocalId) (value : Operand) :
    b.Adds (b.store slot value) [(p, .store slot value)] := by
  rw [store, not_isTerminated place, if_neg Bool.false_ne_true]
  exact adds_append place _

end Live

end Builder

end Ir

/-- What an instruction with a slot is there for. The use of a variable comes with its declaration,
if it has one. -/
inductive Access where
  | read (use : NodeId) (means : Option NodeId)
  | write (use : NodeId) (means : Option NodeId)
  | fill (declaration : NodeId)
  deriving DecidableEq, Repr

namespace Access

def writes : Access → Bool
  | read _ _ => false
  | write _ _ | fill _ => true

def cell? : Access → Option NodeId
  | read _ means | write _ means => means
  | fill declaration => some declaration

/-- The instruction is the access, if these declarations have the slots in order. -/
def Performed (slots : List NodeId) (a : Access) (entry : Point × Instr) : Prop :=
  ∃ (cell : NodeId) (slot : Nat), a.cell? = some cell ∧ slots[slot]? = some cell ∧
    entry.2.access? = some (a.writes, (slot : Int))

end Access

def Expr.accesses (env : Env) (e : Expr) : List Access :=
  (e.uses env).map fun (use, means) => .read use means

mutual
/-- The accesses of a statement in the order of their instructions, up to where it returns. A value is
computed before it is stored. -/
def Stmt.accesses (env : Env) : Stmt → List Access
  | .block _ (some stmts) => Stmt.accessesOfList ([] :: env) stmts
  | .decl node _ _ _ value =>
    value.accesses env ++ if value.isAbsent then [] else [.fill node.id]
  | .assign _ target value =>
    value.accesses env ++ (target.uses env).map fun (use, means) => .write use means
  | .ret _ value => value.accesses env
  | .cond _ test yes no =>
    test.accesses env ++ Stmt.accesses env yes ++ Stmt.accesses (yes.declare env) no
  | .loop _ test body => test.accesses env ++ Stmt.accesses env body
  | _ => []
def Stmt.accessesOfList (env : Env) : List Stmt → List Access
  | [] => []
  | s :: rest =>
    Stmt.accesses env s ++ if s.closes then [] else Stmt.accessesOfList (s.declare env) rest
end

def Func.accesses (f : Func) : List Access := f.body.accesses .ofFunction

variable {env : Env} {a : Access} {use : NodeId × Option NodeId}

namespace Lowering

variable {slots : List NodeId} {env : Env} {st st' : State}

/-- From one builder to another, the instructions with slots that were added are these accesses. -/
def Logged (slots : List NodeId) (accesses : List Access) (b b' : Builder) : Prop :=
  ∃ log, b.Adds b' log ∧
    List.Forall₂ (Access.Performed slots) accesses (log.filter fun entry => entry.2.access?.isSome)

namespace Logged

variable {b b' b₁ b₂ b₃ : Builder}

theorem still (same : ∀ p, b'.func.instr? p = b.func.instr? p) : Logged slots [] b b' :=
  ⟨[], .still same, .nil⟩

theorem trans (before : Logged slots first b₁ b₂) (behind : Logged slots second b₂ b₃) :
    Logged slots (first ++ second) b₁ b₃ := by
  obtain ⟨log, adds, performed⟩ := before
  obtain ⟨more, adds', performed'⟩ := behind
  refine ⟨log ++ more, adds.trans adds', ?_⟩
  rw [filter_append]
  exact rel_append performed performed'

theorem compute {type : Builder → Ir.Ty} {instr : ValueId → Instr}
    (place : st.builder.place? = some p)
    (ran : produce (fun builder => builder.define (type builder) instr) st = .ok o st')
    (slotless : ∀ id, (instr id).access? = none) : Logged slots [] st.builder st'.builder := by
  rw [produce_run] at ran
  cases ran
  refine ⟨_, adds_define place _ instr, ?_⟩
  simp [slotless]

theorem load {p : Point} (place : b.place? = some p) {use cell : NodeId} {slot : Nat}
    (stored : slots[slot]? = some cell) :
    Logged slots [.read use (some cell)] b (b.load slot).1 :=
  ⟨_, adds_define place _ _, .cons ⟨cell, slot, rfl, stored, rfl⟩ .nil⟩

theorem store {p : Point} (place : b.place? = some p) {a : Access} {cell : NodeId} {slot : Nat}
    (written : a.writes = true) (means : a.cell? = some cell) (stored : slots[slot]? = some cell)
    (o : Operand) : Logged slots [a] b (b.store slot o) :=
  ⟨_, adds_store place slot o, .cons ⟨cell, slot, means, stored, by rw [written]; rfl⟩ .nil⟩

end Logged

end Lowering

end MiddleEnd
