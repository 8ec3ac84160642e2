import MiddleEnd.Ir.Simplify
import MiddleEnd.Proofs.Ir.Validity
import MiddleEnd.Proofs.Semantics.Machine
import Mathlib.Logic.Relation

/-!
Jumps that skip empty blocks. Wherever a redirect leads, control would have come there with the same
machine.
-/

namespace MiddleEnd.Ir

variable {id : BlockId} {m : Machine} {exit : Exit}

/-- The step with another target for control that goes on. -/
def Step.retarget (change : BlockId → BlockId) : Step → Step
  | .into target m => .into (change target) m
  | .out exit => .out exit

theorem Terminator.exec_mapTargets (term : Terminator) (change : BlockId → BlockId) (m : Machine) :
    (term.mapTargets change).exec m = (term.exec m).retarget change := by
  cases term with
  | branch cond yes no =>
    simp only [mapTargets, exec]
    cases m.read cond with
    | error why => rfl
    | ok v =>
      cases v with
      | int n => rfl
      | bool b => cases b <;> rfl
  | ret value =>
    cases value with
    | none => rfl
    | some value =>
      simp only [mapTargets, exec]
      cases m.read value <;> rfl
  | _ => rfl

theorem Terminator.successors_mapTargets (term : Terminator) (change : BlockId → BlockId) :
    (term.mapTargets change).successors = term.successors.map change := by
  cases term <;> rfl

theorem finish_mapTargets (ops : TruthOperators) (slots : List Slot) (m : Machine)
    (instrs : List Instr) (term : Terminator) (change : BlockId → BlockId) :
    finish ops slots m instrs (term.mapTargets change) =
      (finish ops slots m instrs term).retarget change := by
  unfold finish
  cases execAll ops slots m instrs with
  | ok m => exact term.exec_mapTargets change m
  | error why => rfl

namespace Func

variable {f : Func} {ops : TruthOperators}

/-- Where a block leads that is empty and only jumps on. -/
def skip? (f : Func) (id : BlockId) : Option BlockId :=
  (f.block? id).bind Block.trivialTarget?

/-- Control passes from one block through empty blocks to another. -/
def Skips (f : Func) : BlockId → BlockId → Prop :=
  Relation.ReflTransGen fun id next => f.skip? id = some next

/-- The block is empty and jumps to the next. -/
def Passes (f : Func) (id next : BlockId) : Prop :=
  ∃ b, f.block? id = some b ∧ b.instrs = [] ∧ b.term = .goto next

theorem skip?_eq_some (skips : f.skip? id = some next) : f.Passes id next := by
  obtain ⟨b, found, trivial⟩ := Option.bind_eq_some_iff.mp skips
  unfold Block.trivialTarget? at trivial
  split at trivial
  · next empty jumps =>
    cases trivial
    exact ⟨b, found, empty, jumps⟩
  · cases trivial

theorem skip?_eq_some_iff : f.skip? id = some next ↔ f.Passes id next := by
  refine ⟨skip?_eq_some, fun ⟨b, found, empty, jumps⟩ => ?_⟩
  simp [skip?, found, Block.trivialTarget?, empty, jumps]

theorem step_of_skip? (skips : f.skip? id = some next) (m : Machine) :
    f.step ops id m = .into next m := by
  obtain ⟨b, found, empty, jumps⟩ := skip?_eq_some skips
  simp only [step, found, empty, jumps, finish, execAll, Terminator.exec]

/-- The function ends in this way from a block on, given enough steps. -/
def EndsFrom (ops : TruthOperators) (f : Func) (id : BlockId) (m : Machine) (exit : Exit) : Prop :=
  ∃ fuel, f.runFrom ops fuel id m = some exit

theorem Skips.runFrom (skips : f.Skips id target) (ends : f.runFrom ops fuel id m = some exit) :
    f.runFrom ops fuel target m = some exit := by
  induction skips with
  | refl => exact ends
  | tail before last ih =>
    cases fuel with
    | zero => cases ends
    | succ fuel =>
      rw [Func.runFrom, step_of_skip? last] at ih
      exact runFrom_add ih 1

theorem Skips.endsFrom (skips : f.Skips id target) (ends : f.EndsFrom ops target m exit) :
    f.EndsFrom ops id m exit := by
  induction skips with
  | refl => exact ends
  | tail before last ih =>
    obtain ⟨fuel, ends⟩ := ends
    exact ih ⟨fuel + 1, by rw [Func.runFrom, step_of_skip? last]; exact ends⟩

theorem step_mapTargets (change : BlockId → BlockId) (id : BlockId) (m : Machine) :
    (f.mapTargets change).step ops id m = (f.step ops id m).retarget change := by
  simp only [step, block?, mapTargets, at?_map]
  cases at? f.blocks id with
  | none => rfl
  | some b => exact finish_mapTargets ops f.locals m b.instrs b.term change

section Redirected

variable {change : BlockId → BlockId} (skips : ∀ id, f.Skips id (change id))

include skips

-- The redirected function takes no more steps: each of its jumps stands for one or more.
theorem runFrom_mapTargets (ends : f.runFrom ops fuel id m = some exit) :
    (f.mapTargets change).runFrom ops fuel id m = some exit := by
  induction fuel generalizing id m with
  | zero => cases ends
  | succ fuel ih =>
    rw [runFrom] at ends ⊢
    rw [step_mapTargets]
    cases stepped : f.step ops id m with
    | out exit' =>
      rw [stepped] at ends
      exact ends
    | into target m' =>
      rw [stepped] at ends
      exact ih ((skips target).runFrom ends)

theorem endsFrom_of_mapTargets (ends : (f.mapTargets change).EndsFrom ops id m exit) :
    f.EndsFrom ops id m exit := by
  obtain ⟨fuel, ends⟩ := ends
  induction fuel generalizing id m with
  | zero => cases ends
  | succ fuel ih =>
    rw [runFrom, step_mapTargets] at ends
    cases stepped : f.step ops id m with
    | out exit' =>
      rw [stepped] at ends
      exact ⟨1, by rw [runFrom, stepped]; exact ends⟩
    | into target m' =>
      rw [stepped] at ends
      obtain ⟨more, ends⟩ := (skips target).endsFrom (ih ends)
      exact ⟨more + 1, by rw [runFrom, stepped]; exact ends⟩

theorem ends_mapTargets (locals : LocalId → Constant) (exit : Exit) :
    (f.mapTargets change).Ends ops locals exit ↔ f.Ends ops locals exit := by
  constructor
  · intro ends
    exact (skips f.entry).endsFrom (endsFrom_of_mapTargets skips ends)
  · rintro ⟨fuel, ends⟩
    exact ⟨fuel, runFrom_mapTargets skips ((skips f.entry).runFrom ends)⟩

end Redirected

end Func

end MiddleEnd.Ir
