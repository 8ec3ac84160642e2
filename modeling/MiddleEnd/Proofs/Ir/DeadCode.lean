import MiddleEnd.Proofs.Ir.Forwarding

/-!
Loads whose value nobody reads and stores to slots that nobody loads can go.
-/

namespace MiddleEnd.Ir

open List

variable {operand : Operand} {keep : Instr → Bool}
variable {seen : ValueId → Prop} {live : LocalId → Prop}

/-- Two machines agree on the values that are seen and on the slots that are live. -/
structure Machine.Agree (seen : ValueId → Prop) (live : LocalId → Prop) (m m' : Machine) :
    Prop where
  values : ∀ id, seen id → m'.values id = m.values id
  locals : ∀ slot, live slot → m'.locals slot = m.locals slot

def Operand.Seen (seen : ValueId → Prop) (operand : Operand) : Prop :=
  ∀ id, operand.value? = some id → seen id

/-- An instruction that changes nothing that is seen or live. -/
inductive Instr.Dead (seen : ValueId → Prop) (live : LocalId → Prop) : Instr → Prop where
  | load {dst : ValueId} {src : LocalId} (unseen : ¬ seen dst) : Dead seen live (.load dst src)
  | store {dst : LocalId} {value : Operand} (unloaded : ¬ live dst) :
      Dead seen live (.store dst value)

namespace Machine

variable {m m' : Machine}

theorem Agree.read (agree : m.Agree seen live m') (isSeen : operand.Seen seen) :
    m'.read operand = m.read operand := by
  apply read_congr
  cases operand with
  | undef type => rfl
  | const type n => cases type <;> rfl
  | value id type => exact agree.values id (isSeen id rfl)

theorem Agree.define (agree : m.Agree seen live m') (id : ValueId) (v : Constant) :
    (m.define id v).Agree seen live (m'.define id v) where
  values other isSeen := by
    simp only [Machine.define]
    split
    · rfl
    · exact agree.values other isSeen
  locals := agree.locals

theorem Agree.write (agree : m.Agree seen live m') (slot : LocalId) (v : Constant) :
    (m.write slot v).Agree seen live (m'.write slot v) where
  values := agree.values
  locals other isLive := by
    simp only [Machine.write]
    split
    · rfl
    · exact agree.locals other isLive

theorem Agree.define_unseen (agree : m.Agree seen live m') {id : ValueId} (unseen : ¬ seen id)
    (v : Constant) : (m.define id v).Agree seen live m' where
  values other isSeen := by
    rw [m.define_other v (by rintro rfl; exact unseen isSeen)]
    exact agree.values other isSeen
  locals := agree.locals

theorem Agree.write_unloaded (agree : m.Agree seen live m') {slot : LocalId}
    (unloaded : ¬ live slot) (v : Constant) : (m.write slot v).Agree seen live m' where
  values := agree.values
  locals other isLive := by
    rw [m.write_other v (by rintro rfl; exact unloaded isLive)]
    exact agree.locals other isLive

/-- The values in a list are all defined. -/
def Holds (m : Machine) (ids : List ValueId) : Prop :=
  ∀ id ∈ ids, (m.values id).isSome

theorem Holds.define {ids : List ValueId} (holds : m.Holds ids) (id : ValueId) (v : Constant) :
    (m.define id v).Holds (id :: ids) := by
  intro other member
  simp only [Machine.define]
  split
  · rfl
  · next distinct => exact holds other ((mem_cons.mp member).resolve_left distinct)

theorem Holds.read (holds : m.Holds ids) (given : operand.DefinedIn ids) :
    ∃ v, m.read operand = .ok v := by
  simp only [read_eq_ok]
  cases operand with
  | undef type => cases given
  | const type n => cases type <;> exact ⟨_, rfl⟩
  | value id type => exact Option.isSome_iff_exists.mp (holds id given)

theorem Holds.exec {ops : TruthOperators} {slots : List Slot} {m n : Machine} {ids : List ValueId}
    {instr : Instr} (holds : m.Holds ids) (result : instr.exec ops slots m = .ok n) :
    n.Holds (instr.defines.toList ++ ids) := by
  cases instr with
  | load dst src =>
    simp only [Instr.exec] at result
    split at result
    · cases result
      exact holds.define dst _
    · cases result
  | store dst value =>
    simp only [Instr.exec] at result
    split at result
    · split at result
      · cases result
        exact holds
      · cases result
    · cases result
  | binary dst | compare dst | unary dst =>
    simp only [Instr.exec, Machine.assign] at result
    split at result
    · cases result
      exact holds.define dst _
    · cases result
  | unknown dst kind => cases result

end Machine

@[simp] theorem Instr.mapOperands_id (instr : Instr) : instr.mapOperands (fun x => x) = instr := by
  cases instr <;> rfl

@[simp] theorem Terminator.mapOperands_id (term : Terminator) :
    term.mapOperands (fun x => x) = term := by
  cases term with
  | ret value => cases value <;> rfl
  | _ => rfl

/-- A dead instruction that reads only what is defined runs through and changes nothing that is
looked at. -/
theorem Instr.Dead.exec {instr : Instr} (dead : instr.Dead seen live) (ops : TruthOperators)
    {slots : List Slot} {m m' : Machine} {ids : List ValueId} (agree : m.Agree seen live m')
    (holds : m.Holds ids) (reads : ∀ operand ∈ instr.operands, operand.DefinedIn ids)
    (slotExists : ∀ slot, instr.slot? = some slot → (at? slots slot).isSome) :
    ∃ n, instr.exec ops slots m = .ok n ∧ n.Agree seen live m' := by
  cases dead with
  | @load dst src unseen =>
    refine ⟨m.define dst (m.locals src), ?_, agree.define_unseen unseen _⟩
    simp only [Instr.exec, slotExists src rfl, if_true]
  | @store dst value unloaded =>
    obtain ⟨v, read⟩ := holds.read (reads value (by simp [operands]))
    refine ⟨m.write dst v, ?_, agree.write_unloaded unloaded v⟩
    simp only [Instr.exec, read, slotExists dst rfl, if_true]

theorem Machine.Agree.exec {ops : TruthOperators} {slots : List Slot} {m m' : Machine}
    {instr : Instr} (agree : m.Agree seen live m')
    (reads : ∀ operand ∈ instr.operands, operand.Seen seen)
    (loads : ∀ dst src, instr = .load dst src → live src) :
    match instr.exec ops slots m with
    | .ok n => ∃ n', instr.exec ops slots m' = .ok n' ∧ n.Agree seen live n'
    | .error why => instr.exec ops slots m' = .error why := by
  have computed : ∀ dst, instr.Computes dst →
      match instr.exec ops slots m with
      | .ok n => ∃ n', instr.exec ops slots m' = .ok n' ∧ n.Agree seen live n'
      | .error why => instr.exec ops slots m' = .error why := by
    intro dst computes
    have same : ∀ operand ∈ instr.operands, m'.read operand = m.read operand :=
      fun operand member => agree.read (reads operand member)
    obtain ⟨result, left, right⟩ := computes.exec_mapOperands ops slots same
    rw [Instr.mapOperands_id] at right
    rw [left, right]
    cases result with
    | ok v => exact ⟨_, rfl, agree.define dst v⟩
    | error why => rfl
  cases instr with
  | load dst src =>
    simp only [Instr.exec]
    cases (at? slots src).isSome with
    | true =>
      refine ⟨_, rfl, ?_⟩
      rw [agree.locals src (loads dst src rfl)]
      exact agree.define dst _
    | false => rfl
  | store dst value =>
    simp only [Instr.exec, agree.read (reads value (by simp [Instr.operands]))]
    cases m.read value with
    | error why => rfl
    | ok v =>
      cases (at? slots dst).isSome with
      | true => exact ⟨_, rfl, agree.write dst v⟩
      | false => rfl
  | binary dst => exact computed dst .binary
  | compare dst => exact computed dst .compare
  | unary dst => exact computed dst .unary
  | unknown dst kind => rfl

/-- Which instructions may go: all that are read or loaded by the others is seen or live, and those
that go are dead. -/
structure Droppable (seen : ValueId → Prop) (live : LocalId → Prop) (keep : Instr → Bool)
    (instr : Instr) : Prop where
  reads : ∀ operand ∈ instr.operands, operand.Seen seen
  loads : keep instr = true → ∀ dst src, instr = .load dst src → live src
  dead : keep instr = false → instr.Dead seen live

theorem Machine.Agree.finish (agree : m.Agree seen live m') (holds : m.Holds before)
    (reads : Reads Operand.DefinedIn term before instrs)
    (slotsExist : ∀ instr ∈ instrs, ∀ slot, instr.slot? = some slot → (at? slots slot).isSome)
    (droppable : ∀ instr ∈ instrs, Droppable seen live keep instr)
    (inTerm : ∀ operand ∈ term.operands, operand.Seen seen) :
    Step.Related (Machine.Agree seen live) (Ir.finish ops slots m instrs term)
      (Ir.finish ops slots m' (instrs.filter keep) term) := by
  induction instrs generalizing m m' before with
  | nil =>
    have same : ∀ operand ∈ term.operands, m'.read operand = m.read operand :=
      fun operand member => agree.read (inTerm operand member)
    have related := term.exec_mapOperands agree same
    rwa [Terminator.mapOperands_id] at related
  | cons instr rest ih =>
    have head := droppable instr (by simp)
    have tail : ∀ {n n' : Machine}, n.Agree seen live n' → instr.exec ops slots m = .ok n →
        Step.Related (Machine.Agree seen live) (Ir.finish ops slots n rest term)
          (Ir.finish ops slots n' (rest.filter keep) term) := fun agree' result =>
      ih agree' (holds.exec result) reads.2
        (fun other member => slotsExist other (mem_cons_of_mem _ member))
        (fun other member => droppable other (mem_cons_of_mem _ member))
    rw [finish_cons]
    cases kept : keep instr with
    | false =>
      obtain ⟨n, result, agree'⟩ := (head.dead kept).exec ops agree holds reads.1
        (slotsExist instr (by simp))
      rw [filter_cons_of_neg (by simp [kept]), result]
      exact tail agree' result
    | true =>
      have both := @Machine.Agree.exec seen live ops slots m m' instr agree head.reads
        (head.loads kept)
      rw [filter_cons_of_pos kept, finish_cons]
      cases result : instr.exec ops slots m with
      | error why =>
        rw [result] at both
        rw [both]
        exact .out
      | ok n =>
        rw [result] at both
        obtain ⟨n', result', agree'⟩ := both
        rw [result']
        exact tail agree' result

theorem Reads.filter (reads : Reads Operand.DefinedIn term before instrs)
    (covers : ∀ id ∈ before, seen id → id ∈ kept)
    (droppable : ∀ instr ∈ instrs, Droppable seen live keep instr)
    (inTerm : ∀ operand ∈ term.operands, operand.Seen seen) :
    Reads Operand.DefinedIn term kept (instrs.filter keep) := by
  have narrow : ∀ {before kept : List ValueId} {operand : Operand},
      (∀ id ∈ before, seen id → id ∈ kept) → operand.Seen seen → operand.DefinedIn before →
      operand.DefinedIn kept := by
    intro before kept operand covers isSeen given
    cases operand with
    | undef type => exact given
    | const type n => trivial
    | value id type => exact covers id given (isSeen id rfl)
  induction instrs generalizing before kept with
  | nil => exact fun operand member => narrow covers (inTerm operand member) (reads operand member)
  | cons instr rest ih =>
    have head := droppable instr (by simp)
    have tail : ∀ {kept' : List ValueId},
        (∀ id ∈ instr.defines.toList ++ before, seen id → id ∈ kept') →
        Reads Operand.DefinedIn term kept' (rest.filter keep) := fun covers' =>
      ih reads.2 covers' fun other member => droppable other (mem_cons_of_mem _ member)
    cases isKept : keep instr with
    | true =>
      rw [filter_cons_of_pos isKept]
      refine ⟨fun operand member => narrow covers (head.reads operand member)
        (reads.1 operand member), tail ?_⟩
      intro id member isSeen
      rcases mem_append.mp member with new | earlier
      · exact mem_append_left _ new
      · exact mem_append_right _ (covers id earlier isSeen)
    | false =>
      rw [filter_cons_of_neg (by simp [isKept])]
      refine tail fun id member isSeen => ?_
      rcases mem_append.mp member with new | earlier
      · cases head.dead isKept with
        | load unseen =>
          cases mem_singleton.mp new
          exact absurd isSeen unseen
        | store unloaded => cases new
      · exact covers id earlier isSeen

namespace Func

/-- In every block, all that is read is seen, and only dead instructions go. -/
structure DropsDead (seen : ValueId → Prop) (live : LocalId → Prop) (keep : Instr → Bool)
    (f : Func) : Prop where
  instrs : ∀ b ∈ f.blocks, ∀ instr ∈ b.instrs, Droppable seen live keep instr
  terms : ∀ b ∈ f.blocks, ∀ operand ∈ b.term.operands, operand.Seen seen

variable {f : Func}

theorem DropsDead.runFrom (drops : f.DropsDead seen live keep) (reads : f.Defined)
    (slots : f.SlotsExist) (ops : TruthOperators) (fuel : Nat) (id : BlockId)
    (agree : m.Agree seen live m') :
    f.runFrom ops fuel id m = (f.filterInstrs keep).runFrom ops fuel id m' := by
  refine runFrom_congr_blocks (R := Machine.Agree seen live) (by simp [filterInstrs]) ?_ fuel id
    agree
  intro i b position
  have block := mem_of_getElem? position
  refine ⟨{ b with instrs := b.instrs.filter keep }, by simp [filterInstrs, position], ?_⟩
  intro m m' agree
  have holds : m.Holds [] := by simp [Machine.Holds]
  exact agree.finish holds (reads b block) (slots b block) (drops.instrs b block)
    (drops.terms b block)

theorem DropsDead.defined (drops : f.DropsDead seen live keep) (reads : f.Defined) :
    (f.filterInstrs keep).Defined := by
  intro b' block'
  obtain ⟨b, block, rfl⟩ := mem_map.mp block'
  exact (reads b block).filter (by simp) (drops.instrs b block) (drops.terms b block)

theorem SlotsExist.filterInstrs (slots : f.SlotsExist) (keep : Instr → Bool) :
    (f.filterInstrs keep).SlotsExist := by
  intro b' block' instr member slot names
  obtain ⟨b, block, rfl⟩ := mem_map.mp block'
  exact slots b block instr (mem_filter.mp member).1 slot names

theorem seen_of_mem_usedValues (block : b ∈ f.blocks)
    (isOperand : operand ∈ b.instrs.flatMap Instr.operands ++ b.term.operands) :
    operand.Seen (· ∈ f.usedValues) := fun _ names =>
  mem_flatMap.mpr ⟨b, block, mem_filterMap.mpr ⟨operand, isOperand, names⟩⟩

theorem dropDeadLoads_drops (f : Func) :
    ∃ keep, f.dropDeadLoads = f.filterInstrs keep ∧
      f.DropsDead (· ∈ f.usedValues) (fun _ => True) keep := by
  refine ⟨_, rfl, ?_, ?_⟩
  · intro b block instr member
    refine ⟨fun operand isOperand => ?_, fun _ _ _ _ => trivial, fun drops => ?_⟩
    · exact seen_of_mem_usedValues block
        (mem_append_left _ (mem_flatMap.mpr ⟨instr, member, isOperand⟩))
    · cases instr with
      | load dst src => exact .load (by simpa using drops)
      | _ => cases drops
  · intro b block operand isOperand
    exact seen_of_mem_usedValues block (mem_append_right _ isOperand)

theorem dropDeadStores_drops (f : Func) :
    ∃ keep, f.dropDeadStores = f.filterInstrs keep ∧
      f.DropsDead (fun _ => True) (· ∈ f.loadedLocals) keep := by
  refine ⟨_, rfl, ?_, fun _ _ _ _ _ _ => trivial⟩
  intro b block instr member
  refine ⟨fun _ _ _ _ => trivial, fun _ dst src load => ?_, fun drops => ?_⟩
  · exact mem_flatMap.mpr ⟨b, block, mem_filterMap.mpr ⟨instr, member, by rw [load]⟩⟩
  · cases instr with
    | store dst value => exact .store (by simpa using drops)
    | _ => cases drops

theorem Defined.dropDeadLoads (reads : f.Defined) : f.dropDeadLoads.Defined := by
  obtain ⟨keep, equation, drops⟩ := f.dropDeadLoads_drops
  rw [equation]
  exact drops.defined reads

theorem SlotsExist.dropDeadLoads (slots : f.SlotsExist) : f.dropDeadLoads.SlotsExist :=
  slots.filterInstrs _

theorem Defined.run_dropDeadLoads (reads : f.Defined) (slots : f.SlotsExist) (ops : TruthOperators)
    (fuel : Nat) (locals : LocalId → Constant) :
    f.dropDeadLoads.run ops fuel locals = f.run ops fuel locals := by
  obtain ⟨keep, equation, drops⟩ := f.dropDeadLoads_drops
  rw [equation]
  exact (drops.runFrom reads slots ops fuel f.entry ⟨fun _ _ => rfl, fun _ _ => rfl⟩).symm

theorem Defined.run_dropDeadStores (reads : f.Defined) (slots : f.SlotsExist) (ops : TruthOperators)
    (fuel : Nat) (locals : LocalId → Constant) :
    f.dropDeadStores.run ops fuel locals = f.run ops fuel locals := by
  obtain ⟨keep, equation, drops⟩ := f.dropDeadStores_drops
  rw [equation]
  exact (drops.runFrom reads slots ops fuel f.entry ⟨fun _ _ => rfl, fun _ _ => rfl⟩).symm

theorem Valid.run_forwardStores (valid : f.Valid) (blockLocal : f.BlockLocal) :
    ∃ g, f.forwardStores? = some g ∧
      ∀ ops fuel locals, g.run ops fuel locals = f.run ops fuel locals := by
  obtain ⟨blocks, rewritten, forwarded⟩ := valid.forwardBlocks
  have reads := forwarded.defined valid (valid.defined blockLocal)
  have slots := forwarded.slotsExist valid.slotsExist
  refine ⟨_, by rw [forwardStores?, rewritten, Option.map_some], fun ops fuel locals => ?_⟩
  calc
    _ = ({ f with blocks := blocks }.dropDeadLoads).run ops fuel locals :=
      reads.dropDeadLoads.run_dropDeadStores slots.dropDeadLoads ops fuel locals
    _ = { f with blocks := blocks }.run ops fuel locals :=
      reads.run_dropDeadLoads slots ops fuel locals
    _ = f.run ops fuel locals :=
      (forwarded.runFrom valid (valid.defined blockLocal) ops fuel f.entry rfl).symm

end Func

/-- Store forwarding keeps the outcome of every valid function whose blocks read only their own
values. -/
theorem forwardStores_preserves_outcomes {f : Func} (valid : f.faults = [])
    (blockLocal : f.BlockLocal) :
    ∃ g, f.forwardStores? = some g ∧ ∀ ops locals,
      (∀ exit, g.Ends ops locals exit ↔ f.Ends ops locals exit) ∧
      (g.Diverges ops locals ↔ f.Diverges ops locals) := by
  obtain ⟨g, rewritten, same⟩ := ((f.faults_eq_nil_iff).mp valid).run_forwardStores blockLocal
  refine ⟨g, rewritten, fun ops locals => ⟨fun exit => ?_, ?_⟩⟩
  · simp only [Func.Ends, same]
  · simp only [Func.Diverges, same]

/-- Counts a slot up to ten in a loop, through a copy in a second slot. -/
def countToTen : Func where
  id := 0
  name := Text.ofString "count"
  result := .i32
  params := []
  locals := [⟨.i32, Text.ofString "n"⟩, ⟨.i32, Text.ofString "copy"⟩]
  values := [.i32, .i1, .i32, .i32, .i32, .i32, .i32, .i32]
  blocks := [
    ⟨0, [.store 0 (.int 7)], .goto 1⟩,
    ⟨1, [.load 0 0, .compare 1 .lt (.value 0 .i32) (.int 10)], .branch (.value 1 .i1) 2 3⟩,
    ⟨2, [.load 2 0, .store 1 (.value 2 .i32), .load 3 1, .load 4 0,
      .binary 5 .div (.value 3 .i32) (.value 4 .i32),
      .binary 6 .add (.value 3 .i32) (.value 5 .i32), .store 0 (.value 6 .i32)], .goto 1⟩,
    ⟨3, [.load 7 0], .ret (some (.value 7 .i32))⟩]
  entry := 0

theorem countToTen_forwardStores :
    countToTen.faults = [] ∧ countToTen.BlockLocal ∧
      ∃ g, countToTen.forwardStores? = some g ∧
        ∀ ops locals, g.Ends ops locals (.returned (some (.int 10))) := by
  have valid : countToTen.faults = [] := by decide
  have blockLocal : countToTen.BlockLocal := by decide
  obtain ⟨g, rewritten, same⟩ := forwardStores_preserves_outcomes valid blockLocal
  refine ⟨valid, blockLocal, g, rewritten, fun ops locals => ?_⟩
  exact ((same ops locals).1 _).mpr ⟨9, rfl⟩

end MiddleEnd.Ir
