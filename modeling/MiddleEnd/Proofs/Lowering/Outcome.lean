import MiddleEnd.Proofs.Lowering.Simulation
import MiddleEnd.Proofs.Lowering.Translation
import MiddleEnd.Proofs.Scoping.Checking

/-!
Lowering preserves how functions end: a function and its code return the same values, stop for the
same reasons, and diverge together.
-/

namespace MiddleEnd

open List Option Scoping Lowering

namespace Ir

theorem Builder.precedes_finalize (b : Builder) : b.func.Precedes b.finalize.func := by
  have blocks : ∀ id block, b.func.block? id = some block → b.finalize.func.block? id =
      some (if block.term.isPending then { block with term := .unreachable } else block) := by
    intro id block found
    simp only [Func.block?] at found
    simp only [Func.block?, finalize, at?_map, found, map_some]
  constructor
  · rintro p code ⟨block, found, hasCode⟩
    refine ⟨_, blocks _ _ found, ?_⟩
    split <;> exact hasCode
  · rintro p term ⟨block, found, index, rfl⟩ closed
    have notPending : block.term.isPending = false := by
      rw [← Bool.not_eq_true, isPending_iff]
      exact closed
    refine ⟨_, blocks _ _ found, ?_⟩
    simp [notPending, index]

end Ir

theorem Stmt.storedOfList_sublist (each : ∀ s ∈ stmts, s.stored.Sublist s.declarations) :
    (storedOfList stmts).Sublist (declarationsOfList stmts) := by
  induction stmts with
  | nil => simp [storedOfList]
  | cons s rest ih =>
    rw [storedOfList, declarationsOfList_cons]
    refine (each s (by simp)).append ?_
    split
    · exact nil_sublist _
    · exact ih fun s member => each s (by simp [member])

theorem Stmt.stored_sublist (s : Stmt) : s.stored.Sublist s.declarations := by
  induction s using Stmt.induction with
  | block node stmts each =>
    rw [stored, declarations_block]
    exact storedOfList_sublist each
  | cond node test yes no yesIH noIH =>
    rw [stored, declarations_cond]
    exact yesIH.append noIH
  | loop node test body bodyIH =>
    rw [stored, declarations_loop]
    exact bodyIH
  | _ => simp [stored]

/-- Function `g` is the code of `f`: it starts with the code of the body and ends behind it. -/
structure Func.Compiled (f : Func) (g : Ir.Func) : Prop where
  entry : g.entry = 0
  locals : g.locals.length = f.body.stored.length
  code : ∃ q, f.body.CodeAt g f.body.stored .ofFunction (some ⟨0, 0⟩) q ∧
    ∀ place, q = some place →
      g.HasTerm place (if f.result = .unit then .ret none else .unreachable)

namespace Lowering

variable {table : Table} {f : Func} {result : Ir.Ty}

theorem func_eq_ok {module : NodeId} (ran : func module table f = (.ok g, table')) :
    ∃ result st', resultType? f.result = some result ∧
      body module f ⟨.start f.name result [], .empty, table⟩ = .ok () st' ∧
      g = finish st'.builder ∧ table' = st'.table := by
  unfold func at ran
  split at ran
  · cases ran
  · next result known =>
    split at ran
    · next st' ran' =>
      cases ran
      exact ⟨result, st', known, ran', rfl, rfl⟩
    · cases ran

/-- Inside the two scopes around a body, in its empty entry block, no scope of the body is open yet
and no slot is taken. -/
theorem fits_entered {module : NodeId} (coherent : table.Coherent)
    (nodup : (module :: f.nodeIds).Nodup)
    (pushedModule : push .module module ⟨.start name result [], .empty, table⟩ = .ok () inModule)
    (pushedFunction : push .function f.id inModule = .ok () inFunction) :
    inFunction.builder = .start name result [] ∧
      State.Fits f.body.stored .ofFunction f.body.nodeIds f.body.stored { inFunction with
        builder := inFunction.builder.newBlock.1.select inFunction.builder.newBlock.2 } := by
  have start : State.Fits f.body.stored [] (module :: f.nodeIds) f.body.stored
      ⟨.start name result [], .empty, table⟩ := by
    refine ⟨⟨coherent, trivial⟩, ⟨nodup, by simp [State.scopes, Stack.empty]⟩, ?_⟩
    intro p live
    cases live
  have fits := (start.push .module pushedModule).push .function pushedFunction
  have builder := (push_builder pushedFunction).trans (push_builder pushedModule)
  refine ⟨builder, fits.follows.rebuilt _, fits.unopened.congr rfl, fun _ _ => ?_⟩
  rw [builder]
  exact prefix_refl _

theorem body_lowered {module : NodeId} (coherent : table.Coherent)
    (nodup : (module :: f.nodeIds).Nodup)
    (ran : body module f ⟨.start name result [], .empty, table⟩ = .ok () st') :
    st'.table.Coherent ∧ st'.builder.func.entry = 0 ∧ st'.builder.func.result = result ∧
      st'.builder.func.locals.length = f.body.stored.length ∧
      ∀ g, st'.builder.func.Precedes g →
        f.body.CodeAt g f.body.stored .ofFunction (some ⟨0, 0⟩) st'.builder.place? := by
  obtain ⟨inModule, inFunction, filled, closed, pushedModule, pushedFunction, ranBody,
    poppedFunction, poppedModule⟩ := body_ok ran
  obtain ⟨opened, fits⟩ := fits_entered coherent nodup pushedModule pushedFunction
  have onBody := fits.lowered ranBody
  rw [opened] at onBody
  have place : ((Ir.Builder.start name result []).newBlock.1.select
      (Ir.Builder.start name result []).newBlock.2).place? = some ⟨0, 0⟩ := rfl
  obtain ⟨-, taken⟩ := onBody.live _ place
  obtain ⟨names, declared⟩ := f.body.declare_cons [] [[]]
  have followsBody := onBody.follows
  rw [Env.ofFunction, declared] at followsBody
  obtain ⟨follows₁, -, builder₁⟩ := followsBody.pop poppedFunction
  obtain ⟨follows₂, -, builder₂⟩ := follows₁.pop poppedModule
  have builder := builder₂.trans builder₁
  refine ⟨follows₂.coherent, ?_, ?_, ?_, fun g precedes => ?_⟩
  · have known : (0 : Int) ≠ Ir.noId := by decide
    rw [builder, onBody.grows.entry known]
    rfl
  · rw [builder, onBody.grows.result]
    rfl
  · rw [builder, taken]
    exact Nat.zero_add _
  · rw [builder] at precedes ⊢
    exact place ▸ onBody.code g precedes

theorem resultType?_eq_void (known : resultType? type = some result) :
    result = .void ↔ type = .unit := by
  cases type <;> cases known <;> simp

theorem func_compiled {module : NodeId} (coherent : table.Coherent)
    (nodup : (module :: f.nodeIds).Nodup) (ran : func module table f = (.ok g, table')) :
    table'.Coherent ∧ ∀ id, f.Compiled { g with id := id } := by
  obtain ⟨type, st', known, ranBody, rfl, rfl⟩ := func_eq_ok ran
  obtain ⟨coherent', entry, result, locals, code⟩ := body_lowered coherent nodup ranBody
  refine ⟨coherent', fun id => ?_⟩
  have closing :
      (if st'.builder.func.result = .void then Ir.Terminator.ret none else .unreachable) ≠
        .pending := by
    split <;> simp
  obtain ⟨grows, sameLocals, hasTerm⟩ := st'.builder.terminate_grows closing
  have sameBlocks : Ir.Func.Precedes (finish st'.builder) { finish st'.builder with id := id } :=
    .of_blocks fun _ _ found => found
  have finished := (Ir.Builder.precedes_finalize _).trans sameBlocks
  refine ⟨?_, ?_, _, code _ (grows.precedes.trans finished), fun place placed => ?_⟩
  · exact (grows.entry (by rw [entry]; decide)).trans entry
  · exact (congrArg List.length sameLocals).trans locals
  · have ends := finished.term _ _ (hasTerm place placed) closing
    simpa only [result, resultType?_eq_void known] using ends

end Lowering

/-- What the exit of its code is, for each way in which a function ends. -/
def Outcome.exit (result : Ty) : Outcome → Ir.Exit
  | .returned value => .returned value
  | .fellThrough => if result = .unit then .returned none else .unreachable
  | .halted why => .halted why

namespace Outcome

variable {result : Ty} {outcome : Outcome}

theorem exit_eq_value :
    outcome.exit result = .returned (some v) ↔ outcome = .returned (some v) := by
  cases outcome with
  | fellThrough =>
    simp only [exit]
    split <;> simp
  | _ => simp [exit]

theorem exit_eq_finished : outcome.exit result = .returned none ↔
    outcome = .returned none ∨ result = .unit ∧ outcome = .fellThrough := by
  cases outcome with
  | fellThrough =>
    simp only [exit]
    split <;> simp [*]
  | _ => simp [exit]

theorem exit_eq_halted : outcome.exit result = .halted why ↔ outcome = .halted why := by
  cases outcome with
  | fellThrough =>
    simp only [exit]
    split <;> simp
  | _ => simp [exit]

theorem exit_eq_unreachable : outcome.exit result = .unreachable ↔
    result ≠ .unit ∧ outcome = .fellThrough := by
  cases outcome with
  | fellThrough =>
    simp only [exit]
    split <;> simp [*]
  | _ => simp [exit]

end Outcome

namespace Func.Compiled

variable {f : Func} {g : Ir.Func} {ops : TruthOperators} {cells : Cells}
  {locals : Ir.LocalId → Constant}

theorem simulates (compiled : f.Compiled g) (nodup : f.body.stored.Nodup)
    (mirrors : (Ir.Machine.start locals).Mirrors f.body.stored cells) (fuel : Nat) :
    ∃ q, g.Simulates ops f.body.stored fuel (g.stepFrom ops ⟨0, 0⟩ (.start locals)) q
        (f.body.exec ops fuel .ofFunction cells) ∧
      ∀ place, q = some place →
        g.HasTerm place (if f.result = .unit then .ret none else .unreachable) := by
  obtain ⟨-, sameLocals, q, code, ends⟩ := compiled
  exact ⟨q, code.simulates (Nat.le_of_eq sameLocals.symm) nodup fuel mirrors, ends⟩

theorem run_succ (compiled : f.Compiled g) (fuel : Nat) :
    g.run ops (fuel + 1) locals =
      g.proceed ops fuel (g.stepFrom ops ⟨0, 0⟩ (.start locals)) := by
  rw [← Ir.Func.proceed_enter, Ir.Func.run, compiled.entry]
  rfl

theorem ends (compiled : f.Compiled g) (nodup : f.body.stored.Nodup)
    (mirrors : (Ir.Machine.start locals).Mirrors f.body.stored cells)
    (ended : f.Ends ops cells outcome) : g.Ends ops locals (outcome.exit f.result) := by
  obtain ⟨fuel, ran⟩ := ended
  obtain ⟨q, simulates, behind⟩ := compiled.simulates nodup mirrors fuel
  obtain ⟨flow, executed, rfl⟩ := map_eq_some_iff.mp ran
  rw [executed] at simulates
  cases flow with
  | next cells' =>
    obtain ⟨place, m, same, -, count, reaches⟩ := simulates
    refine ⟨0 + count + 1, ?_⟩
    rw [compiled.run_succ, reaches, (behind place same).stepFrom]
    simp only [Flow.outcome, Outcome.exit]
    split <;> rfl
  | returned value =>
    obtain ⟨n, ends⟩ := simulates
    exact ⟨n + 1, by rw [compiled.run_succ, ends]; rfl⟩
  | halted why =>
    obtain ⟨n, ends⟩ := simulates
    exact ⟨n + 1, by rw [compiled.run_succ, ends]; rfl⟩

theorem diverges (compiled : f.Compiled g) (nodup : f.body.stored.Nodup)
    (mirrors : (Ir.Machine.start locals).Mirrors f.body.stored cells)
    (diverged : f.Diverges ops cells) : g.Diverges ops locals := by
  intro n
  cases n with
  | zero => rfl
  | succ fuel =>
    obtain ⟨q, simulates, -⟩ := compiled.simulates nodup mirrors fuel
    rw [map_eq_none_iff.mp (diverged fuel)] at simulates
    rw [compiled.run_succ]
    exact simulates

theorem ends_iff (compiled : f.Compiled g) (nodup : f.body.stored.Nodup)
    (mirrors : (Ir.Machine.start locals).Mirrors f.body.stored cells) (exit : Ir.Exit) :
    g.Ends ops locals exit ↔
      ∃ outcome, f.Ends ops cells outcome ∧ outcome.exit f.result = exit := by
  constructor
  · intro exited
    by_cases diverged : f.Diverges ops cells
    · obtain ⟨n, ran⟩ := exited
      rw [compiled.diverges nodup mirrors diverged n] at ran
      cases ran
    · obtain ⟨fuel, ran⟩ := Classical.not_forall.mp diverged
      obtain ⟨outcome, ran⟩ := ne_none_iff_exists'.mp ran
      have ended := compiled.ends nodup mirrors ⟨fuel, ran⟩
      exact ⟨outcome, ⟨fuel, ran⟩, ended.unique exited⟩
  · rintro ⟨outcome, ended, rfl⟩
    exact compiled.ends nodup mirrors ended

end Func.Compiled

/-- A function and its code end alike, from these contents of the cells and of the slots. Only code
that would run off the end of a function with a result has an exit of its own. -/
structure SameOutcomes (ops : TruthOperators) (f : Func) (cells : Cells) (g : Ir.Func)
    (locals : Ir.LocalId → Constant) : Prop where
  returns : ∀ v, f.Ends ops cells (.returned (some v)) ↔ g.Ends ops locals (.returned (some v))
  finishes : (f.Ends ops cells (.returned none) ∨
    f.result = .unit ∧ f.Ends ops cells .fellThrough) ↔ g.Ends ops locals (.returned none)
  halts : ∀ why, f.Ends ops cells (.halted why) ↔ g.Ends ops locals (.halted why)
  fallsThrough : (f.result ≠ .unit ∧ f.Ends ops cells .fellThrough) ↔
    g.Ends ops locals .unreachable
  diverges : f.Diverges ops cells ↔ g.Diverges ops locals

theorem Func.Compiled.sameOutcomes {f : Func} (compiled : f.Compiled g)
    (nodup : f.body.stored.Nodup) (ops : TruthOperators) {locals : Ir.LocalId → Constant}
    (mirrors : (Ir.Machine.start locals).Mirrors f.body.stored cells) :
    SameOutcomes ops f cells g locals := by
  have ends_iff := @ends_iff f g ops cells locals compiled nodup mirrors
  refine ⟨fun v => ?_, ?_, fun why => ?_, ?_, compiled.diverges nodup mirrors, fun diverged => ?_⟩
  · simp only [ends_iff, Outcome.exit_eq_value, exists_eq_right]
  · simp only [ends_iff, Outcome.exit_eq_finished, and_or_left, exists_or, exists_eq_right,
      and_left_comm, exists_and_left]
  · simp only [ends_iff, Outcome.exit_eq_halted, exists_eq_right]
  · simp only [ends_iff, Outcome.exit_eq_unreachable, and_left_comm, exists_and_left,
      exists_eq_right]
  · intro fuel
    cases ran : f.run ops fuel cells with
    | none => rfl
    | some outcome =>
      obtain ⟨n, exited⟩ := compiled.ends nodup mirrors ⟨fuel, ran⟩
      rw [diverged n] at exited
      cases exited

namespace Lowering

/-- The functions are lowered in turn, each against the table that the one before it left. -/
inductive InTurn (module : NodeId) :
    Table → List (Option Func) → List Ir.Func → Table → Prop where
  | nil (table : Table) : InTurn module table [] [] table
  | cons {table table' last : Table} {f : Func} {g : Ir.Func}
      {rest : List (Option Func)} {funcs : List Ir.Func}
      (head : func module table f = (.ok g, table')) (tail : InTurn module table' rest funcs last) :
      InTurn module table (some f :: rest) (g :: funcs) last

variable {table : Table}

theorem inTurn_of_collect {module : NodeId}
    (collected : collect (attempts module table entries).1 = .ok funcs) :
    InTurn module table entries funcs (attempts module table entries).2 := by
  induction entries generalizing table funcs with
  | nil =>
    cases collected
    exact .nil table
  | cons entry rest ih =>
    cases entry with
    | none => cases collected
    | some f =>
      simp only [attempts] at collected ⊢
      cases ran : func module table f with
      | mk outcome table' =>
        rw [ran] at collected
        cases outcome with
        | error e => cases collected
        | ok g =>
          simp only [collect, ok_mapError, ok_bind] at collected
          obtain ⟨others, collectedRest, same⟩ := bind_eq_ok.mp collected
          cases same
          exact .cons ran (ih collectedRest)

theorem collect_attempts {module : NodeId} (coherent : table.Coherent)
    (fresh : ∀ f, some f ∈ entries → (module :: f.nodeIds).Nodup)
    (collected : collect (attempts module table entries).1 = .ok funcs) {i : Nat}
    (function : entries[i]? = some (some f)) :
    ∃ g, funcs[i]? = some g ∧ ∀ id, f.Compiled { g with id := id } := by
  have turn := inTurn_of_collect collected
  generalize (attempts module table entries).2 = last at turn
  clear collected
  induction turn generalizing i with
  | nil => cases function
  | @cons _ _ _ first lowered _ _ head tail ih =>
    obtain ⟨coherent', compiled⟩ := func_compiled coherent (fresh first (by simp)) head
    cases i with
    | zero =>
      cases function
      exact ⟨lowered, rfl, compiled⟩
    | succ i => exact ih coherent' (fun f member => fresh f (by simp [member])) function

theorem module_eq_ok {canceled : Bool} {m : Module} {lowered : Ir.Module}
    (succeeded : (module canceled m table).result = .ok lowered) :
    ∃ funcs, collect (attempts m.id table m.entries).1 = .ok funcs ∧
      lowered = .ofFuncs funcs := by
  unfold module at succeeded
  split at succeeded
  · cases succeeded
  · simp only at succeeded
    cases collected : collect (attempts m.id table m.entries).1 with
    | error e =>
      rw [collected] at succeeded
      cases succeeded
    | ok funcs =>
      rw [collected] at succeeded
      cases succeeded
      exact ⟨funcs, rfl, rfl⟩

end Lowering

/-- For every function of a module that is accepted and lowered there is its code in the same place,
and it ends as the function does wherever its slots hold at first what the cells hold. -/
theorem lowering_preserves_outcomes {m : Module} {table : Table} {canceled : Bool}
    {lowered : Ir.Module} (numbered : m.Numbered)
    (accepted : Table.ofModule m = .ok table)
    (succeeded : (module canceled m table).result = .ok lowered) (i : Nat) (f : Func)
    (function : m.entries[i]? = some (some f)) :
    ∃ g, lowered.funcs[i]? = some (some g) ∧ g.locals.length = f.body.stored.length ∧
      ∀ (ops : TruthOperators) (cells : Cells) (locals : Ir.LocalId → Constant),
        (∀ (slot : Nat) cell, f.body.stored[slot]? = some cell → locals slot = cells cell) →
        SameOutcomes ops f cells g locals := by
  have coherent := (Table.ofModule_eq_ok numbered accepted).2
  obtain ⟨funcs, collected, rfl⟩ := module_eq_ok succeeded
  obtain ⟨g, found, compiled⟩ := collect_attempts coherent
    (fun f member => numbered.nodup_function member) collected function
  refine ⟨{ g with id := i }, ?_, (compiled i).locals, fun ops cells locals mirrors => ?_⟩
  · simp [Ir.Module.ofFuncs, found]
  · refine (compiled i).sameOutcomes ?_ ops mirrors
    have nodup := (nodup_cons.mp (numbered.nodup_function (mem_of_getElem? function))).2
    rw [Func.nodeIds, nodup_cons] at nodup
    exact nodup.2.sublist (f.body.stored_sublist.trans f.body.declarations_sublist)

/-- Counts a variable that has no initial value up to two and returns it. From three on it divides
by zero. -/
def countFromAnywhere : Module where
  id := 1
  name := [109]
  funcs := some [some {
    id := 2
    name := [102]
    result := .int
    body := .block ⟨3, []⟩ (some [
      .decl ⟨4, []⟩ true [120] .int .absent,
      .loop ⟨5, []⟩ (.binary ⟨6, []⟩ .lt (.ident ⟨7, []⟩ [120]) (.int ⟨8, []⟩ 3))
        (.block ⟨9, []⟩ (some [
          .cond ⟨10, []⟩ (.binary ⟨11, []⟩ .eq (.ident ⟨12, []⟩ [120]) (.int ⟨13, []⟩ 2))
            (.block ⟨14, []⟩ (some [
              .ret ⟨15, []⟩ (.ident ⟨16, []⟩ [120]),
              .decl ⟨17, []⟩ false [121] .int (.int ⟨18, []⟩ 7)]))
            .absent,
          .assign ⟨19, []⟩ (.ident ⟨20, []⟩ [120])
            (.binary ⟨21, []⟩ .add (.ident ⟨22, []⟩ [120]) (.int ⟨23, []⟩ 1))])),
      .ret ⟨24, []⟩ (.binary ⟨25, []⟩ .div (.ident ⟨26, []⟩ [120]) (.int ⟨27, []⟩ 0))]) }]

theorem countFromAnywhere_lowers (accepted : Table.ofModule countFromAnywhere = .ok table) :
    ∃ lowered, (module false countFromAnywhere table).result = .ok lowered := by
  -- The records are sorted before they are inspected, which does not reduce; the walk does.
  obtain ⟨c, c', pushed, walked, -, rfl⟩ := Table.ofModule_walk accepted
  have runs : ((Checker.start.push .module countFromAnywhere.id).toOption.bind fun c =>
      (c.funcs countFromAnywhere.entries).toOption).all (fun c =>
        (module false countFromAnywhere c.table).result.isOk) = true := by
    decide +kernel
  rw [pushed] at runs
  change (c.funcs countFromAnywhere.entries).toOption.all _ = true at runs
  rw [walked] at runs
  change (module false countFromAnywhere c'.table).result.isOk = true at runs
  cases result : (module false countFromAnywhere c'.table).result with
  | error failure =>
    rw [result] at runs
    cases runs
  | ok lowered => exact ⟨lowered, rfl⟩

theorem countFromAnywhere_lowering :
    countFromAnywhere.Numbered ∧ ∃ table lowered,
      Table.ofModule countFromAnywhere = .ok table ∧
      (module false countFromAnywhere table).result = .ok lowered ∧
      ∃ g, lowered.funcs[0]? = some (some g) ∧ ∀ ops locals,
        (locals 0 = .int 0 → g.Ends ops locals (.returned (some (.int 2)))) ∧
        (locals 0 = .int 5 → g.Ends ops locals (.halted .trap)) := by
  have numbered : countFromAnywhere.Numbered := ⟨by decide, by decide⟩
  obtain ⟨table, accepted⟩ := (Table.ofModule_isOk_iff numbered).mpr (by decide)
  obtain ⟨lowered, succeeded⟩ := countFromAnywhere_lowers accepted
  obtain ⟨g, found, -, same⟩ := lowering_preserves_outcomes numbered accepted succeeded 0 _ rfl
  have initially : ∀ {locals : Ir.LocalId → Constant} {v : Constant}, locals 0 = v →
      ∀ (slot : Nat) (cell : NodeId), [4][slot]? = some cell → locals slot = v := by
    intro locals v holds slot cell stored
    cases slot with
    | zero => exact holds
    | succ slot => cases stored
  refine ⟨numbered, table, lowered, accepted, succeeded, g, found, fun ops locals => ⟨?_, ?_⟩⟩
  · intro holds
    exact ((same ops (fun _ => .int 0) locals (initially holds)).returns _).mp ⟨3, rfl⟩
  · intro holds
    exact ((same ops (fun _ => .int 5) locals (initially holds)).halts _).mp ⟨1, rfl⟩

end MiddleEnd
