import MiddleEnd.Proofs.Lowering.Outcome

/-!
How a function is closed. Each block is closed when it is left, so behind the body at most the
selected block is open.
-/

namespace MiddleEnd

open List Option
open Ir (Builder)

namespace Ir.Builder

variable {b : Builder} {p : Point}

/-- No block is closed as one that is never reached. -/
def Reached (b : Builder) : Prop := ∀ block ∈ b.func.blocks, block.term ≠ .unreachable

/-- Requests that leave no block open behind them, unless it was open before, and close none as one
that is never reached. -/
structure Built (b b' : Builder) : Prop where
  settles : ∀ p, b'.Aside p → b.Aside p
  reached : b.Reached → b'.Reached

theorem Built.refl (b : Builder) : b.Built b := ⟨fun _ aside => aside, fun reached => reached⟩

theorem Built.trans {b₁ b₂ : Builder} (first : b₁.Built b₂) (second : b₂.Built b₃) : b₁.Built b₃ :=
  ⟨fun p aside => first.settles p (second.settles p aside),
    fun reached => second.reached (first.reached reached)⟩

theorem built_modifyBlock (place : b.place? = some p) (change : Block → Block)
    (reached : ∀ block, block.term = .pending → (change block).term ≠ .unreachable) :
    b.Built (b.modifyBlock change) := by
  constructor
  · rintro q ⟨⟨block', found', rest⟩, other⟩
    obtain ⟨current, block, found, -⟩ := place?_eq_some.mp place
    rw [current] at found
    have different : q.block ≠ b.current := other
    rw [block?_modifyBlock found, if_neg different] at found'
    exact ⟨⟨block', found', rest⟩, other⟩
  · intro before block' member
    rcases mem_modifyBlock place member with earlier | ⟨block, -, -, pending, rfl⟩
    · exact before block' earlier
    · exact reached block pending

theorem built_append (place : b.place? = some p) (instr : Instr) : b.Built (b.append instr) :=
  built_modifyBlock place _ fun block pending => by simp [pending]

theorem define_built (b : Builder) (type : Ty) (instr : ValueId → Instr) :
    b.Built (b.define type instr).1 := by
  cases place : b.place? with
  | none =>
    rw [define_dead place]
    exact .refl b
  | some p =>
    rw [define_eq place]
    have samePlace := (@grows_of_blocks b
      { b with func := { b.func with values := b.func.values ++ [type] } } rfl rfl rfl rfl).2
    have appended := built_append (samePlace.trans place) (instr b.func.values.length)
    exact ⟨appended.settles, appended.reached⟩

theorem store_built (b : Builder) (slot : LocalId) (value : Operand) :
    b.Built (b.store slot value) := by
  cases place : b.place? with
  | none =>
    rw [Builder.store, isTerminated_dead place, if_pos rfl]
    exact .refl b
  | some p =>
    rw [Builder.store, not_isTerminated place, if_neg Bool.false_ne_true]
    exact built_append place _

theorem terminate_built (b : Builder) (reached : term ≠ .unreachable) :
    b.Built (b.terminate term) := by
  cases place : b.place? with
  | none =>
    rw [terminate_dead place]
    exact .refl b
  | some p =>
    rw [Builder.terminate, not_isTerminated place, if_neg Bool.false_ne_true]
    exact built_modifyBlock place _ fun _ _ => reached

theorem leave_aside {id : BlockId} (closing : term ≠ .pending) (aside : (b.leave term id).Aside p) :
    b.Aside p ∧ p.block ≠ id := by
  obtain ⟨⟨block, found, rest⟩, other⟩ := aside
  refine ⟨?_, other⟩
  change (b.terminate term).func.block? p.block = some block at found
  cases place : b.place? with
  | none =>
    rw [terminate_dead place] at found
    refine ⟨⟨block, found, rest⟩, fun same => ?_⟩
    have placed : b.place? = some p := place?_eq_some.mpr ⟨same, block, found, rest⟩
    rw [place] at placed
    cases placed
  | some q =>
    obtain ⟨current, block', found', -⟩ := place?_eq_some.mp place
    rw [current] at found'
    rw [Builder.terminate, not_isTerminated place, if_neg Bool.false_ne_true,
      block?_modifyBlock found'] at found
    split at found
    · cases found
      exact absurd rest.2 closing
    · next different => exact ⟨⟨block, found, rest⟩, different⟩

theorem Reached.leave (before : b.Reached) (reached : term ≠ .unreachable) (id : BlockId) :
    (b.leave term id).Reached :=
  (b.terminate_built reached).reached before

theorem newBlock_aside (aside : b.newBlock.1.Aside p) : b.Aside p ∨ p.block = b.newBlock.2 := by
  obtain ⟨⟨block, found, rest⟩, other⟩ := aside
  obtain ⟨i, same, here⟩ := at?_eq_some found
  simp only [newBlock, List.getElem?_append, List.getElem?_singleton] at here
  split at here
  · refine .inl ⟨⟨block, ?_, rest⟩, other⟩
    rw [same, Func.block?, at?_natCast, here]
  · split at here
    · next bound last =>
      have atEnd : i = b.func.blocks.length := by omega
      exact .inr (same.trans (congrArg Int.ofNat atEnd))
    · cases here

theorem fork_aside {b : Builder} {short : Bool} {p : Point}
    (aside : (b.fork short).builder.Aside p) :
    b.Aside p ∨ p.block = (b.fork short).first ∨ p.block = (b.fork short).second ∨
      p.block = (b.fork short).third := by
  cases short with
  | true =>
    rcases newBlock_aside aside with aside | here
    · rcases newBlock_aside aside with aside | here
      · exact .inl aside
      · exact .inr (.inl here)
    · exact .inr (.inr (.inl here))
  | false =>
    rcases newBlock_aside aside with aside | here
    · rcases newBlock_aside aside with aside | here
      · rcases newBlock_aside aside with aside | here
        · exact .inl aside
        · exact .inr (.inl here)
      · exact .inr (.inr (.inl here))
    · exact .inr (.inr (.inr here))

theorem Reached.newBlock (before : b.Reached) : b.newBlock.1.Reached := by
  intro block member
  rcases mem_append.mp member with earlier | new
  · exact before block earlier
  · simp [mem_singleton.mp new]

theorem Reached.fork (before : b.Reached) (short : Bool) : (b.fork short).builder.Reached := by
  cases short with
  | true => exact before.newBlock.newBlock
  | false => exact before.newBlock.newBlock.newBlock

end Ir.Builder

/-- The block in the place is closed as one that is never reached. -/
def Ir.Func.UnreachableAt (g : Func) (k : Nat) : Prop :=
  g.blocks[k]?.map Block.term = some .unreachable

namespace Lowering

variable {st st' : State}

theorem expr_built (ran : expr e st = .ok o st') : st.builder.Built st'.builder := by
  have made {type : Builder → Ir.Ty} {instr : Ir.ValueId → Ir.Instr} {o : Ir.Operand}
      {st st' : State}
      (made : produce (fun builder => builder.define (type builder) instr) st = .ok o st') :
      st.builder.Built st'.builder := by
    rw [produce_run] at made
    cases made
    exact st.builder.define_built _ instr
  replace ran := expr_run ran
  induction ran with
  | int | bool | unread => exact .refl _
  | load _ _ loaded => exact made loaded
  | not _ computed inner => exact inner.trans (made computed)
  | binary _ _ _ computed left right => exact (left.trans right).trans (made computed)

/-- From whatever state it starts, lowering the statement leaves no block open. -/
def Builds (s : Stmt) : Prop :=
  ∀ st st', stmt s st = .ok () st' → st.builder.Built st'.builder

theorem builds_list (each : ∀ s ∈ stmts, Builds s) (ran : stmtList stmts st = .ok () st') :
    st.builder.Built st'.builder := by
  induction stmts generalizing st with
  | nil =>
    cases ran
    exact .refl _
  | cons s rest ih =>
    obtain ⟨middle, ranHead, ranRest⟩ := stmtList_cons ran
    exact (each s (by simp) st middle ranHead).trans
      (ih (fun s member => each s (by simp [member])) ranRest)

theorem builds_decl (node : Node) (mutable : Bool) (name : Text) (type : Ty) (value : Expr) :
    Builds (.decl node mutable name type value) := by
  intro st st' ran
  cases stmt_run ran with
  | declBehind _ _ declared =>
    rw [declare_builder declared]
    exact .refl _
  | @decl _ _ _ _ _ slotType _ _ _ _ _ _ initializes declared =>
    rw [declare_builder declared]
    have allocated : st.builder.Built (st.builder.alloc name slotType).1 :=
      ⟨fun _ aside => aside, fun reached => reached⟩
    cases initializes with
    | absent => exact allocated
    | stored _ ranValue =>
      exact (allocated.trans (expr_built ranValue)).trans (Builder.store_built ..)

theorem builds_cond (node : Node) (test : Expr) (yesIH : Builds yes) (noIH : Builds no) :
    Builds (.cond node test yes no) := by
  intro st st' ran
  cases stmt_run ran with
  | condBehind _ _ ranYes ranNo => exact (yesIH _ _ ranYes).trans (noIH _ _ ranNo)
  | @cond _ _ _ _ _ computed middle last _ o f _ _ _ tested placed forked forks _ ranYes _ ranNo
      joins =>
      have computes := expr_built tested
      have onlyNew := fun p => @Builder.fork_aside computed.builder no.isAbsent p
      have forkReached := fun before : computed.builder.Reached => before.fork no.isAbsent
      rw [forked] at onlyNew forkReached
      have onYes := yesIH _ _ ranYes
      have onNo := noIH _ _ ranNo
      -- Each block that was made for the conditional is taken up once and left closed.
      have settles : ∀ p, last.builder.Aside p → p.block ≠ f.third → st.builder.Aside p := by
        intro p aside notThird
        obtain ⟨aside, notSecond⟩ := Builder.leave_aside (by simp) (onNo.settles p aside)
        obtain ⟨aside, notFirst⟩ := Builder.leave_aside (by simp) (onYes.settles p aside)
        rcases onlyNew p aside with aside | first | second | third
        · exact computes.settles p aside
        · exact absurd first notFirst
        · exact absurd second notSecond
        · exact absurd third notThird
      have reached : st.builder.Reached → last.builder.Reached := by
        intro before
        have behindYes := onYes.reached
          ((forkReached (computes.reached before)).leave (by simp) f.first)
        exact onNo.reached (behindYes.leave (by simp) f.second)
      cases joins with
      | onward =>
        cases ranNo
        refine ⟨fun p aside => settles p aside ?_, reached⟩
        rw [forks.third_eq_second rfl]
        exact (Builder.leave_aside (by simp) aside).2
      | jump =>
        refine ⟨fun p aside => ?_, fun before => (reached before).leave (by simp) f.third⟩
        obtain ⟨aside, notThird⟩ := Builder.leave_aside (by simp) aside
        exact settles p aside notThird

theorem builds_loop (node : Node) (test : Expr) {body : Stmt} (bodyIH : Builds body) :
    Builds (.loop node test body) := by
  intro st st' ran
  cases stmt_run ran with
  | loopBehind _ _ ranBody => exact bodyIH _ _ ranBody
  | @loop _ _ _ _ computed last o f _ _ forked _ _ tested _ ranBody _ =>
    have onlyNew := fun p => @Builder.fork_aside st.builder false p
    have forkReached := fun before : st.builder.Reached => before.fork false
    rw [forked] at onlyNew forkReached
    have computes := expr_built tested
    have onBody := bodyIH _ _ ranBody
    refine ⟨fun p aside => ?_, fun before => ?_⟩
    · obtain ⟨aside, notThird⟩ := Builder.leave_aside (by simp) aside
      obtain ⟨aside, notSecond⟩ := Builder.leave_aside (by simp) (onBody.settles p aside)
      obtain ⟨aside, notFirst⟩ := Builder.leave_aside (by simp) (computes.settles p aside)
      rcases onlyNew p aside with aside | first | second | third
      · exact aside
      · exact absurd first notFirst
      · exact absurd second notSecond
      · exact absurd third notThird
    · have behindTest := computes.reached ((forkReached before).leave (by simp) f.first)
      exact (onBody.reached (behindTest.leave (by simp) f.second)).leave (by simp) f.third

theorem builds (s : Stmt) : Builds s := by
  induction s using Stmt.induction with
  | absent =>
    intro st st' ran
    cases ran
    exact .refl _
  | bare node =>
    intro st st' ran
    cases stmt_run ran with
    | bare pushed popped =>
      rw [pop_builder popped, push_builder pushed]
      exact .refl _
  | block node stmts each =>
    intro st st' ran
    cases stmt_run ran with
    | block pushed inner popped =>
      rw [pop_builder popped, ← push_builder pushed]
      exact builds_list each inner
  | decl node mutable name type value => exact builds_decl node mutable name type value
  | assign node target value =>
    intro st st' ran
    cases stmt_run ran with
    | assign _ ranValue =>
      exact (expr_built ranValue).trans (Builder.store_built ..)
  | ret node value =>
    intro st st' ran
    cases stmt_run ran with
    | leave => exact st.builder.terminate_built (by simp)
    | ret _ ranValue => exact (expr_built ranValue).trans (Builder.terminate_built _ (by simp))
  | cond node test yes no yesIH noIH => exact builds_cond node test yesIH noIH
  | loop node test body bodyIH => exact builds_loop node test bodyIH
  | unknown node kind =>
    intro st st' ran
    cases ran

variable {table : Scoping.Table} {b : Builder}

theorem body_built {module : NodeId}
    (ran : body module f ⟨.start name result [], .empty, table⟩ = .ok () st') :
    st'.builder.Reached ∧ ∀ p, ¬ st'.builder.Aside p := by
  obtain ⟨inModule, inFunction, filled, closed, pushedModule, pushedFunction, ranBody,
    poppedFunction, poppedModule⟩ := body_ok ran
  have built := builds f.body _ _ ranBody
  rw [push_builder pushedFunction, push_builder pushedModule] at built
  rw [pop_builder poppedModule, pop_builder poppedFunction]
  have empty : (Builder.start name result []).Reached := by simp [Builder.Reached, Builder.start]
  refine ⟨built.reached empty.newBlock, fun p aside => ?_⟩
  obtain ⟨⟨block, found, -⟩, other⟩ := built.settles p aside
  obtain ⟨nonneg, bound⟩ := Ir.at?_isSome_iff.mp (isSome_iff_exists.mpr ⟨block, found⟩)
  have inEntry : p.block ≤ 0 := Int.le_of_lt_add_one bound
  exact other (Int.le_antisymm inEntry nonneg)

theorem terminate_closes (settled : ∀ p, ¬ b.Aside p) (closing : term ≠ .pending) :
    ∀ block ∈ (b.terminate term).func.blocks, block.term.isPending = false := by
  intro block member
  rw [← Bool.not_eq_true, Builder.isPending_iff]
  intro pending
  obtain ⟨i, found⟩ := List.getElem?_of_mem member
  have found : (b.terminate term).func.block? (i : Int) = some block := by
    rw [Ir.Func.block?, Ir.at?_natCast, found]
  have aside : (b.leave term Ir.noId).Aside ⟨i, block.instrs.length⟩ :=
    ⟨⟨block, found, rfl, pending⟩, by simp [Builder.leave, Builder.select, Ir.noId]⟩
  exact settled _ (Builder.leave_aside closing aside).1

theorem finalize_closed (closed : ∀ block ∈ b.func.blocks, block.term.isPending = false) :
    b.finalize.func = b.func := by
  have unchanged : b.func.blocks.map (fun block =>
      if block.term.isPending then { block with term := .unreachable } else block) =
        b.func.blocks := by
    refine (map_congr_left fun block member => ?_).trans (map_id _)
    rw [closed block member, if_neg Bool.false_ne_true, id]
  rw [Builder.finalize, unchanged]

/-- How a body that runs off its end is closed. -/
def ending (result : Ir.Ty) : Ir.Terminator :=
  if result = .void then .ret none else .unreachable

theorem ending_closing (result : Ir.Ty) : ending result ≠ .pending := by
  unfold ending
  split <;> simp

theorem finish_eq (settled : ∀ p, ¬ b.Aside p) :
    finish b = (b.terminate (ending b.func.result)).func :=
  finalize_closed (terminate_closes settled (ending_closing _))

theorem finish_reached (reached : b.Reached) (settled : ∀ p, ¬ b.Aside p)
    (void : (finish b).result = .void) :
    ∀ block ∈ (finish b).blocks, block.term ≠ .unreachable := by
  rw [finish_eq settled] at void ⊢
  have sameResult : (b.terminate (ending b.func.result)).func.result = b.func.result := by
    rw [Builder.terminate]
    split <;> rfl
  refine (b.terminate_built ?_).reached reached
  rw [← sameResult, void]
  simp [ending]

/-- The code `g` is what the builder `b`, which the body left, holds once its selected block is
closed. Only this block may be marked as never reached, and only if there is a result. -/
structure ClosedFrom (b : Builder) (result : Ir.Ty) (g : Ir.Func) : Prop where
  code : g = { finish b with id := g.id }
  closed : ∀ block ∈ (b.terminate (ending result)).func.blocks, block.term ≠ .pending
  finalized : (b.terminate (ending result)).finalize.func = (b.terminate (ending result)).func
  finished : finish b = (b.terminate (ending result)).func
  unreachable_iff : ∀ k, g.UnreachableAt k ↔
    result ≠ .void ∧ b.isTerminated = false ∧ (k : Int) = b.current

variable {g : Ir.Func} {result : Ir.Ty}

theorem not_unreachableAt (reached : ∀ block ∈ g.blocks, block.term ≠ .unreachable) (k : Nat) :
    ¬ g.UnreachableAt k := by
  intro marked
  obtain ⟨block, found, unreachable⟩ := map_eq_some_iff.mp marked
  exact reached block (mem_of_getElem? found) unreachable

theorem ending_eq_unreachable : ending result = .unreachable ↔ result ≠ .void := by
  unfold ending
  split <;> simp [*]

theorem terminate_unreachableAt (reached : b.Reached) (result : Ir.Ty) (k : Nat) :
    (b.terminate (ending result)).func.UnreachableAt k ↔
      result ≠ .void ∧ b.isTerminated = false ∧ (k : Int) = b.current := by
  cases place : b.place? with
  | none =>
    rw [Builder.terminate_dead place, Builder.isTerminated_dead place]
    refine iff_of_false (not_unreachableAt reached k) ?_
    rintro ⟨-, live, -⟩
    cases live
  | some p =>
    obtain ⟨current, block, found, -⟩ := Builder.place?_eq_some.mp place
    rw [current] at found
    have selected := Builder.block?_modifyBlock found (fun block =>
      { block with term := ending result }) k
    rw [Ir.Func.block?, Ir.at?_natCast] at selected
    rw [Builder.terminate, Builder.not_isTerminated place, if_neg Bool.false_ne_true,
      Ir.Func.UnreachableAt, selected, ← ending_eq_unreachable]
    by_cases here : (k : Int) = b.current
    · simp [here]
    · rw [if_neg here, Ir.Func.block?, Ir.at?_natCast]
      exact iff_of_false (not_unreachableAt reached k) fun same => here same.2.2

theorem body_result {module : NodeId}
    (ran : body module f ⟨.start name result [], .empty, table⟩ = .ok () st') :
    st'.builder.func.result = result := by
  obtain ⟨inModule, inFunction, filled, closed, pushedModule, pushedFunction, ranBody,
    poppedFunction, poppedModule⟩ := body_ok ran
  rw [pop_builder poppedModule, pop_builder poppedFunction, (stmt_grown ranBody).grows.result]
  change inFunction.builder.func.result = result
  rw [push_builder pushedFunction, push_builder pushedModule]
  rfl

theorem body_closed {module : NodeId} {f : Func}
    (ran : body module f ⟨.start name result [], .empty, table⟩ = .ok () st') (id : Int) :
    ClosedFrom st'.builder result { finish st'.builder with id := id } := by
  obtain ⟨reached, settled⟩ := body_built ran
  have sameResult := body_result ran
  have noneOpen := terminate_closes settled (ending_closing result)
  have finalized := finalize_closed noneOpen
  have finished : finish st'.builder = (st'.builder.terminate (ending result)).func := by
    rw [finish_eq settled, sameResult]
  refine ⟨rfl, fun block member pending => ?_, finalized, finished, fun k => ?_⟩
  · have isOpen := noneOpen block member
    rw [pending] at isOpen
    cases isOpen
  · rw [← terminate_unreachableAt reached, ← finished]
    exact Iff.rfl

theorem InTurn.getElem? {module : NodeId} {last : Scoping.Table}
    (turn : InTurn module table entries funcs last) (function : funcs[i]? = some g) :
    ∃ f table', entries[i]? = some (some f) ∧
      func module (attempts module table (entries.take i)).2 f = (.ok g, table') := by
  induction turn generalizing i with
  | nil => cases function
  | @cons table table' _ f lowered _ _ head tail ih =>
    cases i with
    | zero =>
      cases function
      exact ⟨f, table', rfl, head⟩
    | succ i =>
      obtain ⟨f', table'', found, ran⟩ := ih function
      refine ⟨f', table'', found, ?_⟩
      simp only [take_succ_cons, attempts, head]
      exact ran

theorem ofFuncs_getElem? {funcs : List Ir.Func} {i : Nat}
    (function : (Ir.Module.ofFuncs funcs).funcs[i]? = some (some g)) :
    ∃ g', funcs[i]? = some g' ∧ g = { g' with id := (i : Int) } := by
  simp only [Ir.Module.ofFuncs, List.getElem?_map, List.getElem?_zipIdx, Nat.zero_add,
    Option.map_map, Option.map_eq_some_iff, Function.comp_apply, Option.some.injEq] at function
  obtain ⟨g', found, same⟩ := function
  exact ⟨g', found, same.symm⟩

/-- Lowering leaves no block open behind it, whatever tree and table it is given. At most one block
is marked as never reached, and none in a function without result. -/
theorem lowering_leaves_no_block_open {canceled : Bool} {m : Module} {table : Scoping.Table}
    {lowered : Ir.Module} (succeeded : (module canceled m table).result = .ok lowered) {i : Nat}
    {g : Ir.Func} (function : lowered.funcs[i]? = some (some g)) :
    ∃ f result st, m.entries[i]? = some (some f) ∧ resultType? f.result = some result ∧
      body m.id f ⟨.start f.name result [], .empty, (attempts m.id table (m.entries.take i)).2⟩ =
        .ok () st ∧
      ClosedFrom st.builder result g ∧
      (∀ j k, g.UnreachableAt j → g.UnreachableAt k → j = k) ∧
      (f.result = .unit → ∀ k, ¬ g.UnreachableAt k) := by
  obtain ⟨funcs, collected, rfl⟩ := module_eq_ok succeeded
  obtain ⟨g', lowered, rfl⟩ := ofFuncs_getElem? function
  obtain ⟨f, table', listed, ran⟩ := (inTurn_of_collect collected).getElem? lowered
  obtain ⟨result, st, known, ranBody, rfl, -⟩ := func_eq_ok ran
  have closed := body_closed ranBody i
  refine ⟨f, result, st, listed, known, ranBody, closed, fun j k first second => ?_,
    fun unit k marked => ?_⟩
  · have atFirst := ((closed.unreachable_iff j).mp first).2.2
    have atSecond := ((closed.unreachable_iff k).mp second).2.2
    exact Int.natCast_inj.mp (atFirst.trans atSecond.symm)
  · have void := (resultType?_eq_void known).mpr unit
    exact ((closed.unreachable_iff k).mp marked).1 void

/-- Nothing reaches what stands behind the conditional of the first function; the second loops and
has no result. -/
def neverBehind : Module where
  id := 1
  name := [109]
  funcs := some [
    some {
      id := 2
      name := [102]
      result := .int
      body := .block ⟨3, []⟩ (some [
        .cond ⟨4, []⟩ (.bool ⟨5, []⟩ true) (.ret ⟨6, []⟩ (.int ⟨7, []⟩ 1))
          (.block ⟨8, []⟩ (some [.ret ⟨9, []⟩ (.int ⟨10, []⟩ 2), .ret ⟨11, []⟩ .absent]))]) },
    some {
      id := 12
      name := [103]
      result := .unit
      body := .loop ⟨13, []⟩ (.bool ⟨14, []⟩ false) (.block ⟨15, []⟩ none) }]

theorem neverBehind_closed :
    ∃ lowered g h, (module false neverBehind .empty).result = .ok lowered ∧
      lowered.funcs[0]? = some (some g) ∧ lowered.funcs[1]? = some (some h) ∧
      g.blocks.length = 4 ∧ (∀ k, g.UnreachableAt k ↔ k = 3) ∧
      h.blocks.length = 4 ∧ ∀ k, ¬ h.UnreachableAt k := by
  have runs : (module false neverBehind .empty).result.toOption.any (fun lowered =>
      lowered.funcs[0]?.any (Option.any fun g => g.blocks.length = 4 ∧
        g.blocks[3]?.map Ir.Block.term = some .unreachable) ∧
      lowered.funcs[1]?.any (Option.any fun h => h.blocks.length = 4)) = true := by
    decide +kernel
  obtain ⟨lowered, result, runs⟩ := (any_eq_true _ _).mp runs
  have result := toOption_eq_some.mp result
  obtain ⟨first, second⟩ := of_decide_eq_true runs
  obtain ⟨_ | g, atFirst, first⟩ := (any_eq_true _ _).mp first
  · cases first
  obtain ⟨_ | h, atSecond, second⟩ := (any_eq_true _ _).mp second
  · cases second
  obtain ⟨size, marked⟩ := of_decide_eq_true first
  obtain ⟨_, _, _, _, _, _, _, once, -⟩ := lowering_leaves_no_block_open result atFirst
  obtain ⟨f, _, _, listed, _, _, _, _, none⟩ := lowering_leaves_no_block_open result atSecond
  cases listed
  refine ⟨lowered, g, h, result, atFirst, atSecond, size, fun k => ⟨fun there => ?_, ?_⟩,
    of_decide_eq_true second, none rfl⟩
  · exact once k 3 there marked
  · rintro rfl
    exact marked

end Lowering

end MiddleEnd
