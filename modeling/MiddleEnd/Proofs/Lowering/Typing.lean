import MiddleEnd.Proofs.Ir.TypeAgreement
import MiddleEnd.Proofs.Lowering.Soundness
import MiddleEnd.Proofs.Semantics.Typing

/-!
Validation of lowered code decides the types of its source: those of the code go together exactly
where those of the tree do.
-/

namespace MiddleEnd.Lowering

open List Ir Stmt Builder

variable {types : CellTypes} {result : Ir.Ty} {slots : List NodeId} {env : Env} {st st' : State}

/-- Each slot has the type of the cell that it stores. -/
def State.SlotsTyped (types : CellTypes) (slots : List NodeId) (st : State) : Prop :=
  ∀ (i : Nat) node slot, slots[i]? = some node → st.builder.func.locals[i]? = some slot →
    slot.type = types node

/-- Lowering has built sound code for a function with this result, its scopes show the environment,
and its slots have the types of the cells. -/
structure State.Ready (types : CellTypes) (result : Ir.Ty) (slots : List NodeId) (env : Env)
    (st : State) : Prop where
  safe : st.Safe True
  follows : st.Follows slots env
  typed : st.SlotsTyped types slots
  result : st.builder.func.result = result

theorem State.SlotsTyped.congr (typed : st.SlotsTyped types slots)
    (locals : st'.builder.func.locals = st.builder.func.locals) : st'.SlotsTyped types slots := by
  intro i node slot owner found
  exact typed i node slot owner (locals ▸ found)

namespace State.Ready

theorem expr (ready : st.Ready types result slots env) (ran : Lowering.expr e st = .ok o st') :
    st'.Ready types result slots env := by
  have emitted := expr_emitted ran
  obtain ⟨code, emits⟩ := emitted.emits
  exact ⟨(expr_safe ready.safe ran).1, ready.follows.congr emitted.stack emitted.table,
    ready.typed.congr emits.locals, emits.grows.result.trans ready.result⟩

theorem rebuilt (ready : st.Ready types result slots env) {builder : Builder}
    (safe : State.Safe True { st with builder := builder })
    (locals : builder.func.locals = st.builder.func.locals)
    (sameResult : builder.func.result = st.builder.func.result) :
    State.Ready types result slots env { st with builder := builder } :=
  ⟨safe, ready.follows.rebuilt builder, ready.typed.congr locals, sameResult.trans ready.result⟩

theorem resolve (ready : st.Ready types result slots env) (live : st.builder.place? = some p)
    (ran : Lowering.resolve node.id name st = .ok b st') :
    st' = st ∧ ∃ slot, at? st.builder.func.locals b.storage = some slot ∧
      slot.type = (Expr.ident node name).type types env := by
  obtain ⟨-, exists'⟩ := ready.safe.resolve trivial ran
  obtain ⟨slot, found⟩ := Option.isSome_iff_exists.mp (exists' (by simp [live]))
  obtain ⟨same, d, i, means, storage, owner⟩ := ready.follows.resolve (by simp [live]) ran
  have here := found
  rw [storage, at?_natCast] at here
  refine ⟨same, slot, found, ?_⟩
  rw [ready.typed i d.node slot owner here, Expr.type, means]
  rfl

end State.Ready

variable {p : Point} {table : Scoping.Table} {f : Func}

theorem define_typed (live : st.builder.place? = some p) {type : Builder → Ir.Ty}
    {instr : ValueId → Instr}
    (ran : produce (fun builder => builder.define (type builder) instr) st = .ok o st') :
    o.type = type st.builder ∧
      (st'.builder.func.TypesAgree ↔ st.builder.func.TypesAgree ∧
        (instr st.builder.func.values.length).TypesAgree st.builder.func.locals) := by
  have operand := (define_live live (type st.builder) instr).1
  rw [produce_run, operand] at ran
  cases ran
  exact ⟨rfl, typesAgree_define live _ instr⟩

theorem expr_typed (ready : st.Ready types result slots env) (live : st.builder.place? = some p)
    (ran : expr e st = .ok o st') :
    o.type = e.type types env ∧ (st'.builder.func.TypesAgree ↔
      st.builder.func.TypesAgree ∧ e.Typed types env) := by
  replace ran := expr_run ran
  induction ran generalizing p with
  | int | bool => exact ⟨rfl, (and_iff_left trivial).symm⟩
  | unread _ dead => cases dead.symm.trans live
  | load resolved _ made =>
    obtain ⟨-, slot, found, type⟩ := ready.resolve live resolved
    obtain ⟨operand, agree⟩ := define_typed live made
    refine ⟨?_, agree⟩
    rw [operand, found]
    exact type
  | not inner made ih =>
    obtain ⟨type, agree⟩ := ih ready live
    obtain ⟨q, live'⟩ := (expr_emitted inner.ran).place live
    obtain ⟨operand, agree'⟩ := define_typed live' made
    exact ⟨operand.trans type, agree'.trans ((and_iff_left trivial).trans agree)⟩
  | @binary node op left right st _ computed _ l r _ _ _ ranLeft ranRight operates made ihLeft
      ihRight =>
      obtain ⟨leftType, onLeft⟩ := ihLeft ready live
      obtain ⟨q, live'⟩ := (expr_emitted ranLeft.ran).place live
      obtain ⟨rightType, onRight⟩ := ihRight (ready.expr ranLeft.ran) live'
      obtain ⟨q', live''⟩ := (expr_emitted ranRight.ran).place live'
      have operands : computed.builder.func.TypesAgree ∧ l.type = r.type ↔
          st.builder.func.TypesAgree ∧ (Expr.binary node op left right).Typed types env := by
        rw [onRight, onLeft, leftType, rightType, and_assoc, and_assoc]
        rfl
      obtain ⟨operand, agree⟩ := define_typed live'' made
      cases operates with
      | compare compares =>
        refine ⟨?_, agree.trans operands⟩
        rw [operand, Expr.type, compares]
        rfl
      | arithmetic compares =>
        refine ⟨?_, agree.trans operands⟩
        rw [operand, Expr.type, compares, leftType]
        rfl

/-- From one state to the other, code was built whose types go together if `typed` holds. -/
structure Decided (types : CellTypes) (slots : List NodeId) (typed : Prop) (st st' : State) :
    Prop where
  slots : st'.SlotsTyped types slots
  agree : st'.builder.func.TypesAgree ↔ st.builder.func.TypesAgree ∧ typed

/-- The statement is typed exactly if its code is, from any state in live code that it fits. -/
def DecidesTypes (types : CellTypes) (result : Ir.Ty) (slots : List NodeId) (s : Stmt) : Prop :=
  ∀ env st st' p, stmt s st = .ok () st' → st.Ready types result slots env →
    st.builder.place? = some p → st.Unopened s.nodeIds → st.Reserves slots s.stored →
    (∀ v ∈ s.nodes, v.CellTyped types) →
    Decided types slots (s.Typed types result env) st st'

theorem DecidesTypes.decided (decides : DecidesTypes types result slots s)
    (ran : Lowering.stmt s st = .ok () st') (ready : st.Ready types result slots env)
    (live : st.builder.place? = some p) (fits : st.Fits slots env s.nodeIds s.stored)
    (cells : ∀ v ∈ s.nodes, v.CellTyped types) :
    Decided types slots (s.Typed types result env) st st' ∧
      st'.Ready types result slots (s.declare env) := by
  have decided := decides env st st' p ran ready live fits.unopened fits.reserves cells
  have lowered := fits.lowered ran
  exact ⟨decided, stmt_safe ready.safe ran, lowered.follows, decided.slots,
    lowered.grows.result.trans ready.result⟩

theorem Decided.of_builder (ready : st.Ready types result slots env)
    (builder : st'.builder = st.builder) (holds : typed) : Decided types slots typed st st' :=
  ⟨ready.typed.congr (by rw [builder]), by rw [builder, and_iff_left holds]⟩

theorem decidesTypes_list (each : ∀ s ∈ stmts, DecidesTypes types result slots s)
    (ran : stmtList stmts st = .ok () st') (ready : st.Ready types result slots env)
    (live : st.builder.place? = some p)
    (fits : st.Fits slots env (nodeIdsOfList stmts) (storedOfList stmts))
    (cells : ∀ v ∈ nodesOfList stmts, v.CellTyped types) :
    Decided types slots (TypedList types result env stmts) st st' := by
  induction stmts generalizing env st p with
  | nil =>
    cases ran
    exact .of_builder ready rfl (by simp [TypedList])
  | cons s rest ih =>
    rw [nodeIdsOfList_cons, storedOfList] at fits
    rw [nodesOfList_cons, forall_mem_append] at cells
    obtain ⟨middle, ranHead, ranRest⟩ := stmtList_cons ran
    obtain ⟨head, ready'⟩ := (each s (by simp)).decided ranHead ready live fits.first cells.1
    have lowered := fits.first.lowered ranHead
    obtain ⟨closed, -⟩ := lowered.live p live
    rw [TypedList, ← closed]
    cases place : middle.builder.place? with
    | none =>
      -- Behind a return nothing is built any more.
      have same := (stmtList_grown ranRest).dead place
      refine ⟨head.slots.congr (by rw [same]), ?_⟩
      rw [same, head.agree]
      simp
    | some q =>
      have tail := ih (fun s member => each s (by simp [member])) ranRest ready' place
        (fits.second lowered) cells.2
      refine ⟨tail.slots, ?_⟩
      rw [tail.agree, head.agree, and_assoc]
      simp

theorem decidesTypes_block (node : Node) (each : ∀ s ∈ stmts, DecidesTypes types result slots s) :
    DecidesTypes types result slots (.block node (some stmts)) := by
  intro env st st' p ran ready live unopened reserves cells
  rw [nodeIds_block] at unopened
  rw [nodes_block, forall_mem_cons] at cells
  cases stmt_run ran with
  | @block _ _ _ opened _ _ pushed inner popped =>
    have fits := State.Fits.push .block ⟨ready.follows, unopened, reserves⟩ pushed
    have before := push_builder pushed
    have after := pop_builder popped
    have readyInside : opened.Ready types result slots ([] :: env) :=
      ⟨ready.safe.push pushed, fits.follows, ready.typed.congr (by rw [before]),
        by rw [before, ready.result]⟩
    obtain ⟨slotsTyped, agree⟩ := decidesTypes_list each inner readyInside (before ▸ live) fits
      cells.2
    refine ⟨slotsTyped.congr (by rw [after]), ?_⟩
    rw [after, agree, before, Typed]

theorem decidesTypes_decl (node : Node) (mutable : Bool) (name : Text) (type : Ty) (value : Expr) :
    DecidesTypes types result slots (.decl node mutable name type value) := by
  intro env st st' p ran ready live unopened reserves cells
  rw [nodes_decl, forall_mem_cons] at cells
  have owner := State.Fits.slot ⟨ready.follows, unopened, reserves⟩ live
  cases stmt_run ran with
  | declBehind _ dead => cases dead.symm.trans live
  | @decl _ _ _ _ _ slotType _ _ _ _ stored _ initializes declared =>
    cases stored.symm.trans cells.1
    have same := declare_builder declared
    obtain ⟨-, placed, longer⟩ := alloc_live live name (types node.id)
    have reserved : State.Ready types result slots env
        { st with builder := (st.builder.alloc name (types node.id)).1 } := by
      refine ⟨ready.safe.rebuilt (ready.safe.sound.alloc name _)
        (by rw [longer]; exact Nat.le_succ _), ready.follows.rebuilt _,
        fun i cell slot owns found => ?_, ready.result⟩
      simp only [alloc, List.getElem?_append, List.getElem?_singleton] at found
      split at found
      · exact ready.typed i cell slot owns found
      · split at found
        · have atEnd : i = st.builder.func.locals.length := by omega
          cases found
          cases owner.symm.trans (atEnd ▸ owns)
          rfl
        · cases found
    have agreeAlloc := typesAgree_alloc ready.safe.sound name (types node.id)
    rw [Typed]
    cases initializes with
    | absent absent =>
      refine ⟨reserved.typed.congr (by rw [same]), ?_⟩
      rw [same, agreeAlloc, and_iff_left (.inl absent)]
    | @stored computed o present ranValue =>
      obtain ⟨valueType, agreeValue⟩ := expr_typed reserved placed ranValue
      obtain ⟨code, emits⟩ := (expr_emitted ranValue).emits
      have here : at? computed.builder.func.locals (st.builder.func.locals.length : Int) =
          some ⟨types node.id, name⟩ := by
        rw [emits.locals, at?_natCast]
        simp [alloc]
      have agreeStore := typesAgree_store (emits.place p placed).1
        st.builder.func.locals.length o
      refine ⟨reserved.typed.congr ?_, ?_⟩
      · rw [same, locals_store, emits.locals]
      · rw [same, agreeStore, agreeValue, agreeAlloc, or_iff_right (by simp [present]), and_assoc]
        simp only [Instr.TypesAgree, here, Option.some.injEq, forall_eq', valueType]

theorem decidesTypes_assign (node : Node) (target value : Expr) :
    DecidesTypes types result slots (.assign node target value) := by
  intro env st st' p ran ready live _ _ _
  cases stmt_run ran with
  | @assign _ _ _ _ b _ _ o resolved ranValue =>
    obtain ⟨-, slot, found, type⟩ := ready.resolve live resolved
    obtain ⟨valueType, agreeValue⟩ := expr_typed ready live ranValue
    obtain ⟨code, emits⟩ := (expr_emitted ranValue).emits
    refine ⟨ready.typed.congr ((locals_store ..).trans emits.locals), ?_⟩
    rw [typesAgree_store (emits.place p live).1, agreeValue, Typed, and_assoc]
    simp only [Instr.TypesAgree, emits.locals, found, Option.some.injEq, forall_eq', valueType,
      type]

theorem decidesTypes_ret (node : Node) (value : Expr) :
    DecidesTypes types result slots (.ret node value) := by
  intro env st st' p ran ready live _ _ _
  have returned : ∀ {computed : State} {q : Point} (term : Terminator),
      computed.Ready types result slots env → computed.builder.place? = some q →
      term ≠ .pending → Decided types slots (term.TypesAgree result) computed
        { computed with builder := computed.builder.terminate term } := by
    intro computed q term ready placed closing
    refine ⟨ready.typed.congr (terminate_live placed closing).2.1, ?_⟩
    rw [typesAgree_terminate placed, ready.result]
  rw [Typed]
  cases stmt_run ran with
  | leave => exact returned (.ret none) ready live (by simp)
  | @ret _ _ _ _ o present ranValue =>
    obtain ⟨valueType, agreeValue⟩ := expr_typed ready live ranValue
    obtain ⟨q, placed⟩ := (expr_emitted ranValue).place live
    obtain ⟨slotsTyped, agree⟩ := returned (.ret (some o)) (ready.expr ranValue) placed (by simp)
    refine ⟨slotsTyped, agree.trans ?_⟩
    rw [agreeValue, and_assoc, Terminator.TypesAgree, valueType, present]
    rfl

theorem State.Ready.branch (ready : st.Ready types result slots env) {p : Point}
    (place : st.builder.place? = some p) {o : Operand} (supplied : st.builder.Supplies o)
    {yes no : BlockId} (yesFound : (st.builder.func.block? yes).isSome)
    (noFound : (st.builder.func.block? no).isSome) :
    State.Ready types result slots env
        { st with builder := st.builder.leave (.branch o yes no) yes } ∧
      ((st.builder.leave (.branch o yes no) yes).func.TypesAgree ↔
        st.builder.func.TypesAgree ∧ o.type = .i1) := by
  obtain ⟨grows, locals, -⟩ :=
    st.builder.terminate_grows (show Terminator.branch o yes no ≠ .pending by simp)
  exact ⟨ready.rebuilt (ready.safe.branch yesFound noFound supplied yes) locals grows.result,
    typesAgree_terminate place (.branch o yes no)⟩

theorem State.Ready.goto (ready : st.Ready types result slots env)
    (found : (st.builder.func.block? target).isSome) (id : BlockId) :
    State.Ready types result slots env
      { st with builder := st.builder.leave (.goto target) id } := by
  obtain ⟨grows, locals, -⟩ :=
    st.builder.terminate_grows (show Terminator.goto target ≠ .pending by simp)
  exact ready.rebuilt (ready.safe.goto found id) locals grows.result

theorem State.Ready.fork (ready : st.Ready types result slots env) {f : Fork}
    (forked : st.builder.fork short = f) (forks : st.builder.Forks p short f) :
    State.Ready types result slots env { st with builder := f.builder } ∧
      (f.builder.func.TypesAgree ↔ st.builder.func.TypesAgree) := by
  subst forked
  have safe := ready.safe.rebuilt (ready.safe.sound.fork short)
    (Nat.le_of_eq (congrArg List.length forks.locals.symm))
  exact ⟨ready.rebuilt safe forks.locals forks.grows.result, st.builder.typesAgree_fork short⟩

theorem decidesTypes_cond (node : Node) (test : Expr) (yesIH : DecidesTypes types result slots yes)
    (noIH : DecidesTypes types result slots no) :
    DecidesTypes types result slots (.cond node test yes no) := by
  intro env st st' p ran ready live unopened reserves cells
  have fits := State.Fits.ways ⟨ready.follows, unopened, reserves⟩
  rw [nodes_cond, forall_mem_cons, forall_mem_append, forall_mem_append] at cells
  obtain ⟨-, ⟨-, cellsYes⟩, cellsNo⟩ := cells
  cases stmt_run ran with
  | condBehind dead => cases dead.symm.trans live
  | @cond _ _ _ _ _ _ _ last _ o f _ _ _ tested placed forked forks toYes ranYes toNo ranNo joins =>
    obtain ⟨testType, agreeTest⟩ := expr_typed ready live tested
    obtain ⟨stack, table, code, emits⟩ := expr_emitted tested
    have supplied := fork_supplies placed (expr_safe ready.safe tested).2.1 no.isAbsent
    rw [forked] at supplied
    obtain ⟨readyFork, agreeFork⟩ := (ready.expr tested).fork forked forks
    -- The test branches to the first block, which takes the code of one way.
    obtain ⟨readyYes, agreeBranch⟩ := readyFork.branch forks.place supplied
      forks.first.block?_isSome forks.second.block?_isSome
    have fitsYes := fits.moved live stack table
      (toYes.locals.trans (forks.locals.trans emits.locals))
    obtain ⟨onYes, ready'⟩ := yesIH.decided ranYes readyYes toYes.place fitsYes.first cellsYes
    have lowered := fitsYes.first.lowered ranYes
    -- From its end control jumps to the third block. The second one takes the other way.
    have meets := (toYes.precedes.trans lowered.grows.precedes).block?_isSome
      forks.third.block?_isSome
    obtain ⟨onNo, -⟩ := noIH.decided ranNo (ready'.goto meets f.second) toNo.place
      (fitsYes.beside toYes.place lowered toNo.locals) cellsNo
    have agree : last.builder.func.TypesAgree ↔ st.builder.func.TypesAgree ∧
        (cond node test yes no).Typed types result env := by
      rw [onNo.agree, typesAgree_goto, onYes.agree, agreeBranch, agreeFork, agreeTest,
        testType, Typed, and_assoc, and_assoc, and_assoc]
    cases joins with
    | onward => exact ⟨onNo.slots, agree⟩
    | jump =>
      exact ⟨onNo.slots.congr (locals_leave ..),
        (typesAgree_goto _ _ _).trans agree⟩

theorem decidesTypes_loop (node : Node) (test : Expr) {body : Stmt}
    (bodyIH : DecidesTypes types result slots body) :
    DecidesTypes types result slots (.loop node test body) := by
  intro env st st' p ran ready live unopened reserves cells
  have fits := State.Fits.again ⟨ready.follows, unopened, reserves⟩
  rw [nodes_loop, forall_mem_cons, forall_mem_append] at cells
  cases stmt_run ran with
  | loopBehind dead => cases dead.symm.trans live
  | @loop _ _ _ _ _ last o f _ _ forked forks toTest tested toBody ranBody =>
    obtain ⟨readyFork, agreeFork⟩ := ready.fork forked forks
    -- The first block takes the test, the second one the body, and the third one what follows.
    have readyTest := readyFork.goto forks.first.block?_isSome f.first
    obtain ⟨testType, agreeTest⟩ := expr_typed readyTest toTest.place tested
    obtain ⟨stack, table, code, emits⟩ := expr_emitted tested
    have reached := toTest.precedes.trans emits.grows.precedes
    obtain ⟨readyBody, agreeBranch⟩ := (readyTest.expr tested).branch
      (emits.place _ toTest.place).1 (expr_safe readyTest.safe tested).2.1
      (reached.block?_isSome forks.second.block?_isSome)
      (reached.block?_isSome forks.third.block?_isSome)
    obtain ⟨onBody, -⟩ := bodyIH.decided ranBody readyBody toBody.place
      (fits.moved live stack table
        (toBody.locals.trans (emits.locals.trans (toTest.locals.trans forks.locals)))) cells.2.2
    refine ⟨onBody.slots.congr (locals_leave ..), ?_⟩
    rw [typesAgree_goto, onBody.agree, agreeBranch, agreeTest,
      typesAgree_goto, agreeFork, testType, Typed, and_assoc, and_assoc]

theorem decidesTypes (types : CellTypes) (result : Ir.Ty) (slots : List NodeId) (s : Stmt) :
    DecidesTypes types result slots s := by
  induction s using induction with
  | absent =>
    intro env st st' p ran ready _ _ _ _
    cases ran
    exact .of_builder ready rfl (by simp [Typed])
  | bare node =>
    intro env st st' p ran ready _ _ _ _
    cases stmt_run ran with
    | bare pushed popped =>
      exact .of_builder ready ((pop_builder popped).trans (push_builder pushed))
        (by simp [Typed])
  | block node stmts each => exact decidesTypes_block node each
  | decl node mutable name type value => exact decidesTypes_decl node mutable name type value
  | assign node target value => exact decidesTypes_assign node target value
  | ret node value => exact decidesTypes_ret node value
  | cond node test yes no yesIH noIH => exact decidesTypes_cond node test yesIH noIH
  | loop node test body bodyIH => exact decidesTypes_loop node test bodyIH
  | unknown node kind =>
    intro env st st' p ran
    cases ran

theorem body_typed {module : NodeId} (coherent : table.Coherent)
    (nodup : (module :: f.nodeIds).Nodup) (cells : ∀ v ∈ f.body.nodes, v.CellTyped types)
    (ran : body module f ⟨.start name result [], .empty, table⟩ = .ok () st') :
    st'.builder.func.TypesAgree ↔ f.body.Typed types result .ofFunction := by
  obtain ⟨inModule, inFunction, filled, closed, pushedModule, pushedFunction, ranBody,
    poppedFunction, poppedModule⟩ := body_ok ran
  obtain ⟨builder, fits⟩ := fits_entered coherent nodup pushedModule pushedFunction
  have opened : inFunction.Safe True :=
    ((start_safe (fun _ => coherent.keyed) name result).push pushedModule).push pushedFunction
  have entered := opened.rebuilt (opened.sound.newBlock.select inFunction.builder.newBlock.2)
    (Nat.le_refl _)
  have ready : State.Ready types result f.body.stored .ofFunction { inFunction with
      builder := inFunction.builder.newBlock.1.select inFunction.builder.newBlock.2 } := by
    refine ⟨entered, fits.follows, fun i node slot _ found => ?_, by rw [builder]; rfl⟩
    rw [builder] at found
    cases found
  have place : (inFunction.builder.newBlock.1.select inFunction.builder.newBlock.2).place? =
      some ⟨0, 0⟩ := by
    rw [builder]
    rfl
  obtain ⟨onBody, -⟩ := (decidesTypes types result f.body.stored f.body).decided ranBody ready place
    fits cells
  have empty : (inFunction.builder.newBlock.1.select
      inFunction.builder.newBlock.2).func.TypesAgree := by
    refine (inFunction.builder.typesAgree_newBlock).mpr ?_
    rw [builder]
    intro _ member
    cases member
  rw [pop_builder poppedModule, pop_builder poppedFunction, onBody.agree, and_iff_right empty]

theorem typesAgree_finish (builder : Builder) :
    (finish builder).TypesAgree ↔ builder.func.TypesAgree := by
  generalize closed :
    (if builder.func.result = .void then Terminator.ret none else .unreachable) = last
  have unfolded : finish builder = (builder.terminate last).finalize.func := by
    rw [← closed, finish]
  have agrees : last.TypesAgree builder.func.result := by
    rw [← closed]
    split
    · next void => exact void
    · trivial
  rw [unfolded, typesAgree_finalize]
  cases place : builder.place? with
  | none => rw [terminate_dead place]
  | some p => rw [typesAgree_terminate place, and_iff_left agrees]

/-- Validation accepts the code of a function exactly if its body is typed, with whatever types fit
its declarations. -/
theorem func_valid_iff {module : NodeId} (coherent : table.Coherent)
    (nodup : (module :: f.nodeIds).Nodup) (cells : ∀ v ∈ f.body.nodes, v.CellTyped types)
    (known : resultType? f.result = some result) (ran : func module table f = (.ok g, table'))
    (id : Int) :
    Ir.Func.faults { g with id := id } = [] ↔ f.body.Typed types result .ofFunction := by
  rw [((func_sound coherent.keyed ran).1.renumbered id).faults_eq_nil_iff]
  obtain ⟨type, st', known', ranBody, rfl, -⟩ := func_eq_ok ran
  cases known.symm.trans known'
  exact (typesAgree_finish st'.builder).trans (body_typed coherent nodup cells ranBody)

theorem func_faultless_iff {module : NodeId} (coherent : table.Coherent)
    (nodup : (module :: f.nodeIds).Nodup) (supported : f.Supported)
    (ran : func module table f = (.ok g, table')) (id : Int) :
    Ir.Func.faults { g with id := id } = [] ↔ f.Typed := by
  constructor
  · intro faultless
    obtain ⟨result, -, known, -⟩ := func_eq_ok ran
    have nodupBody := (nodup_cons.mp (nodup_cons.mp nodup).2).2
    have cells := ((Func.supported_iff f).mp supported).2.cellTyped nodupBody
    exact ⟨_, result, cells, known,
      (func_valid_iff coherent nodup cells known ran id).mp faultless⟩
  · rintro ⟨types, result, cells, known, typed⟩
    exact (func_valid_iff coherent nodup cells known ran id).mpr typed

theorem InTurn.faultless_iff {module : NodeId} (turn : InTurn module table entries funcs last)
    (coherent : table.Coherent) (fresh : ∀ f, some f ∈ entries → (module :: f.nodeIds).Nodup)
    (supported : ∀ f, some f ∈ entries → f.Supported) (ids : Nat → Int) :
    (∀ (i : Nat) g, funcs[i]? = some g → Ir.Func.faults { g with id := ids i } = []) ↔
      ∀ f, some f ∈ entries → f.Typed := by
  induction turn generalizing ids with
  | nil => simp
  | @cons _ _ _ first lowered _ _ ran _ ih =>
    have nodup := fresh first (by simp)
    have head := func_faultless_iff coherent nodup (supported first (by simp)) ran
    have tail := ih (func_compiled coherent nodup ran).1
      (fun f member => fresh f (by simp [member]))
      (fun f member => supported f (by simp [member])) fun i => ids (i + 1)
    simp only [mem_cons, Option.some.injEq, forall_eq_or_imp, ← tail, ← head (ids 0)]
    constructor
    · intro all
      exact ⟨all 0 lowered rfl, fun i g found => all (i + 1) g found⟩
    · rintro ⟨first, rest⟩ (_ | i) g found
      · cases found
        exact first
      · exact rest i g found

theorem module_faultless_iff (numbered : m.Numbered)
    (accepted : Scoping.Table.ofModule m = .ok table) (supported : m.Supported)
    (succeeded : (module canceled m table).result = .ok lowered) :
    lowered.faults = [] ↔ ∀ f, some f ∈ m.entries → f.Typed := by
  obtain ⟨funcs, collected, rfl⟩ := module_eq_ok succeeded
  have coherent := (Scoping.Table.ofModule_eq_ok numbered accepted).2
  rw [← (inTurn_of_collect collected).faultless_iff coherent
    (fun f member => numbered.nodup_function member) ((Module.supported_iff m).mp supported)
    fun i => i, Ir.Module.faults_eq_nil]
  simp only [Ir.Module.ofFuncs, mem_map, Option.some.injEq, Prod.exists, mem_zipIdx_iff_getElem?]
  constructor
  · exact fun all i g found => all _ ⟨g, i, found, rfl⟩
  · rintro all _ ⟨g, i, found, rfl⟩
    exact all i g found

end MiddleEnd.Lowering
