import MiddleEnd.Proofs.Lowering.Equations

/-!
All that a successful run of lowering can do, whatever it lowers and against whatever table.
-/

namespace MiddleEnd.Lowering

open Ir Builder

variable {st st' middle : State} {e : Expr} {o : Operand} {p : Point}

/-- The type and the instruction of an operation on two operands. -/
inductive Operates (op : BinaryOp) (l r : Operand) :
    Ir.Ty → (ValueId → Instr) → Prop where
  | compare {pred : CmpPred} (compares : comparison? op = some pred) :
      Operates op l r .i1 fun id => .compare id pred l r
  | arithmetic {operation : BinOp} (compares : comparison? op = none)
      (computes : arithmeticOp? op = some operation) :
      Operates op l r l.type fun id => .binary id operation l r

theorem Operates.unique {instr' : ValueId → Instr} (operates : Operates op l r type instr)
    (operates' : Operates op l r type' instr') : type' = type ∧ instr' = instr := by
  cases operates with
  | compare compares =>
    cases operates' with
    | compare compares' =>
      cases compares.symm.trans compares'
      exact ⟨rfl, rfl⟩
    | arithmetic compares' => cases compares.symm.trans compares'
  | arithmetic compares computes =>
    cases operates' with
    | compare compares' => cases compares.symm.trans compares'
    | arithmetic _ computes' =>
      cases computes.symm.trans computes'
      exact ⟨rfl, rfl⟩

/-- The steps of a run over an expression. -/
inductive ExprRun : Expr → State → Operand → State → Prop where
  | int (node : Node) (value : Int32) (st : State) : ExprRun (.int node value) st (.int value) st
  | bool (node : Node) (value : Bool) (st : State) : ExprRun (.bool node value) st (.bool value) st
  | unread {node : Node} {name : Text} {b : Scoping.Binding} {st : State}
      (resolved : resolve node.id name st = .ok b st) (dead : st.builder.place? = none) :
      ExprRun (.ident node name) st (.undef ((storageType? b.type).getD .void)) st
  | load {node : Node} {name : Text} {b : Scoping.Binding} {st st' : State} {p : Point}
      {o : Operand} (resolved : resolve node.id name st = .ok b st)
      (live : st.builder.place? = some p)
      (made : produce (fun builder => builder.load b.storage) st = .ok o st') :
      ExprRun (.ident node name) st o st'
  | not {node : Node} {operand : Expr} {st middle st' : State} {a o : Operand}
      (inner : ExprRun operand st a middle)
      (made : produce (fun builder => builder.unary .not a) middle = .ok o st') :
      ExprRun (.unary node .not operand) st o st'
  | binary {node : Node} {op : BinaryOp} {left right : Expr} {st middle computed st' : State}
      {l r o : Operand} {type : Ir.Ty} {instr : ValueId → Instr}
      (ranLeft : ExprRun left st l middle) (ranRight : ExprRun right middle r computed)
      (operates : Operates op l r type instr)
      (made : produce (fun builder => builder.define type instr) computed = .ok o st') :
      ExprRun (.binary node op left right) st o st'

theorem expr_run (ran : expr e st = .ok o st') : ExprRun e st o st' := by
  induction e generalizing o st st' with
  | absent | unknown => cases ran
  | int | bool =>
    cases ran
    constructor
  | ident node name =>
    obtain ⟨b, middle, resolved, rest⟩ := bind_run_eq_ok.mp ran
    obtain ⟨rfl, -, -⟩ := resolve_eq_ok resolved
    rw [isLive_bind] at rest
    cases place : middle.builder.place? with
    | none =>
      rw [place] at rest
      cases rest
      exact .unread resolved place
    | some p =>
      simp only [place, Option.isSome_some, if_true] at rest
      exact .load resolved place rest
  | unary node op operand ih =>
    obtain ⟨inner, middle, ranInner, rest⟩ := bind_run_eq_ok.mp ran
    cases op with
    | other code => cases rest
    | not => exact .not (ih ranInner) rest
  | binary node op left right leftIH rightIH =>
    obtain ⟨l, middle, ranLeft, rest⟩ := bind_run_eq_ok.mp ran
    obtain ⟨r, computed, ranRight, rest⟩ := bind_run_eq_ok.mp rest
    cases compares : comparison? op with
    | some pred =>
      simp only [compares] at rest
      exact .binary (leftIH ranLeft) (rightIH ranRight) (.compare compares) rest
    | none =>
      cases computes : arithmeticOp? op with
      | some operation =>
        simp only [compares, computes] at rest
        exact .binary (leftIH ranLeft) (rightIH ranRight) (.arithmetic compares computes) rest
      | none =>
        simp only [compares, computes] at rest
        cases rest

theorem ExprRun.ran (run : ExprRun e st o st') : expr e st = .ok o st' := by
  induction run with
  | int | bool => rfl
  | unread resolved dead =>
    refine bind_run_eq_ok.mpr ⟨_, _, resolved, ?_⟩
    rw [isLive_bind, dead]
    rfl
  | load resolved live made =>
    refine bind_run_eq_ok.mpr ⟨_, _, resolved, ?_⟩
    rw [isLive_bind, live]
    exact made
  | not _ made inner => exact bind_run_eq_ok.mpr ⟨_, _, inner, made⟩
  | binary _ _ operates made left right =>
    refine bind_run_eq_ok.mpr ⟨_, _, left, bind_run_eq_ok.mpr ⟨_, _, right, ?_⟩⟩
    cases operates with
    | compare compares =>
      simp only [compares]
      exact made
    | arithmetic compares computes =>
      simp only [compares, computes]
      exact made

/-- Only the builder moved, by adding code to the selected block. -/
structure Emitted (st st' : State) : Prop where
  stack : st'.stack = st.stack
  table : st'.table = st.table
  emits : ∃ code, st.builder.Emits st'.builder code

theorem Emitted.refl (st : State) : Emitted st st :=
  ⟨rfl, rfl, [], .nil _⟩

theorem Emitted.trans (first : Emitted st middle) (second : Emitted middle st') :
    Emitted st st' := by
  obtain ⟨code, emits⟩ := first.emits
  obtain ⟨more, emits'⟩ := second.emits
  exact ⟨second.stack.trans first.stack, second.table.trans first.table, _, emits.trans emits'⟩

theorem Emitted.place (emitted : Emitted st st') (live : st.builder.place? = some p) :
    ∃ q, st'.builder.place? = some q := by
  obtain ⟨code, emits⟩ := emitted.emits
  exact ⟨_, (emits.place p live).1⟩

theorem Emitted.grows (emitted : Emitted st st') : st.builder.Grows st'.builder := by
  obtain ⟨code, emits⟩ := emitted.emits
  exact emits.grows

section Define

variable {type : Builder → Ir.Ty} {instr : ValueId → Instr}
  (made : produce (fun builder => builder.define (type builder) instr) st = .ok o st')
include made

theorem define_dead (dead : st.builder.place? = none) : st' = st := by
  rw [produce_run, define_dead dead] at made
  cases made
  rfl

theorem define_emitted : Emitted st st' := by
  cases place : st.builder.place? with
  | none =>
    rw [define_dead made place]
    exact .refl st
  | some p =>
    rw [produce_run] at made
    cases made
    exact ⟨rfl, rfl, _, (define_live place _ instr).2.2⟩

end Define

theorem expr_emitted (ran : expr e st = .ok o st') : Emitted st st' := by
  replace ran := expr_run ran
  induction ran with
  | int | bool | unread => exact .refl _
  | load _ _ made => exact define_emitted made
  | not _ made inner => exact inner.trans (define_emitted made)
  | binary _ _ _ made left right => exact (left.trans right).trans (define_emitted made)

theorem expr_dead (dead : st.builder.place? = none) (ran : expr e st = .ok o st') : st' = st := by
  replace ran := expr_run ran
  induction ran with
  | int | bool | unread => rfl
  | load _ live => cases live.symm.trans dead
  | not _ made inner =>
    cases inner dead
    exact define_dead made dead
  | binary _ _ _ made left right =>
    cases left dead
    cases right dead
    exact define_dead made dead

/-- The function under construction grew, unless requests were ignored. -/
structure Grown (st st' : State) : Prop where
  grows : st.builder.Grows st'.builder
  dead : st.builder.place? = none → st'.builder = st.builder

namespace Grown

theorem of_builder (same : st'.builder = st.builder) : Grown st st' :=
  ⟨same ▸ .refl _, fun _ => same⟩

theorem trans (first : Grown st middle) (second : Grown middle st') : Grown st st' where
  grows := first.grows.trans second.grows
  dead dead := by
    have same := first.dead dead
    rw [second.dead (same ▸ dead), same]

theorem alive (live : st.builder.place? = some p) (grows : st.builder.Grows st'.builder) :
    Grown st st' :=
  ⟨grows, fun dead => by simp [live] at dead⟩

theorem of_expr (ran : expr e st = .ok o st') : Grown st st' :=
  ⟨(expr_emitted ran).grows, fun dead => by rw [expr_dead dead ran]⟩

theorem of_terminate (st : State) (closing : term ≠ .pending) :
    Grown st { st with builder := st.builder.terminate term } :=
  ⟨(st.builder.terminate_grows closing).1, fun dead => terminate_dead dead term⟩

theorem of_store (st : State) (slot : LocalId) (o : Operand) :
    Grown st { st with builder := st.builder.store slot o } := by
  cases place : st.builder.place? with
  | none =>
    apply of_builder
    simp only [store, isTerminated_dead place, if_true]
  | some p => exact .alive place (store_live place slot o).grows

end Grown

/-- The initial value of a declaration, if it has one, is stored in its slot. -/
inductive Initializes (slot : LocalId) : Expr → State → State → Prop where
  | absent {value : Expr} {st : State} (absent : value.isAbsent = true) :
      Initializes slot value st st
  | stored {value : Expr} {st computed : State} {o : Operand} (present : value.isAbsent = false)
      (ran : expr value st = .ok o computed) :
      Initializes slot value st { computed with builder := computed.builder.store slot o }

/-- Where control is once the two ways of a conditional have met. -/
inductive Joins (f : Fork) : Stmt → State → State → Prop where
  | onward (st : State) : Joins f .absent st st
  | jump {no : Stmt} (present : no.isAbsent = false) (st : State) :
      Joins f no st { st with builder := st.builder.leave (.goto f.third) f.third }

/-- After state `last`, the two ways of a conditional have met at a block. Either it was the selected
one already, or control jumps there. -/
structure Meets (id : BlockId) (last st' : State) : Prop where
  stack : st'.stack = last.stack
  table : st'.table = last.table
  place : st'.builder.place? = some ⟨id, 0⟩
  locals : st'.builder.func.locals = last.builder.func.locals
  precedes : last.builder.func.Precedes st'.builder.func
  grows : ∀ b : Builder, b.Grows last.builder → (∀ p, b.Aside p → p.block ≠ id) →
    b.Grows st'.builder
  jumps : ∀ g, st'.builder.func.Precedes g →
    last.builder.place? = some ⟨id, 0⟩ ∨ g.Jumps last.builder.place? id

theorem Meets.selected {id : BlockId} (place : st.builder.place? = some ⟨id, 0⟩) :
    Meets id st st :=
  ⟨rfl, rfl, place, rfl, .refl _, fun _ grows _ => grows, fun _ _ => .inl place⟩

theorem jumping (target : BlockId) : Terminator.goto target ≠ .pending := by simp

theorem branching (test : Operand) (yes no : BlockId) :
    Terminator.branch test yes no ≠ .pending := by simp

theorem Meets.jump {id : BlockId} (aside : st.builder.Aside ⟨id, 0⟩) :
    Meets id st { st with builder := st.builder.leave (.goto id) id } := by
  have leaves := leaves aside (jumping id)
  exact ⟨rfl, rfl, leaves.place, leaves.locals, leaves.precedes,
    fun _ grows fresh => grows.leave (jumping id) fresh,
    fun g precedes => .inr (leaves.term g precedes)⟩

/-- The steps of a run over a statement. The blocks of a conditional and of a loop are taken up in
turn, each of them open and empty. -/
inductive StmtRun : Stmt → State → State → Prop where
  | absent (st : State) : StmtRun .absent st st
  | bare {node : Node} {st opened st' : State} (pushed : push .block node.id st = .ok () opened)
      (popped : pop node.id opened = .ok () st') : StmtRun (.block node none) st st'
  | block {node : Node} {stmts : List Stmt} {st opened filled st' : State}
      (pushed : push .block node.id st = .ok () opened) (inner : stmtList stmts opened = .ok () filled)
      (popped : pop node.id filled = .ok () st') : StmtRun (.block node (some stmts)) st st'
  | declBehind {node : Node} {mutable : Bool} {name : Text} {type : Ty} {value : Expr}
      {slotType : Ir.Ty} {st st' : State} (stored : storageType? type = some slotType)
      (dead : st.builder.place? = none)
      (declared : declare name mutable type noId st = .ok () st') :
      StmtRun (.decl node mutable name type value) st st'
  | decl {node : Node} {mutable : Bool} {name : Text} {type : Ty} {value : Expr}
      {slotType : Ir.Ty} {st filled st' : State} {p : Point}
      (stored : storageType? type = some slotType) (live : st.builder.place? = some p)
      (initializes : Initializes st.builder.func.locals.length value
        { st with builder := (st.builder.alloc name slotType).1 } filled)
      (declared : declare name mutable type st.builder.func.locals.length filled = .ok () st') :
      StmtRun (.decl node mutable name type value) st st'
  | assign {node targetNode : Node} {name : Text} {value : Expr} {b : Scoping.Binding}
      {st computed : State} {o : Operand} (resolved : resolve targetNode.id name st = .ok b st)
      (ranValue : expr value st = .ok o computed) :
      StmtRun (.assign node (.ident targetNode name) value) st
        { computed with builder := computed.builder.store b.storage o }
  | leave (node : Node) (st : State) :
      StmtRun (.ret node .absent) st { st with builder := st.builder.terminate (.ret none) }
  | ret {node : Node} {value : Expr} {st computed : State} {o : Operand}
      (present : value.isAbsent = false) (ranValue : expr value st = .ok o computed) :
      StmtRun (.ret node value) st
        { computed with builder := computed.builder.terminate (.ret (some o)) }
  | condBehind {node : Node} {test : Expr} {yes no : Stmt} {st middle st' : State} {o : Operand}
      (dead : st.builder.place? = none) (tested : expr test st = .ok o st)
      (ranYes : stmt yes st = .ok () middle) (ranNo : stmt no middle = .ok () st') :
      StmtRun (.cond node test yes no) st st'
  | cond {node : Node} {test : Expr} {yes no : Stmt} {st computed middle last st' : State}
      {o : Operand} {f : Fork} {p q : Point} (live : st.builder.place? = some p)
      (tested : expr test st = .ok o computed) (placed : computed.builder.place? = some q)
      (forked : computed.builder.fork no.isAbsent = f)
      (forks : computed.builder.Forks q no.isAbsent f)
      (toYes : f.builder.Leaves (.branch o f.first f.second) f.first
        (f.builder.leave (.branch o f.first f.second) f.first))
      (ranYes : stmt yes { computed with
        builder := f.builder.leave (.branch o f.first f.second) f.first } = .ok () middle)
      (toNo : middle.builder.Leaves (.goto f.third) f.second
        (middle.builder.leave (.goto f.third) f.second))
      (ranNo : stmt no { middle with
        builder := middle.builder.leave (.goto f.third) f.second } = .ok () last)
      (joins : Joins f no last st') (meets : Meets f.third last st') :
      StmtRun (.cond node test yes no) st st'
  | loopBehind {node : Node} {test : Expr} {body : Stmt} {st st' : State} {o : Operand}
      (dead : st.builder.place? = none) (tested : expr test st = .ok o st)
      (ranBody : stmt body st = .ok () st') : StmtRun (.loop node test body) st st'
  | loop {node : Node} {test : Expr} {body : Stmt} {st computed last : State} {o : Operand}
      {f : Fork} {p : Point} (live : st.builder.place? = some p)
      (forked : st.builder.fork false = f) (forks : st.builder.Forks p false f)
      (toTest : f.builder.Leaves (.goto f.first) f.first
        (f.builder.leave (.goto f.first) f.first))
      (tested : expr test { st with builder := f.builder.leave (.goto f.first) f.first } =
        .ok o computed)
      (toBody : computed.builder.Leaves (.branch o f.second f.third) f.second
        (computed.builder.leave (.branch o f.second f.third) f.second))
      (ranBody : stmt body { computed with
        builder := computed.builder.leave (.branch o f.second f.third) f.second } = .ok () last)
      (toExit : last.builder.Leaves (.goto f.first) f.third
        (last.builder.leave (.goto f.first) f.third)) :
      StmtRun (.loop node test body) st
        { last with builder := last.builder.leave (.goto f.first) f.third }

/-- A run over the statement that succeeds is one of these, and the function grew. -/
def Accounted (s : Stmt) : Prop :=
  ∀ st st', stmt s st = .ok () st' → StmtRun s st st' ∧ Grown st st'

theorem accounted_list (each : ∀ s ∈ stmts, Accounted s) (ran : stmtList stmts st = .ok () st') :
    Grown st st' := by
  induction stmts generalizing st with
  | nil =>
    cases ran
    exact .of_builder rfl
  | cons s rest ih =>
    obtain ⟨middle, ranHead, ranRest⟩ := stmtList_cons ran
    exact (each s (by simp) _ _ ranHead).2.trans
      (ih (fun s member => each s (by simp [member])) ranRest)

theorem accounted_decl (node : Node) (mutable : Bool) (name : Text) (type : Ty) (value : Expr) :
    Accounted (.decl node mutable name type value) := by
  intro st st' ran
  cases stored : storageType? type with
  | none =>
    rw [decl_unstored node mutable name value stored] at ran
    cases ran
  | some slotType =>
    cases place : st.builder.place? with
    | none =>
      rw [decl_dead node mutable name value stored place] at ran
      have declared : declare name mutable type noId st = .ok () st' := by
        split at ran
        · exact ran
        · obtain ⟨o, computed, ranValue, declared⟩ := bind_run_eq_ok.mp ran
          cases expr_dead place ranValue
          exact declared
      exact ⟨.declBehind stored place declared, .of_builder (declare_builder declared)⟩
    | some p =>
      have reserved : Grown st { st with builder := (st.builder.alloc name slotType).1 } :=
        .alive place (alloc_live place name slotType).1
      rw [decl_live node mutable name value stored place] at ran
      split at ran
      · next absent =>
        exact ⟨.decl stored place (.absent absent) ran,
          reserved.trans (.of_builder (declare_builder ran))⟩
      · next present =>
        obtain ⟨o, computed, ranValue, declared⟩ := bind_run_eq_ok.mp ran
        refine ⟨.decl stored place (.stored (Bool.not_eq_true _ ▸ present) ranValue) declared,
          reserved.trans ?_⟩
        exact ((Grown.of_expr ranValue).trans (.of_store ..)).trans
          (.of_builder (declare_builder declared))

theorem accounted_assign (node : Node) (target value : Expr) :
    Accounted (.assign node target value) := by
  intro st st' ran
  cases target with
  | ident targetNode name =>
    obtain ⟨b, middle, resolved, rest⟩ := bind_run_eq_ok.mp ran
    obtain ⟨o, computed, ranValue, rest⟩ := bind_run_eq_ok.mp rest
    obtain ⟨rfl, -, -⟩ := resolve_eq_ok resolved
    have stored : st' = { computed with builder := computed.builder.store b.storage o } := by
      rw [isLive_bind] at rest
      cases place : computed.builder.place? with
      | none =>
        rw [place] at rest
        cases rest
        rw [store, isTerminated_dead place, if_pos rfl]
      | some p =>
        rw [place] at rest
        cases rest
        rfl
    rw [stored]
    exact ⟨.assign resolved ranValue, (Grown.of_expr ranValue).trans (.of_store ..)⟩
  | _ => cases ran

theorem accounted_ret (node : Node) (value : Expr) : Accounted (.ret node value) := by
  intro st st' ran
  cases absent : value.isAbsent with
  | true =>
    cases value with
    | absent =>
      cases ran
      exact ⟨.leave node st, .of_terminate st (by simp)⟩
    | _ => cases absent
  | false =>
    rw [ret_eq node absent] at ran
    obtain ⟨o, computed, ranValue, rest⟩ := bind_run_eq_ok.mp ran
    cases rest
    exact ⟨.ret absent ranValue, (Grown.of_expr ranValue).trans (.of_terminate _ (by simp))⟩

theorem accounted_cond (node : Node) (test : Expr) (yesIH : Accounted yes) (noIH : Accounted no) :
    Accounted (.cond node test yes no) := by
  intro st st' ran
  obtain ⟨rest, whole, behind, ahead⟩ := cond_eq node test yes no
  rw [whole] at ran
  obtain ⟨o, computed, tested, ran⟩ := bind_run_eq_ok.mp ran
  cases live : st.builder.place? with
  | none =>
    cases expr_dead live tested
    rw [behind o st live] at ran
    obtain ⟨_, middle, ranYes, ranNo⟩ := bind_run_eq_ok.mp ran
    exact ⟨.condBehind live tested ranYes ranNo, (yesIH _ _ ranYes).2.trans (noIH _ _ ranNo).2⟩
  | some p =>
    obtain ⟨q, placed⟩ := (expr_emitted tested).place live
    have forks := forks placed no.isAbsent
    rw [ahead o computed q _ placed rfl] at ran
    generalize forked : computed.builder.fork no.isAbsent = f at forks ran
    obtain ⟨_, middle, ranYes, ran⟩ := bind_run_eq_ok.mp ran
    rw [build_bind] at ran
    obtain ⟨_, last, ranNo, ran⟩ := bind_run_eq_ok.mp ran
    have onYes := (yesIH _ _ ranYes).2.grows
    have onNo := (noIH _ _ ranNo).2.grows
    -- The blocks that are not selected stay open until they are.
    have toYes := leaves forks.first (branching o f.first f.second)
    have second := onYes.aside _ (toYes.aside _ forks.second forks.second_ne_first)
    have third := onYes.aside _ (toYes.aside _ forks.third forks.third_ne_first)
    have toNo := leaves second (jumping f.third)
    obtain ⟨joins, meets⟩ : Joins f no last st' ∧ Meets f.third last st' := by
      cases absent : no.isAbsent with
      | true =>
        rw [absent, if_pos rfl] at ran
        cases ran
        have isAbsent : no = .absent := by cases no <;> first | rfl | cases absent
        subst isAbsent
        cases ranNo
        exact ⟨.onward _, .selected (by rw [toNo.place, forks.third_eq_second absent])⟩
      | false =>
        rw [absent, if_neg Bool.false_ne_true] at ran
        cases ran
        have third := toNo.aside _ third (forks.third_ne_second absent)
        exact ⟨.jump absent last, .jump (onNo.aside _ third)⟩
    have fresh := fun p' aside => forks.fresh p' ((expr_emitted tested).grows.aside p' aside)
    have grows := ((expr_emitted tested).grows.trans forks.grows).leave
      (branching o f.first f.second) fun p' aside => (fresh p' aside).1
    have grows := (grows.trans onYes).leave (jumping f.third)
      fun p' aside => (fresh p' aside).2.1
    exact ⟨.cond live tested placed forked forks toYes ranYes toNo ranNo joins meets,
      .alive live (meets.grows _ (grows.trans onNo) fun p' aside =>
        (fresh p' aside).2.2)⟩

theorem accounted_loop (node : Node) (test : Expr) {body : Stmt} (bodyIH : Accounted body) :
    Accounted (.loop node test body) := by
  intro st st' ran
  cases live : st.builder.place? with
  | none =>
    rw [loop_dead node test body live] at ran
    obtain ⟨o, computed, tested, ranBody⟩ := bind_run_eq_ok.mp ran
    cases expr_dead live tested
    exact ⟨.loopBehind live tested ranBody, (bodyIH _ _ ranBody).2⟩
  | some p =>
    have forks := forks live false
    rw [loop_live node test body live rfl] at ran
    generalize forked : st.builder.fork false = f at forks ran
    obtain ⟨o, computed, tested, ran⟩ := bind_run_eq_ok.mp ran
    rw [build_bind] at ran
    obtain ⟨_, last, ranBody, ran⟩ := bind_run_eq_ok.mp ran
    cases ran
    have onBody := (bodyIH _ _ ranBody).2.grows
    have onTest := (expr_emitted tested).grows
    have toTest := leaves forks.first (jumping f.first)
    have second := onTest.aside _ (toTest.aside _ forks.second forks.second_ne_first)
    have third := onTest.aside _ (toTest.aside _ forks.third forks.third_ne_first)
    have toBody := leaves second (branching o f.second f.third)
    have third := onBody.aside _ (toBody.aside _ third (forks.third_ne_second rfl))
    have toExit := leaves third (jumping f.first)
    refine ⟨.loop live forked forks toTest tested toBody ranBody toExit, .alive live ?_⟩
    have grows := (forks.grows.leave (jumping f.first) fun p' aside =>
      (forks.fresh p' aside).1).trans onTest
    have grows := (grows.leave (branching o f.second f.third) fun p' aside =>
      (forks.fresh p' aside).2.1).trans onBody
    exact grows.leave (jumping f.first) fun p' aside => (forks.fresh p' aside).2.2

theorem accounted (s : Stmt) : Accounted s := by
  induction s using Stmt.induction with
  | absent =>
    intro st st' ran
    cases ran
    exact ⟨.absent st, .of_builder rfl⟩
  | bare node =>
    intro st st' ran
    obtain ⟨_, opened, pushed, popped⟩ := bind_run_eq_ok.mp ran
    exact ⟨.bare pushed popped, .of_builder ((pop_builder popped).trans (push_builder pushed))⟩
  | block node stmts each =>
    intro st st' ran
    simp only [stmt] at ran
    obtain ⟨_, opened, pushed, ran⟩ := bind_run_eq_ok.mp ran
    obtain ⟨_, filled, inner, popped⟩ := bind_run_eq_ok.mp ran
    have grown := (Grown.of_builder (push_builder pushed)).trans (accounted_list each inner)
    exact ⟨.block pushed inner popped, grown.trans (.of_builder (pop_builder popped))⟩
  | decl node mutable name type value => exact accounted_decl node mutable name type value
  | assign node target value => exact accounted_assign node target value
  | ret node value => exact accounted_ret node value
  | cond node test yes no yesIH noIH => exact accounted_cond node test yesIH noIH
  | loop node test body bodyIH => exact accounted_loop node test bodyIH
  | unknown node kind =>
    intro st st' ran
    cases ran

theorem stmtList_grown (ran : stmtList stmts st = .ok () st') : Grown st st' :=
  accounted_list (fun s _ => accounted s) ran

theorem stmt_run (ran : stmt s st = .ok () st') : StmtRun s st st' :=
  (accounted s _ _ ran).1

theorem stmt_grown (ran : stmt s st = .ok () st') : Grown st st' :=
  (accounted s _ _ ran).2

theorem body_ok {module : NodeId} (ran : body module f st = .ok () st') :
    ∃ inModule inFunction filled closed, push .module module st = .ok () inModule ∧
      push .function f.id inModule = .ok () inFunction ∧
      stmt f.body { inFunction with
        builder := inFunction.builder.newBlock.1.select inFunction.builder.newBlock.2 } =
          .ok () filled ∧
      pop f.id filled = .ok () closed ∧ pop module closed = .ok () st' := by
  obtain ⟨_, inModule, pushedModule, rest⟩ := bind_run_eq_ok.mp ran
  obtain ⟨_, inFunction, pushedFunction, rest⟩ := bind_run_eq_ok.mp rest
  rw [produce_bind, build_bind] at rest
  obtain ⟨_, filled, ranBody, rest⟩ := bind_run_eq_ok.mp rest
  obtain ⟨_, closed, poppedFunction, poppedModule⟩ := bind_run_eq_ok.mp rest
  exact ⟨inModule, inFunction, filled, closed, pushedModule, pushedFunction, ranBody,
    poppedFunction, poppedModule⟩

end MiddleEnd.Lowering
