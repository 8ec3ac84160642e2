import MiddleEnd.Proofs.Lowering.Agreement
import MiddleEnd.Proofs.Lowering.Bookkeeping
import Mathlib.Data.List.Forall2

/-!
Code behind a terminator has no part in what is built.
-/

namespace MiddleEnd

open Lowering

namespace Lowering

open Scoping (ScopeKind)

variable {α β : Type} {st st' : State}

/-! Runs in dead code. -/

def stateAfter : EStateM.Result LowerError State α → State
  | .ok _ st => st
  | .error _ st => st

/-- While requests are ignored, the builder stays as it is, also where the run fails. -/
def Quiet (x : LowerM α) : Prop :=
  ∀ st, st.builder.place? = none → (stateAfter (x st)).builder = st.builder

namespace Quiet

theorem bind {f : α → LowerM β} (first : Quiet x) (second : ∀ a, Quiet (f a)) :
    Quiet (x >>= f) := by
  intro st dead
  have onFirst := first st dead
  change (stateAfter (EStateM.bind x f st)).builder = st.builder
  cases ran : x st with
  | error e middle =>
    rw [ran] at onFirst
    simp only [EStateM.bind, ran]
    exact onFirst
  | ok a middle =>
    rw [ran] at onFirst
    simp only [EStateM.bind, ran]
    have same : middle.builder = st.builder := onFirst
    rw [← same] at dead ⊢
    exact second a middle dead

theorem of_run (quiet : Quiet y) (same : ∀ st, st.builder.place? = none → x st = y st) :
    Quiet x := by
  intro st dead
  rw [same st dead]
  exact quiet st dead

theorem pure (a : α) : Quiet (Pure.pure a) := fun _ _ => rfl

theorem fail (feature : Feature) (node : NodeId) : Quiet (fail feature node : LowerM α) :=
  fun _ _ => rfl

theorem isLive : Quiet isLive := fun _ _ => rfl

theorem define (type : Ir.Builder → Ir.Ty) (instr : Ir.ValueId → Ir.Instr) :
    Quiet (produce fun builder => builder.define (type builder) instr) := by
  intro st dead
  rw [produce_run, Ir.Builder.define_dead dead]
  rfl

theorem store (slot : Ir.LocalId) (o : Ir.Operand) :
    Quiet (build fun builder => builder.store slot o) := by
  intro st dead
  change st.builder.store slot o = st.builder
  rw [Ir.Builder.store, Ir.Builder.isTerminated_dead dead, if_pos rfl]

theorem terminate (term : Ir.Terminator) : Quiet (build fun builder => builder.terminate term) :=
  fun _ dead => Ir.Builder.terminate_dead dead term

theorem get_bind (f : State → LowerM α) (st : State) : (get >>= f) st = f st st := rfl

theorem push (kind : ScopeKind) (id : NodeId) : Quiet (push kind id) := by
  intro st _
  rw [Lowering.push, get_bind]
  cases st.stack.push st.table kind id <;> rfl

theorem pop (id : NodeId) : Quiet (pop id) := by
  intro st _
  rw [Lowering.pop, get_bind]
  cases st.stack.pop st.table id <;> rfl

theorem declare (name : Text) (mutable : Bool) (type : Ty) (storage : Ir.LocalId) :
    Quiet (declare name mutable type storage) := by
  intro st _
  rw [Lowering.declare, get_bind]
  obtain ⟨table, result⟩ := st.stack.declare st.table name mutable type storage
  cases result <;> rfl

theorem resolve (node : NodeId) (name : Text) : Quiet (resolve node name) := by
  have unresolved : Quiet (resolve.unresolved node name) := fun _ _ => rfl
  have found : Quiet (binding? name) := fun _ _ => rfl
  refine isLive.bind fun live => found.bind fun b? => ?_
  cases b? with
  | none => exact unresolved
  | some b =>
    simp only
    split
    · exact unresolved
    · exact .pure b

theorem expr (e : Expr) : Quiet (expr e) := by
  induction e with
  | absent | unknown => exact .fail _ _
  | int | bool => exact .pure _
  | ident node name =>
    refine (resolve node.id name).bind fun b => isLive.bind fun live => ?_
    split
    · exact .define _ _
    · exact .pure _
  | unary node op operand ih =>
    refine ih.bind fun o => ?_
    cases op with
    | not => exact .define (fun _ => o.type) _
    | other code => exact .fail _ _
  | binary node op left right leftIH rightIH =>
    refine leftIH.bind fun l => rightIH.bind fun r => ?_
    split
    · exact .define (fun _ => .i1) _
    · exact .define (fun _ => l.type) _
    · exact .fail _ _

theorem decl (node : Node) (mutable : Bool) (name : Text) (type : Ty) (value : Expr) :
    Quiet (stmt (.decl node mutable name type value)) := by
  have declares := declare name mutable type Ir.noId
  cases stored : storageType? type with
  | none =>
    rw [decl_unstored node mutable name value stored]
    exact .fail _ _
  | some slotType =>
    refine of_run ?_ fun st dead => decl_dead node mutable name value stored dead
    split
    · exact declares
    · exact (expr value).bind fun _ => declares

theorem list (each : ∀ s ∈ stmts, Quiet (stmt s)) : Quiet (stmtList stmts) := by
  induction stmts with
  | nil => exact .pure ()
  | cons s rest ih =>
    simp only [stmtList]
    exact (each s (by simp)).bind fun _ => ih fun s member => each s (by simp [member])

theorem stmt (s : Stmt) : Quiet (stmt s) := by
  induction s using Stmt.induction with
  | absent => exact .pure ()
  | bare node => exact (push .block node.id).bind fun _ => pop node.id
  | block node stmts each =>
    simp only [Lowering.stmt]
    exact (push .block node.id).bind fun _ => (list each).bind fun _ => pop node.id
  | decl node mutable name type value => exact decl node mutable name type value
  | assign node target value =>
    cases target with
    | ident targetNode name =>
      refine (resolve targetNode.id name).bind fun b => (expr value).bind fun o =>
        isLive.bind fun live => ?_
      split
      · exact .store b.storage o
      · exact .pure ()
    | _ => exact .fail _ _
  | ret node value =>
    cases absent : value.isAbsent with
    | true =>
      cases value with
      | absent => exact .terminate (.ret none)
      | _ => cases absent
    | false =>
      rw [ret_eq node absent]
      exact (expr value).bind fun o => .terminate (.ret (some o))
  | cond node test yes no yesIH noIH =>
    obtain ⟨rest, whole, behind, -⟩ := cond_eq node test yes no
    rw [whole]
    exact (expr test).bind fun o => (yesIH.bind fun _ => noIH).of_run (behind o)
  | loop node test body bodyIH =>
    exact ((expr test).bind fun _ => bodyIH).of_run fun st dead => loop_dead node test body dead
  | unknown node kind => exact .fail _ _

end Quiet

end Lowering

/-! Trees that differ behind returns. -/

mutual
/-- The statements are the same up to what follows returns in their blocks: there, statements may be
left out, added or replaced. -/
inductive Stmt.UpToReturns : Stmt → Stmt → Prop where
  | refl (s : Stmt) : Stmt.UpToReturns s s
  | block (node : Node) {stmts stmts' : List Stmt} (inside : Stmt.ListUpToReturns stmts stmts') :
      Stmt.UpToReturns (.block node (some stmts)) (.block node (some stmts'))
  | cond (node : Node) (test : Expr) {yes yes' no no' : Stmt} (onYes : Stmt.UpToReturns yes yes')
      (onNo : Stmt.UpToReturns no no') :
      Stmt.UpToReturns (.cond node test yes no) (.cond node test yes' no')
  | loop (node : Node) (test : Expr) {body body' : Stmt} (onBody : Stmt.UpToReturns body body') :
      Stmt.UpToReturns (.loop node test body) (.loop node test body')
inductive Stmt.ListUpToReturns : List Stmt → List Stmt → Prop where
  | nil : Stmt.ListUpToReturns [] []
  | cons {s s' : Stmt} {rest rest' : List Stmt} (head : Stmt.UpToReturns s s')
      (tail : Stmt.ListUpToReturns rest rest') : Stmt.ListUpToReturns (s :: rest) (s' :: rest')
  | behind (node : Node) (value : Expr) (rest rest' : List Stmt) :
      Stmt.ListUpToReturns (.ret node value :: rest) (.ret node value :: rest')
end

theorem Stmt.listUpToReturns_refl (stmts : List Stmt) : ListUpToReturns stmts stmts := by
  induction stmts with
  | nil => exact .nil
  | cons s rest ih => exact .cons (.refl s) ih

theorem Stmt.UpToReturns.isAbsent {s : Stmt} (related : s.UpToReturns s') :
    s'.isAbsent = s.isAbsent := by
  cases related <;> rfl

structure Func.UpToReturns (f f' : Func) : Prop where
  id : f'.id = f.id
  name : f'.name = f.name
  result : f'.result = f.result
  body : f.body.UpToReturns f'.body

theorem Func.UpToReturns.refl (f : Func) : f.UpToReturns f := ⟨rfl, rfl, rfl, .refl _⟩

structure Module.UpToReturns (m m' : Module) : Prop where
  id : m'.id = m.id
  entries : List.Forall₂ (Option.Rel Func.UpToReturns) m.entries m'.entries

namespace Lowering

open Scoping (Binding ScopeKind Table)

variable {α : Type} {st st' : State}

/-- Two states with the same code that show the same names with the same bindings, wherever these
are recorded. -/
structure Same (st st' : State) : Prop where
  regular : st.Regular
  regular' : st'.Regular
  builder : st'.builder = st.builder
  view : st'.view = st.view

namespace Same

variable {e e' : State}

theorem rebuilt (same : Same st st') (change : Ir.Builder → Ir.Builder) :
    Same { st with builder := change st.builder } { st' with builder := change st'.builder } where
  regular := same.regular.rebuilt _
  regular' := same.regular'.rebuilt _
  builder := congrArg change same.builder
  view := same.view

theorem push (same : Same st st') {id : NodeId} (ran : push kind id st = .ok () e)
    (ran' : push kind id st' = .ok () e') : Same e e' := by
  obtain ⟨regular, view⟩ := same.regular.push ran
  obtain ⟨regular', view'⟩ := same.regular'.push ran'
  refine ⟨regular, regular', ?_, ?_⟩
  · rw [push_builder ran, push_builder ran', same.builder]
  · rw [view, view', same.view]

theorem declare (same : Same st st') {name : Text} {mutable : Bool} {type : Ty}
    {storage : Ir.LocalId} (ran : declare name mutable type storage st = .ok () e)
    (ran' : declare name mutable type storage st' = .ok () e') : Same e e' := by
  obtain ⟨regular, view, -⟩ := same.regular.declare ran
  obtain ⟨regular', view', -⟩ := same.regular'.declare ran'
  refine ⟨regular, regular', ?_, ?_⟩
  · rw [declare_builder ran, declare_builder ran', same.builder]
  · rw [view, view', same.view]

theorem resolve (same : Same st st') (ran : resolve node name st = .ok b e)
    (ran' : resolve node name st' = .ok b' e') : b' = b ∧ e = st ∧ e' = st' := by
  obtain ⟨rfl, found⟩ := resolve_seen ran
  obtain ⟨rfl, found'⟩ := resolve_seen ran'
  rw [same.view, found] at found'
  exact ⟨(Option.some.inj found').symm, rfl, rfl⟩

theorem produce (same : Same st st') {request : Ir.Builder → Ir.Builder × α} {a a' : α}
    (ran : produce request st = .ok a e) (ran' : produce request st' = .ok a' e') :
    a' = a ∧ Same e e' := by
  rw [produce_run] at ran ran'
  cases ran
  cases ran'
  exact ⟨by rw [same.builder], same.rebuilt fun builder => (request builder).1⟩

theorem place (same : Same st st') : st'.builder.place? = st.builder.place? := by
  rw [same.builder]

theorem expr (same : Same st st') (ran : expr value st = .ok o e)
    (ran' : expr value st' = .ok o' e') : o' = o ∧ Same e e' := by
  replace ran := expr_run ran
  replace ran' := expr_run ran'
  induction ran generalizing st' o' e' with
  | int | bool =>
    cases ran'
    exact ⟨rfl, same⟩
  | unread resolved dead =>
    cases ran' with
    | unread resolved' =>
      obtain ⟨rfl, -⟩ := same.resolve resolved resolved'
      exact ⟨rfl, same⟩
    | load _ live => cases (live.symm.trans same.place).trans dead
  | load resolved live made =>
    cases ran' with
    | unread _ dead => cases (dead.symm.trans same.place).trans live
    | load resolved' _ made' =>
      obtain ⟨rfl, -⟩ := same.resolve resolved resolved'
      exact same.produce made made'
  | not _ made inner =>
    cases ran' with
    | not inner' made' =>
      obtain ⟨rfl, same⟩ := inner same inner'
      exact same.produce made made'
  | binary _ _ operates made left right =>
    cases ran' with
    | binary left' right' operates' made' =>
      obtain ⟨rfl, same⟩ := left same left'
      obtain ⟨rfl, same⟩ := right same right'
      obtain ⟨rfl, rfl⟩ := operates.unique operates'
      exact same.produce made made'

theorem initializes (same : Same st st') (fills : Initializes slot value st e)
    (fills' : Initializes slot value st' e') : Same e e' := by
  cases fills with
  | absent absent =>
    cases fills' with
    | absent => exact same
    | stored present => cases absent.symm.trans present
  | @stored computed o present ran =>
    cases fills' with
    | absent absent => cases absent.symm.trans present
    | stored _ ran' =>
      obtain ⟨rfl, same⟩ := same.expr ran ran'
      exact same.rebuilt fun builder => builder.store slot _

theorem joins (same : Same st st') (absent : no'.isAbsent = no.isAbsent) (ended : Joins f no st e)
    (ended' : Joins f no' st' e') : Same e e' := by
  cases ended with
  | onward =>
    cases ended' with
    | onward => exact same
    | jump present => cases present.symm.trans absent
  | jump present =>
    cases ended' with
    | onward => cases absent.trans present
    | jump => exact same.rebuilt fun builder => builder.leave (.goto f.third) f.third

end Same

/-- Two states that are the same once the innermost scope is closed. -/
structure SameAround (st st' : State) : Prop where
  regular : st.Regular
  regular' : st'.Regular
  builder : st'.builder = st.builder
  view : st'.view.tail = st.view.tail

theorem Same.around (same : Same st st') : SameAround st st' :=
  ⟨same.regular, same.regular', same.builder, congrArg List.tail same.view⟩

theorem SameAround.pop (same : SameAround st st') {id : NodeId}
    (ran : pop id st = .ok () e) (ran' : pop id st' = .ok () e') : Same e e' := by
  obtain ⟨regular, view⟩ := same.regular.pop ran
  obtain ⟨regular', view'⟩ := same.regular'.pop ran'
  refine ⟨regular, regular', ?_, ?_⟩
  · rw [pop_builder ran, pop_builder ran', same.builder]
  · rw [view, view', same.view]

/-- From states that are the same, the statements lead to states that are the same. -/
def KeepsSame (s s' : Stmt) : Prop :=
  ∀ st st' e e', Same st st' → stmt s st = .ok () e → stmt s' st' = .ok () e' → Same e e'

theorem list_behind (regular : st.Regular) (dead : st.builder.place? = none)
    (ran : stmtList stmts st = .ok () e) :
    e.Regular ∧ e.builder = st.builder ∧ e.view.tail = st.view.tail := by
  have records := (list_allots (fun s _ st st' => stmt_allots) ran).records
  obtain ⟨regular', view⟩ := records.regular regular
  exact ⟨regular', (stmtList_grown ran).dead dead, view⟩

theorem list_keepsSame (each : ∀ s ∈ stmts, ∀ s', s.UpToReturns s' → KeepsSame s s')
    (related : Stmt.ListUpToReturns stmts stmts') (same : Same st st')
    (ran : stmtList stmts st = .ok () e) (ran' : stmtList stmts' st' = .ok () e') :
    SameAround e e' := by
  induction stmts generalizing stmts' st st' with
  | nil =>
    cases related
    cases ran
    cases ran'
    exact same.around
  | cons s rest ih =>
    obtain ⟨middle, ranHead, ranRest⟩ := stmtList_cons ran
    cases related with
    | cons head tail =>
      obtain ⟨middle', ranHead', ranRest'⟩ := stmtList_cons ran'
      have same := each s (by simp) _ head _ _ _ _ same ranHead ranHead'
      exact ih (fun s member => each s (by simp [member])) tail same ranRest ranRest'
    | behind node value rest rest' =>
      obtain ⟨middle', ranHead', ranRest'⟩ := stmtList_cons ran'
      have same := each _ (by simp) _ (.refl _) _ _ _ _ same ranHead ranHead'
      have dead : middle.builder.place? = none := by
        have closed := stmt_live ranHead
        rwa [Stmt.closes, Bool.not_true, Bool.and_false, Option.isSome_eq_false_iff,
          Option.isNone_iff_eq_none] at closed
      obtain ⟨regular, builder, view⟩ := list_behind same.regular dead ranRest
      obtain ⟨regular', builder', view'⟩ :=
        list_behind same.regular' (same.builder ▸ dead) ranRest'
      refine ⟨regular, regular', ?_, ?_⟩
      · rw [builder, builder', same.builder]
      · rw [view, view', same.view]

theorem keepsSame_block (node : Node) (each : ∀ s ∈ stmts, ∀ s', s.UpToReturns s' → KeepsSame s s')
    (related : Stmt.ListUpToReturns stmts stmts') :
    KeepsSame (.block node (some stmts)) (.block node (some stmts')) := by
  intro st st' e e' same ran ran'
  cases stmt_run ran with
  | block pushed inner popped =>
    cases stmt_run ran' with
    | block pushed' inner' popped' =>
      have inside := list_keepsSame each related (same.push pushed pushed') inner inner'
      exact inside.pop popped popped'

theorem keepsSame_decl (node : Node) (mutable : Bool) (name : Text) (type : Ty) (value : Expr) :
    KeepsSame (.decl node mutable name type value) (.decl node mutable name type value) := by
  intro st st' e e' same ran ran'
  cases stmt_run ran with
  | declBehind _ dead declared =>
    cases stmt_run ran' with
    | declBehind _ _ declared' => exact same.declare declared declared'
    | decl _ live => cases (live.symm.trans same.place).trans dead
  | @decl _ _ _ _ _ slotType _ _ _ _ stored live fills declared =>
    cases stmt_run ran' with
    | declBehind _ dead => cases (dead.symm.trans same.place).trans live
    | decl stored' _ fills' declared' =>
      cases stored.symm.trans stored'
      rw [same.builder] at fills' declared'
      have reserved := same.rebuilt fun builder => (builder.alloc name slotType).1
      rw [same.builder] at reserved
      exact (reserved.initializes fills fills').declare declared declared'

theorem keepsSame_cond (node : Node) (test : Expr) (onYes : KeepsSame yes yes')
    (onNo : KeepsSame no no') (absent : no'.isAbsent = no.isAbsent) :
    KeepsSame (.cond node test yes no) (.cond node test yes' no') := by
  intro st st' e e' same ran ran'
  cases stmt_run ran with
  | condBehind dead _ ranYes ranNo =>
    cases stmt_run ran' with
    | condBehind _ _ ranYes' ranNo' =>
      exact onNo _ _ _ _ (onYes _ _ _ _ same ranYes ranYes') ranNo ranNo'
    | cond live => cases (live.symm.trans same.place).trans dead
  | @cond _ _ _ _ _ _ _ _ _ _ f _ _ live tested _ forked _ _ ranYes _ ranNo joins =>
    cases stmt_run ran' with
    | condBehind dead => cases (dead.symm.trans same.place).trans live
    | @cond _ _ _ _ _ _ _ _ _ o _ _ _ _ tested' _ forked' _ _ ranYes' _ ranNo' joins' =>
      obtain ⟨rfl, same⟩ := same.expr tested tested'
      rw [same.builder, absent] at forked'
      cases forked.symm.trans forked'
      have inYes := same.rebuilt fun _ => f.builder.leave (.branch o f.first f.second) f.first
      have behindYes := onYes _ _ _ _ inYes ranYes ranYes'
      have inNo := behindYes.rebuilt fun builder => builder.leave (.goto f.third) f.second
      exact (onNo _ _ _ _ inNo ranNo ranNo').joins absent joins joins'

theorem keepsSame_loop (node : Node) (test : Expr) {body : Stmt} (onBody : KeepsSame body body') :
    KeepsSame (.loop node test body) (.loop node test body') := by
  intro st st' e e' same ran ran'
  cases stmt_run ran with
  | loopBehind dead _ ranBody =>
    cases stmt_run ran' with
    | loopBehind _ _ ranBody' => exact onBody _ _ _ _ same ranBody ranBody'
    | loop live => cases (live.symm.trans same.place).trans dead
  | @loop _ _ _ _ _ _ _ f _ live forked _ _ tested _ ranBody =>
    cases stmt_run ran' with
    | loopBehind dead => cases (dead.symm.trans same.place).trans live
    | @loop _ _ _ _ _ _ o _ _ _ forked' _ _ tested' _ ranBody' =>
      rw [same.builder] at forked'
      cases forked.symm.trans forked'
      have inTest := same.rebuilt fun _ => f.builder.leave (.goto f.first) f.first
      obtain ⟨rfl, same⟩ := inTest.expr tested tested'
      have inBody := same.rebuilt fun builder =>
        builder.leave (.branch o f.second f.third) f.second
      exact (onBody _ _ _ _ inBody ranBody ranBody').rebuilt fun builder =>
        builder.leave (.goto f.first) f.third

theorem keepsSame {s : Stmt} (related : s.UpToReturns s') : KeepsSame s s' := by
  induction s using Stmt.induction generalizing s' with
  | absent =>
    cases related
    intro st st' e e' same ran ran'
    cases ran
    cases ran'
    exact same
  | bare node =>
    cases related
    intro st st' e e' same ran ran'
    cases stmt_run ran with
    | bare pushed popped =>
      cases stmt_run ran' with
      | bare pushed' popped' => exact (same.push pushed pushed').around.pop popped popped'
  | block node stmts each =>
    have each : ∀ s ∈ stmts, ∀ s', s.UpToReturns s' → KeepsSame s s' :=
      fun s member s' => @each s member s'
    cases related with
    | refl => exact keepsSame_block node each (Stmt.listUpToReturns_refl stmts)
    | block _ inside => exact keepsSame_block node each inside
  | decl node mutable name type value =>
    cases related
    exact keepsSame_decl node mutable name type value
  | assign node target value =>
    cases related
    intro st st' e e' same ran ran'
    cases stmt_run ran with
    | assign resolved ranValue =>
      cases stmt_run ran' with
      | @assign _ _ _ _ b _ _ o resolved' ranValue' =>
        obtain ⟨rfl, -, -⟩ := same.resolve resolved resolved'
        obtain ⟨rfl, same⟩ := same.expr ranValue ranValue'
        exact same.rebuilt fun builder => builder.store b.storage o
  | ret node value =>
    cases related
    intro st st' e e' same ran ran'
    cases stmt_run ran with
    | leave =>
      cases stmt_run ran' with
      | leave => exact same.rebuilt fun builder => builder.terminate (.ret none)
      | ret present => cases present
    | ret present ranValue =>
      cases stmt_run ran' with
      | leave => cases present
      | @ret _ _ _ _ o _ ranValue' =>
        obtain ⟨rfl, same⟩ := same.expr ranValue ranValue'
        exact same.rebuilt fun builder => builder.terminate (.ret (some o))
  | cond node test yes no yesIH noIH =>
    cases related with
    | refl => exact keepsSame_cond node test (yesIH (.refl yes)) (noIH (.refl no)) rfl
    | cond _ _ onYes onNo => exact keepsSame_cond node test (yesIH onYes) (noIH onNo) onNo.isAbsent
  | loop node test body bodyIH =>
    cases related with
    | refl => exact keepsSame_loop node test (bodyIH (.refl body))
    | loop _ _ onBody => exact keepsSame_loop node test (bodyIH onBody)
  | unknown node kind =>
    cases related
    intro st st' e e' same ran
    cases ran

theorem Same.body (same : Same st st') {module : NodeId} (related : f.UpToReturns f')
    (ran : body module f st = .ok () e) (ran' : body module f' st' = .ok () e') :
    Same e e' := by
  obtain ⟨inModule, inFunction, filled, closed, pushedModule, pushedFunction, ranBody,
    poppedFunction, poppedModule⟩ := body_ok ran
  obtain ⟨inModule', inFunction', filled', closed', pushedModule', pushedFunction', ranBody',
    poppedFunction', poppedModule'⟩ := body_ok ran'
  rw [related.id] at pushedFunction' poppedFunction'
  have opened := (same.push pushedModule pushedModule').push pushedFunction pushedFunction'
  have entered := opened.rebuilt fun builder => builder.newBlock.1.select builder.newBlock.2
  have left := keepsSame related.body _ _ _ _ entered ranBody ranBody'
  exact (left.around.pop poppedFunction poppedFunction').around.pop poppedModule poppedModule'

theorem func_same {module : NodeId} (related : f.UpToReturns f') (coherent : t.Coherent)
    (coherent' : t'.Coherent) (ran : func module t f = (.ok g, last))
    (ran' : func module t' f' = (.ok g', last')) : g' = g ∧ last.Coherent ∧ last'.Coherent := by
  obtain ⟨result, st, known, ranBody, rfl, rfl⟩ := func_eq_ok ran
  obtain ⟨result', st', known', ranBody', rfl, rfl⟩ := func_eq_ok ran'
  rw [related.result, known] at known'
  cases known'
  rw [related.name] at ranBody'
  have start : Same ⟨.start f.name result [], .empty, t⟩ ⟨.start f.name result [], .empty, t'⟩ :=
    ⟨.start coherent, .start coherent', rfl, rfl⟩
  have same := start.body related ranBody ranBody'
  exact ⟨by rw [same.builder], same.regular.coherent, same.regular'.coherent⟩

theorem InTurn.same {module : NodeId}
    (related : List.Forall₂ (Option.Rel Func.UpToReturns) entries entries') (coherent : t.Coherent)
    (coherent' : t'.Coherent) (turn : InTurn module t entries funcs last)
    (turn' : InTurn module t' entries' funcs' last') : funcs' = funcs := by
  induction turn generalizing t' entries' funcs' with
  | nil =>
    cases related
    cases turn'
    rfl
  | cons head tail ih =>
    cases turn' with
    | nil => cases related
    | cons head' tail' =>
      cases related with
      | cons first others =>
        cases first with
        | some first =>
          obtain ⟨rfl, coherent, coherent'⟩ := func_same first coherent coherent' head head'
          rw [ih others coherent coherent' tail']

/-- Behind a terminator, lowering a statement leaves the function under construction as it is, even
if it fails. So modules that differ only in what follows returns in their blocks have the same
code. -/
theorem dead_code_emits_nothing :
    (∀ (s : Stmt) (st : State), st.builder.isTerminated = true →
      (stateAfter (stmt s st)).builder = st.builder) ∧
    ∀ (canceled : Bool) (m m' : Module), m.UpToReturns m' →
      ∀ t t' : Table, t.Coherent → t'.Coherent → ∀ lowered lowered',
        (module canceled m t).result = .ok lowered →
        (module canceled m' t').result = .ok lowered' → lowered' = lowered := by
  refine ⟨fun s st closed => ?_, fun canceled m m' related t t' coherent coherent' lowered lowered'
    succeeded succeeded' => ?_⟩
  · rw [Ir.Builder.isTerminated_eq] at closed
    exact Quiet.stmt s st (by simpa using closed)
  · obtain ⟨funcs, collected, rfl⟩ := module_eq_ok succeeded
    obtain ⟨funcs', collected', rfl⟩ := module_eq_ok succeeded'
    rw [related.id] at collected'
    rw [InTurn.same related.entries coherent coherent' (inTurn_of_collect collected) (inTurn_of_collect collected')]

/-- Returns from inside a loop, with these statements behind the return. -/
def returning (behind : List Stmt) : Module where
  id := 1
  name := [109]
  funcs := some [some {
    id := 2
    name := [102]
    result := .int
    body := .block ⟨3, []⟩ (some [
      .decl ⟨4, []⟩ true [120] .int (.int ⟨5, []⟩ 1),
      .loop ⟨6, []⟩ (.bool ⟨7, []⟩ true)
        (.block ⟨8, []⟩ (some (.ret ⟨9, []⟩ (.ident ⟨10, []⟩ [120]) :: behind)))]) }]

theorem returning_upToReturns (behind behind' : List Stmt) :
    (returning behind).UpToReturns (returning behind') := by
  refine ⟨rfl, .cons (.some ⟨rfl, rfl, rfl, ?_⟩) .nil⟩
  exact .block _ (.cons (.refl _) (.cons (.loop _ _ (.block _ (.behind _ _ _ _))) .nil))

/-- Hides the variable of the function and loops over the new one. -/
def hidden : List Stmt := [
  .decl ⟨11, []⟩ true [120] .bool (.binary ⟨12, []⟩ .eq (.ident ⟨13, []⟩ [120]) (.int ⟨14, []⟩ 0)),
  .loop ⟨15, []⟩ (.ident ⟨16, []⟩ [120])
    (.assign ⟨17, []⟩ (.ident ⟨18, []⟩ [120]) (.bool ⟨19, []⟩ false))]

def behindReturn : State :=
  ⟨((Ir.Builder.start [102] .void []).newBlock.1.select 0).terminate (.ret none), .empty, .empty⟩

/-- Opens a scope before it names what is nowhere declared. -/
def unresolvable : Stmt := .block ⟨3, []⟩ (some [.ret ⟨4, []⟩ (.ident ⟨5, []⟩ [120])])

theorem hidden_emits_nothing :
    (∃ e st, behindReturn.builder.isTerminated = true ∧
      stmt unresolvable behindReturn = .error e st ∧ st.builder = behindReturn.builder) ∧
    ∃ t t' lowered, Table.ofModule (returning hidden) = .ok t ∧
      Table.ofModule (returning []) = .ok t' ∧
      (module false (returning hidden) t).result = .ok lowered ∧
      (module false (returning []) t').result = .ok lowered := by
  obtain ⟨quiet, agree⟩ := dead_code_emits_nothing
  constructor
  · have closed : behindReturn.builder.isTerminated = true := by decide
    have kept := quiet unresolvable behindReturn closed
    obtain ⟨e, st, failed⟩ : ∃ e st, stmt unresolvable behindReturn = .error e st := ⟨_, _, rfl⟩
    rw [failed] at kept
    exact ⟨e, st, closed, failed, kept⟩
  · obtain ⟨t, full⟩ : ∃ t, Table.ofModule (returning hidden) = .ok t :=
      (Table.ofModule_isOk_iff ⟨by decide, by decide⟩).mpr (by decide)
    obtain ⟨t', trimmed⟩ : ∃ t, Table.ofModule (returning []) = .ok t :=
      (Table.ofModule_isOk_iff ⟨by decide, by decide⟩).mpr (by decide)
    obtain ⟨lowered, succeeded⟩ := lowers_of_supported full (by decide)
    obtain ⟨lowered', succeeded'⟩ := lowers_of_supported trimmed (by decide)
    have same := agree false _ _ (returning_upToReturns hidden []) t t'
      (Table.ofModule_passes full).1 (Table.ofModule_passes trimmed).1 _ _ succeeded succeeded'
    exact ⟨t, t', lowered, full, trimmed, succeeded, same ▸ succeeded'⟩

end Lowering

end MiddleEnd
