import MiddleEnd.Proofs.Lowering.Runs
import MiddleEnd.Proofs.Scoping.Extension
import MiddleEnd.Proofs.Syntax.Support

/-!
Lowering in step with the scope check: both have the same scopes open with the same names visible,
and in live code every visible name has storage.
-/

namespace MiddleEnd

open List Option Lowering

/-! What block code has no form for, in the order in which lowering comes to it. -/

namespace Expr

open Lowering (Unimplemented)

def gap? : Expr → Option Unimplemented
  | .absent => some ⟨.missingExpr, 0⟩
  | .unary node op operand =>
    operand.gap?.or (if op = .not then none else some ⟨.unaryOp op, node.id⟩)
  | .binary node op left right =>
    left.gap?.or
      (right.gap?.or (if op ∈ BinaryOp.known then none else some ⟨.binaryOp op, node.id⟩))
  | .unknown node kind => some ⟨.expr kind, node.id⟩
  | _ => none

/-- A value that may be left out. -/
def gapIfAny? (e : Expr) : Option Unimplemented := if e.isAbsent then none else e.gap?

theorem gap?_eq_none (e : Expr) : e.gap? = none ↔ e.Supported := by
  induction e with
  | absent => exact iff_of_false (by simp [gap?]) supported_absent
  | int | bool | ident => exact iff_of_true rfl (supported_leaf rfl rfl rfl)
  | unary node op operand ih => simp [gap?, supported_unary, ih]
  | binary node op left right leftIH rightIH => simp [gap?, supported_binary, leftIH, rightIH]
  | unknown node kind => exact iff_of_false (by simp [gap?]) (supported_unknown node kind)

theorem gapIfAny?_eq_none (e : Expr) : e.gapIfAny? = none ↔ e.isAbsent ∨ e.Supported := by
  rw [gapIfAny?, ← gap?_eq_none]
  cases e.isAbsent <;> simp

end Expr

namespace Lowering

theorem storageType?_isSome (type : Ty) :
    (storageType? type).isSome ↔ type ∈ [Ty.int, Ty.bool] := by
  cases type <;> simp [storageType?]

theorem resultType?_isSome (type : Ty) :
    (resultType? type).isSome ↔ type ∈ [Ty.unit, Ty.int, Ty.bool] := by
  cases type <;> simp [resultType?, storageType?]

end Lowering

open Lowering (Unimplemented storageType? resultType?)

mutual
def Stmt.gap? : Stmt → Option Unimplemented
  | .block _ (some stmts) => Stmt.gapInList? stmts
  | .decl node _ _ type value =>
    if (storageType? type).isSome then value.gapIfAny? else some ⟨.storage type, node.id⟩
  | .assign node target value =>
    if target.isAbsent then some ⟨.missingTarget, node.id⟩ else target.gap?.or value.gap?
  | .ret _ value => value.gapIfAny?
  | .cond _ test yes no => test.gap?.or ((Stmt.gap? yes).or (Stmt.gap? no))
  | .loop _ test body => test.gap?.or (Stmt.gap? body)
  | .unknown node kind => some ⟨.stmt kind, node.id⟩
  | _ => none
def Stmt.gapInList? : List Stmt → Option Unimplemented
  | [] => none
  | s :: rest => (Stmt.gap? s).or (Stmt.gapInList? rest)
end

theorem Stmt.gapInList?_eq_none : gapInList? stmts = none ↔ ∀ s ∈ stmts, s.gap? = none := by
  induction stmts with
  | nil => simp [gapInList?]
  | cons s rest ih => simp [gapInList?, ih]

theorem Stmt.gap?_eq_none (s : Stmt) : s.gap? = none ↔ s.Supported := by
  induction s using Stmt.induction with
  | absent => simp [gap?, Supported]
  | bare node => simp [gap?, Supported, Visited.isSupported]
  | block node stmts each =>
    rw [gap?, gapInList?_eq_none, supported_block, forall_mem_nodesOfList]
    exact forall₂_congr each
  | decl node mutable name type value =>
    rw [gap?, supported_decl, ← storageType?_isSome, ← Expr.gapIfAny?_eq_none]
    cases (storageType? type).isSome <;> simp
  | assign node target value =>
    rw [gap?, supported_assign, ← Expr.gap?_eq_none, ← Expr.gap?_eq_none]
    cases target <;> simp [Expr.isAbsent, Expr.gap?]
  | ret node value => rw [gap?, supported_ret, Expr.gapIfAny?_eq_none]
  | cond node test yes no yesIH noIH =>
    rw [gap?, supported_cond, ← Expr.gap?_eq_none, ← yesIH, ← noIH]
    simp
  | loop node test body ih =>
    rw [gap?, supported_loop, ← Expr.gap?_eq_none, ← ih]
    simp
  | unknown node kind => exact iff_of_false (by simp [gap?]) (supported_unknown node kind)

def Func.gap? (f : Func) : Option Unimplemented :=
  if (resultType? f.result).isSome then f.body.gap? else some ⟨.result f.result, f.id⟩

theorem Func.gap?_eq_none (f : Func) : f.gap? = none ↔ f.Supported := by
  rw [gap?, supported_iff, ← resultType?_isSome, ← Stmt.gap?_eq_none]
  cases (resultType? f.result).isSome <;> simp

namespace Lowering

open Scoping (Binding BindingRef Chained Checker Frame ScopeKind Stack Table)

variable {α β : Type} {gap gap' : Option Unimplemented} {st : State}

theorem bind_run {f : α → LowerM β} (ran : x st = .ok a st') : (x >>= f) st = f a st' := by
  change EStateM.bind x f st = _
  rw [EStateM.bind, ran]

theorem Grown.live (grown : Grown st st') (live : st'.builder.place?.isSome) :
    st.builder.place?.isSome := by
  cases place : st.builder.place? with
  | some p => rfl
  | none =>
    rw [grown.dead place, place] at live
    cases live

/-- From a state, the steps succeed where block code has a form for everything, and else fail over
the first gap. -/
def Decides (gap : Option Unimplemented) (x : LowerM α) (st : State) (post : α → State → Prop) :
    Prop :=
  match x st with
  | .ok a st' => gap = none ∧ st.table.Alike st'.table ∧ post a st'
  | .error e st' => gap.map .unimplemented = some e ∧ st.table.Alike st'.table

namespace Decides

variable {x : LowerM α} {post : α → State → Prop}

theorem of_ok (ran : x st = .ok a st') (alike : st.table.Alike st'.table) (reached : post a st') :
    Decides none x st post := by
  rw [Decides, ran]
  exact ⟨rfl, alike, reached⟩

theorem of_fail : Decides (some ⟨feature, node⟩) (fail feature node) st post :=
  ⟨rfl, .refl _⟩

theorem of_run (run : x st = y st₁) (table : st₁.table = st.table)
    (decides : Decides gap y st₁ post) : Decides gap x st post := by
  rw [Decides, run, ← table]
  exact decides

theorem imp {post' : α → State → Prop} (decides : Decides gap x st post)
    (weaker : ∀ a st', x st = .ok a st' → post a st' → post' a st') : Decides gap x st post' := by
  rw [Decides] at decides ⊢
  cases ran : x st with
  | ok a st' =>
    rw [ran] at decides
    exact ⟨decides.1, decides.2.1, weaker a st' ran decides.2.2⟩
  | error e st' =>
    rw [ran] at decides
    exact decides

theorem bind {f : α → LowerM β} {post' : β → State → Prop} (first : Decides gap x st post)
    (second : ∀ a st', x st = .ok a st' → post a st' → Decides gap' (f a) st' post') :
    Decides (gap.or gap') (x >>= f) st post' := by
  rw [Decides]
  change match EStateM.bind x f st with
    | .ok _ _ => _
    | .error _ _ => _
  rw [Decides] at first
  cases ran : x st with
  | error e st' =>
    rw [ran] at first
    simp only [EStateM.bind, ran]
    obtain ⟨u, rfl, same⟩ := map_eq_some_iff.mp first.1
    exact ⟨congrArg some same, first.2⟩
  | ok a st' =>
    rw [ran] at first
    obtain ⟨rfl, alike, reached⟩ := first
    have rest := second a st' ran reached
    rw [Decides] at rest
    simp only [EStateM.bind, ran, none_or]
    cases ran' : f a st' with
    | ok b st'' =>
      rw [ran'] at rest
      exact ⟨rest.1, alike.trans rest.2.1, rest.2.2⟩
    | error e st'' =>
      rw [ran'] at rest
      exact ⟨rest.1, alike.trans rest.2⟩

theorem followed {f : α → LowerM β} {post' : β → State → Prop} (first : Decides gap x st post)
    (second : ∀ a st', x st = .ok a st' → post a st' → Decides none (f a) st' post') :
    Decides gap (x >>= f) st post' := by
  rw [← or_none (o := gap)]
  exact first.bind second

end Decides

/-- Every name visible in the frame has storage. -/
def Stored (t : Table) (frame : Frame) : Prop :=
  ∀ name ref b, frame.visible.lookup name = some ref → t.binding? ref = some b → 0 ≤ b.storage

theorem Stored.declares (stored : Stored t frame) (declares : t.Declares t' scope ref b)
    (apart : 0 ≤ b.storage ∨ ∀ name, frame.visible.lookup name ≠ some ref) : Stored t' frame := by
  intro name ref' b' visible binding
  rw [declares.binding] at binding
  split at binding
  · next same =>
    cases binding
    exact apart.resolve_right fun elsewhere => elsewhere name (same ▸ visible)
  · exact stored name ref' b' visible binding

/-- Lowering has come as far as the check, against a table with all scopes and names of the table
that the check will end with. -/
structure InStep (final : Table) (c : Checker) (st : State) : Prop where
  kept : c.Kept
  stack : st.stack = c.stack
  alike : final.Alike st.table
  bound : ∀ frame ∈ c.stack.frames, ∀ name ref, frame.visible.lookup name = some ref →
    final.find? frame.scope name = some ref
  stored : st.builder.place?.isSome → ∀ frame ∈ c.stack.frames, Stored st.table frame

/-- Lowering went on with the check, and open scopes around the innermost one kept their storage. -/
structure Advances (final : Table) (c' : Checker) (st st' : State) : Prop where
  inStep : InStep final c' st'
  outer : ∀ frame ∈ c'.stack.frames.tail, Stored st.table frame → Stored st'.table frame

section

variable {final : Table} (coherent : final.Coherent) {c c' : Checker} {st' : State}

theorem Advances.trans (first : Advances final c st₁ st₂) (second : Advances final c' st₂ st₃)
    (same : c'.stack.frames.tail = c.stack.frames.tail) : Advances final c' st₁ st₃ :=
  ⟨second.inStep, fun frame member stored =>
    second.outer frame member (first.outer frame (same ▸ member) stored)⟩

theorem InStep.rebuilt (inStep : InStep final c st)
    (stored : builder.place?.isSome → ∀ frame ∈ c.stack.frames, Stored st.table frame) :
    InStep final c { st with builder := builder } :=
  ⟨inStep.kept, inStep.stack, inStep.alike, inStep.bound, stored⟩

theorem InStep.report (inStep : InStep final c st) (problems : List Scoping.CheckError) :
    InStep final (c.report problems) st :=
  ⟨(inStep.kept.report problems).kept, inStep.stack, inStep.alike, inStep.bound, inStep.stored⟩

theorem InStep.grown (inStep : InStep final c st) (grown : Grown st st')
    (stack : st'.stack = st.stack) (table : st'.table = st.table) : Advances final c st st' := by
  refine ⟨⟨inStep.kept, stack.trans inStep.stack, table ▸ inStep.alike, inStep.bound,
    fun live => ?_⟩, fun frame _ stored => table ▸ stored⟩
  rw [table]
  exact inStep.stored (grown.live live)

theorem InStep.expr (inStep : InStep final c st) (ran : expr e st = .ok o st') :
    InStep final c st' :=
  (inStep.grown (.of_expr ran) (expr_emitted ran).stack (expr_emitted ran).table).inStep

theorem InStep.chained (inStep : InStep final c st) (within : c.table.Within final) :
    Chained st.table st.stack.frames := by
  rw [inStep.stack]
  exact (inStep.kept.chained.within within).within inStep.alike.within

include coherent

theorem InStep.resolve (inStep : InStep final c st) (resolves : (c.stack.resolve? name).isSome) :
    ∃ b, resolve node name st = .ok b st := by
  obtain ⟨⟨scope, ref⟩, found⟩ := isSome_iff_exists.mp resolves
  obtain ⟨inner, frame, outer, frames, -, visible, -⟩ := Stack.find?_eq_some found
  have member : frame ∈ c.stack.frames := by simp [frames]
  obtain ⟨-, b, binding, -⟩ := coherent.find?_eq_some.mp (inStep.bound frame member name ref visible)
  obtain ⟨b', binding', -⟩ := inStep.alike.binding? binding
  refine ⟨b', ?_⟩
  have asked : (st.stack.resolve? name).bind (fun found => st.table.binding? found.2) = some b' := by
    rw [inStep.stack, found]
    exact binding'
  have usable : (st.builder.place?.isSome && decide (b'.storage < 0)) = false := by
    cases live : st.builder.place?.isSome with
    | false => rfl
    | true =>
      have storage := inStep.stored live frame member name ref b' visible binding'
      simpa using storage
  rw [Lowering.resolve, isLive_bind]
  have ran : binding? name st = .ok (some b') st := by
    rw [← asked]
    rfl
  rw [bind_run ran]
  simp only [usable, Bool.false_eq_true, if_false]
  rfl

theorem expr_decides (inStep : InStep final c st) (clean : c.exprProblems e = []) :
    Decides e.gap? (expr e) st fun _ _ => True := by
  induction e generalizing st with
  | absent | unknown => exact .of_fail
  | int | bool => exact .of_ok rfl (.refl _) trivial
  | ident node name =>
    have resolves : (c.stack.resolve? name).isSome := by
      rw [Checker.exprProblems] at clean
      split at clean
      · next found => simp [found]
      · cases clean
    obtain ⟨b, resolved⟩ := inStep.resolve coherent resolves
    apply Decides.of_run ((bind_run resolved).trans (isLive_bind _ _)) rfl
    split
    · exact .of_ok rfl (.refl _) trivial
    · exact .of_ok rfl (.refl _) trivial
  | unary node op operand ih =>
    rw [expr]
    refine (ih inStep clean).bind fun o st' _ _ => ?_
    cases op with
    | not => exact .of_ok rfl (.refl _) trivial
    | other code => exact .of_fail
  | binary node op left right leftIH rightIH =>
    obtain ⟨cleanLeft, cleanRight⟩ := append_eq_nil_iff.mp clean
    rw [expr]
    refine (leftIH inStep cleanLeft).bind fun l st₁ ranLeft _ => ?_
    refine (rightIH (inStep.expr ranLeft) cleanRight).bind fun r st₂ _ _ => ?_
    cases op with
    | other code => exact .of_fail
    | _ => exact .of_ok rfl (.refl _) trivial

theorem InStep.push (inStep : InStep final c st) {id : NodeId} (pushed : c.push kind id = .ok c')
    (within : c'.table.Within final) :
    push kind id st = .ok () { st with stack := c'.stack } ∧
      InStep final c' { st with stack := c'.stack } := by
  have kept' := (inStep.kept.push pushed).1
  have chained := inStep.chained ((inStep.kept.push pushed).2.1.trans within)
  obtain ⟨table, entered, rfl⟩ := Checker.push_eq_ok pushed
  obtain ⟨numbered, s, found, rfl, parent⟩ := Table.enter_recorded entered
  obtain ⟨s', found', kind', parent'⟩ := (within.trans inStep.alike.within).scopes id s found
  have top : s'.parent = st.stack.topId st.table := by
    rw [parent', parent, inStep.kept.chained.topId_eq inStep.kept.coherent,
      chained.topId_eq (inStep.alike.coherent coherent), inStep.stack]
  have entered' : st.stack.push st.table s.kind id =
      .ok (⟨⟨id, []⟩ :: c.stack.frames⟩, st.table) := by
    refine Stack.push_eq_ok.mpr ⟨?_, by rw [inStep.stack]⟩
    rw [← kind', ← top]
    exact Table.enter_known numbered found'
  constructor
  · refine bind_run_eq_ok.mpr ⟨st, st, rfl, ?_⟩
    rw [entered']
    rfl
  · refine ⟨kept', rfl, inStep.alike, ?_, fun live => ?_⟩
    · rw [forall_mem_cons]
      refine ⟨?_, inStep.bound⟩
      intro _ _ visible
      cases visible
    · rw [forall_mem_cons]
      refine ⟨?_, inStep.stored live⟩
      intro _ _ _ visible
      cases visible

theorem InStep.pop (inStep : InStep final c st) (within : c.table.Within final) {id : NodeId}
    (popped : c.pop id = .ok c') : pop id st = .ok () { st with stack := c'.stack } := by
  have chained := inStep.chained within
  obtain ⟨frame, outer, frames, top, rfl⟩ := Checker.pop_eq_ok popped
  have top' : st.stack.topId st.table = id := by
    rw [← top, inStep.kept.chained.topId_eq inStep.kept.coherent,
      chained.topId_eq (inStep.alike.coherent coherent), inStep.stack]
  have popped' : st.stack.pop st.table id = .ok ⟨outer⟩ := by
    rw [Stack.pop, inStep.stack, frames, ← inStep.stack, top']
    exact if_pos rfl
  refine bind_run_eq_ok.mpr ⟨st, st, rfl, ?_⟩
  rw [popped']
  rfl

/-- The innermost scope gets a name that the check declared there, in the place it has in the end. -/
theorem InStep.declares (inStep : InStep final c st)
    (declared : c.declare node mutable name type = .ok c') (clean : c'.problems = [])
    (within : c'.table.Within final) (storage : Ir.LocalId) :
    ∃ frame outer ref table, c.stack.frames = frame :: outer ∧
      c'.stack = ⟨{ frame with visible := (name, ref) :: frame.visible } :: outer⟩ ∧
      final.find? frame.scope name = some ref ∧
      st.table.Declares table frame.scope ref ⟨name, mutable, type, storage⟩ ∧
      declare name mutable type storage st =
        .ok () { st with stack := c'.stack, table := table } := by
  have chained := inStep.chained ((inStep.kept.declare declared).within.trans within)
  obtain ⟨frame, outer, frames, ⟨-, e, rfl⟩ | ⟨invisible, table, ref, declares, rfl⟩⟩ :=
    Checker.declare_cases inStep.kept declared
  · simp [Checker.report] at clean
  · rw [inStep.stack, frames] at chained
    obtain ⟨table', ref', declared', declares'⟩ := Stack.declare_new
      (inStep.alike.coherent coherent) outer (chained.recorded frame (by simp)) invisible mutable
      type storage
    have found : final.find? frame.scope name = some ref := by
      apply within.names
      rw [declares.found, if_pos rfl]
    have found' : st.table.find? frame.scope name = some ref := by rw [inStep.alike.found, found]
    obtain rfl := declares'.kept (inStep.alike.coherent coherent) found'
    refine ⟨frame, outer, ref, table', frames, rfl, found, declares', ?_⟩
    have stack : st.stack = ⟨frame :: outer⟩ := by rw [inStep.stack, ← frames]
    refine bind_run_eq_ok.mpr ⟨st, st, rfl, ?_⟩
    rw [stack, declared']
    rfl

theorem InStep.declare (inStep : InStep final c st) {node : NodeId} {mutable : Bool} {name : Text}
    {type : Ty} (declared : c.declare node mutable name type = .ok c')
    (clean : c'.problems = []) (within : c'.table.Within final) {storage : Ir.LocalId}
    (usable : st.builder.place?.isSome → 0 ≤ storage) :
    ∃ st', declare name mutable type storage st = .ok () st' ∧
      st.table.Alike st'.table ∧ Advances final c' st st' ∧
      (0 ≤ storage → (∀ frame ∈ c.stack.frames, Stored st.table frame) →
        ∀ frame ∈ c'.stack.frames, Stored st'.table frame) := by
  have extended := inStep.kept.declare declared
  have chained := inStep.chained (extended.within.trans within)
  obtain ⟨frame, outer, ref, table, frames, stack', found, declares, ran⟩ :=
    inStep.declares coherent declared clean within storage
  have bound := inStep.bound
  rw [inStep.stack, frames] at chained
  rw [frames] at bound
  have separate := (nodup_cons.mp chained.nodup).1
  have alike := declares.alike (inStep.alike.coherent coherent) (by simp [inStep.alike.found, found])
  have all : 0 ≤ storage → (∀ frame ∈ c.stack.frames, Stored st.table frame) →
      ∀ frame ∈ c'.stack.frames, Stored table frame := by
    intro usable stored
    rw [frames] at stored
    rw [stack']
    have stored' := fun frame' member => (stored frame' member).declares declares (.inl usable)
    rw [forall_mem_cons] at stored' ⊢
    refine ⟨fun other ref' b visible binding => ?_, stored'.2⟩
    rw [lookup_cons] at visible
    split at visible
    · cases visible
      rw [declares.binding, if_pos rfl] at binding
      cases binding
      exact usable
    · exact stored'.1 other ref' b visible binding
  refine ⟨_, ran, alike, ⟨⟨extended.kept, rfl, inStep.alike.trans alike, ?_,
    fun live => all (usable live) (inStep.stored live)⟩, ?_⟩, all⟩
  · rw [stack']
    rw [forall_mem_cons] at bound ⊢
    refine ⟨fun other ref' visible => ?_, bound.2⟩
    rw [lookup_cons] at visible
    split at visible
    · next same =>
      cases visible
      rw [eq_of_beq same, found]
    · exact bound.1 other ref' visible
  · rw [stack']
    intro frame' member stored
    refine stored.declares declares (.inr fun other visible => ?_)
    have place := Table.scope_of_find?
      (bound frame' (mem_cons_of_mem _ member) other ref visible)
    rw [declares.place] at place
    exact separate (mem_map.mpr ⟨frame', member, place.symm⟩)

omit coherent in
theorem Advances.close {id : NodeId} (inStep : InStep final c st)
    (pushed : c.push kind id = .ok opened) (inside : opened.Extends filled)
    (popped : filled.pop id = .ok c')
    (advances : Advances final filled { st with stack := opened.stack } st')
    (grown : Grown { st with stack := opened.stack } st') :
    Advances final c' st { st' with stack := c'.stack } ∧
      (st.builder.place?.isSome → ∀ frame ∈ c'.stack.frames, Stored st'.table frame) := by
  obtain ⟨whole, stack, -⟩ := Checker.Extends.closed inStep.kept pushed inside popped
  have outside : filled.stack.frames.tail = c.stack.frames := by
    obtain ⟨table, -, rfl⟩ := Checker.push_eq_ok pushed
    exact inside.outer
  have stored : st.builder.place?.isSome → ∀ frame ∈ c'.stack.frames, Stored st'.table frame := by
    intro live frame member
    rw [stack] at member
    exact advances.outer frame (outside ▸ member) (inStep.stored live frame member)
  refine ⟨⟨⟨whole.kept, rfl, advances.inStep.alike, stack ▸ inStep.bound,
    fun live => stored (grown.live live)⟩, fun frame member => ?_⟩, stored⟩
  rw [stack] at member
  exact advances.outer frame (outside ▸ mem_of_mem_tail member)

end

end Lowering

end MiddleEnd
