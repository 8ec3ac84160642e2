import MiddleEnd.Proofs.Scoping.Consistency
import MiddleEnd.Proofs.Scoping.Tracking
import MiddleEnd.Scoping.Check

/-!
The scope check against lexical scoping: its stack follows the environment, and it reports nothing
exactly where the tree is well scoped.
-/

namespace MiddleEnd.Scoping

open List Stmt

/-- What the check does with names: a declaration gets a binding, or an identifier is looked up. -/
inductive NameEvent where
  | declared (node : NodeId) (ref : BindingRef)
  | resolved (node : NodeId) (ref : Option BindingRef)
  deriving DecidableEq, Repr

namespace Checker

def exprEvents (c : Checker) : Expr → List NameEvent
  | .ident node name => [.resolved node.id ((c.stack.resolve? name).map Prod.snd)]
  | .unary _ _ operand => c.exprEvents operand
  | .binary _ _ left right => c.exprEvents left ++ c.exprEvents right
  | _ => []

def declareEvents (c : Checker) (node : NodeId) (mutable : Bool) (name : Text) (type : Ty) :
    List NameEvent :=
  match (c.stack.declare c.table name mutable type Ir.noId).2 with
  | .ok (_, ref) => [.declared node ref]
  | .error _ => []

mutual
/-- The events of checking a statement, each in the state that the check has reached by then. -/
def events (c : Checker) : Stmt → List NameEvent
  | .block node (some stmts) =>
    match c.push .block node.id with
    | .ok c => eventsOfList c stmts
    | .error _ => []
  | .decl node mutable name type value =>
    c.exprEvents value ++ c.declareEvents node.id mutable name type
  | .assign _ target value => c.exprEvents target ++ c.exprEvents value
  | .ret _ value => c.exprEvents value
  | .cond _ test yes no =>
    c.exprEvents test ++ events (c.report (c.exprProblems test)) yes ++
      match (c.report (c.exprProblems test)).stmt yes with
      | .ok c => events c no
      | .error _ => []
  | .loop _ test body => c.exprEvents test ++ events (c.report (c.exprProblems test)) body
  | _ => []
def eventsOfList (c : Checker) : List Stmt → List NameEvent
  | [] => []
  | s :: rest =>
    events c s ++
      match c.stmt s with
      | .ok c => eventsOfList c rest
      | .error _ => []
end

end Checker

/-- The binding of a declaration has its mutability, and its place stands in relation `Q` to it. -/
def Owned (Q : NodeId → BindingRef → Prop) (ref : BindingRef) (b : Binding) (d : Declared) : Prop :=
  b.mutable = d.mutable ∧ Q d.node ref

variable {Q : NodeId → BindingRef → Prop}

namespace Checker

/-- The check follows the environment: its stack shows the declared names, and the record of an open
scope has no name that is not visible. -/
structure Follows (Q : NodeId → BindingRef → Prop) (c : Checker) (env : Env) : Prop where
  coherent : c.table.Coherent
  layered : Layered c.table.outline
  tracks : Tracks (Owned Q) c.table c.stack.frames env
  full : ∀ frame ∈ c.stack.frames, ∀ name,
    c.table.find? frame.scope name = frame.visible.lookup name

variable {c c' : Checker} {env : Env} {ids ids' : List NodeId} {ok : Prop} {id : NodeId}

theorem Follows.report (follows : c.Follows Q env) (problems : List CheckError) :
    (c.report problems).Follows Q env :=
  ⟨follows.coherent, follows.layered, follows.tracks, follows.full⟩

theorem Follows.exprProblems_eq_nil (follows : c.Follows Q env) (e : Expr) :
    c.exprProblems e = [] ↔ e.Resolved env := by
  induction e with
  | ident node name =>
    simp only [exprProblems, Expr.Resolved, Stack.resolve?]
    cases means : env.find? name with
    | some d =>
      obtain ⟨scope, ref, b, resolved, -⟩ := follows.tracks.resolve_some means
      simp [resolved]
    | none => simp [follows.tracks.resolve_none means]
  | unary node op operand ih => exact ih
  | binary node op left right leftIH rightIH =>
    simp [exprProblems, Expr.Resolved, leftIH, rightIH]
  | _ => simp [exprProblems, Expr.Resolved]

theorem Follows.targetProblems_eq_nil (follows : c.Follows Q env) (target : Expr) :
    c.targetProblems target = [] ↔ target.Assignable env := by
  cases target with
  | ident node name =>
    simp only [targetProblems, Expr.Assignable, Stack.resolve?]
    cases means : env.find? name with
    | some d =>
      obtain ⟨scope, ref, b, resolved, binding, mutability, -⟩ :=
        follows.tracks.resolve_some means
      simp [resolved, binding, mutability]
    | none => simp [follows.tracks.resolve_none means]
  | _ => simp [targetProblems, Expr.Assignable]

/-- The check went on over nodes with these numbers. It has reached environment `env`, only opened
scopes for such nodes, and reported nothing exactly if `ok`. -/
structure Checked (Q : NodeId → BindingRef → Prop) (c c' : Checker) (ids : List NodeId) (env : Env)
    (ok : Prop) : Prop where
  follows : c'.Follows Q env
  scopes : c'.stack.frames.map Frame.scope = c.stack.frames.map Frame.scope
  unused : ∀ id, id ∉ ids → c.table.scope? id = none → c'.table.scope? id = none
  kept : ∀ ref, (c.table.binding? ref).isSome → (c'.table.binding? ref).isSome
  grown : c.table.outline ⊆ c'.table.outline
  problems : ∃ problems, c'.problems = c.problems ++ problems ∧ (problems = [] ↔ ok)

theorem Checked.trans {c'' : Checker} {env' : Env} {ok' : Prop} (first : Checked Q c c' ids env ok)
    (second : Checked Q c' c'' ids' env' ok') : Checked Q c c'' (ids ++ ids') env' (ok ∧ ok') where
  follows := second.follows
  scopes := second.scopes.trans first.scopes
  unused id outside missing := by
    rw [mem_append, not_or] at outside
    exact second.unused id outside.2 (first.unused id outside.1 missing)
  kept ref found := second.kept ref (first.kept ref found)
  grown _ member := second.grown (first.grown member)
  problems := by
    obtain ⟨before, equation, none⟩ := first.problems
    obtain ⟨behind, equation', none'⟩ := second.problems
    refine ⟨before ++ behind, by rw [equation', equation, append_assoc], ?_⟩
    rw [append_eq_nil_iff, none, none']

theorem Checked.mono (checked : Checked Q c c' ids env ok) (subset : ids ⊆ ids') (same : ok ↔ ok') :
    Checked Q c c' ids' env ok' where
  follows := checked.follows
  scopes := checked.scopes
  unused id outside := checked.unused id fun member => outside (subset member)
  kept := checked.kept
  grown := checked.grown
  problems := by
    obtain ⟨problems, equation, none⟩ := checked.problems
    exact ⟨problems, equation, none.trans same⟩

theorem Follows.checked_refl (follows : c.Follows Q env) : Checked Q c c [] env True where
  follows := follows
  scopes := rfl
  unused _ _ missing := missing
  kept _ found := found
  grown _ member := member
  problems := ⟨[], by simp, by simp⟩

theorem Follows.checked_report (follows : c.Follows Q env) (problems : List CheckError) :
    Checked Q c (c.report problems) [] env (problems = []) where
  follows := follows.report problems
  scopes := rfl
  unused _ _ missing := missing
  kept _ found := found
  grown _ member := member
  problems := ⟨problems, rfl, Iff.rfl⟩

/-- The numbers of the nodes to come are new. -/
structure Unused (c : Checker) (ids : List NodeId) : Prop where
  nodup : ids.Nodup
  numbered : 0 ∉ ids
  missing : ∀ id ∈ ids, c.table.scope? id = none

theorem Unused.sublist (unused : c.Unused ids') (sublist : ids.Sublist ids') : c.Unused ids where
  nodup := unused.nodup.sublist sublist
  numbered member := unused.numbered (sublist.subset member)
  missing id member := unused.missing id (sublist.subset member)

theorem Unused.report (unused : c.Unused ids) (problems : List CheckError) :
    (c.report problems).Unused ids :=
  ⟨unused.nodup, unused.numbered, unused.missing⟩

theorem Unused.next {c c' : Checker} {ids ids' : List NodeId} {env : Env} {ok : Prop}
    (unused : c.Unused (ids ++ ids')) (checked : Checked Q c c' ids env ok) : c'.Unused ids' where
  nodup := (nodup_append.mp unused.nodup).2.1
  numbered member := unused.numbered (mem_append_right _ member)
  missing id member := by
    refine checked.unused id (fun before => ?_) (unused.missing id (mem_append_right _ member))
    exact (nodup_append.mp unused.nodup).2.2 id before id member rfl

theorem Unused.tail (unused : c.Unused (id :: ids)) : c.Unused ids :=
  unused.sublist (sublist_cons_self id ids)

theorem Follows.declare {c : Checker} {env : Env} (follows : c.Follows Q env)
    (inScope : c.stack.frames ≠ []) {node : NodeId} {mutable : Bool} {name : Text} {type : Ty}
    (owned : ∀ ref, .declared node ref ∈ c.declareEvents node mutable name type → Q node ref) :
    ∃ c', c.declare node mutable name type = .ok c' ∧
      Checked Q c c' [] (env.declare name ⟨node, mutable⟩) (env.declares name = false) ∧
      ∀ ref, .declared node ref ∈ c.declareEvents node mutable name type →
        c.table.binding? ref = none ∧ (c'.table.binding? ref).isSome := by
  obtain ⟨table, ⟨frames⟩, problems⟩ := c
  obtain ⟨coherent, layered, tracks, full⟩ := follows
  cases frames with
  | nil => exact absurd rfl inScope
  | cons frame outer =>
    cases env with
    | nil => exact tracks.elim
    | cons names env =>
      cases declared : names.lookup name with
      | some d =>
        obtain ⟨ref, b, visible, -⟩ := tracks.1.visible name d declared
        have reported := Follows.checked_report ⟨coherent, layered, tracks, full⟩
          [problem ⟨table, ⟨frame :: outer⟩, problems⟩ .duplicate name node]
        refine ⟨_, ?_, by simpa [Env.declare, Env.declares, declared] using reported, ?_⟩
        · simp only [Checker.declare, Stack.declare_visible outer visible]
        · simp [declareEvents, Stack.declare_visible outer visible]
      | none =>
        have invisible := tracks.1.invisible name declared
        obtain ⟨table', ref, equation, declares⟩ := Stack.declare_new coherent outer
          tracks.1.recorded invisible mutable type Ir.noId
        have holds : Q node ref := owned ref (by simp [declareEvents, equation])
        refine ⟨⟨table', ⟨{ frame with visible := (name, ref) :: frame.visible } :: outer⟩,
          problems⟩, by simp only [Checker.declare, equation], ?checked, ?placed⟩
        case placed =>
          intro ref' member
          simp only [declareEvents, equation, mem_singleton, NameEvent.declared.injEq,
            true_and] at member
          subst member
          refine ⟨declares.fresh ?_, by rw [declares.binding, if_pos rfl]; rfl⟩
          rw [full frame (by simp), invisible]
        have found : ∀ other, table'.find? frame.scope other =
            List.lookup other ((name, ref) :: frame.visible) := by
          intro other
          rw [declares.found, lookup_cons]
          by_cases same : other = name
          · simp [same]
          · simp [same, beq_eq_false_iff_ne.mpr same, full frame (by simp) other]
        constructor
        case follows =>
          refine ⟨declares.coherent, declares.outline ▸ layered, ?_, ?_⟩
          · simpa [Env.declare, Env.declares, declared] using
              tracks.declare declares (d := ⟨node, mutable⟩) ⟨rfl, holds⟩
          · intro other member other'
            rcases mem_cons.mp member with rfl | inOuter
            · exact found other'
            · have apart : other.scope ≠ frame.scope :=
                ne_of_mem_of_not_mem (mem_map.mpr ⟨other, inOuter, rfl⟩) tracks.2.1
              rw [← full other (by simp [inOuter])]
              simp only [Table.find?, declares.others _ apart]
        case scopes => rfl
        case unused =>
          intro id _ missing
          rw [declares.others id, missing]
          rintro rfl
          have recorded := tracks.1.recorded
          simp only [missing] at recorded
          cases recorded
        case kept =>
          intro other found
          rw [declares.binding]
          split
          · rfl
          · exact found
        case grown =>
          intro entry member
          exact declares.outline ▸ member
        case problems => exact ⟨[], by simp, by simp [Env.declares, declared]⟩

theorem Follows.push (follows : c.Follows Q env) {kind : ScopeKind} (numbered : id ≠ 0)
    (missing : c.table.scope? id = none)
    (nests : Nests c.table.outline kind (c.stack.topId c.table)) :
    ∃ table, c.push kind id = .ok ⟨table, ⟨⟨id, []⟩ :: c.stack.frames⟩, c.problems⟩ ∧
      Follows Q ⟨table, ⟨⟨id, []⟩ :: c.stack.frames⟩, c.problems⟩ ([] :: env) ∧
      table.outline = c.table.outline ++ [(id, kind, c.stack.topId c.table)] ∧
      ∀ other, other ≠ id → table.scope? other = c.table.scope? other := by
  have known : c.stack.topId c.table = 0 ∨ (c.table.scope? (c.stack.topId c.table)).isSome := by
    refine nests.2.imp_right ?_
    rintro ⟨-, around, above, member, -⟩
    rw [← Table.mem_keys_iff, ← Table.outline_keys]
    exact mem_map.mpr ⟨_, member, rfl⟩
  have entered := @Table.enter_fresh c.table kind id _ numbered missing known
  have others : ∀ other, other ≠ id →
      (Table.mk (c.table.scopes ++ [(id, .empty kind id (c.stack.topId c.table))])).scope? other =
        c.table.scope? other := by
    intro other distinct
    simp [Table.scope?_append, distinct]
  have closed : id ∉ c.stack.frames.map Frame.scope := by
    intro member
    have recorded := follows.tracks.recorded id member
    simp [missing] at recorded
  refine ⟨⟨c.table.scopes ++ [(id, .empty kind id (c.stack.topId c.table))]⟩, ?_, ?_,
    Table.outline_append .., others⟩
  · simp only [Checker.push, Stack.push, entered, ok_bind]
  · refine ⟨follows.coherent.enter entered, ?_, follows.tracks.push closed entered, ?_⟩
    · rw [Table.outline_append]
      refine follows.layered.snoc numbered ?_ nests
      rw [Table.outline_keys, Table.mem_keys_iff, missing]
      simp
    · intro frame member name
      rcases mem_cons.mp member with rfl | inOuter
      · simp [Table.find?, Table.scope?_append, missing, Scope.empty, Scope.position?]
      · have apart : frame.scope ≠ id :=
          ne_of_mem_of_not_mem (mem_map.mpr ⟨frame, inOuter, rfl⟩) closed
        rw [← follows.full frame inOuter]
        simp only [Table.find?, others _ apart]

theorem Follows.pop (follows : c.Follows Q (names :: env))
    (innermost : c.stack.frames.map Frame.scope = id :: scopes) :
    ∃ outer, c.pop id = .ok { c with stack := ⟨outer⟩ } ∧
      outer.map Frame.scope = scopes ∧ Follows Q { c with stack := ⟨outer⟩ } env := by
  obtain ⟨table, ⟨frames⟩, problems⟩ := c
  cases frames with
  | nil => cases innermost
  | cons frame outer =>
    obtain ⟨coherent, layered, tracks, full⟩ := follows
    rw [map_cons, List.cons.injEq] at innermost
    obtain ⟨rfl, rest⟩ := innermost
    refine ⟨outer, ?_, rest, coherent, layered, tracks.2.2, fun other member =>
      full other (by simp [member])⟩
    simp only [Checker.pop, Stack.pop_cons coherent outer tracks.1.recorded, ok_bind]

theorem Follows.nests_block (follows : c.Follows Q env) :
    Nests c.table.outline .block (c.stack.topId c.table) := by
  refine ⟨by simp, ?_⟩
  obtain ⟨table, ⟨frames⟩, problems⟩ := c
  cases frames with
  | nil => exact .inl rfl
  | cons frame outer =>
    cases env with
    | nil => exact follows.tracks.elim
    | cons names env =>
      have recorded := follows.tracks.1.recorded
      rw [Stack.topId_cons follows.coherent outer recorded]
      rw [← Table.mem_keys_iff, ← Table.outline_keys] at recorded
      obtain ⟨⟨id, around, above⟩, member, rfl⟩ := mem_map.mp recorded
      exact .inr ⟨by simp, around, above, member, by simp⟩

theorem Follows.pushed {c₁ : Checker} (follows : c.Follows Q env) {kind : ScopeKind}
    (unused : c.Unused (id :: ids)) (nests : Nests c.table.outline kind (c.stack.topId c.table))
    (pushed : c.push kind id = .ok c₁) :
    c₁.Follows Q ([] :: env) ∧ c₁.stack.frames ≠ [] ∧ c₁.Unused ids := by
  obtain ⟨table, equation, follows', -, others⟩ := follows.push
    (fun zero => unused.numbered (by simp [zero])) (unused.missing id (by simp)) nests
  cases equation.symm.trans pushed
  refine ⟨follows', by simp, unused.tail.nodup, unused.tail.numbered, fun other member => ?_⟩
  rw [others other, unused.tail.missing other member]
  rintro rfl
  exact (nodup_cons.mp unused.nodup).1 member

theorem Follows.inside {c : Checker} {env : Env} (follows : c.Follows Q env) {kind : ScopeKind}
    {id : NodeId} {ids : List NodeId} (unused : c.Unused (id :: ids))
    (nests : Nests c.table.outline kind (c.stack.topId c.table)) {ok : Prop}
    {run : Checker → Except ScopeError Checker}
    (runs : ∀ c', c.push kind id = .ok c' → c'.Follows Q ([] :: env) → c'.stack.frames ≠ [] →
      c'.Unused ids → ∃ c'' names, run c' = .ok c'' ∧ Checked Q c' c'' ids (names :: env) ok) :
    ∃ c₁ c₂ c₃, c.push kind id = .ok c₁ ∧ run c₁ = .ok c₂ ∧ c₂.pop id = .ok c₃ ∧
      Checked Q c c₃ (id :: ids) env ok := by
  have missing := unused.missing id (by simp)
  obtain ⟨table, pushed, -, outline, others⟩ := follows.push
    (fun zero => unused.numbered (by simp [zero])) missing nests
  obtain ⟨follows', inScope', unused'⟩ := follows.pushed unused nests pushed
  obtain ⟨c₂, names, ran, checked⟩ := runs _ pushed follows' inScope' unused'
  obtain ⟨outer, popped, scopes, follows''⟩ := checked.follows.pop checked.scopes
  refine ⟨_, c₂, _, pushed, ran, popped, follows'', scopes, ?_, ?_, ?_, checked.problems⟩
  · intro other outside notYet
    rw [mem_cons, not_or] at outside
    exact checked.unused other outside.2 ((others other outside.1).trans notYet)
  · intro ref found
    refine checked.kept ref ?_
    have apart : ref.scope ≠ id := by
      rintro rfl
      simp [Table.binding?, missing] at found
    simpa only [Table.binding?, others _ apart] using found
  · intro entry member
    exact checked.grown (outline ▸ mem_append_left _ member)

/-- Statement `s` is checked as it is scoped. -/
def Checks (Q : NodeId → BindingRef → Prop) (s : Stmt) : Prop :=
  ∀ (c : Checker) (env : Env), c.Follows Q env → c.stack.frames ≠ [] → c.Unused s.nodeIds →
    (∀ node ref, .declared node ref ∈ c.events s → Q node ref) →
    ∃ c', c.stmt s = .ok c' ∧ Checked Q c c' s.nodeIds (s.declare env) (s.WellScoped env)

theorem Checked.inScope (checked : Checked Q c c' ids env ok) (inScope : c.stack.frames ≠ []) :
    c'.stack.frames ≠ [] := by
  intro empty
  have scopes := checked.scopes
  rw [empty] at scopes
  exact inScope (map_eq_nil_iff.mp scopes.symm)

theorem checks_list (each : ∀ s ∈ stmts, Checks Q s) (c : Checker) (env : Env)
    (follows : c.Follows Q env) (inScope : c.stack.frames ≠ [])
    (unused : c.Unused (nodeIdsOfList stmts))
    (owned : ∀ node ref, .declared node ref ∈ c.eventsOfList stmts → Q node ref) :
    ∃ c', c.stmtList stmts = .ok c' ∧
      Checked Q c c' (nodeIdsOfList stmts) (declareAll env stmts)
        (WellScopedList env stmts) := by
  induction stmts generalizing c env with
  | nil =>
    refine ⟨c, by simp only [stmtList], ?_⟩
    simp only [nodeIdsOfList_nil, WellScopedList]
    exact follows.checked_refl
  | cons s rest ih =>
    rw [nodeIdsOfList_cons] at unused ⊢
    simp only [eventsOfList, mem_append] at owned
    obtain ⟨c', ran, checked⟩ := each s (by simp) c env follows inScope
      (unused.sublist (sublist_append_left ..)) fun node ref member =>
        owned node ref (.inl member)
    simp only [ran] at owned
    obtain ⟨c'', ran', checked'⟩ := ih (fun s member => each s (by simp [member])) c' _
      checked.follows (checked.inScope inScope) (unused.next checked) fun node ref member =>
        owned node ref (.inr member)
    refine ⟨c'', by simp only [stmtList, ran, ok_bind, ran'], ?_⟩
    simpa only [WellScopedList, declareAll, foldl_cons] using
      checked.trans checked'

theorem checks (Q : NodeId → BindingRef → Prop) (s : Stmt) : Checks Q s := by
  induction s using induction with
  | absent =>
    intro c env follows _ _ _
    refine ⟨c, by simp only [stmt], follows.checked_refl.mono (by simp) ?_⟩
    simp only [WellScoped]
  | unknown node kind =>
    intro c env follows _ _ _
    refine ⟨c, by simp only [stmt], follows.checked_refl.mono (by simp) ?_⟩
    simp only [WellScoped]
  | bare node =>
    intro c env follows _ unused _
    rw [nodeIds_bare] at unused ⊢
    obtain ⟨c₁, c₂, c₃, pushed, same, popped, checked⟩ :=
      @Follows.inside Q c env follows .block node.id [] unused follows.nests_block True .ok
        fun c' _ follows' _ _ => ⟨c', [], rfl, follows'.checked_refl⟩
    cases same
    refine ⟨c₃, by simp only [stmt, pushed, popped, ok_bind], checked.mono (by simp) ?_⟩
    simp only [WellScoped]
  | block node stmts each =>
    intro c env follows _ unused owned
    rw [nodeIds_block] at unused ⊢
    obtain ⟨c₁, c₂, c₃, pushed, ran, popped, checked⟩ := follows.inside unused follows.nests_block
      fun c' pushed follows' inScope' unused' => by
        simp only [events, pushed] at owned
        obtain ⟨c'', ran, checked⟩ := checks_list each c' _ follows' inScope' unused' owned
        obtain ⟨names, same⟩ := declareAll_cons stmts [] env
        exact ⟨c'', names, ran, same ▸ checked⟩
    refine ⟨c₃, by simp only [stmt, pushed, ran, popped, ok_bind], checked.mono (by simp) ?_⟩
    simp only [WellScoped]
  | decl node mutable name type value =>
    intro c env follows inScope _ owned
    have reported := follows.checked_report (c.exprProblems value)
    simp only [events, mem_append] at owned
    obtain ⟨c', ran, checked, -⟩ := @Follows.declare Q _ env reported.follows inScope node.id
      mutable name type fun ref member => owned node.id ref (.inr member)
    refine ⟨c', by simpa only [stmt] using ran, (reported.trans checked).mono (by simp) ?_⟩
    rw [follows.exprProblems_eq_nil]
    simp only [WellScoped]
  | assign node target value =>
    intro c env follows _ _ _
    have reported := follows.checked_report (c.targetProblems target ++ c.exprProblems value)
    refine ⟨_, by simp only [stmt], reported.mono (by simp) ?_⟩
    rw [append_eq_nil_iff, follows.targetProblems_eq_nil, follows.exprProblems_eq_nil]
    simp only [WellScoped]
  | ret node value =>
    intro c env follows _ _ _
    have reported := follows.checked_report (c.exprProblems value)
    refine ⟨_, by simp only [stmt], reported.mono (by simp) ?_⟩
    rw [follows.exprProblems_eq_nil]
    simp only [WellScoped]
  | cond node test yes no yesChecks noChecks =>
    intro c env follows inScope unused owned
    rw [nodeIds_cond] at unused ⊢
    have branches : c.Unused (yes.nodeIds ++ no.nodeIds) :=
      unused.tail.sublist (sublist_append_right ..)
    simp only [events, mem_append] at owned
    have reported := follows.checked_report (c.exprProblems test)
    have unused' := branches.report (c.exprProblems test)
    obtain ⟨c', ran, checked⟩ := yesChecks _ env reported.follows inScope
      (unused'.sublist (sublist_append_left ..)) fun node ref member =>
        owned node ref (.inl (.inr member))
    simp only [ran] at owned
    obtain ⟨c'', ran', checked'⟩ := noChecks c' _ checked.follows (checked.inScope inScope)
      (unused'.next checked) fun node ref member => owned node ref (.inr member)
    refine ⟨c'', by simp only [stmt, ran, ok_bind, ran'],
      (reported.trans (checked.trans checked')).mono ?_ ?_⟩
    · intro id member
      exact mem_cons_of_mem _ (mem_append_right _ member)
    · rw [follows.exprProblems_eq_nil]
      simp only [WellScoped]
  | loop node test body bodyChecks =>
    intro c env follows inScope unused owned
    rw [nodeIds_loop] at unused ⊢
    simp only [events, mem_append] at owned
    have reported := follows.checked_report (c.exprProblems test)
    have inBody : c.Unused body.nodeIds := unused.tail.sublist (sublist_append_right ..)
    obtain ⟨c', ran, checked⟩ := bodyChecks _ env reported.follows inScope
      (inBody.report (c.exprProblems test)) fun node ref member => owned node ref (.inr member)
    refine ⟨c', by simpa only [stmt] using ran, (reported.trans checked).mono ?_ ?_⟩
    · intro id member
      exact mem_cons_of_mem _ (mem_append_right _ member)
    · rw [follows.exprProblems_eq_nil]
      simp only [WellScoped]

def funcEvents (c : Checker) : Option Func → List NameEvent
  | none => []
  | some f =>
    match c.push .function f.id with
    | .ok c => c.events f.body
    | .error _ => []

def funcsEvents (c : Checker) : List (Option Func) → List NameEvent
  | [] => []
  | f :: rest =>
    c.funcEvents f ++
      match c.func f with
      | .ok c => c.funcsEvents rest
      | .error _ => []

/-- Between two functions only the scope of the module is open, and it has no names. -/
structure InModule (Q : NodeId → BindingRef → Prop) (c : Checker) (id : NodeId) : Prop where
  follows : c.Follows Q [[]]
  scopes : c.stack.frames.map Frame.scope = [id]
  opened : (id, .module, 0) ∈ c.table.outline

theorem InModule.next {c c' : Checker} {id : NodeId} {ids : List NodeId} {ok : Prop}
    (inModule : c.InModule Q id) (checked : Checked Q c c' ids [[]] ok) : c'.InModule Q id :=
  ⟨checked.follows, checked.scopes.trans inModule.scopes, checked.grown inModule.opened⟩

theorem InModule.nests_function (inModule : c.InModule Q id) :
    Nests c.table.outline .function (c.stack.topId c.table) := by
  obtain ⟨table, ⟨frames⟩, problems⟩ := c
  cases frames with
  | nil => cases inModule.scopes
  | cons frame outer =>
    obtain ⟨follows, scopes, opened⟩ := inModule
    rw [map_cons, List.cons.injEq] at scopes
    rw [Stack.topId_cons follows.coherent outer follows.tracks.1.recorded, scopes.1]
    exact ⟨by simp, .inr ⟨by simp, .module, 0, opened, fun _ => rfl⟩⟩

theorem InModule.func (inModule : c.InModule Q id) (unused : c.Unused f.nodeIds)
    (owned : ∀ node ref, .declared node ref ∈ c.funcEvents (some f) → Q node ref) :
    ∃ c', c.func (some f) = .ok c' ∧ Checked Q c c' f.nodeIds [[]] f.WellScoped := by
  obtain ⟨c₁, c₂, c₃, pushed, ran, popped, checked⟩ :=
    inModule.follows.inside unused inModule.nests_function
      fun c' pushed follows' inScope' unused' => by
        simp only [funcEvents, pushed] at owned
        obtain ⟨c'', ran, checked⟩ := checks Q f.body c' _ follows' inScope' unused' owned
        obtain ⟨names, same⟩ := f.body.declare_cons [] [[]]
        exact ⟨c'', names, ran, same ▸ checked⟩
  refine ⟨c₃, ?_, checked⟩
  simp only [Checker.func, pushed, ran, popped, ok_bind, ok_mapError]

theorem InModule.funcs (inModule : c.InModule Q id) {fs : List Func}
    (unused : c.Unused (fs.flatMap Func.nodeIds))
    (owned : ∀ node ref, .declared node ref ∈ c.funcsEvents (fs.map some) → Q node ref) :
    ∃ c', c.funcs (fs.map some) = .ok c' ∧
      Checked Q c c' (fs.flatMap Func.nodeIds) [[]] (∀ f ∈ fs, f.WellScoped) := by
  induction fs generalizing c with
  | nil =>
    refine ⟨c, rfl, inModule.follows.checked_refl.mono (by simp) ?_⟩
    simp
  | cons f rest ih =>
    rw [flatMap_cons] at unused ⊢
    simp only [map_cons, funcsEvents, mem_append] at owned
    obtain ⟨c', ran, checked⟩ := inModule.func (unused.sublist (sublist_append_left ..))
      fun node ref member => owned node ref (.inl member)
    simp only [ran] at owned
    obtain ⟨c'', ran', checked'⟩ := ih (inModule.next checked) (unused.next checked)
      fun node ref member => owned node ref (.inr member)
    refine ⟨c'', by simp only [map_cons, Checker.funcs, ran, ok_bind, ran'], ?_⟩
    simpa using checked.trans checked'

theorem funcs_missing (missing : none ∈ entries) (c c' : Checker) : c.funcs entries ≠ .ok c' := by
  induction entries generalizing c with
  | nil => cases missing
  | cons entry rest ih =>
    intro ran
    obtain ⟨c₁, head, tail⟩ := bind_eq_ok.mp ran
    rcases mem_cons.mp missing with rfl | inRest
    · cases head
    · exact ih inRest c₁ tail

theorem start_push {id : NodeId} (numbered : id ≠ 0) :
    ∃ c, start.push .module id = .ok c ∧ c.InModule Q id ∧ c.problems = [] ∧
      ∀ other, other ≠ id → c.table.scope? other = none := by
  have follows : start.Follows Q [] :=
    ⟨Table.coherent_empty, Layered.nil, trivial, by simp [start, Stack.empty]⟩
  have nests : Nests start.table.outline .module (start.stack.topId start.table) :=
    ⟨by simp, .inl rfl⟩
  obtain ⟨table, pushed, follows', outline, others⟩ := follows.push numbered rfl nests
  refine ⟨_, pushed, ⟨follows', rfl, ?_⟩, rfl, others⟩
  rw [outline]
  exact mem_append_right _ (mem_singleton.mpr rfl)

end Checker

def nameEvents (m : Module) : List NameEvent :=
  match Checker.start.push .module m.id with
  | .ok c => c.funcsEvents m.entries
  | .error _ => []

theorem entries_cases (entries : List (Option Func)) :
    none ∈ entries ∨ ∃ fs : List Func, entries = fs.map some := by
  induction entries with
  | nil => exact .inr ⟨[], rfl⟩
  | cons entry rest ih =>
    cases entry with
    | none => exact .inl (by simp)
    | some f =>
      rcases ih with missing | ⟨fs, rfl⟩
      · exact .inl (by simp [missing])
      · exact .inr ⟨f :: fs, rfl⟩

theorem checks_module {m : Module} (numbered : m.Numbered) {fs : List Func}
    (all : m.entries = fs.map some)
    (owned : ∀ node ref, .declared node ref ∈ nameEvents m → Q node ref) :
    ∃ c c', Checker.start.push .module m.id = .ok c ∧ c.InModule Q m.id ∧ c.problems = [] ∧
      c.Unused (fs.flatMap Func.nodeIds) ∧ nameEvents m = c.funcsEvents (fs.map some) ∧
      c.funcs (fs.map some) = .ok c' ∧
      Checker.Checked Q c c' (fs.flatMap Func.nodeIds) [[]] (∀ f ∈ fs, f.WellScoped) := by
  obtain ⟨nodup, nonzero⟩ := numbered
  rw [m.nodeIds_eq] at nodup nonzero
  simp only [all, flatMap_map, Option.elim_some, nodup_cons] at nodup nonzero
  obtain ⟨c, pushed, inModule, clean, others⟩ :=
    @Checker.start_push Q m.id fun zero => nonzero (by simp [zero])
  have unused : c.Unused (fs.flatMap Func.nodeIds) := by
    refine ⟨nodup.2, fun zero => nonzero (by simp [zero]), fun id member => others id ?_⟩
    exact ne_of_mem_of_not_mem member nodup.1
  have events : nameEvents m = c.funcsEvents (fs.map some) := by
    simp only [nameEvents, pushed, all]
  obtain ⟨c', ran, checked⟩ := inModule.funcs unused fun node ref member =>
    owned node ref (events ▸ member)
  exact ⟨c, c', pushed, inModule, clean, unused, events, ran, checked⟩

variable {m : Module}

theorem Table.ofModule_complete (numbered : m.Numbered) (complete : none ∉ m.entries) :
    ∃ t : Table, t.Coherent ∧ (Table.ofModule m = .ok t ∧ m.WellScoped ∨
      (∀ t', Table.ofModule m ≠ .ok t') ∧ ¬ m.WellScoped) := by
  obtain ⟨fs, all⟩ := (entries_cases m.entries).resolve_left complete
  obtain ⟨c, c', pushed, -, clean, -, -, ran, checked⟩ :=
    @checks_module (fun _ _ => True) m numbered fs all fun _ _ _ => trivial
  obtain ⟨problems, equation, none⟩ := checked.problems
  have faultless := Table.faults_eq_nil checked.follows.coherent checked.follows.layered
  have wellScoped : m.WellScoped ↔ ∀ f ∈ fs, f.WellScoped := by
    simp [Module.WellScoped, all]
  rw [clean, nil_append] at equation
  refine ⟨c'.table, checked.follows.coherent, ?_⟩
  rw [wellScoped, ← none, ← equation]
  simp only [ofModule, pushed, ok_mapError, ok_bind, all, ran, faultless]
  cases c'.problems <;> simp

theorem Table.ofModule_missing (numbered : m.Numbered) (missing : none ∈ m.entries) (t : Table) :
    Table.ofModule m ≠ .ok t := by
  intro accepted
  obtain ⟨c, pushed, -⟩ := @Checker.start_push (fun _ _ => True) m.id fun zero =>
    numbered.2 (by simp [m.nodeIds_eq, zero])
  simp only [ofModule, pushed, ok_mapError, ok_bind] at accepted
  obtain ⟨c', ran, -⟩ := bind_eq_ok.mp accepted
  exact Checker.funcs_missing missing c c' ran

theorem Table.ofModule_walk (accepted : Table.ofModule m = .ok t) :
    ∃ c c', Checker.start.push .module m.id = .ok c ∧ c.funcs m.entries = .ok c' ∧
      c'.problems = [] ∧ c'.table = t := by
  obtain ⟨c, pushed, rest⟩ := bind_eq_ok.mp accepted
  obtain ⟨c', walked, rest⟩ := bind_eq_ok.mp rest
  refine ⟨c, c', mapError_eq_ok.mp pushed, walked, ?_⟩
  split at rest
  · next clean =>
    split at rest
    · cases rest
      exact ⟨isEmpty_iff.mp clean, rfl⟩
    · cases rest
  · cases rest

theorem Table.ofModule_eq_ok (numbered : m.Numbered) (accepted : Table.ofModule m = .ok t) :
    m.WellScoped ∧ t.Coherent := by
  by_cases missing : none ∈ m.entries
  · exact absurd accepted (ofModule_missing numbered missing t)
  · obtain ⟨t', coherent, ⟨accepted', wellScoped⟩ | ⟨refused, -⟩⟩ :=
      ofModule_complete numbered missing
    · cases accepted.symm.trans accepted'
      exact ⟨wellScoped, coherent⟩
    · exact absurd accepted (refused t)

theorem Table.ofModule_isOk_iff (numbered : m.Numbered) :
    (∃ t, Table.ofModule m = .ok t) ↔ m.WellScoped := by
  constructor
  · rintro ⟨t, accepted⟩
    exact (ofModule_eq_ok numbered accepted).1
  · intro wellScoped
    obtain ⟨t, -, ⟨accepted, -⟩ | ⟨-, unscoped⟩⟩ :=
      ofModule_complete numbered wellScoped.complete
    · exact ⟨t, accepted⟩
    · exact absurd wellScoped unscoped

end MiddleEnd.Scoping
