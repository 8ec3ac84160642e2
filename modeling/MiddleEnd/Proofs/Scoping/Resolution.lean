import MiddleEnd.Proofs.Scoping.Checking

/-!
The check resolves names lexically: an identifier gets the binding of a declaration exactly if it
means that declaration.
-/

namespace MiddleEnd.Scoping

open List

variable {t t' : Table} {ref : BindingRef}

/-- Identifier `u` is resolved to the binding that declaration `d` gets. -/
def Resolves (m : Module) (u d : NodeId) : Prop :=
  ∃ ref, .resolved u (some ref) ∈ nameEvents m ∧ .declared d ref ∈ nameEvents m

variable {Q : NodeId → BindingRef → Prop}

/-- Identifiers are resolved to what they mean, and each declaration gets a binding of its own that
was not there before. -/
structure Faithful (Q : NodeId → BindingRef → Prop) (t t' : Table) (events : List NameEvent)
    (uses : List (NodeId × Option NodeId)) : Prop where
  resolved : ∀ u ref, .resolved u (some ref) ∈ events → ∃ d, (u, some d) ∈ uses ∧ Q d ref
  meant : ∀ u d, (u, some d) ∈ uses → ∃ ref, .resolved u (some ref) ∈ events ∧ Q d ref
  fresh : ∀ d ref, .declared d ref ∈ events → t.binding? ref = none
  bound : ∀ d ref, .declared d ref ∈ events → (t'.binding? ref).isSome
  once : ∀ d d' ref, .declared d ref ∈ events → .declared d' ref ∈ events → d = d'

theorem unbound (kept : ∀ ref, (t.binding? ref).isSome → (t'.binding? ref).isSome)
    (free : t'.binding? ref = none) : t.binding? ref = none := by
  cases found : t.binding? ref with
  | none => rfl
  | some b =>
    have still := kept ref (by simp [found])
    simp [free] at still

namespace Faithful

theorem nil (t t' : Table) : Faithful Q t t' [] [] :=
  ⟨by simp, by simp, by simp, by simp, by simp⟩

theorem resolution (t : Table) (u : NodeId) (holds : Q d ref) :
    Faithful Q t t [.resolved u (some ref)] [(u, some d)] :=
  ⟨by simpa using holds, by simpa using holds, by simp, by simp, by simp⟩

theorem noResolution (t : Table) (u : NodeId) :
    Faithful Q t t [.resolved u none] [(u, none)] :=
  ⟨by simp, by simp, by simp, by simp, by simp⟩

theorem append (first : Faithful Q t t' events uses) (second : Faithful Q t' t'' events' uses')
    (kept : ∀ ref, (t.binding? ref).isSome → (t'.binding? ref).isSome)
    (kept' : ∀ ref, (t'.binding? ref).isSome → (t''.binding? ref).isSome) :
    Faithful Q t t'' (events ++ events') (uses ++ uses') where
  resolved u ref member := by
    rcases mem_append.mp member with inFirst | inSecond
    · obtain ⟨d, means, holds⟩ := first.resolved u ref inFirst
      exact ⟨d, mem_append_left _ means, holds⟩
    · obtain ⟨d, means, holds⟩ := second.resolved u ref inSecond
      exact ⟨d, mem_append_right _ means, holds⟩
  meant u d member := by
    rcases mem_append.mp member with inFirst | inSecond
    · obtain ⟨ref, resolved, holds⟩ := first.meant u d inFirst
      exact ⟨ref, mem_append_left _ resolved, holds⟩
    · obtain ⟨ref, resolved, holds⟩ := second.meant u d inSecond
      exact ⟨ref, mem_append_right _ resolved, holds⟩
  fresh d ref member := by
    rcases mem_append.mp member with inFirst | inSecond
    · exact first.fresh d ref inFirst
    · exact unbound kept (second.fresh d ref inSecond)
  bound d ref member := by
    rcases mem_append.mp member with inFirst | inSecond
    · exact kept' ref (first.bound d ref inFirst)
    · exact second.bound d ref inSecond
  once d d' ref member member' := by
    have apart : ∀ {d d' : NodeId},
        .declared d ref ∈ events → .declared d' ref ∈ events' → False := by
      intro d d' inFirst inSecond
      have bound := first.bound d ref inFirst
      simp [second.fresh d' ref inSecond] at bound
    rcases mem_append.mp member with inFirst | inSecond <;>
      rcases mem_append.mp member' with inFirst' | inSecond'
    · exact first.once d d' ref inFirst inFirst'
    · exact (apart inFirst inSecond').elim
    · exact (apart inFirst' inSecond).elim
    · exact second.once d d' ref inSecond inSecond'

theorem earlier (faithful : Faithful Q t₁ t' events uses)
    (kept : ∀ ref, (t.binding? ref).isSome → (t₁.binding? ref).isSome) :
    Faithful Q t t' events uses :=
  { faithful with fresh := fun d ref member => unbound kept (faithful.fresh d ref member) }

end Faithful

namespace Checker

variable {c c' : Checker} {id node : NodeId} {mutable : Bool} {name : Text} {type : Ty}

theorem push_kept (pushed : c.push kind id = .ok c') (ref : BindingRef)
    (found : (c.table.binding? ref).isSome) : (c'.table.binding? ref).isSome := by
  obtain ⟨⟨stack, table⟩, entered, same⟩ := bind_eq_ok.mp pushed
  cases same
  have others := (Table.scope?_enter (Stack.push_eq_ok.mp entered).1).2
  have recorded : (c.table.scope? ref.scope).isSome := by
    cases scope : c.table.scope? ref.scope with
    | none => simp [Table.binding?, scope] at found
    | some s => rfl
  simpa only [Table.binding?, others ref.scope recorded] using found

theorem pop_table (popped : c.pop id = .ok c') : c'.table = c.table := by
  obtain ⟨stack, -, same⟩ := bind_eq_ok.mp popped
  cases same
  rfl

theorem Follows.exprFaithful (follows : c.Follows Q env) (e : Expr) :
    Faithful Q c.table c.table (c.exprEvents e) (e.uses env) := by
  induction e with
  | ident node name =>
    simp only [exprEvents, Expr.uses, Stack.resolve?]
    cases means : env.find? name with
    | some d =>
      obtain ⟨scope, ref, b, found, -, -, holds⟩ := follows.tracks.resolve_some means
      rw [found]
      exact .resolution c.table node.id holds
    | none =>
      rw [follows.tracks.resolve_none means]
      exact .noResolution c.table node.id
  | unary node op operand ih => exact ih
  | binary node op left right leftIH rightIH =>
    exact leftIH.append rightIH (fun _ found => found) fun _ found => found
  | _ => exact Faithful.nil ..

theorem mem_declareEvents (member : .declared d ref ∈ c.declareEvents node mutable name type) :
    d = node := by
  unfold declareEvents at member
  split at member
  · cases mem_singleton.mp member
    rfl
  · cases member

theorem not_resolved_mem_declareEvents {ref : Option BindingRef} :
    .resolved u ref ∉ c.declareEvents node mutable name type := by
  unfold declareEvents
  split <;> simp

theorem Faithful.declaration
    (placed : ∀ ref, .declared node ref ∈ c.declareEvents node mutable name type → c.table.binding?
      ref = none ∧ (t.binding? ref).isSome) :
    Faithful Q c.table t (c.declareEvents node mutable name type) [] where
  resolved u ref member := (not_resolved_mem_declareEvents member).elim
  meant := by simp
  fresh d ref member := (placed ref (mem_declareEvents member ▸ member)).1
  bound d ref member := (placed ref (mem_declareEvents member ▸ member)).2
  once d d' ref member member' :=
    (mem_declareEvents member).trans (mem_declareEvents member').symm

/-- The events of checking `s` show the meaning of its names. -/
def ShowsMeaning (Q : NodeId → BindingRef → Prop) (s : Stmt) : Prop :=
  ∀ (c c' : Checker) (env : Env), c.Follows Q env → c.stack.frames ≠ [] → c.Unused s.nodeIds →
    (∀ node ref, .declared node ref ∈ c.events s → Q node ref) → c.stmt s = .ok c' →
    Faithful Q c.table c'.table (c.events s) (s.uses env)

theorem showsMeaning_list (each : ∀ s ∈ stmts, ShowsMeaning Q s) (c c' : Checker) (env : Env)
    (follows : c.Follows Q env) (inScope : c.stack.frames ≠ [])
    (unused : c.Unused (Stmt.nodeIdsOfList stmts))
    (owned : ∀ node ref, .declared node ref ∈ c.eventsOfList stmts → Q node ref)
    (ran : c.stmtList stmts = .ok c') :
    Faithful Q c.table c'.table (c.eventsOfList stmts) (Stmt.usesOfList env stmts) := by
  induction stmts generalizing c env with
  | nil =>
    simp only [eventsOfList, Stmt.usesOfList]
    exact .nil ..
  | cons s rest ih =>
    rw [Stmt.nodeIdsOfList_cons] at unused
    simp only [eventsOfList, mem_append] at owned
    have unusedHead := unused.sublist (sublist_append_left ..)
    have ownedHead := fun node ref member => owned node ref (.inl member)
    obtain ⟨c₁, ranHead, checked⟩ := checks Q s c env follows inScope unusedHead ownedHead
    simp only [ranHead] at owned
    simp only [stmtList, ranHead, ok_bind] at ran
    have ownedTail := fun node ref member => owned node ref (.inr member)
    have head := each s (by simp) c c₁ env follows inScope unusedHead ownedHead ranHead
    have tail := ih (fun s member => each s (by simp [member])) c₁ _ checked.follows
      (checked.inScope inScope) (unused.next checked) ownedTail ran
    obtain ⟨c'', ran', checked'⟩ := checks_list (fun s _ => checks Q s) c₁ _ checked.follows
      (checked.inScope inScope) (unused.next checked) ownedTail
    cases ran.symm.trans ran'
    simp only [eventsOfList, ranHead, Stmt.usesOfList]
    exact head.append tail checked.kept checked'.kept

theorem showsMeaning (Q : NodeId → BindingRef → Prop) (s : Stmt) : ShowsMeaning Q s := by
  induction s using Stmt.induction with
  | absent | bare | unknown =>
    intro c c' env _ _ _ _ _
    simp only [events, Stmt.uses]
    exact .nil ..
  | block node stmts each =>
    intro c c' env follows _ unused owned ran
    rw [Stmt.nodeIds_block] at unused
    simp only [stmt] at ran
    obtain ⟨c₁, pushed, ran⟩ := bind_eq_ok.mp ran
    obtain ⟨c₂, ranList, popped⟩ := bind_eq_ok.mp ran
    obtain ⟨follows', inScope', unused'⟩ := follows.pushed unused follows.nests_block pushed
    simp only [events, pushed] at owned
    have shown := showsMeaning_list each c₁ c₂ _ follows' inScope' unused' owned ranList
    simp only [events, pushed, Stmt.uses, pop_table popped]
    exact shown.earlier (push_kept pushed)
  | decl node mutable name type value =>
    intro c c' env follows inScope _ owned ran
    simp only [stmt] at ran
    simp only [events, mem_append] at owned
    obtain ⟨c₁, declared, checked, placed⟩ := @Follows.declare Q _ env
      (follows.report (c.exprProblems value)) inScope node.id mutable name type
      fun ref member => owned node.id ref (.inr member)
    cases declared.symm.trans ran
    have whole := (follows.exprFaithful value).append (Faithful.declaration placed)
      (fun _ found => found) checked.kept
    simpa only [events, Stmt.uses, append_nil] using whole
  | assign node target value =>
    intro c c' env follows _ _ _ ran
    simp only [stmt, Except.ok.injEq] at ran
    subst ran
    simp only [events, Stmt.uses]
    exact (follows.exprFaithful target).append (follows.exprFaithful value)
      (fun _ found => found) fun _ found => found
  | ret node value =>
    intro c c' env follows _ _ _ ran
    simp only [stmt, Except.ok.injEq] at ran
    subst ran
    simp only [events, Stmt.uses]
    exact follows.exprFaithful value
  | cond node test yes no yesShows noShows =>
    intro c c' env follows inScope unused owned ran
    rw [Stmt.nodeIds_cond] at unused
    have branches : c.Unused (yes.nodeIds ++ no.nodeIds) :=
      unused.tail.sublist (sublist_append_right ..)
    simp only [events, mem_append] at owned
    have unused' := branches.report (c.exprProblems test)
    have unusedYes := unused'.sublist (sublist_append_left ..)
    have ownedYes := fun node ref member => owned node ref (.inl (.inr member))
    obtain ⟨c₁, ranYes, checked⟩ := checks Q yes _ env (follows.report (c.exprProblems test))
      inScope unusedYes ownedYes
    simp only [ranYes] at owned
    simp only [stmt, ranYes, ok_bind] at ran
    have ownedNo := fun node ref member => owned node ref (.inr member)
    have inYes := yesShows _ c₁ env (follows.report (c.exprProblems test)) inScope unusedYes
      ownedYes ranYes
    have inNo := noShows c₁ c' _ checked.follows (checked.inScope inScope) (unused'.next checked)
      ownedNo ran
    obtain ⟨c'', ranNo, checked'⟩ := checks Q no c₁ _ checked.follows (checked.inScope inScope)
      (unused'.next checked) ownedNo
    cases ran.symm.trans ranNo
    simp only [events, ranYes, Stmt.uses]
    exact ((follows.exprFaithful test).append inYes (fun _ found => found) checked.kept).append
      inNo
      checked.kept checked'.kept
  | loop node test body bodyShows =>
    intro c c' env follows inScope unused owned ran
    rw [Stmt.nodeIds_loop] at unused
    simp only [events, mem_append] at owned
    simp only [stmt] at ran
    have inBody : c.Unused body.nodeIds := unused.tail.sublist (sublist_append_right ..)
    have ownedBody := fun node ref member => owned node ref (.inr member)
    have inBody' := inBody.report (c.exprProblems test)
    have shows' := bodyShows _ c' env (follows.report (c.exprProblems test)) inScope inBody'
      ownedBody ran
    obtain ⟨c'', ran', checked⟩ := checks Q body _ env (follows.report (c.exprProblems test))
      inScope inBody' ownedBody
    cases ran.symm.trans ran'
    simp only [events, Stmt.uses]
    exact (follows.exprFaithful test).append shows' (fun _ found => found) checked.kept

theorem func_eq_ok (ran : c.func (some f) = .ok c') :
    ∃ c₁ c₂, c.push .function f.id = .ok c₁ ∧ c₁.stmt f.body = .ok c₂ ∧ c₂.pop f.id = .ok c' := by
  obtain ⟨c₂, inside, popped⟩ := bind_eq_ok.mp ran
  obtain ⟨c₁, pushed, ranBody⟩ := bind_eq_ok.mp (mapError_eq_ok.mp inside)
  exact ⟨c₁, c₂, pushed, ranBody, mapError_eq_ok.mp popped⟩

theorem InModule.funcFaithful (inModule : c.InModule Q id) (unused : c.Unused f.nodeIds)
    (owned : ∀ node ref, .declared node ref ∈ c.funcEvents (some f) → Q node ref)
    (ran : c.func (some f) = .ok c') :
    Faithful Q c.table c'.table (c.funcEvents (some f)) f.uses := by
  obtain ⟨c₁, c₂, pushed, ranBody, popped⟩ := func_eq_ok ran
  obtain ⟨follows', inScope', unused'⟩ :=
    inModule.follows.pushed unused inModule.nests_function pushed
  simp only [funcEvents, pushed] at owned
  have shown := showsMeaning Q f.body c₁ c₂ _ follows' inScope' unused' owned ranBody
  simp only [funcEvents, pushed, pop_table popped]
  exact shown.earlier (push_kept pushed)

theorem InModule.funcsFaithful (inModule : c.InModule Q id) {fs : List Func}
    (unused : c.Unused (fs.flatMap Func.nodeIds))
    (owned : ∀ node ref, .declared node ref ∈ c.funcsEvents (fs.map some) → Q node ref)
    (ran : c.funcs (fs.map some) = .ok c') :
    Faithful Q c.table c'.table (c.funcsEvents (fs.map some)) (fs.flatMap Func.uses) := by
  induction fs generalizing c with
  | nil => exact .nil ..
  | cons f rest ih =>
    rw [flatMap_cons] at unused ⊢
    simp only [map_cons, funcsEvents, mem_append] at owned
    have unusedHead := unused.sublist (sublist_append_left ..)
    have ownedHead := fun node ref member => owned node ref (.inl member)
    obtain ⟨c₁, ranHead, checked⟩ := inModule.func unusedHead ownedHead
    simp only [ranHead] at owned
    have ownedTail := fun node ref member => owned node ref (.inr member)
    simp only [map_cons, Checker.funcs, ranHead, ok_bind] at ran
    obtain ⟨c'', ran', checked'⟩ := (inModule.next checked).funcs (unused.next checked) ownedTail
    cases ran.symm.trans ran'
    simp only [map_cons, funcsEvents, ranHead]
    exact (inModule.funcFaithful unusedHead ownedHead ranHead).append
      (ih (inModule.next checked) (unused.next checked) ownedTail ran) checked.kept checked'.kept

end Checker

theorem resolves_iff {m : Module} (numbered : m.Numbered) (complete : none ∉ m.entries)
    (u d : NodeId) : Resolves m u d ↔ (u, some d) ∈ m.uses := by
  obtain ⟨fs, all⟩ := (entries_cases m.entries).resolve_left complete
  obtain ⟨c, c', -, inModule, -, unused, events, ran, -⟩ :=
    @checks_module (fun d ref => .declared d ref ∈ nameEvents m) m numbered fs all
      fun _ _ member => member
  have faithful := inModule.funcsFaithful unused (fun _ _ member => events ▸ member) ran
  have uses : m.uses = fs.flatMap Func.uses := by
    simp only [Module.uses, all, flatMap_map, Option.elim_some]
  rw [← events, ← uses] at faithful
  constructor
  · rintro ⟨ref, resolved, declared⟩
    obtain ⟨d', means, declared'⟩ := faithful.resolved u ref resolved
    rw [faithful.once d d' ref declared declared']
    exact means
  · intro means
    obtain ⟨ref, resolved, declared⟩ := faithful.meant u d means
    exact ⟨ref, resolved, declared⟩

end MiddleEnd.Scoping
