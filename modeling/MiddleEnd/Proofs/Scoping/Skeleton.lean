import MiddleEnd.Proofs.Scoping.Resolution
import MiddleEnd.Proofs.Scoping.Visibility

/-!
The table of a well-scoped module: its scopes under their lexical parents, with their declarations
in source order.
-/

namespace MiddleEnd

open Scoping List

variable {entry : ScopeEntry}

namespace Scoping

/-- What a table holds about one scope. -/
structure ScopeEntry where
  key : NodeId
  kind : ScopeKind
  parent : NodeId
  bindings : List Binding
  deriving DecidableEq, Repr

/-- Adds bindings to the scope with a key. -/
def ScopeEntry.extend (key : NodeId) (more : List Binding) (entry : ScopeEntry) : ScopeEntry :=
  if entry.key = key then { entry with bindings := entry.bindings ++ more } else entry

def extendAll (key : NodeId) (more : List Binding) (entries : List ScopeEntry) : List ScopeEntry :=
  entries.map (ScopeEntry.extend key more)

theorem extendAll_append (key : NodeId) (more : List Binding) (first second : List ScopeEntry) :
    extendAll key more (first ++ second) = extendAll key more first ++ extendAll key more second :=
  map_append

theorem extendAll_nil (key : NodeId) (entries : List ScopeEntry) :
    extendAll key [] entries = entries := by
  have same : ∀ entry, ScopeEntry.extend key [] entry = entry := by
    intro entry
    unfold ScopeEntry.extend
    split
    · simp
    · rfl
  exact (map_congr_left fun entry _ => same entry).trans (map_id _)

theorem extendAll_extendAll (key : NodeId) (first second : List Binding)
    (entries : List ScopeEntry) :
    extendAll key second (extendAll key first entries) =
      extendAll key (first ++ second) entries := by
  unfold extendAll
  rw [map_map]
  refine map_congr_left fun entry _ => ?_
  by_cases same : entry.key = key <;> simp [ScopeEntry.extend, same]

theorem extendAll_other (others : ∀ entry ∈ entries, entry.key ≠ key) (more : List Binding) :
    extendAll key more entries = entries := by
  refine (map_congr_left fun entry member => ?_).trans (map_id _)
  exact if_neg (others entry member)

namespace Table

def contents (t : Table) : List ScopeEntry :=
  t.scopes.map fun entry => ⟨entry.1, entry.2.kind, entry.2.parent, entry.2.bindings⟩

def bindingsAt (t : Table) (key : NodeId) : List Binding :=
  (t.scope? key).elim [] Scope.bindings

variable {t : Table}

theorem contents_eq (layered : Layered t.outline) :
    t.contents = t.outline.map fun entry =>
      ⟨entry.1, entry.2.1, entry.2.2, t.bindingsAt entry.1⟩ := by
  unfold contents outline
  rw [map_map]
  refine map_congr_left ?_
  rintro ⟨key, s⟩ member
  simp [bindingsAt, scope?_of_mem layered.rooted member]

theorem recorded_of_mem_contents (member : entry ∈ t.contents) : (t.scope? entry.key).isSome := by
  obtain ⟨recorded, inScopes, rfl⟩ := mem_map.mp member
  exact (t.mem_keys_iff _).mp (mem_map.mpr ⟨recorded, inScopes, rfl⟩)

theorem Declares.bindingsAt (declares : t.Declares t' scope ref b)
    (missing : t.find? scope b.name = none) : t'.bindingsAt scope = t.bindingsAt scope ++ [b] := by
  obtain ⟨s', found'⟩ := Option.isSome_iff_exists.mp declares.recorded
  have recorded : (t.scope? scope).isSome := by
    have member := (t'.mem_keys_iff scope).mpr declares.recorded
    rw [← outline_keys, declares.outline, outline_keys] at member
    exact (t.mem_keys_iff scope).mp member
  obtain ⟨s, found⟩ := Option.isSome_iff_exists.mp recorded
  obtain ⟨key, position⟩ := ref
  cases declares.place
  have each : ∀ i, s'.bindings[i]? = if i = position then some b else s.bindings[i]? := by
    intro i
    have here := declares.binding ⟨key, i⟩
    simpa [binding?, found, found'] using here
  have free : s.bindings.length ≤ position := by
    have fresh := declares.fresh missing
    simpa [binding?, found] using fresh
  -- A gap before the new binding would be a place without a binding below the last one.
  have last : position = s.bindings.length := by
    have taken := each position
    rw [if_pos rfl] at taken
    have bound := (List.getElem?_eq_some_iff.mp taken).1
    rcases Nat.eq_or_lt_of_le free with same | apart
    · exact same.symm
    · have gap := each s.bindings.length
      rw [if_neg (by omega), List.getElem?_eq_none (Nat.le_refl _),
        List.getElem?_eq_none_iff] at gap
      omega
  have same : s'.bindings = s.bindings ++ [b] := by
    refine ext_getElem? fun i => ?_
    rw [each i, List.getElem?_append, last]
    rcases Nat.lt_trichotomy i s.bindings.length with before | rfl | behind
    · rw [if_neg (by omega), if_pos before]
    · simp
    · rw [if_neg (by omega), if_neg (by omega), List.getElem?_eq_none (by omega),
        List.getElem?_eq_none (by simp; omega)]
  simp [Table.bindingsAt, found, found', same]

theorem Declares.contents (declares : t.Declares t' scope ref b) (layered : Layered t.outline)
    (missing : t.find? scope b.name = none) : t'.contents = extendAll scope [b] t.contents := by
  rw [contents_eq layered, contents_eq (declares.outline ▸ layered), declares.outline, extendAll,
    map_map]
  refine map_congr_left fun entry _ => ?_
  by_cases same : entry.1 = scope
  · simp [ScopeEntry.extend, same, declares.bindingsAt missing]
  · simp [ScopeEntry.extend, same, Table.bindingsAt, declares.others entry.1 same]

end Table

end Scoping

/-- The declarations of a statement that belong to the scope around it. -/
def Stmt.direct : Stmt → List Binding
  | .decl _ mutable name type _ => [⟨name, mutable, type, Ir.noId⟩]
  | .cond _ _ yes no => yes.direct ++ no.direct
  | .loop _ _ body => body.direct
  | _ => []

mutual
/-- The scopes inside a statement in the scope `parent`. -/
def Stmt.inner (parent : NodeId) : Stmt → List ScopeEntry
  | .block node none => [⟨node.id, .block, parent, []⟩]
  | .block node (some stmts) =>
    ⟨node.id, .block, parent, stmts.flatMap Stmt.direct⟩ :: Stmt.innerOfList node.id stmts
  | .cond _ _ yes no => Stmt.inner parent yes ++ Stmt.inner parent no
  | .loop _ _ body => Stmt.inner parent body
  | _ => []
def Stmt.innerOfList (parent : NodeId) : List Stmt → List ScopeEntry
  | [] => []
  | s :: rest => Stmt.inner parent s ++ Stmt.innerOfList parent rest
end

def Func.skeleton (parent : NodeId) (f : Func) : List ScopeEntry :=
  ⟨f.id, .function, parent, f.body.direct⟩ :: f.body.inner f.id

namespace Stmt

theorem key_mem_list (each : ∀ s ∈ stmts, ∀ parent, entry ∈ s.inner parent → entry.key ∈ s.nodeIds)
    (member : entry ∈ innerOfList parent stmts) : entry.key ∈ nodeIdsOfList stmts := by
  induction stmts with
  | nil => simp [innerOfList] at member
  | cons s rest ih =>
    rw [innerOfList] at member
    rw [nodeIdsOfList_cons]
    rcases mem_append.mp member with inHead | inRest
    · exact mem_append_left _ (each s (by simp) parent inHead)
    · exact mem_append_right _ (ih (fun s member => each s (by simp [member])) inRest)

theorem key_mem {s : Stmt} (member : entry ∈ s.inner parent) : entry.key ∈ s.nodeIds := by
  induction s using Stmt.induction generalizing parent with
  | bare node =>
    simp only [inner, mem_singleton] at member
    simp [member]
  | block node stmts each =>
    rw [inner] at member
    rw [nodeIds_block]
    rcases mem_cons.mp member with rfl | inside
    · exact mem_cons_self
    · exact mem_cons_of_mem _
        (key_mem_list (fun s member parent => each s member) inside)
  | cond node test yes no yesIH noIH =>
    rw [inner] at member
    rw [nodeIds_cond]
    refine mem_cons_of_mem _ (mem_append_right _ ?_)
    rcases mem_append.mp member with inYes | inNo
    · exact mem_append_left _ (yesIH inYes)
    · exact mem_append_right _ (noIH inNo)
  | loop node test body bodyIH =>
    rw [inner] at member
    rw [nodeIds_loop]
    exact mem_cons_of_mem _ (mem_append_right _ (bodyIH member))
  | _ => simp [inner] at member

end Stmt

namespace Scoping.Checker

variable {Q : NodeId → BindingRef → Prop}

variable {c c' : Checker} {env : Env} {top id : NodeId} {outer : List NodeId}

theorem Follows.topId (follows : c.Follows Q env)
    (scopes : c.stack.frames.map Frame.scope = top :: outer) : c.stack.topId c.table = top := by
  obtain ⟨table, ⟨frames⟩, problems⟩ := c
  cases frames with
  | nil => cases scopes
  | cons frame rest =>
    cases env with
    | nil => exact follows.tracks.elim
    | cons names env =>
      cases scopes
      exact Stack.topId_cons follows.coherent rest follows.tracks.1.recorded

theorem push_contents (missing : c.table.scope? id = none) (pushed : c.push kind id = .ok c') :
    c'.table.contents = c.table.contents ++ [⟨id, kind, c.stack.topId c.table, []⟩] ∧
      c'.stack.frames.map Frame.scope = id :: c.stack.frames.map Frame.scope := by
  obtain ⟨⟨stack, table⟩, opened, same⟩ := bind_eq_ok.mp pushed
  cases same
  obtain ⟨entered, rfl⟩ := Stack.push_eq_ok.mp opened
  obtain ⟨-, ⟨s, found, -⟩ | ⟨-, -, rfl⟩⟩ := Table.enter_cases entered
  · rw [missing] at found
    cases found
  · exact ⟨by simp [Table.contents, Scope.empty], rfl⟩

theorem declare_contents (follows : c.Follows Q env)
    (scopes : c.stack.frames.map Frame.scope = top :: outer) (new : env.declares name = false)
    (declared : c.declare node mutable name type = .ok c') :
    c'.table.contents =
      extendAll top [⟨name, mutable, type, Ir.noId⟩] c.table.contents := by
  obtain ⟨table, ⟨frames⟩, problems⟩ := c
  obtain ⟨coherent, layered, tracks, full⟩ := follows
  cases frames with
  | nil => cases scopes
  | cons frame rest =>
    cases env with
    | nil => exact tracks.elim
    | cons names env =>
      cases scopes
      have undeclared : names.lookup name = none := by simpa [Env.declares] using new
      have invisible := tracks.1.invisible name undeclared
      obtain ⟨table', ref, equation, declares⟩ := Stack.declare_new coherent rest
        tracks.1.recorded invisible mutable type Ir.noId
      simp only [Checker.declare, equation, Except.ok.injEq] at declared
      subst declared
      refine declares.contents layered ?_
      exact (full frame mem_cons_self name).trans invisible

/-- Checking a well-scoped statement records its declarations and the scopes inside it. -/
def Records (Q : NodeId → BindingRef → Prop) (s : Stmt) : Prop :=
  ∀ (c c' : Checker) (env : Env) (top : NodeId) (outer : List NodeId), c.Follows Q env →
    c.stack.frames.map Frame.scope = top :: outer → c.Unused s.nodeIds →
    (∀ node ref, Q node ref) → s.WellScoped env → c.stmt s = .ok c' →
    c'.table.contents = extendAll top s.direct c.table.contents ++ s.inner top

theorem Follows.top_unused (follows : c.Follows Q env)
    (scopes : c.stack.frames.map Frame.scope = top :: outer) (unused : c.Unused ids) :
    top ∉ ids := by
  intro member
  have recorded := follows.tracks.recorded top (scopes ▸ mem_cons_self)
  rw [unused.missing top member] at recorded
  cases recorded

theorem frames_ne_nil (scopes : c.stack.frames.map Frame.scope = top :: outer) :
    c.stack.frames ≠ [] := by
  intro empty
  rw [empty] at scopes
  cases scopes

theorem contents_trans {s : Stmt} (apart : top ∉ s.nodeIds)
    (first : middle = extendAll top s.direct before ++ s.inner top)
    (second : behind = extendAll top more middle ++ entries) :
    behind = extendAll top (s.direct ++ more) before ++ (s.inner top ++ entries) := by
  have others : ∀ entry ∈ s.inner top, entry.key ≠ top := fun entry member same =>
    apart (same ▸ Stmt.key_mem member)
  rw [second, first, extendAll_append, extendAll_extendAll, extendAll_other others, append_assoc]

theorem records_list (each : ∀ s ∈ stmts, Records Q s) (c c' : Checker) (env : Env) (top : NodeId)
    (outer : List NodeId) (follows : c.Follows Q env)
    (scopes : c.stack.frames.map Frame.scope = top :: outer)
    (unused : c.Unused (Stmt.nodeIdsOfList stmts)) (owned : ∀ node ref, Q node ref)
    (wellScoped : Stmt.WellScopedList env stmts) (ran : c.stmtList stmts = .ok c') :
    c'.table.contents =
      extendAll top (stmts.flatMap Stmt.direct) c.table.contents ++ Stmt.innerOfList top stmts := by
  induction stmts generalizing c env with
  | nil =>
    simp only [stmtList, Except.ok.injEq] at ran
    simp [← ran, Stmt.innerOfList, extendAll_nil]
  | cons s rest ih =>
    rw [Stmt.nodeIdsOfList_cons] at unused
    simp only [Stmt.WellScopedList] at wellScoped
    have unusedHead := unused.sublist (sublist_append_left ..)
    obtain ⟨c₁, ranHead, checked⟩ := checks Q s c env follows (frames_ne_nil scopes) unusedHead
      fun node ref _ => owned node ref
    simp only [stmtList, ranHead, ok_bind] at ran
    have head := each s (by simp) c c₁ env top outer follows scopes unusedHead owned wellScoped.1
      ranHead
    have tail := ih (fun s member => each s (by simp [member])) c₁ _ checked.follows
      (checked.scopes.trans scopes) (unused.next checked) wellScoped.2 ran
    rw [Stmt.innerOfList, flatMap_cons]
    exact contents_trans (follows.top_unused scopes unusedHead) head tail

theorem inside_contents {c c₁ c₂ : Checker} {env : Env} (follows : c.Follows Q env) {top : NodeId}
    {outer : List NodeId} (scopes : c.stack.frames.map Frame.scope = top :: outer)
    {kind : ScopeKind} {id : NodeId} (missing : c.table.scope? id = none)
    (pushed : c.push kind id = .ok c₁) {more : List Binding} {entries : List ScopeEntry}
    (inside : c₂.table.contents = extendAll id more c₁.table.contents ++ entries) :
    c₂.table.contents = c.table.contents ++ ⟨id, kind, top, more⟩ :: entries := by
  have others : ∀ entry ∈ c.table.contents, entry.key ≠ id := by
    intro entry member same
    have recorded := Table.recorded_of_mem_contents member
    rw [same, missing] at recorded
    cases recorded
  have opened := (push_contents missing pushed).1
  rw [follows.topId scopes] at opened
  rw [inside, opened, extendAll_append, extendAll_other others]
  simp [extendAll, ScopeEntry.extend]

theorem records (Q : NodeId → BindingRef → Prop) (s : Stmt) : Records Q s := by
  induction s using Stmt.induction with
  | absent | unknown =>
    intro c c' env top outer _ _ _ _ _ ran
    simp only [stmt, Except.ok.injEq] at ran
    simp [← ran, Stmt.direct, Stmt.inner, extendAll_nil]
  | bare node =>
    intro c c' env top outer follows scopes unused _ _ ran
    rw [Stmt.nodeIds_bare] at unused
    simp only [stmt] at ran
    obtain ⟨c₁, pushed, popped⟩ := bind_eq_ok.mp ran
    have whole := @inside_contents Q c c₁ c₁ env follows top outer scopes .block node.id
      (unused.missing node.id (by simp)) pushed [] [] (by simp [extendAll_nil])
    rw [pop_table popped, whole, Stmt.direct, extendAll_nil, Stmt.inner]
    · simp
    all_goals simp
  | block node stmts each =>
    intro c c' env top outer follows scopes unused owned wellScoped ran
    rw [Stmt.nodeIds_block] at unused
    simp only [Stmt.WellScoped] at wellScoped
    simp only [stmt] at ran
    obtain ⟨c₁, pushed, ran⟩ := bind_eq_ok.mp ran
    obtain ⟨c₂, ranList, popped⟩ := bind_eq_ok.mp ran
    have missing := unused.missing node.id mem_cons_self
    obtain ⟨follows', -, unused'⟩ := follows.pushed unused follows.nests_block pushed
    have scopes' := (push_contents missing pushed).2
    have inside := records_list each c₁ c₂ _ node.id _ follows' scopes' unused' owned wellScoped
      ranList
    rw [pop_table popped, inside_contents follows scopes missing pushed inside]
    simp [Stmt.direct, extendAll_nil, Stmt.inner]
  | decl node mutable name type value =>
    intro c c' env top outer follows scopes _ _ wellScoped ran
    simp only [Stmt.WellScoped] at wellScoped
    simp only [stmt] at ran
    have declared := declare_contents (follows.report (c.exprProblems value)) scopes wellScoped.2
      ran
    rw [declared]
    simp [Stmt.direct, Stmt.inner, report]
  | assign | ret =>
    intro c c' env top outer _ _ _ _ _ ran
    simp only [stmt, Except.ok.injEq] at ran
    simp [← ran, Stmt.direct, Stmt.inner, extendAll_nil, report]
  | cond node test yes no yesRecords noRecords =>
    intro c c' env top outer follows scopes unused owned wellScoped ran
    rw [Stmt.nodeIds_cond] at unused
    simp only [Stmt.WellScoped] at wellScoped
    have branches : c.Unused (yes.nodeIds ++ no.nodeIds) :=
      unused.tail.sublist (sublist_append_right ..)
    have follows' := follows.report (c.exprProblems test)
    have unused' := branches.report (c.exprProblems test)
    have unusedYes := unused'.sublist (sublist_append_left ..)
    obtain ⟨c₁, ranYes, checked⟩ := checks Q yes _ env follows' (frames_ne_nil scopes) unusedYes
      fun node ref _ => owned node ref
    simp only [stmt, ranYes, ok_bind] at ran
    have first := yesRecords _ c₁ env top outer follows' scopes unusedYes owned wellScoped.2.1
      ranYes
    have second := noRecords c₁ c' _ top outer checked.follows (checked.scopes.trans scopes)
      (unused'.next checked) owned wellScoped.2.2 ran
    rw [Stmt.direct, Stmt.inner]
    exact contents_trans (follows'.top_unused scopes unusedYes) first second
  | loop node test body bodyRecords =>
    intro c c' env top outer follows scopes unused owned wellScoped ran
    rw [Stmt.nodeIds_loop] at unused
    simp only [Stmt.WellScoped] at wellScoped
    simp only [stmt] at ran
    have inBody : c.Unused body.nodeIds := unused.tail.sublist (sublist_append_right ..)
    rw [Stmt.direct, Stmt.inner]
    exact bodyRecords (c.report (c.exprProblems test)) c' env top outer
      (follows.report (c.exprProblems test)) scopes (inBody.report (c.exprProblems test)) owned
      wellScoped.2 ran

theorem InModule.func_contents (inModule : c.InModule Q id) (unused : c.Unused f.nodeIds)
    (owned : ∀ node ref, Q node ref) (wellScoped : f.WellScoped) (ran : c.func (some f) = .ok c') :
    c'.table.contents = c.table.contents ++ f.skeleton id := by
  obtain ⟨c₁, c₂, pushed, ranBody, popped⟩ := func_eq_ok ran
  have missing := unused.missing f.id mem_cons_self
  obtain ⟨follows', -, unused'⟩ := inModule.follows.pushed unused inModule.nests_function pushed
  have scopes' := (push_contents missing pushed).2
  have inside := records Q f.body c₁ c₂ _ f.id _ follows' scopes' unused' owned wellScoped ranBody
  rw [pop_table popped, inside_contents inModule.follows inModule.scopes missing pushed inside]
  rfl

theorem InModule.funcs_contents (inModule : c.InModule Q id) {fs : List Func}
    (unused : c.Unused (fs.flatMap Func.nodeIds)) (owned : ∀ node ref, Q node ref)
    (wellScoped : ∀ f ∈ fs, f.WellScoped) (ran : c.funcs (fs.map some) = .ok c') :
    c'.table.contents = c.table.contents ++ fs.flatMap (Func.skeleton id) := by
  induction fs generalizing c with
  | nil =>
    cases ran
    simp
  | cons f rest ih =>
    rw [flatMap_cons] at unused ⊢
    have unusedHead := unused.sublist (sublist_append_left ..)
    obtain ⟨c₁, ranHead, checked⟩ := inModule.func unusedHead fun node ref _ => owned node ref
    simp only [map_cons, Checker.funcs, ranHead, ok_bind] at ran
    have head := inModule.func_contents unusedHead owned (wellScoped f mem_cons_self) ranHead
    have tail := ih (inModule.next checked) (unused.next checked)
      (fun f member => wellScoped f (mem_cons_of_mem _ member)) ran
    rw [tail, head, append_assoc]

end Scoping.Checker

end MiddleEnd
