import MiddleEnd.Proofs.Scoping.Skeleton

/-!
Which modules the scope check accepts, and what it records of them, both read off the places of
nodes alone.
-/

namespace MiddleEnd

open Scoping List

variable {top p n : Nat}

/-- The kind of the scope that a node opens. -/
def Visited.scopeKind : Visited → ScopeKind
  | .func _ => .function
  | _ => .block

namespace Places

def idAt (nodes : List Visited) (i : Nat) : NodeId := nodes[i]?.elim 0 Visited.id

/-- The number of the scope of a node, `root` for a node that no scope of the function encloses. -/
def parentOf (nodes : List Visited) (root : NodeId) (q : Nat) : NodeId :=
  match (List.range q).find? fun i => decide (ScopeOf nodes i q) with
  | some i => idAt nodes i
  | none => root

def declaredIn? (nodes : List Visited) (q d : Nat) : Option Binding :=
  if ScopeOf nodes q d then declared? nodes d else none

def declarationsOf (nodes : List Visited) (q : Nat) : List Binding :=
  (List.range nodes.length).filterMap (declaredIn? nodes q)

def scopeAt? (nodes : List Visited) (root : NodeId) (q : Nat) : Option ScopeEntry :=
  nodes[q]?.bind fun v =>
    if v.opensScope then
      some ⟨v.id, v.scopeKind, parentOf nodes root q, declarationsOf nodes q⟩
    else none

/-- One entry for each node that opens a scope. -/
def scopeEntries (nodes : List Visited) (root : NodeId) : List ScopeEntry :=
  (List.range nodes.length).filterMap (scopeAt? nodes root)

variable {nodes : List Visited}

theorem parentOf_eq (scope : ScopeOf nodes top q) : parentOf nodes root q = idAt nodes top := by
  unfold parentOf
  split
  · next i found =>
    have here : ScopeOf nodes i q := by simpa using List.find?_some found
    rw [here.unique scope]
  · next missing =>
    have absent := List.find?_eq_none.mp missing top (mem_range.mpr scope.2.1.1)
    simp [scope] at absent

theorem Occurs.length_le (occurs : Occurs nodes p (v :: rest)) :
    p + (rest.length + 1) ≤ nodes.length := by
  obtain ⟨w, -, -, here⟩ := occurs.of_lt (j := p + rest.length) (Nat.le_add_right _ _)
    (by rw [length_cons]; omega)
  have bound := (List.getElem?_eq_some_iff.mp here).1
  omega

theorem filterMap_range'_add {α : Type} (pick : Nat → Option α) (p m n : Nat) :
    (List.range' p (m + n)).filterMap pick =
      (List.range' p m).filterMap pick ++ (List.range' (p + m) n).filterMap pick := by
  rw [← List.range'_append_1, filterMap_append]

theorem filterMap_range'_succ {α : Type} (pick : Nat → Option α) (p n : Nat) :
    (List.range' p (n + 1)).filterMap pick =
      (pick p).toList ++ (List.range' (p + 1) n).filterMap pick := by
  rw [List.range'_succ, filterMap_cons]
  cases pick p <;> rfl

theorem filterMap_range'_none {α : Type} {pick : Nat → Option α}
    (none : ∀ d, p ≤ d → d < p + n → pick d = none) : (List.range' p n).filterMap pick = [] :=
  filterMap_eq_nil_iff.mpr fun d member =>
    none d (mem_range'_1.mp member).1 (mem_range'_1.mp member).2

theorem declarationsOf_eq (whole : extent nodes p = n + 1) (bound : p + (n + 1) ≤ nodes.length) :
    declarationsOf nodes p = (List.range' (p + 1) n).filterMap (declaredIn? nodes p) := by
  have outside : ∀ d, d < p + 1 ∨ p + 1 + n ≤ d → declaredIn? nodes p d = none := by
    intro d apart
    refine if_neg fun scope => ?_
    obtain ⟨behind, before⟩ := scope.2.1
    omega
  obtain ⟨rest, length⟩ : ∃ rest, nodes.length = p + 1 + (n + rest) :=
    ⟨nodes.length - (p + (n + 1)), by omega⟩
  have before : (List.range' 0 (p + 1)).filterMap (declaredIn? nodes p) = [] :=
    filterMap_range'_none fun d _ before => outside d (.inl (by omega))
  have behind : (List.range' (p + 1 + n) rest).filterMap (declaredIn? nodes p) = [] :=
    filterMap_range'_none fun d later _ => outside d (.inr later)
  rw [declarationsOf, length, range_eq_range', filterMap_range'_add, before, nil_append,
    Nat.zero_add, filterMap_range'_add, behind, append_nil]

theorem Occurs.no_declaration (occurs : Occurs nodes p part) (quiet : Quiet part) (q : Nat) :
    (List.range' p part.length).filterMap (declaredIn? nodes q) = [] := by
  refine filterMap_range'_none fun d later before => ?_
  rw [declaredIn?, occurs.undeclared quiet later before, ite_self]

theorem Occurs.no_entry (occurs : Occurs nodes p part) (closed : ∀ v ∈ part, v.opensScope = false)
    (root : NodeId) : (List.range' p part.length).filterMap (scopeAt? nodes root) = [] := by
  refine filterMap_range'_none fun q later before => ?_
  obtain ⟨v, member, -, here⟩ := occurs.of_lt later before
  simp [scopeAt?, here, closed v member]

/-- The places of a statement hold the declarations and the scopes that the tree shows. -/
def Holds (nodes : List Visited) (s : Stmt) : Prop :=
  ∀ (root : NodeId) (p top : Nat) (outer : List Nat), Occurs nodes p s.nodes →
    Region nodes (top :: outer) p s.nodes.length →
    (List.range' p s.nodes.length).filterMap (declaredIn? nodes top) = s.direct ∧
      (List.range' p s.nodes.length).filterMap (scopeAt? nodes root) = s.inner (idAt nodes top)

theorem holds_list (each : ∀ s ∈ stmts, Holds nodes s) (root : NodeId)
    (occurs : Occurs nodes p (Stmt.nodesOfList stmts))
    (region : Region nodes (top :: outer) p (Stmt.nodesOfList stmts).length) :
    (List.range' p (Stmt.nodesOfList stmts).length).filterMap (declaredIn? nodes top) =
        stmts.flatMap Stmt.direct ∧
      (List.range' p (Stmt.nodesOfList stmts).length).filterMap (scopeAt? nodes root) =
        Stmt.innerOfList (idAt nodes top) stmts := by
  induction stmts generalizing p with
  | nil => simp [Stmt.innerOfList]
  | cons s rest ih =>
    rw [Stmt.nodesOfList_cons] at occurs region ⊢
    rw [length_append] at region ⊢
    obtain ⟨direct, inner⟩ := each s (by simp) root p top outer occurs.left
      (region.mono (Nat.le_add_right _ _))
    have behind := region.advance fun _ later before _ =>
      occurs.left.extent_le (contained_stmt s) later before
    obtain ⟨directs, inners⟩ := ih (fun s member => each s (by simp [member])) occurs.right behind
    rw [filterMap_range'_add, filterMap_range'_add, direct, inner, directs, inners,
      flatMap_cons, Stmt.innerOfList]
    exact ⟨rfl, rfl⟩

theorem holds_block (root : NodeId) (here : nodes[p]? = some (.stmt (.block node stmts?)))
    (whole : extent nodes p = n + 1) (bound : p + (n + 1) ≤ nodes.length)
    (region : Region nodes (top :: outer) p (n + 1)) :
    (List.range' p (n + 1)).filterMap (declaredIn? nodes top) = [] ∧
      scopeAt? nodes root p = some ⟨node.id, .block, idAt nodes top,
        (List.range' (p + 1) n).filterMap (declaredIn? nodes p)⟩ := by
  have opens : Opens nodes p := by simp [Opens, here, Visited.opensScope]
  constructor
  · refine filterMap_range'_none fun d later before => ?_
    rcases Nat.eq_or_lt_of_le later with rfl | behind
    · rw [declaredIn?, declared?_eq here]
      exact ite_self _
    · refine if_neg fun scope => ?_
      have further := scope.le_of_encloses opens ⟨behind, by omega⟩
      have earlier := (region.opened top mem_cons_self).1
      omega
  · have scope : ScopeOf nodes top p := region.scopeOf_start (Nat.succ_pos n)
    simp [scopeAt?, here, Visited.opensScope, Visited.scopeKind, Visited.id, Stmt.id,
      parentOf_eq scope, declarationsOf_eq whole bound]

theorem idAt_eq (here : nodes[i]? = some v) : idAt nodes i = v.id := by
  simp [idAt, here]

theorem holds (nodes : List Visited) (s : Stmt) : Holds nodes s := by
  induction s using Stmt.induction with
  | absent =>
    intro root p top outer _ _
    simp [Stmt.direct, Stmt.inner]
  | unknown node kind =>
    intro root p top outer occurs _
    rw [Stmt.nodes_unknown] at occurs ⊢
    have quiet : Quiet [Visited.stmt (.unknown node kind)] :=
      Quiet.cons rfl rfl fun v member => by cases member
    rw [occurs.no_declaration quiet, occurs.no_entry fun v member => (quiet v member).2]
    simp [Stmt.direct, Stmt.inner]
  | bare node =>
    intro root p top outer occurs region
    rw [Stmt.nodes_bare] at occurs region ⊢
    have whole := occurs.extent_whole (by simp [Visited.nodes])
    obtain ⟨undeclared, entry⟩ := holds_block root occurs.head whole occurs.length_le region
    refine ⟨undeclared, ?_⟩
    rw [length_singleton, filterMap_range'_succ, entry]
    simp [Stmt.inner]
  | block node stmts each =>
    intro root p top outer occurs region
    rw [Stmt.nodes_block] at occurs region ⊢
    rw [length_cons] at region ⊢
    have whole := occurs.extent_whole (by simp [Visited.nodes])
    have opens : Opens nodes p := by simp [Opens, occurs.head, Visited.opensScope]
    obtain ⟨undeclared, entry⟩ := holds_block root occurs.head whole occurs.length_le region
    obtain ⟨directs, inners⟩ := holds_list each root occurs.tail (region.enter opens whole)
    refine ⟨undeclared, ?_⟩
    rw [filterMap_range'_succ, entry, directs, inners, idAt_eq occurs.head]
    simp [Stmt.inner, Visited.id, Stmt.id]
  | decl node mutable name type value =>
    intro root p top outer occurs region
    rw [Stmt.nodes_decl] at occurs region ⊢
    have scope : ScopeOf nodes top p := region.scopeOf_start (by simp)
    constructor
    · rw [length_cons, filterMap_range'_succ, occurs.tail.no_declaration (quiet_expr value),
        declaredIn?, if_pos scope, declared?_eq occurs.head]
      rfl
    · refine (occurs.no_entry (fun v member => ?_) root).trans (by simp [Stmt.inner])
      rcases mem_cons.mp member with rfl | inValue
      · rfl
      · exact (quiet_expr value v inValue).2
  | assign node target value =>
    intro root p top outer occurs _
    rw [Stmt.nodes_assign] at occurs ⊢
    have quiet : Quiet (Visited.stmt (.assign node target value) ::
        (target.nodes ++ value.nodes)) :=
      ((quiet_expr target).append (quiet_expr value)).cons rfl rfl
    rw [occurs.no_declaration quiet, occurs.no_entry fun v member => (quiet v member).2]
    simp [Stmt.direct, Stmt.inner]
  | ret node value =>
    intro root p top outer occurs _
    rw [Stmt.nodes_ret] at occurs ⊢
    have quiet : Quiet (Visited.stmt (.ret node value) :: value.nodes) :=
      (quiet_expr value).cons rfl rfl
    rw [occurs.no_declaration quiet, occurs.no_entry fun v member => (quiet v member).2]
    simp [Stmt.direct, Stmt.inner]
  | cond node test yes no yesHolds noHolds =>
    intro root p top outer occurs region
    rw [Stmt.nodes_cond_branches] at occurs region ⊢
    rw [length_append, length_append] at region ⊢
    have quiet : Quiet (Visited.stmt (.cond node test yes no) :: test.nodes) :=
      (quiet_expr test).cons rfl rfl
    have closed := fun v member => (quiet v member).2
    have atYes := region.advance fun _ later before opens =>
      absurd opens (occurs.left.closed closed later before)
    obtain ⟨direct, inner⟩ := yesHolds root _ top outer occurs.right.left
      (atYes.mono (Nat.le_add_right _ _))
    have atNo := atYes.advance fun _ later before _ =>
      occurs.right.left.extent_le (contained_stmt yes) later before
    obtain ⟨direct', inner'⟩ := noHolds root _ top outer occurs.right.right atNo
    rw [filterMap_range'_add, filterMap_range'_add, filterMap_range'_add, filterMap_range'_add,
      occurs.left.no_declaration quiet, occurs.left.no_entry closed, direct, direct', inner, inner']
    simp [Stmt.direct, Stmt.inner]
  | loop node test body bodyHolds =>
    intro root p top outer occurs region
    rw [Stmt.nodes_loop_body] at occurs region ⊢
    rw [length_append] at region ⊢
    have quiet : Quiet (Visited.stmt (.loop node test body) :: test.nodes) :=
      (quiet_expr test).cons rfl rfl
    have closed := fun v member => (quiet v member).2
    have atBody := region.advance fun _ later before opens =>
      absurd opens (occurs.left.closed closed later before)
    obtain ⟨direct, inner⟩ := bodyHolds root _ top outer occurs.right atBody
    rw [filterMap_range'_add, filterMap_range'_add, occurs.left.no_declaration quiet,
      occurs.left.no_entry closed, direct, inner]
    simp [Stmt.direct, Stmt.inner]

theorem scopeEntries_eq (f : Func) (root : NodeId) :
    scopeEntries f.nodes root = f.skeleton root := by
  obtain ⟨direct, inner⟩ := holds f.nodes f.body root 1 0 [] (occurs_function f) (region_function f)
  have length : f.nodes.length = f.body.nodes.length + 1 := by
    rw [f.nodes_eq, length_cons]
  have whole : extent f.nodes 0 = f.body.nodes.length + 1 := length
  have declarations := declarationsOf_eq whole (by omega)
  rw [Nat.zero_add, direct] at declarations
  have entry : scopeAt? f.nodes root 0 = some ⟨f.id, .function, root, f.body.direct⟩ := by
    rw [← declarations]
    rfl
  rw [scopeEntries, length, range_eq_range', filterMap_range'_succ, entry, inner]
  rfl

end Places

/-- The scope of the module and those of its functions. -/
def Module.scopeEntries (m : Module) : List ScopeEntry :=
  ⟨m.id, .module, 0, []⟩ ::
    m.entries.flatMap fun entry => entry.elim [] fun f => Places.scopeEntries f.nodes m.id

/-- Every function keeps the rules of scoping. -/
def Module.LexicallyScoped (m : Module) : Prop :=
  ∀ f, some f ∈ m.entries → Places.LexicallyScoped f.nodes

theorem Module.lexicallyScoped_iff {m : Module} (complete : none ∉ m.entries) :
    m.LexicallyScoped ↔ m.WellScoped := by
  constructor
  · intro rules entry member
    cases entry with
    | none => exact absurd member complete
    | some f => exact ⟨f, rfl, f.lexicallyScoped_iff.mp (rules f member)⟩
  · intro wellScoped f member
    obtain ⟨f', same, bodyScoped⟩ := wellScoped (some f) member
    cases same
    exact f.lexicallyScoped_iff.mpr bodyScoped

namespace Scoping

theorem Table.contents_ofModule (numbered : m.Numbered) (complete : none ∉ m.entries)
    (accepted : Table.ofModule m = .ok t) : t.contents = m.scopeEntries := by
  obtain ⟨fs, all⟩ := (entries_cases m.entries).resolve_left complete
  obtain ⟨c, c', pushed, inModule, -, unused, -, ran, -⟩ :=
    @checks_module (fun _ _ => True) m numbered fs all fun _ _ _ => trivial
  obtain ⟨c₁, c₂, pushed', ran', -, rfl⟩ := Table.ofModule_walk accepted
  cases pushed.symm.trans pushed'
  rw [all] at ran'
  cases ran.symm.trans ran'
  have wellScoped : ∀ f ∈ fs, f.WellScoped := by
    have whole := (Table.ofModule_eq_ok numbered accepted).1
    simpa [Module.WellScoped, all] using whole
  have opened : c.table.contents = [⟨m.id, .module, 0, []⟩] :=
    (Checker.push_contents (c := Checker.start) rfl pushed).1
  rw [inModule.funcs_contents unused (fun _ _ => trivial) wellScoped ran, opened,
    Module.scopeEntries, all]
  simp only [flatMap_map, Option.elim_some, Places.scopeEntries_eq, cons_append, nil_append]

/-- Of the modules with numbers of their own for all nodes and no missing function, exactly the
lexically scoped ones get a table, with one scope for the module, for each function and for each
block. -/
theorem ofModule_accepts_lexicallyScoped {m : Module} (numbered : m.Numbered)
    (complete : none ∉ m.entries) :
    ((∃ t, Table.ofModule m = .ok t) ↔ m.LexicallyScoped) ∧
      ∀ t, Table.ofModule m = .ok t → t.contents = m.scopeEntries ∧ t.Coherent := by
  constructor
  · rw [m.lexicallyScoped_iff complete]
    exact Table.ofModule_isOk_iff numbered
  · intro t accepted
    exact ⟨Table.contents_ofModule numbered complete accepted,
      (Table.ofModule_eq_ok numbered accepted).2⟩

/-- An initial value and an assignment use the outer variable before the inner one is there, and two
declarations stand without a block of their own. -/
def shadowing : Module where
  id := 1
  name := [109]
  funcs := some [
    some {
      id := 2
      name := [102]
      result := .unit
      body := .block ⟨3, []⟩ (some [
        .decl ⟨4, []⟩ true [120] .int (.int ⟨5, []⟩ 1),
        .block ⟨6, []⟩ (some [.decl ⟨7, []⟩ false [120] .int (.ident ⟨8, []⟩ [120])]),
        .cond ⟨9, []⟩ (.bool ⟨10, []⟩ true)
          (.decl ⟨11, []⟩ false [121] .int (.ident ⟨12, []⟩ [120])) .absent,
        .block ⟨13, []⟩ (some [
          .assign ⟨14, []⟩ (.ident ⟨15, []⟩ [120]) (.ident ⟨16, []⟩ [121]),
          .decl ⟨17, []⟩ false [120] .bool .absent])]) },
    some {
      id := 18
      name := [103]
      result := .unit
      body := .decl ⟨19, []⟩ true [120] .int .absent }]

theorem shadowing_numbered : shadowing.Numbered := ⟨by decide, by decide⟩

theorem shadowing_accepted : ∃ t, Table.ofModule shadowing = .ok t :=
  (Table.ofModule_isOk_iff shadowing_numbered).mpr (by decide)

theorem shadowing_table :
    shadowing.Numbered ∧ none ∉ shadowing.entries ∧ shadowing.LexicallyScoped ∧
      ∃ t, Table.ofModule shadowing = .ok t ∧ t.contents =
        [⟨1, .module, 0, []⟩,
          ⟨2, .function, 1, []⟩,
          ⟨3, .block, 2, [⟨[120], true, .int, Ir.noId⟩, ⟨[121], false, .int, Ir.noId⟩]⟩,
          ⟨6, .block, 3, [⟨[120], false, .int, Ir.noId⟩]⟩,
          ⟨13, .block, 3, [⟨[120], false, .bool, Ir.noId⟩]⟩,
          ⟨18, .function, 1, [⟨[120], true, .int, Ir.noId⟩]⟩] := by
  have complete : none ∉ shadowing.entries := by simp [shadowing, Module.entries]
  obtain ⟨t, accepted⟩ := shadowing_accepted
  obtain ⟨accepts, holds⟩ := ofModule_accepts_lexicallyScoped shadowing_numbered complete
  refine ⟨shadowing_numbered, complete, accepts.mp ⟨t, accepted⟩, t, accepted, ?_⟩
  rw [(holds t accepted).1]
  decide +kernel

end Scoping

end MiddleEnd
