import MiddleEnd.Syntax.Walk

/-!
Induction over statements, and the numbers of the nodes below a statement in walk order.
-/

namespace MiddleEnd

open List Visited

@[elab_as_elim]
theorem Stmt.induction {motive : Stmt → Prop}
    (absent : motive .absent)
    (bare : ∀ node, motive (.block node none))
    (block : ∀ node stmts, (∀ s ∈ stmts, motive s) → motive (.block node (some stmts)))
    (decl : ∀ node mutable name type value, motive (.decl node mutable name type value))
    (assign : ∀ node target value, motive (.assign node target value))
    (ret : ∀ node value, motive (.ret node value))
    (cond : ∀ node test yes no, motive yes → motive no → motive (.cond node test yes no))
    (loop : ∀ node test body, motive body → motive (.loop node test body))
    (unknown : ∀ node kind, motive (.unknown node kind)) (s : Stmt) : motive s := by
  apply @Stmt.rec motive (fun stmts? => ∀ stmts, stmts? = some stmts → ∀ s ∈ stmts, motive s)
    (fun stmts => ∀ s ∈ stmts, motive s)
  · exact absent
  · intro node stmts? each
    cases stmts? with
    | none => exact bare node
    | some stmts => exact block node stmts (each stmts rfl)
  · exact decl
  · exact assign
  · exact ret
  · exact cond
  · exact loop
  · exact unknown
  · intro stmts equation
    cases equation
  · intro stmts each stmts' equation
    cases equation
    exact each
  · intro s member
    cases member
  · intro head tail headHolds tailHolds s member
    cases member with
    | head => exact headHolds
    | tail _ member => exact tailHolds s member

mutual
/-- Declarations stand in the statement list of a block or as a whole body, never as a branch or
the body of a loop. -/
def Stmt.Braced : Stmt → Prop
  | .block _ (some stmts) => Stmt.BracedList stmts
  | .cond _ _ yes no =>
    yes.isDecl = false ∧ no.isDecl = false ∧ Stmt.Braced yes ∧ Stmt.Braced no
  | .loop _ _ body => body.isDecl = false ∧ Stmt.Braced body
  | _ => True
def Stmt.BracedList : List Stmt → Prop
  | [] => True
  | s :: rest => Stmt.Braced s ∧ Stmt.BracedList rest
end

def Visited.ident? : Visited → Option NodeId
  | .expr (.ident node _) => some node.id
  | _ => none

def Visited.decl? : Visited → Option NodeId
  | .stmt (.decl node _ _ _ _) => some node.id
  | _ => none

theorem Visited.id_of_ident? {v : Visited} (ident : v.ident? = some u) : v.id = u := by
  unfold ident? at ident
  split at ident
  · cases ident
    rfl
  · cases ident

theorem Visited.id_of_decl? {v : Visited} (decl : v.decl? = some d) : v.id = d := by
  unfold decl? at decl
  split at decl
  · cases decl
    rfl
  · cases decl

theorem Visited.filterMap_sublist {pick : Visited → Option NodeId}
    (picked : ∀ v u, pick v = some u → v.id = u) (nodes : List Visited) :
    (nodes.filterMap pick).Sublist (nodes.map id) := by
  induction nodes with
  | nil => exact List.Sublist.slnil
  | cons v rest ih =>
    cases found : pick v with
    | none =>
      rw [filterMap_cons_none found]
      exact ih.cons _
    | some u =>
      rw [filterMap_cons_some found, map_cons, picked v u found]
      exact ih.cons_cons _

namespace Expr

def nodes (e : Expr) : List Visited := e.walk fun _ => true

def nodeIds (e : Expr) : List NodeId := e.nodes.map Visited.id

def identifiers (e : Expr) : List NodeId := e.nodes.filterMap ident?

@[simp] theorem nodes_absent : nodes .absent = [] := rfl

@[simp] theorem nodes_unary (node : Node) (op : UnaryOp) (operand : Expr) :
    nodes (.unary node op operand) = .expr (.unary node op operand) :: operand.nodes := rfl

@[simp] theorem nodes_binary (node : Node) (op : BinaryOp) (left right : Expr) :
    nodes (.binary node op left right) =
      .expr (.binary node op left right) :: (left.nodes ++ right.nodes) := rfl

end Expr

namespace Stmt

def nodes (s : Stmt) : List Visited := s.walk fun _ => true

def nodesOfList (stmts : List Stmt) : List Visited := walkList (fun _ => true) stmts

@[simp] theorem nodes_absent : nodes .absent = [] := rfl

@[simp] theorem nodes_bare (node : Node) :
    nodes (.block node none) = [.stmt (.block node none)] := rfl

@[simp] theorem nodes_block (node : Node) (stmts : List Stmt) :
    nodes (.block node (some stmts)) = .stmt (.block node (some stmts)) :: nodesOfList stmts := rfl

@[simp] theorem nodes_decl (node : Node) (mutable : Bool) (name : Text) (type : Ty) (value : Expr) :
    nodes (.decl node mutable name type value) =
      .stmt (.decl node mutable name type value) :: value.nodes := rfl

@[simp] theorem nodes_assign (node : Node) (target value : Expr) :
    nodes (.assign node target value) =
      .stmt (.assign node target value) :: (target.nodes ++ value.nodes) := rfl

@[simp] theorem nodes_ret (node : Node) (value : Expr) :
    nodes (.ret node value) = .stmt (.ret node value) :: value.nodes := rfl

@[simp] theorem nodes_cond (node : Node) (test : Expr) (yes no : Stmt) :
    nodes (.cond node test yes no) =
      .stmt (.cond node test yes no) :: (test.nodes ++ yes.nodes ++ no.nodes) := rfl

@[simp] theorem nodes_loop (node : Node) (test : Expr) (body : Stmt) :
    nodes (.loop node test body) =
      .stmt (.loop node test body) :: (test.nodes ++ body.nodes) := rfl

@[simp] theorem nodes_unknown (node : Node) (kind : UInt8) :
    nodes (.unknown node kind) = [.stmt (.unknown node kind)] := rfl

@[simp] theorem nodesOfList_nil : nodesOfList [] = [] := rfl

@[simp] theorem nodesOfList_cons (s : Stmt) (rest : List Stmt) :
    nodesOfList (s :: rest) = s.nodes ++ nodesOfList rest := rfl

def nodeIds (s : Stmt) : List NodeId := s.nodes.map Visited.id

def nodeIdsOfList (stmts : List Stmt) : List NodeId := (nodesOfList stmts).map Visited.id

@[simp] theorem nodeIds_block (node : Node) (stmts : List Stmt) :
    nodeIds (.block node (some stmts)) = node.id :: nodeIdsOfList stmts := by
  simp [nodeIds, nodeIdsOfList, Visited.id, Stmt.id]

@[simp] theorem nodeIds_bare (node : Node) : nodeIds (.block node none) = [node.id] := by
  simp [nodeIds, Visited.id, Stmt.id]

@[simp] theorem nodeIds_cond (node : Node) (test : Expr) (yes no : Stmt) :
    nodeIds (.cond node test yes no) =
      node.id :: (test.nodeIds ++ (yes.nodeIds ++ no.nodeIds)) := by
  simp [nodeIds, Expr.nodeIds, Visited.id, Stmt.id]

@[simp] theorem nodeIds_loop (node : Node) (test : Expr) (body : Stmt) :
    nodeIds (.loop node test body) = node.id :: (test.nodeIds ++ body.nodeIds) := by
  simp [nodeIds, Expr.nodeIds, Visited.id, Stmt.id]

@[simp] theorem nodeIdsOfList_nil : nodeIdsOfList [] = [] := by
  simp [nodeIdsOfList]

@[simp] theorem nodeIdsOfList_cons (s : Stmt) (rest : List Stmt) :
    nodeIdsOfList (s :: rest) = s.nodeIds ++ nodeIdsOfList rest := by
  simp [nodeIdsOfList, nodeIds]

def identifiers (s : Stmt) : List NodeId := s.nodes.filterMap Visited.ident?

def identifiersOfList (stmts : List Stmt) : List NodeId :=
  (nodesOfList stmts).filterMap ident?

def declarations (s : Stmt) : List NodeId := s.nodes.filterMap decl?

def declarationsOfList (stmts : List Stmt) : List NodeId :=
  (nodesOfList stmts).filterMap decl?

end Stmt

@[simp] theorem Expr.nodes_decl? (e : Expr) : e.nodes.filterMap decl? = [] := by
  induction e with
  | unary node op operand ih => rw [nodes_unary, filterMap_cons_none rfl, ih]
  | binary node op left right leftIH rightIH =>
    rw [nodes_binary, filterMap_cons_none rfl, filterMap_append, leftIH, rightIH, append_nil]
  | _ => rfl

namespace Stmt

@[simp] theorem declarations_absent : declarations .absent = [] := by
  simp [declarations]

@[simp] theorem declarations_bare (node : Node) : declarations (.block node none) = [] := by
  rw [declarations, nodes_bare]
  rfl

@[simp] theorem declarations_block (node : Node) (stmts : List Stmt) :
    declarations (.block node (some stmts)) = declarationsOfList stmts := by
  rw [declarations, nodes_block, filterMap_cons_none rfl, declarationsOfList]

@[simp] theorem declarations_decl (node : Node) (mutable : Bool) (name : Text) (type : Ty)
    (value : Expr) : declarations (.decl node mutable name type value) = [node.id] := by
  have here : (stmt (.decl node mutable name type value)).decl? = some node.id := rfl
  rw [declarations, nodes_decl, filterMap_cons_some here, Expr.nodes_decl?]

@[simp] theorem declarations_assign (node : Node) (target value : Expr) :
    declarations (.assign node target value) = [] := by
  rw [declarations, nodes_assign, filterMap_cons_none rfl, filterMap_append,
    Expr.nodes_decl?, Expr.nodes_decl?, append_nil]

@[simp] theorem declarations_ret (node : Node) (value : Expr) :
    declarations (.ret node value) = [] := by
  rw [declarations, nodes_ret, filterMap_cons_none rfl, Expr.nodes_decl?]

@[simp] theorem declarations_cond (node : Node) (test : Expr) (yes no : Stmt) :
    declarations (.cond node test yes no) = yes.declarations ++ no.declarations := by
  rw [declarations, nodes_cond, filterMap_cons_none rfl, filterMap_append,
    filterMap_append, Expr.nodes_decl?, nil_append, declarations, declarations]

@[simp] theorem declarations_loop (node : Node) (test : Expr) (body : Stmt) :
    declarations (.loop node test body) = body.declarations := by
  rw [declarations, nodes_loop, filterMap_cons_none rfl, filterMap_append,
    Expr.nodes_decl?, nil_append, declarations]

@[simp] theorem declarations_unknown (node : Node) (kind : UInt8) :
    declarations (.unknown node kind) = [] := by
  rw [declarations, nodes_unknown]
  rfl

@[simp] theorem identifiers_absent : identifiers .absent = [] := by
  simp [identifiers]

@[simp] theorem identifiers_bare (node : Node) : identifiers (.block node none) = [] := by
  rw [identifiers, nodes_bare]
  rfl

@[simp] theorem identifiers_block (node : Node) (stmts : List Stmt) :
    identifiers (.block node (some stmts)) = identifiersOfList stmts := by
  rw [identifiers, nodes_block, filterMap_cons_none rfl, identifiersOfList]

@[simp] theorem identifiers_decl (node : Node) (mutable : Bool) (name : Text) (type : Ty)
    (value : Expr) : identifiers (.decl node mutable name type value) = value.identifiers := by
  rw [identifiers, nodes_decl, filterMap_cons_none rfl, Expr.identifiers]

@[simp] theorem identifiers_assign (node : Node) (target value : Expr) :
    identifiers (.assign node target value) = target.identifiers ++ value.identifiers := by
  rw [identifiers, nodes_assign, filterMap_cons_none rfl, filterMap_append,
    Expr.identifiers, Expr.identifiers]

@[simp] theorem identifiers_ret (node : Node) (value : Expr) :
    identifiers (.ret node value) = value.identifiers := by
  rw [identifiers, nodes_ret, filterMap_cons_none rfl, Expr.identifiers]

@[simp] theorem identifiers_cond (node : Node) (test : Expr) (yes no : Stmt) :
    identifiers (.cond node test yes no) =
      test.identifiers ++ yes.identifiers ++ no.identifiers := by
  rw [identifiers, nodes_cond, filterMap_cons_none rfl, filterMap_append,
    filterMap_append, Expr.identifiers, identifiers, identifiers]

@[simp] theorem identifiers_loop (node : Node) (test : Expr) (body : Stmt) :
    identifiers (.loop node test body) = test.identifiers ++ body.identifiers := by
  rw [identifiers, nodes_loop, filterMap_cons_none rfl, filterMap_append,
    Expr.identifiers, identifiers]

@[simp] theorem identifiers_unknown (node : Node) (kind : UInt8) :
    identifiers (.unknown node kind) = [] := by
  rw [identifiers, nodes_unknown]
  rfl

@[simp] theorem identifiersOfList_nil : identifiersOfList [] = [] := by
  simp [identifiersOfList]

@[simp] theorem identifiersOfList_cons (s : Stmt) (rest : List Stmt) :
    identifiersOfList (s :: rest) = s.identifiers ++ identifiersOfList rest := by
  simp [identifiersOfList, identifiers]

@[simp] theorem declarationsOfList_nil : declarationsOfList [] = [] := by
  simp [declarationsOfList]

@[simp] theorem declarationsOfList_cons (s : Stmt) (rest : List Stmt) :
    declarationsOfList (s :: rest) = s.declarations ++ declarationsOfList rest := by
  simp [declarationsOfList, declarations]

end Stmt

def Func.nodeIds (f : Func) : List NodeId := f.id :: f.body.nodeIds

theorem Stmt.declarations_sublist (s : Stmt) : s.declarations.Sublist s.nodeIds :=
  Visited.filterMap_sublist (fun _ _ => Visited.id_of_decl?) s.nodes

namespace Module

def nodeIds (m : Module) : List NodeId := m.id :: m.nodes.map Visited.id

def identifiers (m : Module) : List NodeId := m.nodes.filterMap ident?

def declarations (m : Module) : List NodeId := m.nodes.filterMap decl?

theorem nodeIds_eq (m : Module) :
    m.nodeIds = m.id :: m.entries.flatMap fun entry => entry.elim [] Func.nodeIds := by
  unfold nodeIds nodes walk
  rw [map_flatMap]
  congr 2
  funext entry
  cases entry <;> rfl

theorem identifiers_eq (m : Module) :
    m.identifiers = m.entries.flatMap fun entry => entry.elim [] fun f => f.body.identifiers := by
  unfold identifiers nodes walk
  rw [filterMap_flatMap]
  congr 1
  funext entry
  cases entry <;> rfl

theorem declarations_eq (m : Module) :
    m.declarations = m.entries.flatMap fun entry => entry.elim [] fun f => f.body.declarations := by
  unfold declarations nodes walk
  rw [filterMap_flatMap]
  congr 1
  funext entry
  cases entry <;> rfl

theorem identifiers_sublist (m : Module) : m.identifiers.Sublist m.nodeIds :=
  (Visited.filterMap_sublist (fun _ _ => Visited.id_of_ident?) m.nodes).cons _

/-- Every node has a number of its own, and none is zero. -/
def Numbered (m : Module) : Prop := m.nodeIds.Nodup ∧ 0 ∉ m.nodeIds

theorem Numbered.nodup_function {m : Module} (numbered : m.Numbered) (member : some f ∈ m.entries) :
    (m.id :: f.nodeIds).Nodup := by
  have nodup := numbered.1
  rw [nodeIds_eq, nodup_cons] at nodup
  refine nodup_cons.mpr ⟨fun here => nodup.1 ?_, ?_⟩
  · exact mem_flatMap.mpr ⟨some f, member, here⟩
  · exact (pairwise_flatMap.mp nodup.2).1 (some f) member

end Module

end MiddleEnd
