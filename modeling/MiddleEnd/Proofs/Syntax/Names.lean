import Mathlib.Data.List.Basic
import MiddleEnd.Proofs.Syntax.Plain
import MiddleEnd.Syntax.Names

/-!
The names of a module, and renaming it.
-/

namespace MiddleEnd

open List

def Visited.name? : Visited → Option Text
  | .func f => some f.name
  | .stmt (.decl _ _ name _ _) => some name
  | .expr (.ident _ name) => some name
  | _ => none

def Visited.mapNames (rename : Text → Text) : Visited → Visited
  | .func f => .func (f.mapNames rename)
  | .stmt s => .stmt (s.mapNames rename)
  | .expr e => .expr (e.mapNames rename)

/-- The name of the module and those of functions, declarations and identifiers. -/
def Module.names (m : Module) : List Text := m.name :: m.nodes.filterMap Visited.name?

section Rename

variable (rename : Text → Text)

theorem Stmt.mapNamesList_eq_map (stmts : List Stmt) :
    mapNamesList rename stmts = stmts.map (mapNames rename) := by
  induction stmts with
  | nil => rw [mapNamesList, map_nil]
  | cons s rest ih => rw [mapNamesList, map_cons, ih]

theorem Visited.name?_mapNames (v : Visited) : (v.mapNames rename).name? = v.name?.map rename := by
  cases v with
  | func f => rfl
  | expr e => cases e <;> rfl
  | stmt s =>
    cases s with
    | block node stmts => cases stmts <;> rw [mapNames, Stmt.mapNames] <;> rfl
    | _ =>
      rw [mapNames, Stmt.mapNames]
      rfl

theorem Expr.nodes_mapNames (e : Expr) :
    (e.mapNames rename).nodes = e.nodes.map (Visited.mapNames rename) := by
  induction e with
  | unary node op operand ih => rw [mapNames, nodes_unary, nodes_unary, ih, map_cons]; rfl
  | binary node op left right leftIH rightIH =>
    rw [mapNames, nodes_binary, nodes_binary, leftIH, rightIH, map_cons, map_append]
    rfl
  | _ => rfl

theorem Stmt.nodesOfList_eq_flatMap (stmts : List Stmt) : nodesOfList stmts = stmts.flatMap nodes := by
  induction stmts with
  | nil => rw [nodesOfList_nil, flatMap_nil]
  | cons s rest ih => rw [nodesOfList_cons, ih, flatMap_cons]

theorem Stmt.nodes_mapNames (s : Stmt) :
    (s.mapNames rename).nodes = s.nodes.map (Visited.mapNames rename) := by
  induction s using Stmt.induction with
  | absent => rw [mapNames, nodes_absent]; rfl
  | bare node => rw [mapNames, nodes_bare, map_singleton, Visited.mapNames, mapNames]
  | block node stmts each =>
    rw [mapNames, nodes_block, nodes_block, map_cons, Visited.mapNames, mapNames,
      mapNamesList_eq_map, nodesOfList_eq_flatMap, nodesOfList_eq_flatMap, flatMap_map, map_flatMap]
    exact congrArg _ (flatMap_congr each)
  | decl node mutable name type value =>
    rw [mapNames, nodes_decl, nodes_decl, map_cons, Visited.mapNames, mapNames, Expr.nodes_mapNames]
  | assign node target value =>
    rw [mapNames, nodes_assign, nodes_assign, map_cons, Visited.mapNames, mapNames,
      Expr.nodes_mapNames, Expr.nodes_mapNames, map_append]
  | ret node value =>
    rw [mapNames, nodes_ret, nodes_ret, map_cons, Visited.mapNames, mapNames, Expr.nodes_mapNames]
  | cond node test yes no yesIH noIH =>
    rw [mapNames, nodes_cond, nodes_cond, map_cons, Visited.mapNames, mapNames,
      Expr.nodes_mapNames, yesIH, noIH, map_append, map_append]
  | loop node test body ih =>
    rw [mapNames, nodes_loop, nodes_loop, map_cons, Visited.mapNames, mapNames,
      Expr.nodes_mapNames, ih, map_append]
  | unknown node kind => rw [mapNames, nodes_unknown, map_singleton, Visited.mapNames, mapNames]

theorem Func.nodes_mapNames (f : Func) :
    (f.mapNames rename).nodes = f.nodes.map (Visited.mapNames rename) := by
  rw [nodes_eq, nodes_eq, map_cons]
  exact congrArg _ (Stmt.nodes_mapNames rename f.body)

theorem Module.entries_mapNames (m : Module) :
    (m.mapNames rename).entries = m.entries.map (Option.map (Func.mapNames rename)) := by
  cases funcs : m.funcs <;> simp [entries, mapNames, funcs]

theorem Module.nodes_mapNames (m : Module) :
    (m.mapNames rename).nodes = m.nodes.map (Visited.mapNames rename) := by
  unfold nodes walk
  rw [entries_mapNames, flatMap_map, map_flatMap]
  apply flatMap_congr
  intro entry _
  cases entry with
  | none => rfl
  | some f => exact Func.nodes_mapNames rename f

theorem Module.names_mapNames (m : Module) : (m.mapNames rename).names = m.names.map rename := by
  rw [names, names, nodes_mapNames, filterMap_map, map_cons, map_filterMap]
  exact congrArg _ (filterMap_congr fun v _ => Visited.name?_mapNames rename v)

end Rename

/-! Names that are left as they are. -/

section Fixed

variable {rename : Text → Text}

theorem map_eq_self {α : Type} {f : α → α} {xs : List α} (fixed : ∀ x ∈ xs, f x = x) :
    xs.map f = xs := by
  rw [map_congr_left fixed, map_id']

/-- Whether the name of a node, if it has one, is left as it is. -/
def Visited.Fixed (rename : Text → Text) (v : Visited) : Prop :=
  ∀ name, v.name? = some name → rename name = name

theorem Expr.mapNames_eq_self {e : Expr} (fixed : ∀ v ∈ e.nodes, v.Fixed rename) :
    e.mapNames rename = e := by
  induction e with
  | ident node name =>
    rw [mapNames, fixed _ (mem_singleton.mpr rfl) name rfl]
  | unary node op operand ih =>
    rw [nodes_unary, forall_mem_cons] at fixed
    rw [mapNames, ih fixed.2]
  | binary node op left right leftIH rightIH =>
    rw [nodes_binary, forall_mem_cons, forall_mem_append] at fixed
    rw [mapNames, leftIH fixed.2.1, rightIH fixed.2.2]
  | _ => rfl

theorem Stmt.mapNames_eq_self {s : Stmt} (fixed : ∀ v ∈ s.nodes, v.Fixed rename) :
    s.mapNames rename = s := by
  induction s using Stmt.induction with
  | absent | bare node | unknown node kind => rw [mapNames]
  | block node stmts each =>
    rw [nodes_block, forall_mem_cons, forall_mem_nodesOfList] at fixed
    rw [mapNames, mapNamesList_eq_map,
      map_eq_self fun s member => each s member (fixed.2 s member)]
  | decl node mutable name type value =>
    rw [nodes_decl, forall_mem_cons] at fixed
    rw [mapNames, fixed.1 name rfl, Expr.mapNames_eq_self fixed.2]
  | assign node target value =>
    rw [nodes_assign, forall_mem_cons, forall_mem_append] at fixed
    rw [mapNames, Expr.mapNames_eq_self fixed.2.1, Expr.mapNames_eq_self fixed.2.2]
  | ret node value =>
    rw [nodes_ret, forall_mem_cons] at fixed
    rw [mapNames, Expr.mapNames_eq_self fixed.2]
  | cond node test yes no yesIH noIH =>
    rw [nodes_cond, forall_mem_cons, forall_mem_append, forall_mem_append] at fixed
    rw [mapNames, Expr.mapNames_eq_self fixed.2.1.1, yesIH fixed.2.1.2, noIH fixed.2.2]
  | loop node test body ih =>
    rw [nodes_loop, forall_mem_cons, forall_mem_append] at fixed
    rw [mapNames, Expr.mapNames_eq_self fixed.2.1, ih fixed.2.2]

theorem Func.mapNames_eq_self {f : Func} (fixed : ∀ v ∈ f.nodes, v.Fixed rename) :
    f.mapNames rename = f := by
  rw [nodes_eq, forall_mem_cons] at fixed
  rw [mapNames, fixed.1 f.name rfl, Stmt.mapNames_eq_self fixed.2]

theorem Module.mapNames_eq_self {m : Module} (fixed : ∀ name ∈ m.names, rename name = name) :
    m.mapNames rename = m := by
  rw [names, forall_mem_cons] at fixed
  have nodes : ∀ v ∈ m.nodes, v.Fixed rename := fun v member name named =>
    fixed.2 name (mem_filterMap.mpr ⟨v, member, named⟩)
  rw [forall_mem_nodes] at nodes
  obtain ⟨id, name, funcs⟩ := m
  cases funcs with
  | none => rw [mapNames, fixed.1]; rfl
  | some entries =>
    have same : ∀ entry ∈ entries, entry.map (Func.mapNames rename) = entry := by
      intro entry member
      cases entry with
      | none => rfl
      | some f => exact congrArg some (Func.mapNames_eq_self (nodes f member))
    simp only [mapNames, fixed.1, Option.map_some, map_eq_self same]

end Fixed

end MiddleEnd
