import MiddleEnd.Proofs.Lowering.Code
import MiddleEnd.Proofs.Syntax.Support

/-!
Static types of trees. Only code that control may come to has to be typed.
-/

namespace MiddleEnd

open List

/-- The types of the cells, by the number of the declaration that owns the cell. -/
abbrev CellTypes := NodeId → Ir.Ty

/-- The declaration owns a cell of the type it declares. -/
def Visited.CellTyped (types : CellTypes) : Visited → Prop
  | .stmt (.decl node _ _ type _) => Lowering.storageType? type = some (types node.id)
  | _ => True

namespace Expr

/-- The type of an expression, read off its left-most operands. -/
def type (types : CellTypes) (env : Env) : Expr → Ir.Ty
  | .int _ _ => .i32
  | .bool _ _ => .i1
  | .ident _ name => ((env.find? name).map fun d => types d.node).getD .void
  | .unary _ _ operand => operand.type types env
  | .binary _ op left _ =>
    if (Lowering.comparison? op).isSome then .i1 else left.type types env
  | .absent | .unknown _ _ => .void

/-- Both operands of every binary operator have one type. -/
def Typed (types : CellTypes) (env : Env) : Expr → Prop
  | .int _ _ | .bool _ _ | .ident _ _ => True
  | .unary _ _ operand => operand.Typed types env
  | .binary _ _ left right =>
    left.Typed types env ∧ right.Typed types env ∧ left.type types env = right.type types env
  | .absent | .unknown _ _ => False

theorem cellTyped (types : CellTypes) (e : Expr) : ∀ v ∈ e.nodes, v.CellTyped types := by
  induction e with
  | absent => simp
  | unary node op operand ih =>
    rw [nodes_unary, forall_mem_cons]
    exact ⟨trivial, ih⟩
  | binary node op left right leftIH rightIH =>
    rw [nodes_binary, forall_mem_cons, forall_mem_append]
    exact ⟨trivial, leftIH, rightIH⟩
  | int | bool | ident | unknown => exact forall_mem_singleton.mpr trivial

end Expr

namespace Stmt

mutual
/-- The types in a statement go together, next to the result type of the function around it. What
follows a return is not looked at. -/
def Typed (types : CellTypes) (result : Ir.Ty) (env : Env) : Stmt → Prop
  | .absent | .block _ none => True
  | .block _ (some stmts) => TypedList types result ([] :: env) stmts
  | .decl node _ _ _ value =>
    value.isAbsent ∨ value.Typed types env ∧ types node.id = value.type types env
  | .assign _ target value =>
    value.Typed types env ∧ target.type types env = value.type types env
  | .ret _ value =>
    if value.isAbsent then result = .void
    else value.Typed types env ∧ value.type types env = result ∧ result ≠ .void
  | .cond _ test yes no =>
    test.Typed types env ∧ test.type types env = .i1 ∧ Typed types result env yes ∧
      Typed types result (yes.declare env) no
  | .loop _ test body =>
    test.Typed types env ∧ test.type types env = .i1 ∧ Typed types result env body
  | .unknown _ _ => False
def TypedList (types : CellTypes) (result : Ir.Ty) (env : Env) : List Stmt → Prop
  | [] => True
  | s :: rest =>
    Typed types result env s ∧ (s.closes = false → TypedList types result (s.declare env) rest)
end

/-- The type of the cell that the declaration with this number owns. -/
def cellTypes (s : Stmt) : CellTypes := fun id =>
  match s.nodes.find? fun v => v.id == id with
  | some (.stmt (.decl _ _ _ type _)) => (Lowering.storageType? type).getD .void
  | _ => .void

theorem Supported.cellTyped {s : Stmt} (supported : s.Supported) (nodup : s.nodeIds.Nodup) :
    ∀ v ∈ s.nodes, v.CellTyped s.cellTypes := by
  intro v member
  have found : s.nodes.find? (fun other => other.id == v.id) = some v := by
    obtain ⟨before, behind, split⟩ := append_of_mem member
    rw [nodeIds, split, map_append, map_cons] at nodup
    have notBefore : before.find? (fun other => other.id == v.id) = none := by
      refine List.find?_eq_none.mpr fun other earlier same => ?_
      exact (nodup_append.mp nodup).2.2 other.id (mem_map_of_mem earlier) v.id
        mem_cons_self (eq_of_beq same)
    simp [split, notBefore]
  have here := supported v member
  cases v with
  | stmt s' =>
    cases s' with
    | decl node mutable name type value =>
      have known : type ∈ [Ty.int, Ty.bool] := of_decide_eq_true here
      have same : s.cellTypes node.id = (Lowering.storageType? type).getD .void := by
        have found : s.nodes.find? (fun other => other.id == node.id) =
          some (.stmt (.decl node mutable name type value)) := found
        rw [cellTypes, found]
      rw [Visited.CellTyped, same]
      cases type <;> simp [Lowering.storageType?] at known ⊢
    | _ => trivial
  | _ => trivial

end Stmt

/-- There are types for the cells of the function with which its body is typed. -/
def Func.Typed (f : Func) : Prop :=
  ∃ types result, (∀ v ∈ f.body.nodes, v.CellTyped types) ∧
    Lowering.resultType? f.result = some result ∧ f.body.Typed types result .ofFunction

end MiddleEnd
