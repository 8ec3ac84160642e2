import MiddleEnd.Proofs.Syntax.Places

/-!
The trees that block code has a form for. Only integers and truth values can be stored, every
operator must be a known one, and no operand may be missing.
-/

namespace MiddleEnd

open List

def Visited.isSupported : Visited → Bool
  | .func f => f.result ∈ [.unit, .int, .bool]
  | .stmt (.decl _ _ _ type _) => type ∈ [.int, .bool]
  | .stmt (.assign _ target value) => !target.isAbsent && !value.isAbsent
  | .stmt (.cond _ test _ _) => !test.isAbsent
  | .stmt (.loop _ test _) => !test.isAbsent
  | .stmt (.unknown _ _) => false
  | .stmt _ => true
  | .expr (.unary _ op operand) => op = .not && !operand.isAbsent
  | .expr (.binary _ op left right) => op ∈ BinaryOp.known && !left.isAbsent && !right.isAbsent
  | .expr (.unknown _ _) => false
  | .expr _ => true

/-- Present, and supported down to its leaves. -/
def Expr.Supported (e : Expr) : Prop := e.isAbsent = false ∧ ∀ v ∈ e.nodes, v.isSupported

def Stmt.Supported (s : Stmt) : Prop := ∀ v ∈ s.nodes, v.isSupported

def Func.Supported (f : Func) : Prop := ∀ v ∈ f.nodes, v.isSupported

/-- Every node below the module is supported, wherever it stands. -/
def Module.Supported (m : Module) : Prop := ∀ v ∈ m.nodes, v.isSupported

instance (m : Module) : Decidable m.Supported :=
  inferInstanceAs (Decidable (∀ v ∈ m.nodes, v.isSupported))

namespace Expr

theorem supported_absent : ¬ Supported .absent := fun supported => nomatch supported.1

theorem supported_leaf (present : e.isAbsent = false) (leaf : e.nodes = [.expr e])
    (supported : Visited.isSupported (.expr e)) : e.Supported :=
  ⟨present, by rw [leaf, forall_mem_singleton]; exact supported⟩

theorem supported_unknown (node : Node) (kind : UInt8) : ¬ (unknown node kind).Supported :=
  fun supported => nomatch supported.2 (.expr (unknown node kind)) (mem_singleton.mpr rfl)

theorem supported_unary (node : Node) (op : UnaryOp) (operand : Expr) :
    (unary node op operand).Supported ↔ operand.Supported ∧ op = .not := by
  have here : Visited.isSupported (.expr (unary node op operand)) =
    (decide (op = .not) && !operand.isAbsent) := rfl
  have present : (unary node op operand).isAbsent = false := rfl
  simp only [Supported, nodes_unary, forall_mem_cons, here, present, Bool.and_eq_true,
    decide_eq_true_eq, Bool.not_eq_true', true_and, and_assoc]
  exact and_comm.trans and_assoc

theorem supported_binary (node : Node) (op : BinaryOp) (left right : Expr) :
    (binary node op left right).Supported ↔
      left.Supported ∧ right.Supported ∧ op ∈ BinaryOp.known := by
  have here : Visited.isSupported (.expr (binary node op left right)) =
    (decide (op ∈ BinaryOp.known) && !left.isAbsent && !right.isAbsent) := rfl
  have present : (binary node op left right).isAbsent = false := rfl
  simp only [Supported, nodes_binary, forall_mem_cons, forall_mem_append, here, present,
    Bool.and_eq_true, decide_eq_true_eq, Bool.not_eq_true', true_and]
  constructor
  · rintro ⟨⟨⟨known, l⟩, r⟩, left, right⟩
    exact ⟨⟨l, left⟩, ⟨r, right⟩, known⟩
  · rintro ⟨⟨l, left⟩, ⟨r, right⟩, known⟩
    exact ⟨⟨⟨known, l⟩, r⟩, left, right⟩

end Expr

namespace Stmt

theorem forall_mem_nodesOfList {holds : Visited → Prop} :
    (∀ v ∈ nodesOfList stmts, holds v) ↔ ∀ s ∈ stmts, ∀ v ∈ s.nodes, holds v := by
  induction stmts with
  | nil => simp
  | cons s rest ih =>
    simp only [nodesOfList_cons, forall_mem_append, forall_mem_cons, ih]

theorem supported_block (node : Node) (stmts : List Stmt) :
    (block node (some stmts)).Supported ↔ ∀ v ∈ nodesOfList stmts, v.isSupported := by
  simp only [Supported, nodes_block, forall_mem_cons]
  exact and_iff_right rfl

theorem supported_decl (node : Node) (mutable : Bool) (name : Text) (type : Ty) (value : Expr) :
    (decl node mutable name type value).Supported ↔
      type ∈ [Ty.int, Ty.bool] ∧ (value.isAbsent ∨ value.Supported) := by
  have here : Visited.isSupported (.stmt (decl node mutable name type value)) =
    decide (type ∈ [Ty.int, Ty.bool]) := rfl
  simp only [Supported, nodes_decl, forall_mem_cons, here, decide_eq_true_eq]
  apply and_congr_right'
  cases value with
  | absent => simp [Expr.isAbsent]
  | _ => simp only [Expr.Supported, Expr.isAbsent, true_and, Bool.false_eq_true, false_or]

theorem supported_assign (node : Node) (target value : Expr) :
    (assign node target value).Supported ↔ target.Supported ∧ value.Supported := by
  have here : Visited.isSupported (.stmt (assign node target value)) =
    (!target.isAbsent && !value.isAbsent) := rfl
  simp only [Supported, Expr.Supported, nodes_assign, forall_mem_cons, forall_mem_append,
    here, Bool.and_eq_true, Bool.not_eq_true']
  exact and_and_and_comm

theorem supported_ret (node : Node) (value : Expr) :
    (ret node value).Supported ↔ value.isAbsent ∨ value.Supported := by
  simp only [Supported, nodes_ret, forall_mem_cons]
  apply (and_iff_right rfl).trans
  cases value with
  | absent => simp [Expr.isAbsent]
  | _ => simp only [Expr.Supported, Expr.isAbsent, true_and, Bool.false_eq_true, false_or]

theorem supported_cond (node : Node) (test : Expr) (yes no : Stmt) :
    (cond node test yes no).Supported ↔ test.Supported ∧ yes.Supported ∧ no.Supported := by
  have here : Visited.isSupported (.stmt (cond node test yes no)) = !test.isAbsent := rfl
  simp only [Supported, Expr.Supported, nodes_cond, forall_mem_cons, forall_mem_append,
    here, Bool.not_eq_true', and_assoc]

theorem supported_loop (node : Node) (test : Expr) (body : Stmt) :
    (loop node test body).Supported ↔ test.Supported ∧ body.Supported := by
  have here : Visited.isSupported (.stmt (loop node test body)) = !test.isAbsent := rfl
  simp only [Supported, Expr.Supported, nodes_loop, forall_mem_cons, forall_mem_append,
    here, Bool.not_eq_true', and_assoc]

theorem supported_unknown (node : Node) (kind : UInt8) : ¬ (unknown node kind).Supported := by
  simp only [Supported, nodes_unknown, forall_mem_singleton]
  exact Bool.false_ne_true

end Stmt

theorem Func.supported_iff (f : Func) :
    f.Supported ↔ f.result ∈ [Ty.unit, Ty.int, Ty.bool] ∧ f.body.Supported := by
  have here : Visited.isSupported (.func f) = decide (f.result ∈ [Ty.unit, Ty.int, Ty.bool]) := rfl
  simp only [Supported, Stmt.Supported, nodes_eq, forall_mem_cons, here, decide_eq_true_eq]

theorem Module.forall_mem_nodes {holds : Visited → Prop} (m : Module) :
    (∀ v ∈ m.nodes, holds v) ↔ ∀ f, some f ∈ m.entries → ∀ v ∈ f.nodes, holds v := by
  simp only [nodes, walk, mem_flatMap]
  constructor
  · intro all f member v inside
    exact all v ⟨some f, member, inside⟩
  · rintro all v ⟨entry, member, inside⟩
    cases entry with
    | none => cases inside
    | some f => exact all f member v inside

theorem Module.supported_iff (m : Module) :
    m.Supported ↔ ∀ f, some f ∈ m.entries → f.Supported :=
  m.forall_mem_nodes

end MiddleEnd
